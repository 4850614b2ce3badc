import FbossBgp.AdjRib.AdjRibInSteps

/-! What the RIB has been told by an AdjRib against the routes that the AdjRib holds. The purge of a timer is
pushed by a coroutine of its own, after which time a route may have been announced again: then the late withdrawal
hides it. Otherwise the replayed pushes, with the withdrawals that still wait, are the held routes. For what is left
of a peer's routes once its restart is over, a run is watched: the prefixes announced since the last stop of the
session, the end-of-RIB markers of the current session, and whether anything has happened after which routes of
before the stop must be gone. -/

namespace FbossBgp.AdjRib

open Replay List Transition Finset

variable {A : Type}

namespace AdjRibIn

/-- The AdjRib holds an active or stale entry of the key with these post-policy attributes. -/
def Holds (s : AdjRibIn A) (key : PrefixPathId) (attrs : A) : Prop :=
  ∃ entry : AdjRibInEntry A, ((∃ recAddPath, entry ∈ (s.adjRibInTree recAddPath).items) ∨ entry ∈ s.adjRibInStale.items) ∧
    entry.key = key ∧ entry.postAttr = some attrs

/-- The pushes, with the waiting withdrawals, tell the held routes; what waits is not held. -/
structure Logged (s : AdjRibIn A) : Prop where
  waiting : ∀ key ∈ s.waiting, s.entryOf key = none
  replayed : replay (s.pushed ++ s.waiting.map (·, none)) = s.held

section

variable {gr : Bool} {s s' : AdjRibIn A} {announced : List PrefixPathId}
  {events : List (PrefixPathId × Option A)}

theorem Logged.pushes (h : Logged s) (hp : Pushes gr announced s s' events)
    (hannounced : ∀ key ∈ announced, key ∉ s.waiting) : Logged s' := by
  have hwaiting := hp.kept.waiting
  have hapart : ∀ k ∈ events.map Prod.fst, k ∉ (s.waiting.map fun key => (key, (none : Option A))).map Prod.fst := by
    intro k hk
    refine not_mem_withdrawals fun hwaits => ?_
    by_cases hann : k ∈ announced
    · exact hannounced k hann hwaits
    · exact hp.keys k hk hann (h.waiting k hwaits)
  refine ⟨fun key hkey => ?_, ?_⟩
  · rw [hwaiting] at hkey
    exact hp.missing key (fun hann => hannounced key hann hkey) (h.waiting key hkey)
  · calc replay (s'.pushed ++ s'.waiting.map (·, none))
        = replay (s.pushed ++ events ++ s.waiting.map (·, none)) := by rw [hp.pushed, hwaiting]
      _ = replay (s.pushed ++ s.waiting.map (·, none) ++ events) := replay_append_comm hapart _
      _ = events.foldl apply s.held := by rw [replay_append, h.replayed]
      _ = s'.held := hp.held.symm

theorem Logged.purgeStaleOnTimer (h : Logged s) (hlay : Layout gr s) : Logged s.purgeStaleOnTimer := by
  have htold := told_purgeStaleOnTimer s
  obtain ⟨pending, heq, hpending⟩ := exists_purgeStaleOnTimer_eq s
  rw [heq] at htold ⊢
  refine ⟨fun key hkey => entryOf_clearStale.trans ?_, htold.trans ?_⟩
  · rw [AdjRibIn.waiting, hpending, mem_append] at hkey
    rcases hkey with hwaits | hstale
    · exact (Option.or_eq_none_iff.mp (h.waiting key hwaits)).1
    · exact hlay.active_of_stale (mem_staleKeys.mp hstale)
  · rw [told, h.replayed, ← clearStale_held hlay]
    rfl

theorem Logged.pushStaleWithdrawal (h : Logged s) : Logged s.pushStaleWithdrawal := by
  have htold := (told_pushStaleWithdrawal s).trans h.replayed
  revert htold
  unfold AdjRibIn.pushStaleWithdrawal
  cases hpend : s.pendingRibInPushes with
  | nil => exact fun _ => h
  | cons withdrawal rest =>
    have hwaiting : s.waiting = withdrawal ++ rest.flatten := by rw [AdjRibIn.waiting, hpend, flatten_cons]
    exact fun htold => ⟨fun key hkey => h.waiting key (hwaiting ▸ mem_append_right _ hkey), htold⟩

theorem holds_iff (h : Layout gr s) {key : PrefixPathId} {attrs : A} : s.Holds key attrs ↔ s.held key = some attrs := by
  constructor
  · rintro ⟨entry, ⟨recAddPath, hact⟩ | hstale, rfl, hpost⟩
    · by_cases hsame : recAddPath = s.recAddPath
      · rw [hsame] at hact
        exact (held_of_active (Keyed.find_key hact)).trans hpost
      · rw [Bool.eq_not.mpr hsame, h.other] at hact
        exact absurd hact not_mem_nil
    · have hfind := Keyed.find_key hstale
      exact (held_of_stale (h.active_of_stale (by simp [hfind])) hfind).trans hpost
  · intro hheld
    obtain ⟨entry, hentry, hpost⟩ := Option.bind_eq_some_iff.mp hheld
    rcases Option.or_eq_some_iff.mp hentry with hact | ⟨-, hstale⟩
    · obtain ⟨hmem, hkey⟩ := Keyed.find_eq_some_iff.mp hact
      exact ⟨entry, .inl ⟨s.recAddPath, hmem⟩, hkey, hpost⟩
    · obtain ⟨hmem, hkey⟩ := Keyed.find_eq_some_iff.mp hstale
      exact ⟨entry, .inr hmem, hkey, hpost⟩

end

/-- No prefix is announced while its withdrawal by a timer waits, and with in-place marking a session does not
leave routes behind in the tree of the other add-path capability. -/
def Settled (enableOptimizedGR : Bool) (s : AdjRibIn A) : AdjRibInAction A → Prop
  | .sessionEstablished session => enableOptimizedGR = true → (s.adjRibInTree (!session.recAddPath)).items = []
  | .processPeerUpdate _ update => ∀ key ∈ s.announcedKeys update, key ∉ s.waiting
  | _ => True

instance (s : AdjRibIn A) (action : AdjRibInAction A) : Decidable (s.Enabled action) := by
  cases action <;> dsimp only [Enabled] <;> infer_instance

instance (enableOptimizedGR : Bool) (s : AdjRibIn A) [DecidableEq A] (action : AdjRibInAction A) :
    Decidable (s.Settled enableOptimizedGR action) := by
  cases action <;> dsimp only [Settled] <;> infer_instance

end AdjRibIn

section

variable [DecidableEq A] (enableOptimizedGR : Bool) (policy : IngressPolicy A)

def settledSystem :
    System (AdjRibIn A) (AdjRibInAction A) where
  init := { policy := policy }
  enabled s action := s.Enabled action ∧ s.Settled enableOptimizedGR action
  exec := AdjRibIn.exec enableOptimizedGR

omit [DecidableEq A] in
/-- Announcements are allowed of keys that do not wait. -/
theorem logClosed_logged (gr : Bool) : AdjRibIn.LogClosed gr
    (fun (s : AdjRibIn A) announced => ∀ key ∈ announced, key ∉ s.waiting) AdjRibIn.Logged where
  nil _ _ hkey := absurd hkey not_mem_nil
  pushes h hp hallowed := h.pushes hp hallowed
  same h hpushed hpend hnone hheld := by
    have hwaiting := congrArg List.flatten hpend
    refine ⟨fun key hkey => hnone key (h.waiting key ?_), ?_⟩
    · rw [AdjRibIn.waiting, ← hwaiting]
      exact hkey
    · rw [hpushed, AdjRibIn.waiting, hwaiting, hheld]
      exact h.replayed
  purged h hlay := h.purgeStaleOnTimer hlay
  withdrawalPushed h := h.pushStaleWithdrawal

theorem logged_of_reachable {gr : Bool} {policy : IngressPolicy A} {s : AdjRibIn A}
    (h : Reachable (settledSystem gr policy) s) : s.Timed gr ∧ s.Logged := by
  induction h with
  | init => exact ⟨AdjRibIn.timed_init .., fun _ hkey => absurd hkey not_mem_nil, rfl⟩
  | @step s action _ hen ih =>
    obtain ⟨hen, hset⟩ := hen
    have hother : gr = true → ∀ session, action = .sessionEstablished session →
        s.adjRibInTree (!session.recAddPath) = .empty := by
      rintro hgr session rfl
      exact Keyed.ext (hset hgr)
    refine ⟨ih.1.exec hen hother, (logClosed_logged _).exec ih.2 ih.1 hen hother ?_⟩
    rintro checks update rfl
    exact hset

/-- Without in-place marking a route is active or stale, a stale one has a timer that purges it, and between sessions
no route is active. -/
theorem stale_has_timer {s : AdjRibIn A} (h : Reachable (adjRibInSystem false policy) s) :
    (∀ key, s.getRibEntry key ≠ none → s.adjRibInStale.find key = none) ∧
      (s.adjRibInStale = .empty ∨ s.stalePathTimer = true ∨ s.remoteGrRestartTimer = true) ∧
      (s.isSessionEstablished = false → s.tree = .empty) := by
  have htimed : s.Timed false := by
    induction h with
    | init => exact AdjRibIn.timed_init ..
    | step _ hen ih => exact ih.exec hen (by simp)
  exact ⟨htimed.layout.disjoint, htimed.timers, htimed.idle rfl⟩

/-- In a settled run, what has been pushed about a key that does not wait to be withdrawn is what the AdjRib
holds of it. -/
theorem replay_pushed_iff_holds (s : AdjRibIn A)
    (hreachable : Reachable (settledSystem enableOptimizedGR policy) s) (key : PrefixPathId)
    (hkey : key ∉ s.waiting) (attrs : A) : replay s.pushed key = some attrs ↔ s.Holds key attrs := by
  obtain ⟨htimed, hlogged⟩ := logged_of_reachable hreachable
  have hreplayed : replay s.pushed key = s.held key := by
    rw [← hlogged.replayed, replay_append, foldl_apply_of_not_mem (AdjRibIn.not_mem_withdrawals hkey)]
  rw [hreplayed, AdjRibIn.holds_iff htimed.layout]

end

def samplePeerUpdate : PeerUpdate Nat := { v4Announced := [⟨samplePeerPrefix, none⟩], v4Attrs := 7, mpAttrs := 7 }

/-- A route is learnt, its peer restarts, and the restart timer expires. -/
def restartActions : List (AdjRibInAction Nat) :=
  [.sessionEstablished ⟨true, false, false, 120⟩, .processPeerUpdate unlimited samplePeerUpdate,
    .sessionTerminated true, .remoteGrRestartTimerExpired]

/-- The peer restarts. -/
@[irreducible] def staleState : AdjRibIn Nat :=
  run (adjRibInSystem false acceptAll) (adjRibInSystem false acceptAll).init (restartActions.take 3)

theorem staleState_has_timer : staleState.adjRibInStale ≠ .empty ∧
    (staleState.stalePathTimer = true ∨ staleState.remoteGrRestartTimer = true) ∧ staleState.tree = .empty := by
  have hadm : Admits (adjRibInSystem false acceptAll) (adjRibInSystem false acceptAll).init
      (restartActions.take 3) := by
    unfold adjRibInSystem
    decide +kernel
  have hreach : Reachable (adjRibInSystem false acceptAll) staleState := by
    unfold staleState
    exact Reachable.init.run hadm
  obtain ⟨-, htimer, hidle⟩ := stale_has_timer acceptAll hreach
  have hstale : staleState.adjRibInStale ≠ .empty := by
    intro hempty
    have hitems : staleState.adjRibInStale.items.length = 1 := by decide +kernel
    rw [hempty] at hitems
    cases hitems
  exact ⟨hstale, htimer.resolve_left hstale, hidle (by decide +kernel)⟩

/-- The session comes back and the purge is pushed before the route is announced again. -/
@[irreducible] def relearntState : AdjRibIn Nat :=
  run (settledSystem false acceptAll) (settledSystem false acceptAll).init (restartActions ++
    [.pushStaleWithdrawal, .sessionEstablished ⟨true, false, false, 120⟩, .processPeerUpdate unlimited samplePeerUpdate])

theorem replay_pushed_iff_holds_relearntState :
    Reachable (settledSystem false acceptAll) relearntState ∧ (samplePeerPrefix, 0) ∉ relearntState.waiting ∧
      (replay relearntState.pushed (samplePeerPrefix, 0) = some 7 ↔ relearntState.Holds (samplePeerPrefix, 0) 7) := by
  have hadm : Admits (settledSystem false acceptAll) (settledSystem false acceptAll).init
      (restartActions ++ [.pushStaleWithdrawal, .sessionEstablished ⟨true, false, false, 120⟩,
        .processPeerUpdate unlimited samplePeerUpdate]) := by
    unfold settledSystem
    decide +kernel
  have hreach : Reachable (settledSystem false acceptAll) relearntState := by
    unfold relearntState
    exact Reachable.init.run hadm
  have hkey : (samplePeerPrefix, 0) ∉ relearntState.waiting := by decide +kernel
  exact ⟨hreach, hkey, replay_pushed_iff_holds false acceptAll relearntState hreach _ hkey 7⟩

/-- The purge is pushed after the route has been announced again. -/
@[irreducible] def lateWithdrawalState : AdjRibIn Nat :=
  run (adjRibInSystem false acceptAll) (adjRibInSystem false acceptAll).init (restartActions ++
    [.sessionEstablished ⟨true, false, false, 120⟩, .processPeerUpdate unlimited samplePeerUpdate, .pushStaleWithdrawal])

/-- Nothing waits to be pushed, the AdjRib holds the route, and the RIB does not know it. -/
theorem exists_held_not_replayed : ∃ s, Reachable (adjRibInSystem false acceptAll) s ∧
    s.pendingRibInPushes = [] ∧ s.Holds (samplePeerPrefix, 0) 7 ∧ replay s.pushed (samplePeerPrefix, 0) = none := by
  have hadm : Admits (adjRibInSystem false acceptAll) (adjRibInSystem false acceptAll).init
      (restartActions ++ [.sessionEstablished ⟨true, false, false, 120⟩, .processPeerUpdate unlimited samplePeerUpdate,
        .pushStaleWithdrawal]) := by
    unfold adjRibInSystem
    decide +kernel
  have hreach : Reachable (adjRibInSystem false acceptAll) lateWithdrawalState := by
    unfold lateWithdrawalState
    exact Reachable.init.run hadm
  have hentry : (⟨samplePeerPrefix, 0, 7, some 7, false⟩ : AdjRibInEntry Nat) ∈
      (lateWithdrawalState.adjRibInTree false).items := by
    decide +kernel
  have hpend : lateWithdrawalState.pendingRibInPushes = [] := by decide +kernel
  have hreplayed : replay lateWithdrawalState.pushed (samplePeerPrefix, 0) = none := by decide +kernel
  exact ⟨lateWithdrawalState, hreach, hpend, ⟨_, .inl ⟨false, hentry⟩, rfl, rfl⟩, hreplayed⟩

/-- An AdjRib in a run, with what is observed of the run. -/
structure RestartRun (A : Type) where
  adjRib : AdjRibIn A
  /-- The keys announced since the last stop. -/
  announced : List PrefixPathId := []
  /-- The families and the markers received so far of the current session. -/
  negotiated : Finset BgpUpdateAfi := ∅
  eorReceived : Finset BgpUpdateAfi := ∅
  /-- Since the last stop a timer has expired or all markers have come, or the stop was not graceful. -/
  recovered : Bool := false

namespace RestartRun

variable (r : RestartRun A) (afi : BgpUpdateAfi)

def observe : AdjRibInAction A → RestartRun A
  | .sessionEstablished session => { r with negotiated := session.negotiatedAfis, eorReceived := ∅ }
  | .processPeerUpdate _ update => { r with announced := r.announced ++ r.adjRib.announcedKeys update }
  | .processPeerEoR afi =>
    { r with
      eorReceived := insert afi r.eorReceived
      recovered := r.recovered || decide (r.negotiated ⊆ insert afi r.eorReceived) }
  | .sessionTerminated gracefulRestart => { r with announced := [], recovered := !gracefulRestart }
  | .stalePathTimerExpired | .remoteGrRestartTimerExpired => { r with recovered := true }
  | .pushStaleWithdrawal | .setPolicy _ | .processAdjRibReEvaluationForPolicyChange _ => r

/-- No route of the key is in the AdjRib or, when the scheduled withdrawals are pushed, in the RIB. -/
def Gone (key : PrefixPathId) : Prop :=
  (∀ recAddPath, (r.adjRib.adjRibInTree recAddPath).find key = none) ∧ r.adjRib.adjRibInStale.find key = none ∧
    replay (r.adjRib.pushed ++ r.adjRib.waiting.map (·, none)) key = none

/-- This marker of the family ends the wait for end-of-RIB. -/
def Completes : Prop :=
  afi ∈ r.adjRib.pendingIngressEoRAfis ∧ r.adjRib.pendingIngressEoRAfis.erase afi = ∅

/-- It is the last that is missing of the current session. -/
def LastMissing : Prop :=
  afi ∈ r.negotiated ∧ afi ∉ r.eorReceived ∧ r.negotiated ⊆ insert afi r.eorReceived

end RestartRun

section

variable [DecidableEq A] (policy : IngressPolicy A) (s : AdjRibIn A) {gr : Bool}

def restartSystem (enableOptimizedGR : Bool) (policy : IngressPolicy A) :
    System (RestartRun A) (AdjRibInAction A) where
  init := { adjRib := { policy := policy } }
  enabled r action := r.adjRib.Enabled action
  exec r action := { r.observe action with adjRib := r.adjRib.exec enableOptimizedGR action }

/-- A session starts with at least one family and leaves no marker awaited that is not of its families. -/
def RestartRun.FreshMarkers (r : RestartRun A) : AdjRibInAction A → Prop
  | .sessionEstablished session =>
    r.adjRib.pendingIngressEoRAfis ⊆ session.negotiatedAfis ∧ session.negotiatedAfis ≠ ∅
  | _ => True

instance (r : RestartRun A) (action : AdjRibInAction A) : Decidable (r.FreshMarkers action) := by
  cases action <;> dsimp only [RestartRun.FreshMarkers] <;> infer_instance

/-- The runs without in-place marking in which no marker of an earlier session is awaited. -/
def freshSystem : System (RestartRun A) (AdjRibInAction A) where
  init := { adjRib := { policy := policy } }
  enabled r action := r.adjRib.Enabled action ∧ r.FreshMarkers action
  exec r action := { r.observe action with adjRib := r.adjRib.exec false action }

/-- The RIB knows of no route that the AdjRib does not hold. -/
def AdjRibIn.Told : Prop :=
  ∀ key, replay (s.pushed ++ s.waiting.map (·, none)) key ≠ none → s.held key ≠ none

theorem replay_waiting (events : List (PrefixPathId × Option A)) (key : PrefixPathId) :
    replay (events ++ s.waiting.map (·, none)) key = if key ∈ s.waiting then none else replay events key := by
  rw [replay_append]
  split
  next hkey => exact AdjRibIn.foldl_withdrawals hkey _
  next hkey => exact foldl_apply_of_not_mem (AdjRibIn.not_mem_withdrawals hkey) _

theorem AdjRibIn.Told.pushes {s s' : AdjRibIn A} {announced : List PrefixPathId}
    {events : List (PrefixPathId × Option A)} (h : s.Told) (hp : Pushes gr announced s s' events) :
    s'.Told := by
  intro key hkey
  rw [hp.pushed, hp.kept.waiting, replay_waiting] at hkey
  have hnot : key ∉ s.waiting := fun hwaits => hkey (if_pos hwaits)
  rw [if_neg hnot, replay_append] at hkey
  rw [hp.held]
  by_cases hevent : key ∈ events.map Prod.fst
  · rwa [foldl_apply_of_mem hevent _ s.held] at hkey
  · rw [foldl_apply_of_not_mem hevent] at hkey ⊢
    refine h key ?_
    rwa [replay_waiting, if_neg hnot]

theorem AdjRibIn.Told.purgeStaleOnTimer {s : AdjRibIn A} (h : s.Told)
    (hlay : Layout gr s) : s.purgeStaleOnTimer.Told := by
  intro key hkey
  replace hkey : s.purgeStaleOnTimer.told key ≠ none := hkey
  have hheld : s.purgeStaleOnTimer.held = s.clearStale.held := by
    obtain ⟨pending, heq, -⟩ := exists_purgeStaleOnTimer_eq s
    rw [heq]
    rfl
  rw [hheld, clearStale_held hlay]
  rw [told_purgeStaleOnTimer] at hkey
  have hnot : key ∉ s.staleKeys := fun hstale => hkey (foldl_withdrawals hstale _)
  rw [foldl_apply_of_not_mem (not_mem_withdrawals hnot)] at hkey ⊢
  exact h key hkey

theorem logClosed_told (gr : Bool) : AdjRibIn.LogClosed gr (fun (_ : AdjRibIn A) _ => True) AdjRibIn.Told where
  nil _ := trivial
  pushes h hp _ := h.pushes hp
  same h hpushed hpend _ hheld key hkey := by
    rw [hpushed, AdjRibIn.waiting, hpend] at hkey
    rw [hheld]
    exact h key hkey
  purged h hlay := h.purgeStaleOnTimer hlay
  withdrawalPushed {s} h key hkey := by
    have hheld : s.pushStaleWithdrawal.held = s.held := by
      unfold AdjRibIn.pushStaleWithdrawal
      split <;> rfl
    rw [hheld]
    exact h key fun hnone => hkey ((congrFun (AdjRibIn.told_pushStaleWithdrawal s) key).trans hnone)

/-- Active routes are of prefixes announced since the stop; the markers awaited are those missing of the session;
and once the restart is over no route is stale. -/
structure Recovering (r : RestartRun A) : Prop where
  timed : r.adjRib.Timed false
  told : r.adjRib.Told
  active : ∀ key, key ∉ r.announced → r.adjRib.getRibEntry key = none
  stale : r.recovered = true → r.adjRib.adjRibInStale = .empty
  pending : r.adjRib.isSessionEstablished = true → r.adjRib.pendingIngressEoRAfis = r.negotiated \ r.eorReceived
  complete : r.adjRib.isSessionEstablished = true → r.negotiated ⊆ r.eorReceived → r.recovered = true

variable {r : RestartRun A} {action : AdjRibInAction A}

section

variable (h : Recovering r)
include h

/-- What a step has to show beyond what every step keeps. -/
theorem Recovering.step (hen : r.adjRib.Enabled action)
    (hact : ∀ key, key ∉ (r.observe action).announced → (r.adjRib.exec false action).getRibEntry key = none)
    (hstale : (r.observe action).recovered = true → (r.adjRib.exec false action).adjRibInStale = .empty)
    (hpend : (r.adjRib.exec false action).isSessionEstablished = true →
      (r.adjRib.exec false action).pendingIngressEoRAfis = (r.observe action).negotiated \ (r.observe action).eorReceived)
    (hcomplete : (r.adjRib.exec false action).isSessionEstablished = true →
      (r.observe action).negotiated ⊆ (r.observe action).eorReceived → (r.observe action).recovered = true) :
    Recovering { r.observe action with adjRib := r.adjRib.exec false action } where
  timed := h.timed.exec hen nofun
  told := (logClosed_told false).exec h.told h.timed hen nofun fun _ _ _ => trivial
  active := hact
  stale := hstale
  pending := hpend
  complete := hcomplete

theorem Recovering.pushes
    (hen : r.adjRib.Enabled action) {announced : List PrefixPathId} {events : List (PrefixPathId × Option A)}
    (hp : AdjRibIn.Pushes false announced r.adjRib (r.adjRib.exec false action) events)
    (hobserve : r.observe action = { r with announced := r.announced ++ announced }) :
    Recovering { r.observe action with adjRib := r.adjRib.exec false action } := by
  refine h.step hen (fun key hkey => ?_) (fun hrecovered => ?_) (fun hest => ?_) fun hest hsub => ?_
  · rw [hobserve, List.mem_append, not_or] at hkey
    exact hp.active key hkey.2 (h.active key hkey.1)
  · rw [hobserve] at hrecovered
    exact hp.kept.stale (h.stale hrecovered)
  · obtain ⟨_, _, _, _, heq⟩ := hp.kept.shape
    rw [heq] at hest ⊢
    rw [hobserve]
    exact h.pending hest
  · obtain ⟨_, _, _, _, heq⟩ := hp.kept.shape
    rw [heq] at hest
    rw [hobserve] at hsub ⊢
    exact h.complete hest hsub

theorem Recovering.sessionEstablished {session : Session} (hstop : r.adjRib.isSessionEstablished = false)
    (hfresh : r.adjRib.pendingIngressEoRAfis ⊆ session.negotiatedAfis ∧ session.negotiatedAfis ≠ ∅) :
    Recovering { r.observe (.sessionEstablished session) with
      adjRib := r.adjRib.exec false (.sessionEstablished session) } := by
  refine h.step hstop (fun key hkey => ?_) h.stale (fun _ => ?_) fun _ hsub => ?_
  · exact (AdjRibIn.getRibEntry_sessionEstablished h.timed (h.timed.other_eq_empty hstop _) key).trans (h.active key hkey)
  · show r.adjRib.pendingIngressEoRAfis ∪ session.negotiatedAfis = session.negotiatedAfis \ ∅
    rw [sdiff_empty, union_eq_right.mpr hfresh.1]
  · exact absurd (subset_empty.mp hsub) hfresh.2

theorem Recovering.processPeerEoR {afi : BgpUpdateAfi} (hest : r.adjRib.isSessionEstablished = true) :
    Recovering { r.observe (.processPeerEoR afi) with adjRib := r.adjRib.exec false (.processPeerEoR afi) } := by
  have hpend := h.pending hest
  have herase : (r.negotiated \ r.eorReceived).erase afi = r.negotiated \ insert afi r.eorReceived := by
    rw [sdiff_insert]
  have hnotMarked : ∀ key, (r.adjRib.processPeerEoR afi).getRibEntry key = r.adjRib.getRibEntry key := by
    intro key
    unfold AdjRibIn.processPeerEoR
    simp only
    split <;> rfl
  have hempty : r.adjRib.adjRibInStale = .empty → (r.adjRib.processPeerEoR afi).adjRibInStale = .empty := by
    intro hstale
    unfold AdjRibIn.processPeerEoR
    simp only
    split
    · rfl
    · exact hstale
  refine h.step hest (fun key hkey => (hnotMarked key).trans (h.active key hkey)) (fun hrecovered => ?_)
    (fun _ => ?_) fun _ hsub => ?_
  · rcases Bool.or_eq_true_iff.mp hrecovered with hbef | hall
    · exact hempty (h.stale hbef)
    · have hnone : r.adjRib.pendingIngressEoRAfis.erase afi = ∅ := by
        rw [hpend, herase]
        exact sdiff_eq_empty_iff_subset.mpr (of_decide_eq_true hall)
      by_cases hafi : afi ∈ r.adjRib.pendingIngressEoRAfis
      · show (r.adjRib.processPeerEoR afi).adjRibInStale = .empty
        unfold AdjRibIn.processPeerEoR
        rw [if_pos ⟨hafi, hnone⟩]
        rfl
      · -- Nothing was awaited any more: the restart was over before.
        rw [erase_eq_of_notMem hafi, hpend] at hnone
        exact hempty (h.stale (h.complete hest (sdiff_eq_empty_iff_subset.mp hnone)))
  · show (r.adjRib.processPeerEoR afi).pendingIngressEoRAfis = r.negotiated \ insert afi r.eorReceived
    rw [← herase, ← hpend]
    unfold AdjRibIn.processPeerEoR
    simp only
    split <;> rfl
  · exact Bool.or_eq_true_iff.mpr (.inr (decide_eq_true hsub))

theorem Recovering.sessionTerminated (gracefulRestart : Bool) (hest : r.adjRib.isSessionEstablished = true) :
    Recovering { r.observe (.sessionTerminated gracefulRestart) with
      adjRib := r.adjRib.exec false (.sessionTerminated gracefulRestart) } := by
  have hstop : (r.adjRib.sessionTerminated false gracefulRestart).isSessionEstablished = false := by
    unfold AdjRibIn.sessionTerminated
    split <;> rfl
  refine h.step hest (fun key _ => ?_) (fun hrecovered => ?_) (fun hnow => ?_) fun hnow _ => ?_
  · have htree := (h.timed.sessionTerminated hest gracefulRestart).idle rfl hstop
    show (r.adjRib.sessionTerminated false gracefulRestart).tree.find key = none
    rw [htree, Keyed.find_empty]
  · have hungraceful : gracefulRestart = false := by simpa [RestartRun.observe] using hrecovered
    subst hungraceful
    rfl
  · exact absurd (hstop.symm.trans hnow) Bool.false_ne_true
  · exact absurd (hstop.symm.trans hnow) Bool.false_ne_true

theorem Recovering.purged (hen : r.adjRib.Enabled action) (hobserve : r.observe action = { r with recovered := true })
    (hexec : ∃ pending stale restart, r.adjRib.exec false action = { r.adjRib.clearStale with
      pendingRibInPushes := pending, stalePathTimer := stale, remoteGrRestartTimer := restart }) :
    Recovering { r.observe action with adjRib := r.adjRib.exec false action } := by
  obtain ⟨_, _, _, hexec⟩ := hexec
  apply h.step hen <;> rw [hexec, hobserve]
  · exact h.active
  · exact fun _ => rfl
  · exact h.pending
  · exact fun _ _ => rfl

theorem Recovering.exec (hen : r.adjRib.Enabled action) (hfresh : r.FreshMarkers action) :
    Recovering { r.observe action with adjRib := r.adjRib.exec false action } := by
  obtain ⟨_, hpurged, -⟩ := AdjRibIn.exists_purgeStaleOnTimer_eq r.adjRib
  cases action with
  | sessionEstablished session => exact h.sessionEstablished hen hfresh
  | processPeerUpdate checks update =>
    obtain ⟨events, hpushes⟩ := AdjRibIn.processPeerUpdate_pushes h.timed.layout checks update
    exact h.pushes hen hpushes rfl
  | processPeerEoR afi => exact h.processPeerEoR hen
  | sessionTerminated gracefulRestart => exact h.sessionTerminated gracefulRestart hen
  | stalePathTimerExpired =>
    exact h.purged hen rfl ⟨_, _, _, congrArg (fun s => { s with stalePathTimer := false }) hpurged⟩
  | remoteGrRestartTimerExpired =>
    exact h.purged hen rfl ⟨_, _, _, congrArg (fun s => { s with remoteGrRestartTimer := false }) hpurged⟩
  | pushStaleWithdrawal =>
    have hexec : ∃ pushed pending, r.adjRib.pushStaleWithdrawal =
        { r.adjRib with pushed := pushed, pendingRibInPushes := pending } := by
      unfold AdjRibIn.pushStaleWithdrawal
      split <;> exact ⟨_, _, rfl⟩
    obtain ⟨_, _, hexec⟩ := hexec
    apply h.step hen <;> rw [AdjRibIn.exec, hexec]
    exacts [h.active, h.stale, h.pending, h.complete]
  | setPolicy policy => exact h.step hen h.active h.stale h.pending h.complete
  | processAdjRibReEvaluationForPolicyChange checks =>
    obtain ⟨events, hpushes⟩ := AdjRibIn.processAdjRibReEvaluationForPolicyChange_pushes h.timed.layout checks
    refine h.pushes hen hpushes ?_
    rw [List.append_nil]
    rfl

end

theorem recovering_of_reachable {policy : IngressPolicy A} (h : Reachable (freshSystem policy) r) : Recovering r := by
  induction h with
  | init => exact ⟨AdjRibIn.timed_init .., fun _ hkey => absurd rfl hkey, fun _ _ => rfl, fun _ => rfl, nofun, nofun⟩
  | step _ hen ih => exact ih.exec hen.1 hen.2

/-- Without in-place marking, and if no marker of an earlier session is awaited: once the restart is over, routes
not announced since the stop are gone, and the wait for end-of-RIB ends with the last marker of the session. -/
theorem gone_of_recovered (r : RestartRun A) (hreachable : Reachable (freshSystem policy) r) :
    (r.recovered = true → ∀ key, key ∉ r.announced → r.Gone key) ∧
      (r.adjRib.isSessionEstablished = true → ∀ afi, r.Completes afi ↔ r.LastMissing afi) := by
  have h := recovering_of_reachable hreachable
  refine ⟨fun hrecovered key hkey => ?_, fun hest afi => ?_⟩
  · have hact := h.active key hkey
    have hstale : r.adjRib.adjRibInStale.find key = none := by rw [h.stale hrecovered, Keyed.find_empty]
    have hheld : r.adjRib.held key = none := by
      rw [AdjRibIn.held, AdjRibIn.entryOf_of_stale_none hstale, hact, Option.bind_none]
    refine ⟨fun recAddPath => ?_, hstale, ?_⟩
    · by_cases hsame : recAddPath = r.adjRib.recAddPath
      · rw [hsame]
        exact hact
      · rw [Bool.eq_not.mpr hsame, h.timed.layout.other, Keyed.find_empty]
    · by_contra hknown
      exact h.told key hknown hheld
  · unfold RestartRun.Completes RestartRun.LastMissing
    rw [h.pending hest, ← sdiff_insert, sdiff_eq_empty_iff_subset, mem_sdiff, and_assoc]

end

/-- A route is learnt in a session of the families; the peer restarts, does not announce it again, and sends
end-of-RIB for IPv4 in a session of that family alone. -/
def silentRestart (isAfiIpv6Negotiated : Bool) : List (AdjRibInAction Nat) :=
  [.sessionEstablished ⟨true, isAfiIpv6Negotiated, false, 120⟩, .processPeerUpdate unlimited samplePeerUpdate,
    .sessionTerminated true, .sessionEstablished ⟨true, false, false, 120⟩, .processPeerEoR .AFI_IPv4]

@[irreducible] def recoveredRun : RestartRun Nat :=
  run (freshSystem acceptAll) (freshSystem acceptAll).init (silentRestart false)

theorem gone_of_recovered_recoveredRun : Reachable (freshSystem acceptAll) recoveredRun ∧
    recoveredRun.recovered = true ∧ (samplePeerPrefix, 0) ∉ recoveredRun.announced ∧
    recoveredRun.Gone (samplePeerPrefix, 0) := by
  have hadm : Admits (freshSystem acceptAll) (freshSystem acceptAll).init (silentRestart false) := by
    unfold freshSystem
    decide +kernel
  have hreach : Reachable (freshSystem acceptAll) recoveredRun := by
    unfold recoveredRun
    exact Reachable.init.run hadm
  have hrecovered : recoveredRun.recovered = true := by decide +kernel
  have hkey : (samplePeerPrefix, 0) ∉ recoveredRun.announced := by decide +kernel
  exact ⟨hreach, hrecovered, hkey, (gone_of_recovered acceptAll recoveredRun hreach).1 hrecovered _ hkey⟩

instance (enableOptimizedGR : Bool) (r : RestartRun Nat) (action : AdjRibInAction Nat) :
    Decidable ((restartSystem enableOptimizedGR acceptAll).enabled r action) :=
  inferInstanceAs (Decidable (r.adjRib.Enabled action))

/-- With in-place marking, the session stops and the peer is not helped. -/
@[irreducible] def unpurgedRun : RestartRun Nat :=
  run (restartSystem true acceptAll) (restartSystem true acceptAll).init
    [.sessionEstablished ⟨true, false, false, 120⟩, .processPeerUpdate unlimited samplePeerUpdate, .sessionTerminated false]

/-- Without it, a marker of the first session is still awaited in the second, which does not have its family. -/
@[irreducible] def leftoverRun : RestartRun Nat :=
  run (restartSystem false acceptAll) (restartSystem false acceptAll).init (silentRestart true)

/-- In both the restart is over and the route that was not announced again is still there. -/
theorem exists_recovered_not_gone : (∃ r, Reachable (restartSystem true acceptAll) r ∧ r.recovered = true ∧
      (samplePeerPrefix, 0) ∉ r.announced ∧ ¬r.Gone (samplePeerPrefix, 0)) ∧
    ∃ r, Reachable (restartSystem false acceptAll) r ∧ r.recovered = true ∧
      (samplePeerPrefix, 0) ∉ r.announced ∧ ¬r.Gone (samplePeerPrefix, 0) := by
  have hunpurged : Reachable (restartSystem true acceptAll) unpurgedRun := by
    unfold unpurgedRun
    exact Reachable.init.run (by decide +kernel)
  have hleftover : Reachable (restartSystem false acceptAll) leftoverRun := by
    unfold leftoverRun
    exact Reachable.init.run (by decide +kernel)
  have hact : (unpurgedRun.adjRib.adjRibInTree false).find (samplePeerPrefix, 0) ≠ none := by decide +kernel
  have hstale : leftoverRun.adjRib.adjRibInStale.find (samplePeerPrefix, 0) ≠ none := by decide +kernel
  refine ⟨⟨unpurgedRun, hunpurged, ?_, ?_, fun hgone => hact (hgone.1 false)⟩, leftoverRun, hleftover, ?_, ?_,
    fun hgone => hstale hgone.2.1⟩
  all_goals decide +kernel

end FbossBgp.AdjRib
