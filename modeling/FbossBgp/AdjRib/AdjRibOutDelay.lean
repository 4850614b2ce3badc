import FbossBgp.AdjRib.AdjRibOutHistories

/-! An AdjRib that holds announcements back by an out-delay, beside one that takes the same announcements and
withdrawals without a delay. -/

namespace FbossBgp.AdjRib

open BgpLib (IPAddress)
open Rib (CIDRNetwork kDefaultPathID)

section

variable {R : Type}

/-- The events of the egress side that concern its routes, one path at a time. -/
inductive RibEvent (R : Type) where
  | announce (checks : EgressChecks R) (now : Nat) (initialDump : Bool) (entry : RibOutAnnouncementEntry R)
  | withdraw (pfx : CIDRNetwork) (nexthop : IPAddress)
  | scheduleOutDelayTimer (now : Nat)
  | programOutDelayTimer (checks : EgressChecks R) (now : Nat)

namespace AdjRibOut

variable [DecidableEq R] (s : AdjRibOut R)

def perform : RibEvent R → AdjRibOut R
  | .announce checks now initialDump entry => s.handleRibAnnouncedEntry checks now initialDump entry
  | .withdraw pfx nexthop => s.withdrawPath pfx nexthop
  | .scheduleOutDelayTimer now => s.scheduleOutDelayTimer now
  | .programOutDelayTimer checks now => s.programOutDelayTimer checks now kMsgBatchSizeToYield

/-- An update for the same path is deferred, or none for the prefix. -/
def SamePath (pfx : CIDRNetwork) (nexthop : IPAddress) : Prop :=
  ∀ deferred ∈ s.deferredUpdates.find pfx, s.session.sendAddPath = true → deferred.attrs.nexthop = nexthop

/-- The policy result found for an announcement has its cache key. -/
def CacheEvent : RibEvent R → Prop
  | .announce checks _ _ entry => s.policy.sameCacheKey entry (checks.cached entry) = true
  | .programOutDelayTimer checks _ =>
    ∀ update ∈ s.deferredUpdates.items, s.policy.sameCacheKey update (checks.cached update) = true
  | .withdraw _ _ | .scheduleOutDelayTimer _ => True

instance (s : AdjRibOut R) (event : RibEvent R) : Decidable (s.CacheEvent event) := by
  cases event <;> dsimp only [CacheEvent] <;> infer_instance

/-- An announcement that is evaluated has a nexthop that can be encoded, and the limit on all paths lets it in. -/
def Accepted (checks : EgressChecks R) (update : RibOutAnnouncementEntry R) : Prop :=
  s.Supported checks update ∧ (checks.willExceedEgressSwitchLimit update = true → update.isLocalRoute = true)

/-- No path of a prefix comes while another one is deferred, no dump of it while it is deferred, and all that
is evaluated, here or without a delay, is accepted. -/
def Undisturbed : RibEvent R → Prop
  | .announce checks _ initialDump entry =>
    s.SamePath entry.pfx entry.attrs.nexthop ∧ (initialDump = true → s.deferredUpdates.find entry.pfx = none) ∧
      (s.session.isAfiNegotiated entry.pfx = true → s.session.canAnnounceEntry entry = true → s.Accepted checks entry)
  | .withdraw pfx nexthop => s.SamePath pfx nexthop
  | .programOutDelayTimer checks _ => ∀ update ∈ s.deferredUpdates.items, s.Accepted checks update
  | .scheduleOutDelayTimer _ => True

instance (s : AdjRibOut R) (event : RibEvent R) : Decidable (s.Undisturbed event) := by
  cases event <;> dsimp only [Undisturbed, SamePath, Accepted] <;> infer_instance

/-- The path ids issued for a prefix and what is advertised under them. -/
abbrev PrefixView (R : Type) := List IPAddress × (Nat → Option (BgpPath R))

def view (pfx : CIDRNetwork) : PrefixView R :=
  (s.pathIdCache.nexthops pfx, fun pathId => s.advertised (pfx, pathId))

def setPath (sendAddPath : Bool) (nexthop : IPAddress) (value : Option (BgpPath R)) (view : PrefixView R) :
    PrefixView R :=
  ((PathIdCache.issue sendAddPath view.1 nexthop).2,
    Function.update view.2 (PathIdCache.issue sendAddPath view.1 nexthop).1 value)

theorem setPath_setPath {sendAddPath : Bool} {nexthop nexthop' : IPAddress}
    (h : sendAddPath = true → nexthop = nexthop') (value value' : Option (BgpPath R)) (view : PrefixView R) :
    setPath sendAddPath nexthop' value' (setPath sendAddPath nexthop value view) =
      setPath sendAddPath nexthop' value' view := by
  have hissue : PathIdCache.issue sendAddPath view.1 nexthop = PathIdCache.issue sendAddPath view.1 nexthop' := by
    cases sendAddPath with
    | false => rfl
    | true => rw [h rfl]
  simp only [setPath, hissue, PathIdCache.issue_issue, Function.update_idem]

variable {pfx : CIDRNetwork} {nexthop : IPAddress} {value : Option (BgpPath R)}

/-- One path of a prefix gets a value, and all other prefixes are as before. -/
theorem Handled.view {P : BgpPathWithAfi R → Prop} {s s' : AdjRibOut R} (h : Handled P pfx nexthop value s s')
    (pfx' : CIDRNetwork) : s'.view pfx' =
      if pfx' = pfx then setPath s.session.sendAddPath nexthop value (s.view pfx) else s.view pfx' := by
  have hnhs : s'.pathIdCache.nexthops pfx' =
      if pfx' = pfx then (PathIdCache.issue s.session.sendAddPath (s.pathIdCache.nexthops pfx) nexthop).2
      else s.pathIdCache.nexthops pfx' := by
    rw [h.pathIdCache, getPathId, PathIdCache.nexthops_getPathId]
  split
  next hpfx =>
    rw [if_pos hpfx] at hnhs
    refine Prod.ext hnhs (funext fun pathId => ?_)
    simp only [setPath, Function.update_apply, h.staged.advertised, keyOf, getPathId, PathIdCache.getPathId_fst, hpfx,
      Prod.mk.injEq, true_and, AdjRibOut.view]
  next hpfx =>
    rw [if_neg hpfx] at hnhs
    refine Prod.ext hnhs (funext fun pathId => ?_)
    show s'.advertised (pfx', pathId) = s.advertised (pfx', pathId)
    rw [h.staged.advertised, if_neg fun hkey => hpfx (congrArg Prod.fst hkey)]

/-- Whatever is staged. -/
abbrev Sets (pfx : CIDRNetwork) (nexthop : IPAddress) (value : Option (BgpPath R)) (s s' : AdjRibOut R) : Prop :=
  Handled (fun _ => True) pfx nexthop value s s'

theorem processRibAnnouncedEntry_sets {s : AdjRibOut R} (h : Layout s) {checks : EgressChecks R}
    {update : RibOutAnnouncementEntry R} (hneg : s.session.isAfiNegotiated update.pfx = true)
    (hcached : s.policy.sameCacheKey update (checks.cached update) = true) (hacc : s.Accepted checks update) :
    Sets update.pfx update.attrs.nexthop (s.verdict update) s (s.processRibAnnouncedEntry checks update) ∧
      SameDeferrals s (s.processRibAnnouncedEntry checks update) := by
  have hrefused : ¬s.Refused checks update := by
    intro hrefused
    obtain ⟨hlimit, hlocal⟩ := Bool.and_eq_true_iff.mp hrefused.2
    rw [hacc.2 hlimit] at hlocal
    cases hlocal
  obtain ⟨hdefs, value, hval, -, hdone⟩ := processRibAnnouncedEntry_handled (P := fun _ => True)
    (fun _ => trivial) h hneg hrefused fun _ _ _ => trivial
  have hverdict : value = s.verdict update := (hval hacc.1).trans (outcome_eq hcached)
  exact ⟨hverdict ▸ hdone, hdefs⟩

theorem withdrawPath_sets {s : AdjRibOut R} (h : Layout s) (pfx : CIDRNetwork) (nexthop : IPAddress) :
    Withdrawn pfx s (s.withdrawPath pfx nexthop) ∧ Sets pfx nexthop none s (s.withdrawPath pfx nexthop) :=
  withdrawPath_handled (fun _ => trivial) h pfx nexthop

/-- What a prefix comes to when its deferred update is processed. -/
def settled (pfx : CIDRNetwork) : PrefixView R :=
  match s.deferredUpdates.find pfx with
  | none => s.view pfx
  | some update => setPath s.session.sendAddPath update.attrs.nexthop (s.verdict update) (s.view pfx)

/-- A new value for the path that is deferred makes up for the deferred update. -/
theorem SamePath.setPath_settled {s : AdjRibOut R} (h : s.SamePath pfx nexthop) (value : Option (BgpPath R)) :
    setPath s.session.sendAddPath nexthop value (s.settled pfx) =
      setPath s.session.sendAddPath nexthop value (s.view pfx) := by
  unfold settled
  split
  · rfl
  next update hupd => exact setPath_setPath (h update hupd) ..

theorem settled_of_none {s : AdjRibOut R} (h : s.deferredUpdates.find pfx = none) : s.settled pfx = s.view pfx := by
  rw [settled, h]

theorem settled_congr {s s' : AdjRibOut R} (hkept : Kept s s')
    (hdef : s'.deferredUpdates.find pfx = s.deferredUpdates.find pfx) (hview : s'.view pfx = s.view pfx) :
    s'.settled pfx = s.settled pfx := by
  unfold settled
  rw [hdef, hview, hkept.session]
  cases s.deferredUpdates.find pfx with
  | none => rfl
  | some update => simp only [verdict, hkept.policy]

def Timed : Prop :=
  ∀ pfx, s.deferredUpdates.find pfx ≠ none → pfx ∈ s.newDeferredPrefixes ∨ ∃ batch ∈ s.outDelayPQ, pfx ∈ batch.2

end AdjRibOut

/-- A run with the out-delay of the session and one without, of the same events. -/
structure DelayRun (R : Type) where
  delayed : AdjRibOut R
  immediate : AdjRibOut R

open AdjRibOut Transition

/-- The run without delay has what the other one comes to once its deferred updates are processed. -/
structure Agrees (r : DelayRun R) : Prop where
  session : r.immediate.session = { r.delayed.session with outDelay := 0 }
  policy : r.immediate.policy = r.delayed.policy
  outDelay : r.delayed.session.outDelay ≠ 0
  layout : Layout r.delayed
  layout' : Layout r.immediate
  noTimers : r.immediate.outDelayPQ = [] ∧ r.immediate.newDeferredPrefixes = []
  timed : r.delayed.Timed
  views : ∀ pfx, r.immediate.view pfx = r.delayed.settled pfx

variable [DecidableEq R]

variable {r : DelayRun R} {checks : EgressChecks R} {entry : RibOutAnnouncementEntry R} {nexthop : IPAddress}
  {s s' t' : AdjRibOut R} {pfx : CIDRNetwork}

theorem Agrees.step (h : Agrees r) {value : Option (BgpPath R)} (hkept : Kept r.delayed s') (hlay : Layout s')
    (htimed : s'.Timed) (hpath : r.delayed.SamePath pfx nexthop) (hsets : Sets pfx nexthop value r.immediate t')
    (htimers : t'.outDelayPQ = [] ∧ t'.newDeferredPrefixes = [])
    (hself : s'.settled pfx = setPath r.delayed.session.sendAddPath nexthop value (r.delayed.view pfx))
    (hother : ∀ pfx', pfx' ≠ pfx → s'.settled pfx' = r.delayed.settled pfx') : Agrees ⟨s', t'⟩ where
  session := by rw [hsets.kept.session, hkept.session, h.session]
  policy := by rw [hsets.kept.policy, hkept.policy, h.policy]
  outDelay := hkept.session ▸ h.outDelay
  layout := hlay
  layout' := hsets.layout
  noTimers := htimers
  timed := htimed
  views pfx' := by
    rw [hsets.view]
    split
    next hpfx =>
      rw [hpfx, hself, ← hpath.setPath_settled, ← h.views, h.session]
    next hpfx => rw [hother pfx' hpfx, h.views]

theorem Agrees.accepted (h : Agrees r) {update : RibOutAnnouncementEntry R}
    (hacc : r.delayed.Accepted checks update) : r.immediate.Accepted checks update := by
  refine ⟨?_, hacc.2⟩
  unfold Supported policyResult
  rw [h.session, h.policy]
  exact hacc.1

/-- Without a delay an announcement takes effect when it arrives. -/
theorem Agrees.immediate_announce (h : Agrees r) (now : Nat) (initialDump : Bool)
    (hcached : r.delayed.policy.sameCacheKey entry (checks.cached entry) = true)
    (hacc : r.delayed.session.canAnnounceEntry entry = true → r.delayed.Accepted checks entry)
    (hneg : r.delayed.session.isAfiNegotiated entry.pfx = true) :
    Sets entry.pfx entry.attrs.nexthop
        (if r.delayed.session.canAnnounceEntry entry then r.delayed.verdict entry else none) r.immediate
        (r.immediate.handleRibAnnouncedEntry checks now initialDump entry) ∧
      (r.immediate.handleRibAnnouncedEntry checks now initialDump entry).outDelayPQ = [] ∧
      (r.immediate.handleRibAnnouncedEntry checks now initialDump entry).newDeferredPrefixes = [] := by
  have hcan : r.immediate.session.canAnnounceEntry entry = r.delayed.session.canAnnounceEntry entry := by
    rw [h.session]
    rfl
  have hhdl := handleRibAnnouncedEntry_handling checks now initialDump r.immediate entry
  generalize r.immediate.handleRibAnnouncedEntry checks now initialDump entry = t' at hhdl
  cases hhdl with
  | ignored hneg' =>
    have hsame : r.immediate.session.isAfiNegotiated entry.pfx = r.delayed.session.isAfiNegotiated entry.pfx := by
      rw [h.session]
      rfl
    rw [hsame, hneg] at hneg'
    cases hneg'
  | withdrawn _ hcan' =>
    obtain ⟨hwd, hsets⟩ := withdrawPath_sets h.layout' entry.pfx entry.attrs.nexthop
    rw [hcan] at hcan'
    rw [if_neg (by simp [hcan']), hwd.outDelayPQ, hwd.newDeferredPrefixes]
    exact ⟨hsets, h.noTimers⟩
  | deferred _ _ _ hdelay =>
    rw [h.session] at hdelay
    exact (hdelay rfl).elim
  | processed hneg' hcan' =>
    rw [hcan] at hcan'
    obtain ⟨hsets, hdefs⟩ := processRibAnnouncedEntry_sets h.layout' hneg'
      (h.policy ▸ hcached) (h.accepted (hacc hcan'))
    have hverdict : r.immediate.verdict entry = r.delayed.verdict entry := by rw [verdict, verdict, h.policy]
    rw [if_pos hcan', hdefs.outDelayPQ, hdefs.newDeferredPrefixes, ← hverdict]
    exact ⟨hsets, h.noTimers⟩

/-- A timer stays until its prefix has no deferred update. -/
theorem AdjRibOut.Timed.of_sub (h : s.Timed)
    (hdef : ∀ pfx, s'.deferredUpdates.find pfx ≠ none → s.deferredUpdates.find pfx ≠ none)
    (hnew : s'.newDeferredPrefixes = s.newDeferredPrefixes) (hqueue : s'.outDelayPQ = s.outDelayPQ) : s'.Timed := by
  intro pfx hpfx
  rw [hnew, hqueue]
  exact h pfx (hdef pfx hpfx)

theorem Agrees.withdraw_step (h : Agrees r)
    (hpath : r.delayed.SamePath pfx nexthop) (hsets' : Sets pfx nexthop none r.immediate t')
    (htimers : t'.outDelayPQ = [] ∧ t'.newDeferredPrefixes = []) :
    Agrees ⟨r.delayed.withdrawPath pfx nexthop, t'⟩ := by
  obtain ⟨hwd, hsets⟩ := withdrawPath_sets h.layout pfx nexthop
  have hdef := hwd.deferredUpdates
  refine h.step hsets.kept hsets.layout ?_ hpath hsets' htimers ?_ fun pfx' hpfx => ?_
  · refine h.timed.of_sub (fun pfx' hpfx' => ?_) hwd.newDeferredPrefixes hwd.outDelayPQ
    rw [hdef] at hpfx'
    split at hpfx'
    · exact (hpfx' rfl).elim
    · exact hpfx'
  · rw [settled_of_none ((hdef pfx).trans (if_pos rfl)), hsets.view, if_pos rfl]
  · exact settled_congr hsets.kept ((hdef pfx').trans (if_neg hpfx)) ((hsets.view pfx').trans (if_neg hpfx))

theorem Agrees.announce (h : Agrees r) (now : Nat) {initialDump : Bool}
    (hcached : r.delayed.policy.sameCacheKey entry (checks.cached entry) = true)
    (hundisturbed : r.delayed.Undisturbed (.announce checks now initialDump entry)) :
    Agrees ⟨r.delayed.handleRibAnnouncedEntry checks now initialDump entry,
      r.immediate.handleRibAnnouncedEntry checks now initialDump entry⟩ := by
  obtain ⟨hpath, hdump, hacc⟩ := hundisturbed
  have himm := fun hneg => h.immediate_announce now initialDump hcached (hacc hneg) hneg
  have hhdl := handleRibAnnouncedEntry_handling checks now initialDump r.delayed entry
  generalize r.delayed.handleRibAnnouncedEntry checks now initialDump entry = s' at hhdl
  cases hhdl with
  | ignored hneg =>
    have hneg' : r.immediate.session.isAfiNegotiated entry.pfx = false := by
      rw [h.session]
      exact hneg
    rw [handleRibAnnouncedEntry, if_pos hneg']
    exact h
  | withdrawn hneg hcan =>
    obtain ⟨hsets', htimers⟩ := himm hneg
    rw [if_neg (by simp [hcan])] at hsets'
    exact h.withdraw_step hpath hsets' htimers
  | deferred hneg hcan hdump' hdelay =>
    obtain ⟨hsets', htimers⟩ := himm hneg
    rw [if_pos hcan] at hsets'
    refine h.step ⟨rfl, rfl, rfl, rfl, rfl⟩ ?_ ?_ hpath hsets' htimers ?_ fun pfx' hpfx => ?_
    · refine ⟨h.layout.issued, h.layout.negotiated, fun update hupd => ?_⟩
      obtain rfl | ⟨hupd, -⟩ := Keyed.mem_put.mp hupd
      · exact ⟨hneg, hcan⟩
      · exact h.layout.deferred update hupd
    · intro pfx' hpfx'
      by_cases hself : pfx' = entry.pfx
      · cases hfind : r.delayed.deferredUpdates.find entry.pfx with
        | none => simp [hself]
        | some update => simpa [hself] using h.timed entry.pfx (by simp [hfind])
      · have hfind : r.delayed.deferredUpdates.find pfx' ≠ none := fun hnone =>
          hpfx' ((Keyed.find_put_of_ne hself).trans hnone)
        refine (h.timed pfx' hfind).imp_left fun hmem => ?_
        split
        · exact hmem
        · exact List.mem_append_left _ hmem
    · have hfind : (r.delayed.deferredUpdates.put entry).find entry.pfx = some entry := Keyed.find_put_self ..
      rw [settled, hfind]
      rfl
    · exact settled_congr ⟨rfl, rfl, rfl, rfl, rfl⟩ (Keyed.find_put_of_ne hpfx) rfl
  | processed hneg hcan hnow =>
    obtain ⟨hsets', htimers⟩ := himm hneg
    rw [if_pos hcan] at hsets'
    obtain ⟨hsets, hdefs⟩ := processRibAnnouncedEntry_sets h.layout hneg hcached (hacc hneg hcan)
    -- nothing is deferred for a prefix that is processed at once
    have hnone : r.delayed.deferredUpdates.find entry.pfx = none := by
      cases initialDump with
      | true => exact hdump rfl
      | false => exact (hnow rfl).resolve_left h.outDelay
    have hdef := hdefs.deferredUpdates
    refine h.step hsets.kept hsets.layout ?_ hpath hsets' htimers ?_ fun pfx' hpfx => ?_
    · exact h.timed.of_sub (fun pfx' hpfx' => hdef ▸ hpfx') hdefs.newDeferredPrefixes hdefs.outDelayPQ
    · rw [settled_of_none (by rw [hdef, hnone]), hsets.view, if_pos rfl]
    · exact settled_congr hsets.kept (by rw [hdef]) ((hsets.view pfx').trans (if_neg hpfx))

/-- Only the run with the delay moves, to a state that settles in the same way. -/
theorem Agrees.delayed_step (h : Agrees r) (hkept : Kept r.delayed s')
    (hlay : Layout s') (htimed : s'.Timed) (hset : ∀ pfx, s'.settled pfx = r.delayed.settled pfx) :
    Agrees ⟨s', r.immediate⟩ where
  session := by rw [hkept.session, h.session]
  policy := by rw [hkept.policy, h.policy]
  outDelay := hkept.session ▸ h.outDelay
  layout := hlay
  layout' := h.layout'
  noTimers := h.noTimers
  timed := htimed
  views pfx := (h.views pfx).trans (hset pfx).symm

theorem Agrees.scheduleOutDelayTimer (h : Agrees r) (now : Nat) :
    Agrees ⟨r.delayed.scheduleOutDelayTimer now, r.immediate.scheduleOutDelayTimer now⟩ := by
  have himm : r.immediate.scheduleOutDelayTimer now = r.immediate := if_pos h.noTimers.2
  rw [himm, AdjRibOut.scheduleOutDelayTimer]
  split
  · exact h
  · refine h.delayed_step ⟨rfl, rfl, rfl, rfl, rfl⟩ ⟨h.layout.issued, h.layout.negotiated, h.layout.deferred⟩
      (fun pfx hpfx => ?_) fun _ => rfl
    obtain hnew | ⟨batch, hbatch, hmem⟩ := h.timed pfx hpfx
    · exact .inr ⟨_, (List.mem_orderedInsert _).mpr (.inl rfl), hnew⟩
    · exact .inr ⟨batch, (List.mem_orderedInsert _).mpr (.inr hbatch), hmem⟩

/-- The deferred updates find policy results of their own keys, and are accepted. -/
def Expirable (checks : EgressChecks R) (s : AdjRibOut R) : Prop :=
  ∀ update ∈ s.deferredUpdates.items,
    s.policy.sameCacheKey update (checks.cached update) = true ∧ s.Accepted checks update

theorem Expirable.of_sub (h : Expirable checks s) (hkept : Kept s s')
    (hsub : ∀ update ∈ s'.deferredUpdates.items, update ∈ s.deferredUpdates.items) : Expirable checks s' := by
  intro update hupd
  unfold Accepted Supported policyResult
  rw [hkept.session, hkept.policy]
  exact h update (hsub update hupd)

theorem Agrees.processDeferred (h : Agrees r) (hexp : Expirable checks r.delayed) (pfx : CIDRNetwork) :
    Agrees ⟨r.delayed.processDeferred checks pfx, r.immediate⟩ ∧ Expirable checks (r.delayed.processDeferred checks pfx) ∧
      (∀ pfx', (r.delayed.processDeferred checks pfx).deferredUpdates.find pfx' =
        if pfx' = pfx then none else r.delayed.deferredUpdates.find pfx') ∧
      (r.delayed.processDeferred checks pfx).outDelayPQ = r.delayed.outDelayPQ ∧
      (r.delayed.processDeferred checks pfx).newDeferredPrefixes = r.delayed.newDeferredPrefixes := by
  unfold AdjRibOut.processDeferred
  split
  next hnone =>
    refine ⟨h, hexp, fun pfx' => ?_, rfl, rfl⟩
    split
    next hpfx => rw [hpfx, hnone]
    · rfl
  next update hupd =>
    obtain ⟨hmem, hpfx⟩ := Keyed.find_eq_some_iff.mp hupd
    obtain ⟨hcached, hacc⟩ := hexp update hmem
    obtain ⟨hsets, hdefs⟩ := processRibAnnouncedEntry_sets h.layout (h.layout.deferred update hmem).1 hcached hacc
    subst hpfx
    let s' : AdjRibOut R := { r.delayed.processRibAnnouncedEntry checks update with
      deferredUpdates := (r.delayed.processRibAnnouncedEntry checks update).deferredUpdates.erase update.pfx }
    have hkept : Kept r.delayed s' := ⟨hsets.kept.1, hsets.kept.2, hsets.kept.3, hsets.kept.4, hsets.kept.5⟩
    have hsub : ∀ u ∈ s'.deferredUpdates.items, u ∈ r.delayed.deferredUpdates.items := by
      intro u hu
      rw [← hdefs.deferredUpdates]
      exact (Keyed.mem_erase.mp hu).1
    have hdef : ∀ pfx', s'.deferredUpdates.find pfx' =
        if pfx' = update.pfx then none else r.delayed.deferredUpdates.find pfx' := by
      intro pfx'
      show (Keyed.erase _ _).find pfx' = _
      rw [hdefs.deferredUpdates]
      split
      next hpfx => rw [hpfx, Keyed.find_erase_self]
      next hpfx => exact Keyed.find_erase_of_ne hpfx
    have hlay : Layout s' := by
      refine ⟨hsets.layout.issued, hsets.layout.negotiated, fun u hu => ?_⟩
      rw [hkept.session]
      exact h.layout.deferred u (hsub u hu)
    refine ⟨h.delayed_step hkept hlay ?_ fun pfx' => ?_, hexp.of_sub hkept hsub, hdef,
      hdefs.outDelayPQ, hdefs.newDeferredPrefixes⟩
    · refine h.timed.of_sub (fun pfx' hpfx' => ?_) hdefs.newDeferredPrefixes hdefs.outDelayPQ
      rw [hdef] at hpfx'
      split at hpfx'
      · exact (hpfx' rfl).elim
      · exact hpfx'
    · have hview : s'.view pfx' = if pfx' = update.pfx then
          setPath r.delayed.session.sendAddPath update.attrs.nexthop (r.delayed.verdict update)
            (r.delayed.view update.pfx) else r.delayed.view pfx' := hsets.view pfx'
      by_cases hpfx : pfx' = update.pfx
      · rw [settled_of_none ((hdef pfx').trans (if_pos hpfx)), hview, if_pos hpfx, settled, hpfx, hupd]
      · exact settled_congr hkept ((hdef pfx').trans (if_neg hpfx)) (hview.trans (if_neg hpfx))

/-- A batch leaves nothing deferred for its prefixes. -/
theorem Agrees.foldl_processDeferred (deferredPrefixes : List CIDRNetwork)
    (h : Agrees r) (hexp : Expirable checks r.delayed) :
    let s' := deferredPrefixes.foldl (AdjRibOut.processDeferred checks) r.delayed
    Agrees ⟨s', r.immediate⟩ ∧ Expirable checks s' ∧ (∀ pfx ∈ deferredPrefixes, s'.deferredUpdates.find pfx = none) ∧
      (∀ pfx, r.delayed.deferredUpdates.find pfx = none → s'.deferredUpdates.find pfx = none) ∧
      s'.outDelayPQ = r.delayed.outDelayPQ := by
  induction deferredPrefixes generalizing r with
  | nil => exact ⟨h, hexp, nofun, fun _ hnone => hnone, rfl⟩
  | cons pfx deferredPrefixes ih =>
    obtain ⟨hagrees, hexp', hdef, hqueue, -⟩ := h.processDeferred hexp pfx
    obtain ⟨hagrees', hexp'', hgone, hstays, hqueue'⟩ := ih hagrees hexp'
    refine ⟨hagrees', hexp'', fun pfx' hpfx' => ?_, fun pfx' hnone => hstays pfx' ?_, hqueue'.trans hqueue⟩
    · obtain rfl | hpfx' := List.mem_cons.mp hpfx'
      · exact hstays pfx' ((hdef pfx').trans (if_pos rfl))
      · exact hgone pfx' hpfx'
    · rw [hdef]
      split
      · rfl
      · exact hnone

theorem Agrees.programOutDelayTimer (now batches : Nat) (h : Agrees r) (hexp : Expirable checks r.delayed) :
    Agrees ⟨r.delayed.programOutDelayTimer checks now batches, r.immediate⟩ := by
  induction batches generalizing r with
  | zero => exact h
  | succ batches ih =>
    rw [AdjRibOut.programOutDelayTimer]
    split
    · exact h
    next expiryTimeStamp deferredPrefixes rest hqueue =>
      split
      · exact h
      · obtain ⟨hagrees, hexp', hgone, -, hqueue'⟩ := h.foldl_processDeferred deferredPrefixes hexp
        refine ih (r := ⟨_, r.immediate⟩) (hagrees.delayed_step ⟨rfl, rfl, rfl, rfl, rfl⟩
          ⟨hagrees.layout.issued, hagrees.layout.negotiated, hagrees.layout.deferred⟩ (fun pfx hpfx => ?_) fun _ => rfl)
          (hexp'.of_sub ⟨rfl, rfl, rfl, rfl, rfl⟩ fun _ hupd => hupd)
        refine (hagrees.timed pfx hpfx).imp_right fun htimed => ?_
        obtain ⟨batch, hbatch, hmem⟩ := htimed
        refine ⟨batch, ?_, hmem⟩
        rw [hqueue', hqueue] at hbatch
        obtain rfl | hbatch := List.mem_cons.mp hbatch
        · exact (hpfx (hgone pfx hmem)).elim
        · exact hbatch

def DelayRun.perform (r : DelayRun R) (event : RibEvent R) : DelayRun R :=
  ⟨r.delayed.perform event, r.immediate.perform event⟩

theorem Agrees.perform (h : Agrees r) {event : RibEvent R} (hcached : r.delayed.CacheEvent event)
    (hundisturbed : r.delayed.Undisturbed event) : Agrees (r.perform event) := by
  cases event with
  | announce checks now initialDump entry => exact h.announce now hcached hundisturbed
  | withdraw pfx nexthop =>
    obtain ⟨hwd, hsets⟩ := withdrawPath_sets h.layout' pfx nexthop
    exact h.withdraw_step hundisturbed hsets
      ⟨hwd.outDelayPQ.trans h.noTimers.1, hwd.newDeferredPrefixes.trans h.noTimers.2⟩
  | scheduleOutDelayTimer now => exact h.scheduleOutDelayTimer now
  | programOutDelayTimer checks now =>
    have himm : r.immediate.programOutDelayTimer checks now kMsgBatchSizeToYield = r.immediate := by
      rw [kMsgBatchSizeToYield, AdjRibOut.programOutDelayTimer, h.noTimers.1]
    have hagrees := h.programOutDelayTimer now kMsgBatchSizeToYield fun update hupd =>
      ⟨hcached update hupd, hundisturbed update hupd⟩
    show Agrees ⟨_, r.immediate.programOutDelayTimer checks now kMsgBatchSizeToYield⟩
    rw [himm]
    exact hagrees

variable (session : EgressSession R) (policy : EgressPolicy R)

/-- A session with an out-delay beside the same session without one. -/
def delaySystem : System (DelayRun R) (RibEvent R) where
  init := ⟨{ session := session, policy := policy }, { session := { session with outDelay := 0 }, policy := policy }⟩
  enabled r event := r.delayed.CacheEvent event
  exec := DelayRun.perform

def undisturbedSystem :
    System (DelayRun R) (RibEvent R) where
  init := (delaySystem session policy).init
  enabled r event := r.delayed.CacheEvent event ∧ r.delayed.Undisturbed event
  exec := DelayRun.perform

theorem agrees_of_reachable {session : EgressSession R} (hdelay : session.outDelay ≠ 0) {policy : EgressPolicy R}
    (h : Reachable (undisturbedSystem session policy) r) : Agrees r := by
  induction h with
  | init =>
    exact ⟨rfl, rfl, hdelay, ⟨fun _ hkey => (hkey rfl).elim, fun _ hkey => (hkey rfl).elim, nofun⟩,
      ⟨fun _ hkey => (hkey rfl).elim, fun _ hkey => (hkey rfl).elim, nofun⟩, ⟨rfl, rfl⟩,
      fun _ hpfx => (hpfx rfl).elim, fun _ => rfl⟩
  | step _ hen ih => exact ih.perform hen.1 hen.2

/-- Once no out-delay timer is left, the RIB-OUT is the one of the run without a delay. -/
theorem advertised_eq_immediate (session : EgressSession R) (hdelay : session.outDelay ≠ 0) (policy : EgressPolicy R)
    (r : DelayRun R) (h : Reachable (undisturbedSystem session policy) r)
    (hexpired : r.delayed.newDeferredPrefixes = [] ∧ r.delayed.outDelayPQ = []) (key : PrefixPathId) :
    r.delayed.advertised key = r.immediate.advertised key := by
  have hagrees := agrees_of_reachable hdelay h
  have hnone : r.delayed.deferredUpdates.find key.1 = none := by
    by_contra hsome
    have htimed := hagrees.timed key.1 hsome
    rw [hexpired.1, hexpired.2] at htimed
    simp at htimed
  have hview := hagrees.views key.1
  rw [settled_of_none hnone] at hview
  exact (congrFun (congrArg Prod.snd hview) key.2).symm

end

/-- An add-path session with an out-delay of five seconds. -/
def delayedSession : EgressSession Unit := { classicSession with sendAddPath := true, outDelay := 5 }

def newlyInstalled (nexthop : IPAddress) : RibOutAnnouncementEntry Unit :=
  { sampleUpdate samplePeerPrefix nexthop with newlyInstalledInLocalRib := true }

/-- A path is announced twice before its timer expires. -/
def onePathEvents : List (RibEvent Unit) :=
  [.announce uncached 0 false (newlyInstalled sampleV4Nexthop), .announce uncached 1 false (newlyInstalled sampleV4Nexthop),
    .scheduleOutDelayTimer 1, .programOutDelayTimer uncached 6]

@[irreducible] def onePathRun : DelayRun Unit :=
  Transition.run (undisturbedSystem delayedSession permitAll) (undisturbedSystem delayedSession permitAll).init onePathEvents

theorem advertised_eq_immediate_onePathRun :
    delayedSession.outDelay ≠ 0 ∧ Transition.Reachable (undisturbedSystem delayedSession permitAll) onePathRun ∧
      (onePathRun.delayed.newDeferredPrefixes = [] ∧ onePathRun.delayed.outDelayPQ = []) ∧
      onePathRun.delayed.advertised (samplePeerPrefix, 0) = onePathRun.immediate.advertised (samplePeerPrefix, 0) := by
  have hadm : Transition.Admits (undisturbedSystem delayedSession permitAll)
      (undisturbedSystem delayedSession permitAll).init onePathEvents := by
    unfold undisturbedSystem
    decide +kernel
  have hreach : Transition.Reachable (undisturbedSystem delayedSession permitAll) onePathRun := by
    unfold onePathRun
    exact Transition.Reachable.init.run hadm
  have hexpired : onePathRun.delayed.newDeferredPrefixes = [] ∧ onePathRun.delayed.outDelayPQ = [] := by
    decide +kernel
  exact ⟨by decide, hreach, hexpired, advertised_eq_immediate delayedSession (by decide) permitAll onePathRun
    hreach hexpired _⟩

/-- Two paths of a prefix are announced before the timer expires. -/
def twoPathEvents : List (RibEvent Unit) :=
  [.announce uncached 0 false (newlyInstalled sampleV4Nexthop),
    .announce uncached 0 false (newlyInstalled (.ofOctets 192 0 2 10)),
    .scheduleOutDelayTimer 0, .programOutDelayTimer uncached 5]

@[irreducible] def twoPathRun : DelayRun Unit :=
  Transition.run (delaySystem delayedSession permitAll) (delaySystem delayedSession permitAll).init twoPathEvents

/-- The second path takes the place of the first among the deferred updates: only one of them is advertised. -/
theorem exists_delayed_path_lost : ∃ r, Transition.Reachable (delaySystem delayedSession permitAll) r ∧
    (r.delayed.newDeferredPrefixes = [] ∧ r.delayed.outDelayPQ = []) ∧
    r.delayed.adjRibOut.items.map AdjRibOutEntry.postAttr = [some ⟨.v4 [192, 0, 2, 10] rfl, ()⟩] ∧
    r.delayed.advertised (samplePeerPrefix, 1) = none ∧
    r.immediate.advertised (samplePeerPrefix, 0) = some ⟨sampleV4Nexthop, ()⟩ ∧
    r.immediate.advertised (samplePeerPrefix, 1) = some ⟨.v4 [192, 0, 2, 10] rfl, ()⟩ := by
  have hadm : Transition.Admits (delaySystem delayedSession permitAll)
      (delaySystem delayedSession permitAll).init twoPathEvents := by
    unfold delaySystem
    decide +kernel
  have hreach : Transition.Reachable (delaySystem delayedSession permitAll) twoPathRun := by
    unfold twoPathRun
    exact Transition.Reachable.init.run hadm
  refine ⟨twoPathRun, hreach, ?_⟩
  decide +kernel

end FbossBgp.AdjRib
