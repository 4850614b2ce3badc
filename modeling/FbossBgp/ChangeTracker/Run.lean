import FbossBgp.ChangeTracker.Iterate
import FbossBgp.ChangeTracker.Publish
import FbossBgp.ChangeTracker.Reposition
import FbossBgp.ChangeTracker.Registration
import FbossBgp.Lib.Transition

/-! Runs of the tracker under its polled-mode operations. A session records, beside the tracker, which
consumers were retired as the target of `attachToMarkerBehind` (or by a reset) and have neither been
deregistered nor given a new position since. The shape of the state holds in every run; that every bit
belongs to a consumer at or before its item needs that nothing is published to a retired consumer. -/

namespace FbossBgp.ChangeTracker

open ListCursor Transition BitmapUtils

variable {C O I : Type*} [DecidableEq C] [DecidableEq O] [DecidableEq I]

/-- The operations between which the tracker is at rest. `rehash` stands for the ready set, a hash set,
being walked in another order. -/
inductive Operation (C O I : Type*) where
  | register (c : C)
  | deregister (c : C)
  | publish (address : I) (trackableObject : Option O) (bitmap : ConsumerBitmap)
  | iterate (c : C) (untilMarker : Option I) (callback : I → ProcessResult)
  | join (existingConsumer newConsumer : C)
  | attachAhead (sourceConsumer targetConsumer : Option C)
  | attachBehind (sourceConsumer targetConsumer : Option C)
  | reset (c : C)
  | rehash (order : List C)

variable (s : ChangeTracker C O I)

/-- An operation that throws leaves the state as it was. -/
def perform : Operation C O I → ChangeTracker C O I
  | .register c => match s.registerWithTracker c with
    | .ok s' => s'
    | .error _ => s
  | .deregister c => s.deregisterFromTracker c
  | .publish address o bitmap => s.publishChange address o bitmap
  | .iterate c untilMarker callback => (s.iterateChangesUntilExcluding c untilMarker callback).1
  | .join existing new => match s.joinConsumer existing new with
    | .ok s' => s'
    | .error _ => s
  | .attachAhead source target => s.attachToMarkerAhead source target
  | .attachBehind source target => s.attachToMarkerBehind source target
  | .reset c => s.consumerResetChangeList c
  | .rehash order => { s with readyConsumers := order }

/-- What callers and the allocator owe: a new item gets an address that is not in use, only bits of
registered consumers are published, and the target of `attachToMarkerBehind` is at or behind the source. -/
def Admissible : Operation C O I → Prop
  | .publish address o bitmap => (o.any s.isOnChangeList = true ∨ s.items address = none) ∧
      ∀ p, isBitSet bitmap p = true → isBitSet s.getFullConsumerBitmap p = true
  | .attachBehind (some source) (some target) => AtOrBehind s target source
  | .rehash order => order.Perm s.readyConsumers
  | _ => True

structure Session (C O I : Type*) where
  tracker : ChangeTracker C O I
  retired : Set C

namespace Session

def retiredAfter (x : Session C O I) : Operation C O I → Set C
  | .deregister c => x.retired \ {c}
  | .join existing new => if x.tracker.marker existing = none then x.retired else x.retired \ {new}
  | .attachAhead (some source) (some _) => x.retired \ {source}
  | .attachBehind (some source) (some target) =>
    if x.tracker.bitPosition source = kInvalidBitPosition then x.retired
    else if x.tracker.marker target = none then x.retired \ {source}
    else insert target (x.retired \ {source})
  | .reset c => if x.tracker.marker c = none then x.retired else insert c x.retired
  | _ => x.retired

def perform (x : Session C O I) (op : Operation C O I) : Session C O I :=
  ⟨x.tracker.perform op, x.retiredAfter op⟩

end Session

/-- All runs in which callers keep to `Admissible`. -/
def sessions (C O I : Type*) [DecidableEq C] [DecidableEq O] [DecidableEq I] :
    System (Session C O I) (Operation C O I) where
  init := ⟨empty, ∅⟩
  enabled := fun x op => Admissible x.tracker op
  exec := Session.perform

def SparesRetired (x : Session C O I) : Operation C O I → Prop
  | .publish _ _ bitmap => ∀ c ∈ x.retired, isBitSet bitmap (x.tracker.bitPosition c) = false
  | _ => True

/-- The runs in which, moreover, nothing is published to a retired consumer. -/
def sparingSessions (C O I : Type*) [DecidableEq C] [DecidableEq O] [DecidableEq I] :
    System (Session C O I) (Operation C O I) where
  init := ⟨empty, ∅⟩
  enabled := fun x op => Admissible x.tracker op ∧ SparesRetired x op
  exec := Session.perform

/-- The shape of every reachable state. A consumer is idle when it is not registered or retired. -/
structure Inv (x : Session C O I) : Prop where
  consistent : Consistent ∅ x.tracker
  registered : Registered x.tracker
  idle : ∀ c, Idle x.tracker c ↔ x.tracker.bitPosition c = kInvalidBitPosition ∨ c ∈ x.retired
  retired : ∀ c ∈ x.retired, x.tracker.bitPosition c ≠ kInvalidBitPosition

/-- Every bit on an item is the bit of a registered consumer whose marker is at or before the item. -/
def Tracked : Prop :=
  ∀ i p, isBitSet (s.consumerBitmap i) p = true → ∃ c, s.bitPosition c = p ∧ p ≠ kInvalidBitPosition ∧ Tracks s c i

section

variable {s s' : ChangeTracker C O I} {R R' : Set C} {c : C}

theorem consistent_empty : Consistent ∅ (empty : ChangeTracker C O I) := by
  refine ⟨⟨List.nodup_nil, fun i => ?_, fun i o => ?_⟩, ?_, fun i hi => absurd hi List.not_mem_nil⟩
  · simp [empty, trackableObject]
  · simp [empty, trackableObject]
  · refine ⟨fun i => List.nodup_nil, fun i c => ?_, fun c _ => rfl, List.nodup_nil, fun c => ?_, fun c _ => rfl,
      fun c _ => rfl, fun c _ => rfl⟩
    · simp [empty, pendingConsumers, hook]
    · simp [empty, isInReadyList]

theorem inv_empty : Inv (⟨empty, ∅⟩ : Session C O I) :=
  ⟨consistent_empty, registered_empty, fun _ => iff_of_true ⟨rfl, rfl, rfl⟩ (Or.inl rfl),
    fun _ hc => absurd hc (Set.notMem_empty _)⟩

section

variable (h : Inv ⟨s, R⟩)
include h

theorem Inv.registered_of_marker {m : I} (hm : s.marker c = some m) :
    s.bitPosition c ≠ kInvalidBitPosition := by
  intro hc
  have hnone := ((h.idle c).mpr (Or.inl hc)).1
  rw [hm] at hnone
  cases hnone

variable (hs' : Consistent ∅ s') (hr : SameRegistration s s')
include hs' hr

theorem Inv.sameRegistration (hidle : ∀ c, Idle s' c ↔ s.bitPosition c = kInvalidBitPosition ∨ c ∈ R')
    (hret : ∀ c ∈ R', s.bitPosition c ≠ kInvalidBitPosition) : Inv ⟨s', R'⟩ := by
  refine ⟨hs', h.registered.sameRegistration hr, fun c => ?_, fun c hc => ?_⟩
  · rw [hidle]
    simp only [hr.bitPosition]
  · simp only [hr.bitPosition]
    exact hret c hc

theorem Inv.sameIdle (hidle : ∀ c, Idle s' c ↔ Idle s c) : Inv ⟨s', R⟩ :=
  h.sameRegistration hs' hr (fun c => (hidle c).trans (h.idle c)) h.retired

theorem Inv.activate (hidle : ∀ k, k ≠ c → (Idle s' k ↔ Idle s k)) (hc : ¬Idle s' c)
    (hreg : s.bitPosition c ≠ kInvalidBitPosition) : Inv ⟨s', R \ {c}⟩ := by
  refine h.sameRegistration hs' hr (fun k => ?_) fun k hk => h.retired k hk.1
  by_cases hk : k = c
  · simp [hk, hc, hreg]
  · rw [hidle k hk, h.idle k]
    simp [hk]

theorem Inv.retire (hidle : ∀ k, k ≠ c → (Idle s' k ↔ Idle s k)) (hc : Idle s' c)
    (hreg : s.bitPosition c ≠ kInvalidBitPosition) : Inv ⟨s', insert c R⟩ := by
  refine h.sameRegistration hs' hr (fun k => ?_) fun k hk => ?_
  · by_cases hk : k = c
    · simp [hk, hc]
    · rw [hidle k hk, h.idle k]
      simp [hk]
  · rcases hk with rfl | hk
    · exact hreg
    · exact h.retired k hk

end

end

section

variable {s s' : ChangeTracker C O I} {R : Set C} {c : C}

theorem Tracked.tracksOwned (h : Tracked s) (hr : Registered s) (c : C) : TracksOwned s c := by
  intro j howns
  obtain ⟨k, hpos, hvalid, htr⟩ := h j _ howns
  rw [hr.injective hpos (hpos ▸ hvalid)] at htr
  exact htr

/-- Acknowledging items for a consumer that keeps track of what it owns. -/
theorem Tracked.acked (h : Tracked s) (hs' : Listed s') (hacked : Acked c s s') (hc : TracksOwned s' c) :
    Tracked s' := by
  intro i p hbit
  obtain ⟨k, hpos, hvalid, htr⟩ := h i p (hacked.cleared i p hbit)
  refine ⟨k, by rw [hacked.bitPosition, hpos], hvalid, ?_⟩
  by_cases hk : k = c
  · refine hk ▸ hc i ?_
    rw [owns, hacked.bitPosition, ← hk, hpos]
    exact hbit
  · exact hacked.tracks k hk i (mem_of_isBitSet hs' hbit) htr

/-- The operation takes the consumer to another one's marker, with the bits from there on. -/
def Attaches (c : C) : Operation C O I → Prop
  | .join _ newConsumer => newConsumer = c
  | .attachBehind sourceConsumer _ => sourceConsumer = some c
  | _ => False

/-- What one operation of a session keeps, where bits come from, and that only a publication can link an
object. -/
structure StepOk (x : Session C O I) (op : Operation C O I) : Prop where
  inv : Inv (x.perform op)
  position : ∀ c, op ≠ .register c → op ≠ .deregister c → (x.perform op).tracker.bitPosition c = x.tracker.bitPosition c
  granted : ∀ i p, isBitSet ((x.perform op).tracker.consumerBitmap i) p = true →
    isBitSet (x.tracker.consumerBitmap i) p = true ∨
      (∃ address o bitmap, op = .publish address (some o) bitmap ∧ (x.perform op).tracker.changeItem o = some i ∧
        isBitSet bitmap p = true) ∨
      ∃ c, x.tracker.bitPosition c = p ∧ Attaches c op
  tracked : Tracked x.tracker → SparesRetired x op → Tracked (x.perform op).tracker
  completes : (∀ address o bitmap, op ≠ .publish address (some o) bitmap) → Completes x.tracker (x.perform op).tracker

variable {op : Operation C O I} {bitmap : ConsumerBitmap} {added : List I} {address : I}

theorem StepOk.unchanged (h : Inv ⟨s, R⟩) (hop : Session.perform ⟨s, R⟩ op = ⟨s, R⟩) : StepOk ⟨s, R⟩ op := by
  refine ⟨?_, fun c _ _ => ?_, fun i p => ?_, fun htrk _ => ?_, fun _ => ?_⟩ <;> rw [hop]
  · exact h
  · exact Or.inl
  · exact htrk
  · exact (SameItems.refl s).completes

theorem StepOk.same (h : Inv ⟨s, R⟩) (hop : Session.perform ⟨s, R⟩ op = ⟨s', R⟩)
    (hs' : Consistent ∅ s') (hsame : SameItems s s') (hmk : s'.marker = s.marker)
    (hidle : ∀ k, Idle s' k ↔ Idle s k) : StepOk ⟨s, R⟩ op := by
  refine ⟨?_, fun c _ _ => ?_, fun i p hbit => Or.inl ?_, fun htrk _ => ?_, fun _ => ?_⟩
  all_goals rw [hop] at *
  · exact h.sameIdle hs' hsame.toSameRegistration hidle
  · exact congrFun hsame.bitPosition c
  · rwa [hsame.consumerBitmap] at hbit
  · intro i p hbit
    rw [hsame.consumerBitmap] at hbit
    obtain ⟨k, hpos, hvalid, m, hm, hsuf⟩ := htrk i p hbit
    exact ⟨k, by rw [hsame.bitPosition, hpos], hvalid, m, by rw [hmk, hm], by rwa [hsame.changeList]⟩
  · exact hsame.completes

theorem Tracked.placed (h : Tracked s) {m : Option I}
    (hpl : Placed c m added s s') (hc : s.bitPosition c ≠ kInvalidBitPosition)
    (hahead : ∀ j, j ∈ added ∨ s.owns c j = true → ∃ i, m = some i ∧ j ∈ suffixFrom s.changeList i) : Tracked s' := by
  have hnew : ∀ j, j ∈ added ∨ s.owns c j = true → Tracks s' c j := by
    intro j hj
    obtain ⟨i, rfl, hsuf⟩ := hahead j hj
    exact ⟨i, by rw [hpl.marker, if_pos rfl], by rwa [hpl.changeList]⟩
  intro i p hbit
  rw [hpl.bits, Bool.or_eq_true, decide_eq_true_eq] at hbit
  rcases hbit with hbit | ⟨hp, hi⟩
  · obtain ⟨k, hpos, hvalid, m', hm', hsuf⟩ := h i p hbit
    refine ⟨k, by rw [hpl.bitPosition, hpos], hvalid, ?_⟩
    by_cases hk : k = c
    · refine hk ▸ hnew i (.inr ?_)
      rw [owns, ← hk, hpos]
      exact hbit
    · exact ⟨m', by rw [hpl.marker, if_neg hk, hm'], by rwa [hpl.changeList]⟩
  · exact ⟨c, by rw [hpl.bitPosition, hp], hp ▸ hc, hnew i (.inl hi)⟩

section

variable (h : Inv ⟨s, R⟩) (c : C)
include h

theorem stepOk_register : StepOk ⟨s, R⟩ (.register c) := by
  cases hres : s.registerWithTracker c with
  | error e => exact .unchanged h (by simp [Session.perform, Session.retiredAfter, perform, hres])
  | ok s' =>
    have hop : Session.perform ⟨s, R⟩ (.register c) = ⟨s', R⟩ := by
      simp [Session.perform, Session.retiredAfter, perform, hres]
    by_cases hc : s.bitPosition c = kInvalidBitPosition
    · obtain ⟨b, hreg, hcons, hb, hfree, hpos, hlist, hitem, hproc, hbitmap, hmk, hact,
        hidle⟩ := registerWithTracker_new h.consistent h.registered ((h.idle c).mpr (Or.inl hc)) hc hres
      have hnret : c ∉ R := fun hmem => h.retired c hmem hc
      refine ⟨?_, fun k hk _ => ?_, fun i p hbit => Or.inl ?_, fun htrk _ => ?_, fun _ => ?_⟩
      all_goals rw [hop] at *
      · refine ⟨hcons, hreg, fun k => ?_, fun k hk => ?_⟩
        · rw [hpos]
          by_cases hk : k = c
          · simp [hk, hact, hb, hnret]
          · rw [hidle k hk, if_neg hk]
            exact h.idle k
        · rw [hpos, if_neg fun hkc : k = c => hnret (hkc ▸ hk)]
          exact h.retired k hk
      · rw [hpos, if_neg fun hkc : k = c => hk (by rw [hkc])]
      · rwa [hbitmap] at hbit
      · intro i p hbit
        rw [hbitmap] at hbit
        obtain ⟨k, hk, hvalid, m, hm, hsuf⟩ := htrk i p hbit
        have hkc : k ≠ c := fun hkc => hvalid (by rw [← hk, hkc, hc])
        exact ⟨k, by rw [hpos, if_neg hkc, hk], hvalid, m, by rw [hmk, hm], by rwa [hlist]⟩
      · exact completes_of_eq hitem hproc
    · obtain ⟨hcons, hsame, hlinks⟩ := registerWithTracker_registered h.consistent hc hres
      exact .same h hop hcons hsame hlinks.marker fun k => idle_congr (hlinks.place k)

theorem stepOk_deregister : StepOk ⟨s, R⟩ (.deregister c) := by
  by_cases hc : s.bitPosition c = kInvalidBitPosition
  · obtain ⟨hcons, hsame, hlinks⟩ :=
      deregisterFromTracker_unregistered h.consistent h.registered hc ((h.idle c).mpr (Or.inl hc))
    have hnret : c ∉ R := fun hmem => h.retired c hmem hc
    have hop : Session.perform ⟨s, R⟩ (.deregister c) = ⟨s.deregisterFromTracker c, R⟩ := by
      simp [Session.perform, Session.retiredAfter, perform, Set.sdiff_singleton_eq_self hnret]
    exact .same h hop hcons hsame hlinks.marker fun k => idle_congr (hlinks.place k)
  · obtain ⟨hcons, hreg, hpos, hidleC, hidle, hcompletes, hclr, htr, howned⟩ :=
      deregisterFromTracker_spec h.consistent h.registered hc
    refine ⟨⟨hcons, hreg, fun k => ?_, fun k hk => ?_⟩, fun k _ hk => ?_, fun i p hbit => ?_,
      fun htrk _ i p hbit => ?_, fun _ => hcompletes⟩
    · change Idle (s.deregisterFromTracker c) k ↔
        (s.deregisterFromTracker c).bitPosition k = kInvalidBitPosition ∨ k ∈ R \ {c}
      rw [hpos]
      by_cases hk : k = c
      · simp [hk, hidleC]
      · rw [hidle k hk, h.idle k]
        simp [hk]
    · change (s.deregisterFromTracker c).bitPosition k ≠ kInvalidBitPosition
      rw [hpos, if_neg (fun hkc : k = c => hk.2 hkc)]
      exact h.retired k hk.1
    · change (s.deregisterFromTracker c).bitPosition k = s.bitPosition k
      rw [hpos, if_neg fun hkc : k = c => hk (by rw [hkc])]
    · exact Or.inl (hclr i p hbit)
    · change isBitSet ((s.deregisterFromTracker c).consumerBitmap i) p = true at hbit
      obtain ⟨k, hk, hvalid, htracksK⟩ := htrk i p (hclr i p hbit)
      have hkc : k ≠ c := by
        rintro rfl
        rw [← hk, howned (htrk.tracksOwned h.registered k) i] at hbit
        cases hbit
      refine ⟨k, ?_, hvalid, htr k hkc i (mem_of_isBitSet hcons.listed hbit) htracksK⟩
      change (s.deregisterFromTracker c).bitPosition k = p
      rw [hpos, if_neg hkc, hk]

theorem stepOk_advanced {c : C} {R' : Set C}
    (hop : Session.perform ⟨s, R⟩ op = ⟨s', R'⟩) (hadvd : Advanced c s s') (hinv : Inv ⟨s', R'⟩) :
    StepOk ⟨s, R⟩ op := by
  refine ⟨?_, fun k _ _ => ?_, fun i p hbit => Or.inl ?_, fun htrk _ => ?_, fun _ => ?_⟩
  all_goals rw [hop] at *
  · exact hinv
  · exact congrFun hadvd.bitPosition k
  · exact hadvd.cleared i p hbit
  · exact htrk.acked hadvd.consistent.listed hadvd.toAcked
      (hadvd.tracksOwned (htrk.tracksOwned h.registered c))
  · exact hadvd.toCompletes

theorem stepOk_iterate (untilMarker : Option I) (callback : I → ProcessResult) :
    StepOk ⟨s, R⟩ (.iterate c untilMarker callback) := by
  obtain ⟨hadvd, hidle⟩ := iterateChangesUntilExcluding_spec h.consistent c untilMarker callback
  refine stepOk_advanced h rfl hadvd (h.sameIdle hadvd.consistent hadvd.toSameRegistration fun k => ?_)
  by_cases hk : k = c
  · rw [hk]
    exact hidle
  · exact hadvd.idle k hk

theorem stepOk_attachAhead (sourceConsumer targetConsumer : Option C) :
    StepOk ⟨s, R⟩ (.attachAhead sourceConsumer targetConsumer) := by
  cases sourceConsumer with
  | none => exact .unchanged h rfl
  | some source =>
    cases targetConsumer with
    | none => exact .unchanged h rfl
    | some target =>
      by_cases hc : s.bitPosition source = kInvalidBitPosition
      · have hnret : source ∉ R := fun hmem => h.retired source hmem hc
        refine .unchanged h ?_
        simp [Session.perform, Session.retiredAfter, perform, attachToMarkerAhead, hc,
          Set.sdiff_singleton_eq_self hnret]
      · obtain ⟨hadvd, hact⟩ := attachToMarkerAhead_spec h.consistent hc target
        exact stepOk_advanced h rfl hadvd
          (h.activate hadvd.consistent hadvd.toSameRegistration hadvd.idle hact hc)

theorem stepOk_reset : StepOk ⟨s, R⟩ (.reset c) := by
  cases hm : s.marker c with
  | none =>
    refine .unchanged h ?_
    simp [Session.perform, Session.retiredAfter, perform, consumerResetChangeList_of_none hm, hm]
  | some m =>
    obtain ⟨hcons, hacked, -, hidle, howns⟩ := consumerResetChangeList_spec (c := c) h.consistent
    have hop : Session.perform ⟨s, R⟩ (.reset c) = ⟨s.consumerResetChangeList c, insert c R⟩ := by
      simp [Session.perform, Session.retiredAfter, perform, hm]
    refine stepOk_advanced h hop ⟨hacked, hcons, fun htr j howned => ?_⟩
      (h.retire hcons hacked.toSameRegistration hacked.idle (hidle (by simp [hm])) (h.registered_of_marker hm))
    rw [howns htr j] at howned
    cases howned

theorem stepOk_rehash {order : List C} (horder : order.Perm s.readyConsumers) : StepOk ⟨s, R⟩ (.rehash order) := by
  have hl := h.consistent.linked
  have hop : Session.perform ⟨s, R⟩ (.rehash order) = ⟨{ s with readyConsumers := order }, R⟩ := rfl
  refine .same h hop ⟨⟨h.consistent.listed.nodup, h.consistent.listed.mem_iff,
    h.consistent.listed.owner⟩, ⟨hl.pending_nodup, hl.mem_pending, hl.marker_eq, horder.nodup_iff.mpr hl.ready_nodup,
      fun c => horder.mem_iff.trans (hl.mem_ready c), hl.ready_unlinked, hl.detached_hook, hl.detached_ready⟩,
    h.consistent.outstanding⟩ ⟨⟨rfl, rfl, rfl, rfl⟩, rfl, rfl, rfl, rfl, rfl⟩ rfl fun _ => Iff.rfl

theorem stepOk_join (existing new : C) : StepOk ⟨s, R⟩ (.join existing new) := by
  by_cases hc : s.consumers[s.bitPosition new]? = some (some new)
  · have hreg := ((h.registered.stored _ new).mp hc).2
    obtain ⟨s', hres, hcases⟩ := joinConsumer_ok h.consistent hc existing
    rcases hcases with ⟨hwhy, rfl⟩ | ⟨m, hnew, hexisting, hpl⟩
    · -- either both are at the end of the list, or the new consumer has a position and is not retired
      refine .unchanged h ?_
      simp only [Session.perform, Session.retiredAfter, perform, hres]
      split
      · rfl
      next hexisting =>
        have hnret : new ∉ R := by
          intro hmem
          exact (hwhy.resolve_right hexisting) ((h.idle new).mpr (Or.inr hmem)).1
        rw [Set.sdiff_singleton_eq_self hnret]
    · have hop : Session.perform ⟨s, R⟩ (.join existing new) = ⟨s', R \ {new}⟩ := by
        simp [Session.perform, Session.retiredAfter, perform, hres, hexisting]
      refine ⟨?_, fun k _ _ => ?_, fun i p hbit => ?_, fun htrk _ => ?_, fun _ => ?_⟩
      all_goals rw [hop] at *
      · exact h.activate hpl.consistent hpl.toSameRegistration hpl.idle hpl.active hreg
      · exact congrFun hpl.bitPosition k
      · rw [hpl.bits, Bool.or_eq_true, decide_eq_true_eq] at hbit
        exact hbit.imp id fun hadded => Or.inr ⟨new, hadded.1.symm, rfl⟩
      · refine htrk.placed hpl hreg fun j hj => ⟨m, rfl, hj.resolve_right fun howns => ?_⟩
        rw [(htrk.tracksOwned h.registered new).owns_eq_false hnew] at howns
        cases howns
      · exact completes_of_eq hpl.changeItem hpl.processed
  · have hunreg : s.bitPosition new = kInvalidBitPosition := by
      by_contra hvalid
      exact hc ((h.registered.stored _ new).mpr ⟨rfl, hvalid⟩)
    have hnret : new ∉ R := fun hmem => h.retired new hmem hunreg
    refine .unchanged h ?_
    simp only [Session.perform, Session.retiredAfter, perform, joinConsumer, if_pos hc]
    rw [Set.sdiff_singleton_eq_self hnret, ite_self]

theorem stepOk_attachBehind {sourceConsumer targetConsumer : Option C}
    (hadm : Admissible s (.attachBehind sourceConsumer targetConsumer)) :
    StepOk ⟨s, R⟩ (.attachBehind sourceConsumer targetConsumer) := by
  cases sourceConsumer with
  | none => exact .unchanged h rfl
  | some source =>
    cases targetConsumer with
    | none => exact .unchanged h rfl
    | some target =>
      by_cases hc : s.bitPosition source = kInvalidBitPosition
      · refine .unchanged h ?_
        simp [Session.perform, Session.retiredAfter, perform, attachToMarkerBehind, hc]
      · obtain ⟨segment, attached, hpl, hfrom, heq⟩ := attachToMarkerBehind_placed h.consistent hc hadm
        obtain ⟨hcons, hacked, -, hidle, howns⟩ := consumerResetChangeList_spec (c := target) hpl.consistent
        -- the state once the source has moved, in which it is not retired
        have hinv : Inv ⟨attached, R \ {source}⟩ :=
          h.activate hpl.consistent hpl.toSameRegistration hpl.idle hpl.active hc
        have htrackedAttached : Tracked s → Tracked attached := by
          intro htrk
          refine htrk.placed hpl hc fun j hj => hj.elim (hfrom j) fun howned => ?_
          -- what the source owned is ahead of its old marker, and that is ahead of the target's
          obtain ⟨m, hsource, hsuf⟩ := htrk.tracksOwned h.registered source j howned
          obtain ⟨t, ht, hmem⟩ := AtOrBehind.of_marker hadm hsource
          exact ⟨t, ht, suffixFrom_trans h.consistent.listed.nodup hmem hsuf⟩
        have htrackedFinal : Tracked s → Tracked (attached.consumerResetChangeList target) := by
          intro htrk
          refine (htrackedAttached htrk).acked hcons.listed hacked fun j howned => ?_
          rw [howns ((htrackedAttached htrk).tracksOwned hinv.registered target) j] at howned
          cases howned
        have hcompletes := (completes_of_eq hpl.changeItem hpl.processed).trans hacked.toCompletes
        have hpos : (attached.consumerResetChangeList target).bitPosition = s.bitPosition :=
          hacked.bitPosition.trans hpl.bitPosition
        have hbits : ∀ i p, isBitSet ((attached.consumerResetChangeList target).consumerBitmap i) p = true →
            isBitSet (s.consumerBitmap i) p = true ∨ s.bitPosition source = p := by
          intro i p hbit
          have hatt := hacked.cleared i p hbit
          rw [hpl.bits, Bool.or_eq_true, decide_eq_true_eq] at hatt
          exact hatt.imp id fun hadded => hadded.1.symm
        -- the target is retired when it had a marker to give up
        obtain ⟨R', hop, hfinal⟩ : ∃ R', Session.perform ⟨s, R⟩ (.attachBehind (some source) (some target)) =
            ⟨attached.consumerResetChangeList target, R'⟩ ∧ Inv ⟨attached.consumerResetChangeList target, R'⟩ := by
          refine ⟨_, by simp [Session.perform, perform, heq]; rfl, ?_⟩
          cases hm : s.marker target with
          | none =>
            rw [consumerResetChangeList_of_none (by rw [hpl.marker, hm, ite_self])]
            simpa [Session.retiredAfter, hc, hm] using hinv
          | some t =>
            have hmarker : attached.marker target = some t := by
              rw [hpl.marker, hm, ite_self]
            simpa [Session.retiredAfter, hc, hm] using hinv.retire hcons hacked.toSameRegistration hacked.idle
              (hidle (by simp [hmarker])) (hinv.registered_of_marker hmarker)
        refine ⟨?_, fun k _ _ => ?_, fun i p hbit => ?_, fun htrk _ => ?_, fun _ => ?_⟩
        all_goals rw [hop] at *
        · exact hfinal
        · exact congrFun hpos k
        · exact (hbits i p hbit).imp id fun hp => Or.inr ⟨source, hp, rfl⟩
        · exact htrackedFinal htrk
        · exact hcompletes

end

theorem fresh_of_admissible {o : O}
    (h : Admissible s (.publish address (some o) bitmap)) (ho : s.changeItem o = none) :
    s.trackableObject address = none := by
  rcases h.1 with hlisted | hnone
  · simp [isOnChangeList, ho] at hlisted
  · simp [trackableObject, hnone]

theorem stepOk_publish (h : Inv ⟨s, R⟩) {trackableObject : Option O}
    (hadm : Admissible s (.publish address trackableObject bitmap)) :
    StepOk ⟨s, R⟩ (.publish address trackableObject bitmap) := by
  cases trackableObject with
  | none => exact .unchanged h rfl
  | some o =>
    rcases publishChange_spec h.consistent (fresh_of_admissible hadm) bitmap with ⟨-, heq⟩ | ⟨-, hpub⟩
    · -- a skipped publication only calls the callback
      have hc := h.consistent
      have hperf : (Session.perform ⟨s, R⟩ (.publish address (some o) bitmap)).tracker =
          { s with processed := s.processed ++ [(o, ((s.changeItem o).map s.consumerBitmap).getD [])] } := heq
      refine ⟨?_, fun k _ _ => ?_, fun i p hbit => Or.inl ?_, fun htrk _ => ?_,
        fun hop => absurd rfl (hop address o bitmap)⟩
      · change Inv ⟨s.publishChange address (some o) bitmap, R⟩
        rw [heq]
        refine h.sameIdle ?_ ⟨rfl, rfl, rfl, rfl⟩ fun _ => Iff.rfl
        exact ⟨⟨hc.listed.nodup, hc.listed.mem_iff, hc.listed.owner⟩,
          hc.linked.sameLinks ⟨rfl, rfl, rfl, rfl, rfl⟩, hc.outstanding⟩
      · rw [hperf]
        rfl
      · rw [hperf] at hbit
        exact hbit
      · rw [hperf]
        exact htrk
    · have hbits : ∀ i p, isBitSet ((s.publishChange address (some o) bitmap).consumerBitmap i) p = true →
          isBitSet (s.consumerBitmap i) p = true ∨ i = (s.changeItem o).getD address ∧ isBitSet bitmap p = true := by
        intro i p hbit
        rwa [hpub.bits, Bool.or_eq_true, Bool.and_eq_true, decide_eq_true_eq] at hbit
      refine ⟨h.sameIdle hpub.consistent hpub.toSameRegistration hpub.idle,
        fun k _ _ => congrFun hpub.bitPosition k, fun i p hbit => ?_, fun htrk hspares i p hbit => ?_,
        fun hop => absurd rfl (hop address o bitmap)⟩
      · refine (hbits i p hbit).imp id fun hnew => Or.inl ⟨address, o, bitmap, rfl, ?_, hnew.2⟩
        refine (congrFun hpub.changeItem o).trans ?_
        rw [Function.update_self, hnew.1]
      · rcases hbits i p hbit with hbit | ⟨rfl, hnew⟩
        · obtain ⟨k, hk, hvalid, htr⟩ := htrk i p hbit
          exact ⟨k, (congrFun hpub.bitPosition k).trans hk, hvalid, hpub.tracks k i htr⟩
        · -- the bit is that of a registered consumer, and that one is not retired
          obtain ⟨k, hk, hvalid⟩ := (h.registered.isBitSet_full p).mp (hadm.2 p hnew)
          refine ⟨k, (congrFun hpub.bitPosition k).trans hk, hvalid, hpub.tracks_new k fun hidle => ?_⟩
          rcases (h.idle k).mp hidle with hunreg | hret
          · exact hvalid (hk.symm.trans hunreg)
          · have hclear := hspares k hret
            rw [show (⟨s, R⟩ : Session C O I).tracker.bitPosition k = p from hk, hnew] at hclear
            cases hclear

theorem stepOk_perform {x : Session C O I} (h : Inv x) (hadm : Admissible x.tracker op) : StepOk x op := by
  cases op with
  | register c => exact stepOk_register h c
  | deregister c => exact stepOk_deregister h c
  | publish address o bitmap => exact stepOk_publish h hadm
  | iterate c untilMarker callback => exact stepOk_iterate h c untilMarker callback
  | join existing new => exact stepOk_join h existing new
  | attachAhead source target => exact stepOk_attachAhead h source target
  | attachBehind source target => exact stepOk_attachBehind h hadm
  | reset c => exact stepOk_reset h c
  | rehash order => exact stepOk_rehash h hadm

end

section

variable {x : Session C O I}

theorem inv_of_reachable (hx : Reachable (sessions C O I) x) : Inv x := by
  induction hx with
  | init => exact inv_empty
  | step _ hadm ih => exact (stepOk_perform ih hadm).inv

theorem reachable_of_sparing (hx : Reachable (sparingSessions C O I) x) : Reachable (sessions C O I) x := by
  apply Reachable.mono _ _ _ hx
  · rfl
  · rfl
  · exact fun _ _ hen => hen.1

theorem tracked_of_reachable (hx : Reachable (sparingSessions C O I) x) : Tracked x.tracker := by
  induction hx with
  | init =>
    intro i p hbit
    simp [sparingSessions, empty, consumerBitmap] at hbit
  | step hreach hen ih =>
    exact (stepOk_perform (inv_of_reachable (reachable_of_sparing hreach)) hen.1).tracked ih hen.2

end

end FbossBgp.ChangeTracker
