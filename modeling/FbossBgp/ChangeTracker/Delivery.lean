import FbossBgp.ChangeTracker.Run

/-! Delivery over whole runs: what a consumer owns is ahead of it and reaches its callback, bits belong to
registered consumers and were given to them after they registered, and what else the polled iterator
hands to a callback. The change-processed callback is called once for each time an object is on the change
list, when the object goes off it, and at once for a publication that is skipped. -/

namespace FbossBgp.ChangeTracker

open ListCursor Transition BitmapUtils List

variable {C O I : Type*} [DecidableEq C] [DecidableEq O] [DecidableEq I] {x : Session C O I}

theorem admissible_publish {s : ChangeTracker C O I} {address : I} {o : Option O} {bitmap : ConsumerBitmap}
    (hfresh : o.any s.isOnChangeList = true ∨ s.items address = none)
    (hbits : orBitmaps bitmap s.getFullConsumerBitmap = s.getFullConsumerBitmap) :
    Admissible s (.publish address o bitmap) :=
  ⟨hfresh, fun p hp => by rw [← hbits, isBitSet_orBitmaps, hp, Bool.true_or]⟩

/-- Two consumers; the first one is taken back to the second one's marker, and a change is published to
the second one although it was retired by that. -/
def retiredTrace : List (Operation (Fin 2) Nat Nat) :=
  [.register 0, .register 1, .publish 0 (some 10) [3], .attachBehind (some 0) (some 1), .publish 1 (some 11) [2]]

theorem admits_retiredTrace : Admits (sessions (Fin 2) Nat Nat) ⟨empty, ∅⟩ retiredTrace := by
  refine ⟨trivial, trivial, ?_, ⟨0, by decide, by decide⟩, ?_, trivial⟩
  · exact admissible_publish (Or.inr (by rfl)) (by decide)
  · exact admissible_publish (Or.inr (by rfl)) (by decide)

/-- In every run that publishes nothing to retired consumers, an item that carries a consumer's bit is at
or after the consumer's marker. No iteration skips it: it is handed to the callback or keeps the bit, and
an iteration that is never told to yield hands it to the callback. -/
theorem owned_item_ahead (hx : Reachable (sparingSessions C O I) x) {c : C} {i : I}
    (howns : x.tracker.owns c i = true) : (∃ m, x.tracker.marker c = some m ∧ i ∈ suffixFrom x.tracker.changeList m) ∧
      (∀ untilMarker callback, i ∈ (x.tracker.iterateChangesUntilExcluding c untilMarker callback).2.map Prod.fst ∨
          (x.tracker.iterateChangesUntilExcluding c untilMarker callback).1.owns c i = true) ∧
      ∀ callback, (∀ j, callback j = .CONTINUE) → i ∈ (x.tracker.iterateChangesToEnd c callback).2.map Prod.fst := by
  have hinv := inv_of_reachable (reachable_of_sparing hx)
  have htr := (tracked_of_reachable hx).tracksOwned hinv.registered c
  refine ⟨htr i howns, fun untilMarker callback => ?_, fun callback hgo => ?_⟩
  · exact delivered_or_owns hinv.consistent htr howns
  · exact mem_delivered_of_owns hinv.consistent htr hgo howns

/-- Two consumers that wait for their first change; that of the second one comes after that of the first one. -/
def deliveredTrace : List (Operation (Fin 2) Nat Nat) :=
  [.register 0, .register 1, .publish 0 (some 10) [1], .publish 1 (some 11) [2]]

theorem reachable_deliveredTrace :
    Reachable (sparingSessions (Fin 2) Nat Nat) (run (sparingSessions (Fin 2) Nat Nat) ⟨empty, ∅⟩ deliveredTrace) := by
  apply Reachable.init.run
  refine ⟨⟨trivial, trivial⟩, ⟨trivial, trivial⟩, ⟨?_, ?_⟩, ⟨?_, ?_⟩, trivial⟩
  · exact admissible_publish (Or.inr (by rfl)) (by decide)
  · exact fun c hc => absurd hc (Set.notMem_empty c)
  · exact admissible_publish (Or.inr (by rfl)) (by decide)
  · exact fun c hc => absurd hc (Set.notMem_empty c)

theorem owned_item_ahead_deliveredTrace : let x := run (sparingSessions (Fin 2) Nat Nat) ⟨empty, ∅⟩ deliveredTrace
    x.tracker.owns 1 1 = true ∧ x.tracker.marker 1 = some 0 ∧
      1 ∈ (x.tracker.iterateChangesToEnd 1 fun _ => .CONTINUE).2.map Prod.fst :=
  ⟨by decide, by decide, (owned_item_ahead reachable_deliveredTrace (by decide)).2.2 _ fun _ => rfl⟩

/-- A retired consumer that is published to owns an item that it has no marker to reach. -/
theorem retired_consumer_loses_item :
    ∃ x, Reachable (sessions (Fin 2) Nat Nat) x ∧ x.tracker.bitPosition 1 ≠ kInvalidBitPosition ∧
      1 ∈ x.tracker.changeList ∧ x.tracker.owns 1 1 = true ∧ x.tracker.marker 1 = none ∧
      (x.tracker.iterateChangesToEnd 1 fun _ => .CONTINUE).2 = [] := by
  refine ⟨_, Reachable.init.run admits_retiredTrace, ?_, ?_, ?_, ?_, ?_⟩
  all_goals decide

section

variable {s : ChangeTracker C O I} {c : C}

theorem placed_of_not_retired (h : Inv x) (hc : x.tracker.bitPosition c ≠ kInvalidBitPosition)
    (hret : c ∉ x.retired) :
    (c ∈ x.tracker.readyConsumers ∧ x.tracker.marker c = none ∧ ∀ i, c ∉ x.tracker.pendingConsumers i) ∨
      ∃ m ∈ x.tracker.changeList, x.tracker.marker c = some m ∧ c ∉ x.tracker.readyConsumers ∧
        ∀ i, c ∈ x.tracker.pendingConsumers i ↔ i = m := by
  have hlink := h.consistent.linked
  have hhook := hlink.marker_eq c (Set.notMem_empty c)
  cases hm : x.tracker.marker c with
  | none =>
    rw [hm] at hhook
    refine Or.inl ⟨(hlink.mem_ready c).mpr ?_, rfl, fun i hi => ?_⟩
    · by_contra hready
      have hidle : Idle x.tracker c := ⟨hm, hhook.symm, by simpa using hready⟩
      exact ((h.idle c).mp hidle).elim hc hret
    · rw [hlink.mem_pending, ← hhook] at hi
      cases hi
  | some m =>
    obtain ⟨hhook', hmem, hready⟩ := h.consistent.mem_of_marker hm
    refine Or.inr ⟨m, hmem, rfl, ?_, fun i => ?_⟩
    · rw [hlink.mem_ready, hready]
      exact Bool.false_ne_true
    · rw [hlink.mem_pending, hhook', Option.some.injEq]
      exact eq_comm

theorem unplaced_of_retired (h : Inv x) (hret : c ∈ x.retired) :
    x.tracker.marker c = none ∧ c ∉ x.tracker.readyConsumers ∧ ∀ i, c ∉ x.tracker.pendingConsumers i := by
  have hlink := h.consistent.linked
  obtain ⟨hmk, hhook, hready⟩ := (h.idle c).mpr (Or.inr hret)
  refine ⟨hmk, ?_, fun i hi => ?_⟩
  · rw [hlink.mem_ready, hready]
    exact Bool.false_ne_true
  · rw [hlink.mem_pending, hhook] at hi
    cases hi

theorem nodup_objects (hs : Listed s) : (s.changeList.map s.trackableObject).Nodup := by
  refine hs.nodup.map_on fun i hi j _ hij => ?_
  obtain ⟨o, ho⟩ := Option.isSome_iff_exists.mp ((hs.mem_iff i).mp hi)
  have hitem := (hs.owner i o).mp ho
  rw [(hs.owner j o).mp (hij ▸ ho), Option.some.injEq] at hitem
  exact hitem.symm

theorem mem_of_changeItem (hs : Listed s) {o : O} {i : I} (h : s.changeItem o = some i) : i ∈ s.changeList := by
  rw [hs.mem_iff, (hs.owner i o).mpr h]
  rfl

theorem existsUnique_object (hs : Listed s) {i : I} (hi : i ∈ s.changeList) : ∃! o, s.changeItem o = some i := by
  obtain ⟨o, ho⟩ := Option.isSome_iff_exists.mp ((hs.mem_iff i).mp hi)
  refine ⟨o, (hs.owner i o).mp ho, fun o' ho' => ?_⟩
  have hobj := (hs.owner i o').mpr ho'
  rw [ho, Option.some.injEq] at hobj
  exact hobj.symm

end

section

/-- The operation neither registers nor deregisters the consumer and does not take it to a marker. -/
def LeavesAlone (c : C) (op : Operation C O I) : Prop := op ≠ .register c ∧ op ≠ .deregister c ∧ ¬Attaches c op

def PublishedTo (p : Nat) (s : ChangeTracker C O I) (i : I) (ops : List (Operation C O I)) : Prop :=
  ∃ address o bitmap, Operation.publish address (some o) bitmap ∈ ops ∧ s.changeItem o = some i ∧
    isBitSet bitmap p = true

variable {c : C}

theorem changeItem_of_perform (h : Inv x) {op : Operation C O I}
    (hadm : Admissible x.tracker op) {o : O} {i : I} (hi : i ∈ x.tracker.changeList)
    (hitem : (x.perform op).tracker.changeItem o = some i) : x.tracker.changeItem o = some i := by
  by_cases hop : ∃ address o' bitmap, op = .publish address (some o') bitmap
  · obtain ⟨address, o', bitmap, rfl⟩ := hop
    have hfresh := fresh_of_admissible hadm
    rcases publishChange_spec h.consistent hfresh bitmap with ⟨-, heq⟩ | ⟨-, hpub⟩
    · change (x.tracker.publishChange address (some o') bitmap).changeItem o = some i at hitem
      rw [heq] at hitem
      exact hitem
    · replace hitem := (congrFun hpub.changeItem o).symm.trans hitem
      rw [Function.update_apply] at hitem
      split at hitem
      · rename_i ho
        rw [ho]
        cases ho' : x.tracker.changeItem o' with
        | some j => simpa [ho'] using hitem
        | none =>
          rw [ho', Option.getD_none, Option.some.injEq] at hitem
          rw [h.consistent.listed.mem_iff, ← hitem, hfresh ho'] at hi
          cases hi
      · exact hitem
  · push Not at hop
    exact ((stepOk_perform h hadm).completes hop).changeItem o i hitem

/-- A consumer that is left alone gets bits by publications only. -/
theorem publishedTo_of_owns (hx : Reachable (sessions C O I) x)
    (hnone : ∀ i, x.tracker.owns c i = false) (hvalid : x.tracker.bitPosition c ≠ kInvalidBitPosition)
    {ops : List (Operation C O I)} (hadmits : Admits (sessions C O I) x ops) (halone : ∀ op ∈ ops, LeavesAlone c op) :
    (run (sessions C O I) x ops).tracker.bitPosition c = x.tracker.bitPosition c ∧
      ∀ i, (run (sessions C O I) x ops).tracker.owns c i = true →
        PublishedTo (x.tracker.bitPosition c) (run (sessions C O I) x ops).tracker i ops := by
  induction ops using List.reverseRecOn with
  | nil =>
    refine ⟨rfl, fun i howns => ?_⟩
    rw [run, List.foldl_nil, hnone i] at howns
    cases howns
  | append_singleton ops op ih =>
    rw [admits_append] at hadmits
    obtain ⟨hadmits, hadm, -⟩ := hadmits
    obtain ⟨hpos, hpub⟩ := ih hadmits fun op' hop' => halone op' (List.mem_append_left _ hop')
    have hlast := halone op (List.mem_append_right _ (List.mem_singleton_self op))
    have hinv := inv_of_reachable (hx.run hadmits)
    rw [run_append]
    generalize run (sessions C O I) x ops = y at *
    change (y.perform op).tracker.bitPosition c = _ ∧ ∀ i, (y.perform op).tracker.owns c i = true →
      PublishedTo _ (y.perform op).tracker i _
    have hstep := stepOk_perform hinv hadm
    have hpos' := (hstep.position c hlast.1 hlast.2.1).trans hpos
    refine ⟨hpos', fun i howns => ?_⟩
    have hlisted := hstep.inv.consistent.listed
    have hlive := (hlisted.mem_iff i).mp (mem_of_isBitSet hlisted howns)
    rw [owns, hpos'] at howns
    rcases hstep.granted i _ howns with hbef | ⟨address, o, bitmap, rfl, hitem, hbit⟩ | ⟨k, hk, hattaches⟩
    · -- the item was owned before, for an object that was published, and is still that object's item
      obtain ⟨address, o, bitmap, hmem, hitem, hbit⟩ := hpub i (by rw [owns, hpos]; exact hbef)
      obtain ⟨o', ho'⟩ := Option.isSome_iff_exists.mp hlive
      have hitem' := (hlisted.owner i o').mp ho'
      have hsame := changeItem_of_perform hinv hadm (mem_of_isBitSet hinv.consistent.listed hbef) hitem'
      rw [(existsUnique_object hinv.consistent.listed (mem_of_isBitSet hinv.consistent.listed hbef)).unique
        hsame hitem] at hitem'
      exact ⟨address, o, bitmap, List.mem_append_left _ hmem, hitem', hbit⟩
    · exact ⟨address, o, bitmap, List.mem_append_right _ (List.mem_singleton_self _), hitem, hbit⟩
    · have hkc : k = c := hinv.registered.injective (hk.trans hpos.symm) (hk ▸ hvalid)
      exact absurd (hkc ▸ hattaches) hlast.2.2

theorem owns_of_register (h : Inv x) (htrk : Tracked x.tracker) (hc : x.tracker.bitPosition c = kInvalidBitPosition)
    (hc' : (x.perform (.register c)).tracker.bitPosition c ≠ kInvalidBitPosition) (i : I) :
    (x.perform (.register c)).tracker.owns c i = false := by
  cases hres : x.tracker.registerWithTracker c with
  | error e =>
    rw [Session.perform, perform, hres] at hc'
    exact absurd hc hc'
  | ok s' =>
    obtain ⟨b, -, -, -, hfree, hpos, -, -, -, hbitmap, -⟩ :=
      registerWithTracker_new h.consistent h.registered ((h.idle c).mpr (Or.inl hc)) hc hres
    have hperf : (x.perform (.register c)).tracker = s' := by
      rw [Session.perform, perform, hres]
    rw [hperf, owns, hpos, if_pos rfl, hbitmap]
    cases hbit : isBitSet (x.tracker.consumerBitmap i) b with
    | false => rfl
    | true =>
      obtain ⟨k, hk, -⟩ := htrk i b hbit
      exact absurd hk (hfree k)

/-- In every run: consumers have bit positions of their own, the full bitmap has just these, and an item is on the list
only while a bit of it is set. -/
theorem bitPositions_of_reachable (hx : Reachable (sessions C O I) x) :
    (∀ c k, x.tracker.bitPosition c = x.tracker.bitPosition k →
        x.tracker.bitPosition c ≠ kInvalidBitPosition → c = k) ∧
      (∀ p, isBitSet x.tracker.getFullConsumerBitmap p = true ↔
        ∃ c, x.tracker.bitPosition c = p ∧ p ≠ kInvalidBitPosition) ∧
      ∀ i ∈ x.tracker.changeList, ∃ p, isBitSet (x.tracker.consumerBitmap i) p = true := by
  have hinv := inv_of_reachable hx
  refine ⟨fun c k => hinv.registered.injective, hinv.registered.isBitSet_full, fun i hi => ?_⟩
  exact (not_isAllBitsCleared_iff _).mp (hinv.consistent.outstanding i hi)

theorem bitPositions_of_deliveredTrace : let x := run (sparingSessions (Fin 2) Nat Nat) ⟨empty, ∅⟩ deliveredTrace
    (∀ p, isBitSet x.tracker.getFullConsumerBitmap p = true ↔
        ∃ c, x.tracker.bitPosition c = p ∧ p ≠ kInvalidBitPosition) ∧
      1 ∈ x.tracker.changeList ∧ ∃ p, isBitSet (x.tracker.consumerBitmap 1) p = true := by
  have hpositions := bitPositions_of_reachable (reachable_of_sparing reachable_deliveredTrace)
  exact ⟨hpositions.2.1, by decide, hpositions.2.2 1 (by decide)⟩

/-- In every run that publishes nothing to retired consumers: where each consumer is, what is on the list,
and that the bits on it belong to registered consumers, which got them after they registered. -/
theorem shape_of_reachable (hx : Reachable (sparingSessions C O I) x) :
    (∀ c, x.tracker.bitPosition c ≠ kInvalidBitPosition → c ∉ x.retired →
        (c ∈ x.tracker.readyConsumers ∧ x.tracker.marker c = none ∧ ∀ i, c ∉ x.tracker.pendingConsumers i) ∨
          ∃ m ∈ x.tracker.changeList, x.tracker.marker c = some m ∧ c ∉ x.tracker.readyConsumers ∧
            ∀ i, c ∈ x.tracker.pendingConsumers i ↔ i = m) ∧
      (∀ c ∈ x.retired, x.tracker.bitPosition c ≠ kInvalidBitPosition ∧ (∀ i, x.tracker.owns c i = false) ∧
        x.tracker.marker c = none ∧ c ∉ x.tracker.readyConsumers ∧ ∀ i, c ∉ x.tracker.pendingConsumers i) ∧
      (∀ i ∈ x.tracker.changeList, (∃ p, isBitSet (x.tracker.consumerBitmap i) p = true) ∧
        ∃! o, x.tracker.changeItem o = some i) ∧
      x.tracker.changeList.Nodup ∧ (x.tracker.changeList.map x.tracker.trackableObject).Nodup ∧
      (∀ o i, x.tracker.changeItem o = some i → i ∈ x.tracker.changeList) ∧
      (∀ i p, isBitSet (x.tracker.consumerBitmap i) p = true →
        ∃ c, x.tracker.consumers[p]? = some (some c) ∧ x.tracker.bitPosition c = p) ∧
      ∀ c, x.tracker.bitPosition c = kInvalidBitPosition →
        (x.perform (.register c)).tracker.bitPosition c ≠ kInvalidBitPosition →
        ∀ ops, Admits (sparingSessions C O I) (x.perform (.register c)) ops → (∀ op ∈ ops, LeavesAlone c op) →
          ∀ i, (run (sparingSessions C O I) (x.perform (.register c)) ops).tracker.owns c i = true →
            PublishedTo ((x.perform (.register c)).tracker.bitPosition c)
              (run (sparingSessions C O I) (x.perform (.register c)) ops).tracker i ops := by
  have hreach := reachable_of_sparing hx
  have hinv := inv_of_reachable hreach
  have htrk := tracked_of_reachable hx
  have hlisted := hinv.consistent.listed
  refine ⟨fun c hc hret => placed_of_not_retired hinv hc hret, fun c hret => ?_, fun i hi => ⟨?_, ?_⟩,
    hlisted.nodup, nodup_objects hlisted, fun o i => mem_of_changeItem hlisted, fun i p hbit => ?_, ?_⟩
  · have hunplaced := unplaced_of_retired hinv hret
    refine ⟨hinv.retired c hret, ?_, hunplaced⟩
    exact (htrk.tracksOwned hinv.registered c).owns_eq_false hunplaced.1
  · exact (not_isAllBitsCleared_iff _).mp (hinv.consistent.outstanding i hi)
  · exact existsUnique_object hlisted hi
  · obtain ⟨c, hc, hvalid, -⟩ := htrk i p hbit
    exact ⟨c, (hinv.registered.stored p c).mpr ⟨hc, hvalid⟩, hc⟩
  · intro c hc hc' ops hadm halone i howns
    have hreg : Reachable (sessions C O I) (x.perform (.register c)) := hreach.step trivial
    have hadm' : Admits (sessions C O I) (x.perform (.register c)) ops := by
      apply Admits.mono _ _ hadm
      · rfl
      · exact fun _ _ hen => hen.1
    exact (publishedTo_of_owns hreg (owns_of_register hinv htrk hc hc') hc' hadm' halone).2 i howns

theorem shape_of_deliveredTrace : let x := run (sparingSessions (Fin 2) Nat Nat) ⟨empty, ∅⟩ deliveredTrace
    x.tracker.changeList = [0, 1] ∧ ∃ c, x.tracker.consumers[1]? = some (some c) ∧ x.tracker.bitPosition c = 1 :=
  ⟨by decide, (shape_of_reachable reachable_deliveredTrace).2.2.2.2.2.2.1 1 1 (by decide)⟩

/-- After `attachToMarkerBehind` its target is registered and at no position at all; and a change that is
then published to it stays on the list for whoever gets its bit next. -/
theorem retired_consumer_unplaced :
    (∃ x, Reachable (sessions (Fin 2) Nat Nat) x ∧ x.tracker.bitPosition 1 ≠ kInvalidBitPosition ∧
        x.tracker.marker 1 = none ∧ 1 ∉ x.tracker.readyConsumers) ∧
      ∃ x, Reachable (sessions (Fin 2) Nat Nat) x ∧ x.tracker.bitPosition 1 = kInvalidBitPosition ∧
        (x.perform (.register 1)).tracker.owns 1 1 = true := by
  have hreach := Reachable.init.run admits_retiredTrace
  have hfreed : Reachable (sessions (Fin 2) Nat Nat) (Session.perform _ (.deregister 1)) := hreach.step trivial
  refine ⟨⟨_, hreach, ?_, ?_, ?_⟩, ⟨_, hfreed, ?_, ?_⟩⟩
  all_goals decide

end

/-- In every run: the polled iterator calls its callback on the consumer's own items only, exactly when the
consumer has no marker, its marker carries its bit or the boundary does not. The coroutine does so always. -/
theorem delivers_owned_iff (hx : Reachable (sessions C O I) x) (c : C) (untilMarker : Option I)
    (callback : I → ProcessResult) : ((∀ e ∈ (x.tracker.iterateChangesUntilExcluding c untilMarker callback).2,
        isBitSet e.2 (x.tracker.bitPosition c) = true) ↔
      x.tracker.marker c = none ∨ (∃ u, untilMarker = some u ∧ x.tracker.owns c u = false) ∨
        ∃ m, x.tracker.marker c = some m ∧ x.tracker.owns c m = true) ∧
      ∀ e ∈ (x.tracker.consumeChanges c callback).2, isBitSet e.2 (x.tracker.bitPosition c) = true :=
  ⟨forall_delivered_iff (inv_of_reachable hx).consistent, consumeChanges_delivers_owned x.tracker c callback⟩

/-- Two consumers, and a change for the second one only. -/
def foreignTrace : List (Operation (Fin 2) Nat Nat) := [.register 0, .register 1, .publish 0 (some 10) [2]]

theorem admits_foreignTrace : Admits (sessions (Fin 2) Nat Nat) ⟨empty, ∅⟩ foreignTrace :=
  ⟨trivial, trivial, admissible_publish (Or.inr (by rfl)) (by decide), trivial⟩

theorem delivers_owned_iff_foreignTrace : let x := run (sessions (Fin 2) Nat Nat) ⟨empty, ∅⟩ foreignTrace
    ∀ e ∈ (x.tracker.iterateChangesToEnd 1 fun _ => .CONTINUE).2, isBitSet e.2 (x.tracker.bitPosition 1) = true :=
  (delivers_owned_iff (Reachable.init.run admits_foreignTrace) 1 none _).1.mpr
    (Or.inr (Or.inr ⟨0, by decide, by decide⟩))

/-- The polled iterator of the first consumer delivers the change published to the second one only. -/
theorem foreign_item_delivered : ∃ x, Reachable (sessions (Fin 2) Nat Nat) x ∧
      (x.tracker.iterateChangesToEnd 0 fun _ => .CONTINUE).2 = [(0, [2])] ∧
      isBitSet [2] (x.tracker.bitPosition 0) = false ∧
      (x.tracker.consumeChanges 0 fun _ => .CONTINUE).2 = [] := by
  refine ⟨_, Reachable.init.run admits_foreignTrace, ?_, ?_, ?_⟩
  all_goals decide

variable {o : O}

/-- The calls of the callback for one object, each with the bits that remained on its item. -/
def completions (s : ChangeTracker C O I) (o : O) : List ConsumerBitmap :=
  (s.processed.filter fun e => e.1 = o).map Prod.snd

section

variable {done : List (O × ConsumerBitmap)}

theorem filter_fst_eq_nil (h : o ∉ done.map Prod.fst) : done.filter (fun e => e.1 = o) = [] := by
  rw [filter_eq_nil_iff]
  intro e he heq
  exact h (mem_map.mpr ⟨e, he, of_decide_eq_true heq⟩)

/-- In a log that names each object at most once, the entries for one object are one entry. -/
theorem filter_fst_eq_singleton (hnodup : (done.map Prod.fst).Nodup)
    (h : o ∈ done.map Prod.fst) : ∃ e ∈ done, done.filter (fun e => e.1 = o) = [e] := by
  induction done with
  | nil => cases h
  | cons e done ih =>
    rw [map_cons, nodup_cons] at hnodup
    by_cases he : e.1 = o
    · refine ⟨e, mem_cons_self .., ?_⟩
      rw [filter_cons_of_pos (by simpa using he), filter_fst_eq_nil (he ▸ hnodup.1)]
    · rw [map_cons, mem_cons] at h
      obtain ⟨e', he', hfilter⟩ := ih hnodup.2 (h.resolve_left fun heq => he heq.symm)
      exact ⟨e', mem_cons_of_mem e he', by rw [filter_cons_of_neg (by simpa using he), hfilter]⟩

variable {s s' : ChangeTracker C O I}

theorem completions_congr (h : s'.processed = s.processed) : completions s' o = completions s o := by
  rw [completions, completions, h]

theorem completions_of_processed (h : s'.processed = s.processed ++ done) :
    completions s' o = completions s o ++ (done.filter fun e => e.1 = o).map Prod.snd := by
  rw [completions, completions, h, filter_append, map_append]

/-- How an object is accounted for by what does not publish it: one call of the callback when it goes off the
list, with no bit left, and no call otherwise. It does not come onto the list. -/
structure Accounted (o : O) (s s' : ChangeTracker C O I) : Prop where
  unlinked : s.isOnChangeList o = true → s'.isOnChangeList o = false →
    ∃ b, completions s' o = completions s o ++ [b] ∧ isAllBitsCleared b = true
  kept : s.isOnChangeList o = false ∨ s'.isOnChangeList o = true → completions s' o = completions s o
  unlisted : s.isOnChangeList o = false → s'.isOnChangeList o = false

theorem Accounted.of_same (hon : s'.isOnChangeList o = s.isOnChangeList o)
    (hlog : completions s' o = completions s o) : Accounted o s s' where
  unlinked hlisted hunlisted := by simp [hon, hlisted] at hunlisted
  kept _ := hlog
  unlisted := hon.trans

theorem Completes.accounted (h : Completes s s') (o : O) : Accounted o s s' := by
  obtain ⟨done, hdone, hnodup, hclr, hmem⟩ := h.completed
  refine ⟨fun hlisted hunlisted => ?_, fun hsame => ?_, fun hunlisted => ?_⟩
  · obtain ⟨e, he, hfilter⟩ := filter_fst_eq_singleton hnodup ((hmem o).mpr ⟨hlisted, hunlisted⟩)
    exact ⟨e.2, by rw [completions_of_processed hdone, hfilter, map_singleton], hclr e he⟩
  · have hnm : o ∉ done.map Prod.fst := by
      rw [hmem o]
      rintro ⟨hlisted, hunlisted⟩
      simp [hlisted, hunlisted] at hsame
    rw [completions_of_processed hdone, filter_fst_eq_nil hnm, map_nil, append_nil]
  · cases hitem : s'.changeItem o with
    | none => rw [ChangeTracker.isOnChangeList, hitem]; rfl
    | some i =>
      rw [ChangeTracker.isOnChangeList, h.changeItem o i hitem] at hunlisted
      cases hunlisted

end

section

variable {op : Operation C O I}

section

variable (hx : Reachable (sparingSessions C O I) x) {bitmap : ConsumerBitmap}
include hx

theorem isOnChangeList_of_skip
    (hskip : x.tracker.shouldSkipChangePublication o bitmap = true) : x.tracker.isOnChangeList o = false := by
  have hinv := inv_of_reachable (reachable_of_sparing hx)
  by_contra hon
  rw [Bool.not_eq_false, isOnChangeList, Option.isSome_iff_exists] at hon
  obtain ⟨i, hitem⟩ := hon
  have hi := mem_of_changeItem hinv.consistent.listed hitem
  obtain ⟨p, hp⟩ := (not_isAllBitsCleared_iff _).mp (hinv.consistent.outstanding i hi)
  obtain ⟨c, hc, hvalid, -⟩ := tracked_of_reachable hx i p hp
  have hinUse := (hinv.registered.inUse p).mpr ⟨c, (hinv.registered.stored p c).mpr ⟨hc, hvalid⟩⟩
  have hcount := hinv.registered.valid.numBitsInUse_ne_zero hinUse
  simp [shouldSkipChangePublication, isOnChangeList, hitem, hcount] at hskip

theorem skipped_perform (address : I)
    (hskip : x.tracker.shouldSkipChangePublication o bitmap = true) :
    (x.perform (.publish address (some o) bitmap)).tracker =
      { x.tracker with processed := x.tracker.processed ++ [(o, [])] } := by
  have hoff := isOnChangeList_of_skip hx hskip
  rw [isOnChangeList, Option.isSome_eq_false_iff, Option.isNone_iff_eq_none] at hoff
  simp [Session.perform, perform, publishChange, hskip, hoff]

/-- A publication is skipped and only logged, or links the object without a call of the callback. -/
theorem publish_cases {address : I} (hop : (sparingSessions C O I).enabled x (.publish address (some o) bitmap)) :
    (x.tracker.shouldSkipChangePublication o bitmap = true ∧ (x.perform (.publish address (some o) bitmap)).tracker =
        { x.tracker with processed := x.tracker.processed ++ [(o, [])] }) ∨
      (x.perform (.publish address (some o) bitmap)).tracker.changeItem =
          Function.update x.tracker.changeItem o (some ((x.tracker.changeItem o).getD address)) ∧
        (x.perform (.publish address (some o) bitmap)).tracker.processed = x.tracker.processed := by
  have hinv := inv_of_reachable (reachable_of_sparing hx)
  rcases publishChange_spec hinv.consistent (fresh_of_admissible hop.1) bitmap with ⟨hskip, -⟩ | ⟨-, hpub⟩
  · exact Or.inl ⟨hskip, skipped_perform hx address hskip⟩
  · exact Or.inr ⟨hpub.changeItem, hpub.processed⟩

theorem accounted_perform (hop : (sparingSessions C O I).enabled x op)
    (hto : ∀ address bitmap, op ≠ .publish address (some o) bitmap) :
    Accounted o x.tracker (x.perform op).tracker := by
  by_cases hpublish : ∃ address o' bitmap, op = .publish address (some o') bitmap
  · obtain ⟨address, o', bitmap, rfl⟩ := hpublish
    have ho : o ≠ o' := fun ho => hto address bitmap (by rw [ho])
    rcases publish_cases hx hop with ⟨-, hperf⟩ | ⟨hitem, hlog⟩
    · refine .of_same (by rw [hperf]; rfl) ?_
      rw [completions_of_processed (congrArg processed hperf)]
      simp [ho.symm]
    · exact .of_same (by rw [isOnChangeList, hitem, Function.update_of_ne ho]; rfl) (completions_congr hlog)
  · push Not at hpublish
    exact ((stepOk_perform (inv_of_reachable (reachable_of_sparing hx)) hop.1).completes hpublish).accounted o

/-- An object goes off the list with one call of the callback and no bit left. It stays on it or comes onto it without
a call, and comes onto it by its publication. -/
theorem completions_perform (hop : (sparingSessions C O I).enabled x op) (o : O) :
    (x.tracker.isOnChangeList o = true → (x.perform op).tracker.isOnChangeList o = false →
        ∃ b, completions (x.perform op).tracker o = completions x.tracker o ++ [b] ∧ isAllBitsCleared b = true) ∧
      ((x.perform op).tracker.isOnChangeList o = true → completions (x.perform op).tracker o = completions x.tracker o ∧
        (x.tracker.isOnChangeList o = false → ∃ address bitmap, op = .publish address (some o) bitmap)) := by
  by_cases hto : ∃ address bitmap, op = .publish address (some o) bitmap
  · refine ⟨fun hon hoff => ?_, fun hon => ⟨?_, fun _ => hto⟩⟩ <;> obtain ⟨address, bitmap, rfl⟩ := hto <;>
      rcases publish_cases hx hop with ⟨hskip, hperf⟩ | ⟨hitem, hlog⟩
    · rw [isOnChangeList_of_skip hx hskip] at hon
      cases hon
    · rw [isOnChangeList, hitem, Function.update_self] at hoff
      cases hoff
    · rw [hperf] at hon
      exact (Bool.false_ne_true ((isOnChangeList_of_skip hx hskip).symm.trans hon)).elim
    · exact completions_congr hlog
  · push Not at hto
    have hrest := accounted_perform hx hop hto
    refine ⟨hrest.unlinked, fun hon => ⟨hrest.kept (Or.inr hon), fun hoff => ?_⟩⟩
    rw [hrest.unlisted hoff] at hon
    cases hon

/-- While an object stays on the list the callback is not called for it. -/
theorem completions_run_listed {ops : List (Operation C O I)} (hadm : Admits (sparingSessions C O I) x ops)
    (hlisted : ∀ k ≤ ops.length, (run (sparingSessions C O I) x (ops.take k)).tracker.isOnChangeList o = true) :
    ∀ k ≤ ops.length, completions (run (sparingSessions C O I) x (ops.take k)).tracker o = completions x.tracker o := by
  induction ops generalizing x with
  | nil =>
    intro k _
    rw [take_nil]
    rfl
  | cons op ops ih =>
    have hstep := (completions_perform hx hadm.1 o).2 (hlisted 1 (by simp))
    intro k hk
    cases k with
    | zero => rfl
    | succ k =>
      have hrest : ∀ k ≤ ops.length,
          (run (sparingSessions C O I) (x.perform op) (ops.take k)).tracker.isOnChangeList o = true :=
        fun k hk => hlisted (k + 1) (Nat.succ_le_succ hk)
      exact (ih (hx.step hadm.1) hadm.2 hrest k (Nat.le_of_succ_le_succ hk)).trans hstep.1

end

end

theorem exists_outstanding {s : ChangeTracker C O I} (hs : Consistent ∅ s) (ho : s.isOnChangeList o = true) :
    ∃ i, s.changeItem o = some i ∧ s.allConsumersProcessed i = false := by
  obtain ⟨i, hitem⟩ := Option.isSome_iff_exists.mp ho
  exact ⟨i, hitem, hs.outstanding i (mem_of_changeItem hs.listed hitem)⟩

/-- A publication with a bit set links an object that is off the list, without a call of the callback. -/
theorem linked_of_publish (hx : Reachable (sparingSessions C O I) x) {address : I}
    {bitmap : ConsumerBitmap} (hop : (sparingSessions C O I).enabled x (.publish address (some o) bitmap))
    (hoff : x.tracker.isOnChangeList o = false) (hbitmap : isAllBitsCleared bitmap = false) :
    (x.perform (.publish address (some o) bitmap)).tracker.changeItem o = some address ∧
      completions (x.perform (.publish address (some o) bitmap)).tracker o = completions x.tracker o := by
  have hinv := inv_of_reachable (reachable_of_sparing hx)
  rcases publish_cases hx hop with ⟨hskip, -⟩ | ⟨hitem, hlog⟩
  · -- a bit that is set belongs to a consumer that holds a position
    obtain ⟨p, hp⟩ := (not_isAllBitsCleared_iff _).mp hbitmap
    have hcount := hinv.registered.valid.numBitsInUse_ne_zero ((hinv.registered.cached p).mp (hop.1.2 p hp))
    simp [shouldSkipChangePublication, hcount, hbitmap] at hskip
  · have hnone : x.tracker.changeItem o = none := by simpa [isOnChangeList] using hoff
    exact ⟨by rw [hitem, hnone, Function.update_self, Option.getD_none], completions_congr hlog⟩

/-- In every run that publishes nothing to retired consumers, each time an object is on the list the
callback is called for it exactly once, by the operation that takes it off, when its item has no bit left,
and not while it has one. A skipped publication calls it at once and no other operation does, and an
object that is off the list can be published again. -/
theorem processed_once_per_episode (hx : Reachable (sparingSessions C O I) x) (o : O) :
    (∀ link ops, x.tracker.isOnChangeList o = false → Admits (sparingSessions C O I) x (link :: ops) →
      (∀ k ≤ ops.length, (run (sparingSessions C O I) (x.perform link) (ops.take k)).tracker.isOnChangeList o = true) →
      (∃ address bitmap, link = .publish address (some o) bitmap) ∧
      (∀ k ≤ ops.length,
        completions (run (sparingSessions C O I) (x.perform link) (ops.take k)).tracker o = completions x.tracker o ∧
        ∃ i, (run (sparingSessions C O I) (x.perform link) (ops.take k)).tracker.changeItem o = some i ∧
          (run (sparingSessions C O I) (x.perform link) (ops.take k)).tracker.allConsumersProcessed i = false) ∧
      ∀ unlink, (sparingSessions C O I).enabled (run (sparingSessions C O I) (x.perform link) ops) unlink →
        ((run (sparingSessions C O I) (x.perform link) ops).perform unlink).tracker.isOnChangeList o = false →
        ∃ b, completions ((run (sparingSessions C O I) (x.perform link) ops).perform unlink).tracker o =
          completions x.tracker o ++ [b] ∧ isAllBitsCleared b = true) ∧
    (∀ op, (sparingSessions C O I).enabled x op → x.tracker.isOnChangeList o = false →
      (x.perform op).tracker.isOnChangeList o = false → (∀ address bitmap, op ≠ .publish address (some o) bitmap) →
      completions (x.perform op).tracker o = completions x.tracker o) ∧
    (∀ address bitmap, x.tracker.shouldSkipChangePublication o bitmap = true → x.tracker.isOnChangeList o = false ∧
      (x.perform (.publish address (some o) bitmap)).tracker.isOnChangeList o = false ∧
      completions (x.perform (.publish address (some o) bitmap)).tracker o = completions x.tracker o ++ [[]]) ∧
    ∀ address bitmap, (sparingSessions C O I).enabled x (.publish address (some o) bitmap) →
      x.tracker.isOnChangeList o = false → isAllBitsCleared bitmap = false →
      (x.perform (.publish address (some o) bitmap)).tracker.changeItem o = some address ∧
      completions (x.perform (.publish address (some o) bitmap)).tracker o = completions x.tracker o := by
  refine ⟨fun link ops hoff hadm hlisted => ?_,
    fun op hop hoff _ hother => (accounted_perform hx hop hother).kept (.inl hoff),
    fun address bitmap hskip => ?_, fun address bitmap hop hoff hbitmap => linked_of_publish hx hop hoff hbitmap⟩
  · have hlink := (completions_perform hx hadm.1 o).2 (hlisted 0 (Nat.zero_le _))
    have hreach : Reachable (sparingSessions C O I) (x.perform link) := hx.step hadm.1
    have hlog : ∀ k ≤ ops.length, completions (run (sparingSessions C O I) (x.perform link) (ops.take k)).tracker o =
        completions x.tracker o := by
      intro k hk
      rw [← hlink.1]
      exact completions_run_listed hreach hadm.2 hlisted k hk
    refine ⟨hlink.2 hoff, fun k hk => ⟨hlog k hk, ?_⟩, fun unlink hunlink hoff' => ?_⟩
    · have hadm' : Admits (sparingSessions C O I) (x.perform link) (ops.take k) := by
        have hsplit : Admits (sparingSessions C O I) (x.perform link) (ops.take k ++ ops.drop k) := by
          rw [take_append_drop]
          exact hadm.2
        exact (admits_append.mp hsplit).1
      exact exists_outstanding (inv_of_reachable (reachable_of_sparing (hreach.run hadm'))).consistent (hlisted k hk)
    · have hend := hlisted ops.length (Nat.le_refl _)
      have hlogEnd := hlog ops.length (Nat.le_refl _)
      rw [take_length] at hend hlogEnd
      rw [← hlogEnd]
      exact (completions_perform (hreach.run hadm.2) hunlink o).1 hend hoff'
  · have hoff := isOnChangeList_of_skip hx hskip
    have hperf := skipped_perform hx address hskip
    refine ⟨hoff, by rw [hperf]; exact hoff, ?_⟩
    rw [completions_of_processed (congrArg processed hperf)]
    simp

theorem processed_once_after_deliveredTrace : let x := run (sparingSessions (Fin 2) Nat Nat) ⟨empty, ∅⟩ deliveredTrace
    completions (x.perform (.publish 2 (some 12) [])).tracker 12 = completions x.tracker 12 ++ [[]] :=
  ((processed_once_per_episode reachable_deliveredTrace 12).2.2.1 2 [] (by decide)).2.2

/-- With a change published to a retired consumer, which then goes and leaves its bit behind, the callback
is called for an object that is on the list with a bit set. -/
theorem processed_while_outstanding :
    ∃ x, Reachable (sessions (Fin 2) Nat Nat) x ∧ Admissible x.tracker (.publish 2 (some 11) []) ∧
      x.tracker.changeItem 11 = some 1 ∧ x.tracker.allConsumersProcessed 1 = false ∧
      completions x.tracker 11 = [] ∧
      completions (x.perform (.publish 2 (some 11) [])).tracker 11 = [[2]] ∧
      (x.perform (.publish 2 (some 11) [])).tracker.isOnChangeList 11 = true := by
  have hreach := Reachable.init.run admits_retiredTrace
  have hfreed : Reachable (sessions (Fin 2) Nat Nat) (Session.perform _ (.deregister 1)) := hreach.step trivial
  have hfreed' : Reachable (sessions (Fin 2) Nat Nat) (Session.perform _ (.deregister 0)) := hfreed.step trivial
  refine ⟨_, hfreed', ?_, ?_, ?_, ?_, ?_, ?_⟩
  · exact admissible_publish (Or.inl (by decide)) (by decide)
  all_goals decide

end FbossBgp.ChangeTracker
