import FbossBgp.ChangeTracker.Acks

/-! The polled iteration of one consumer: what the cycle keeps from turn to turn, where it ends and which
items it hands to the callback. -/

namespace FbossBgp.ChangeTracker

open ListCursor List BitmapUtils

variable {C O I : Type*} [DecidableEq C] [DecidableEq O] [DecidableEq I]

/-- Where a polling cycle of the consumer stands: its marker is at the head of `rest`, the end of the
list, and it is ready when nothing is left. -/
structure Cycle (c : C) (s t : ChangeTracker C O I) (rest : List I) : Prop where
  acked : Acked c s t
  consistent : Consistent {k | k = c ∧ rest ≠ []} t
  marker : t.marker c = rest.head?
  split : ∃ pre, t.changeList = pre ++ rest
  ready : rest = [] → t.isInReadyList c = true
  owned : TracksOwned s c → ∀ j, t.owns c j = true → j ∈ rest

section

variable {s t : ChangeTracker C O I} {c : C} {x : I} {rest : List I}

theorem sameItems_moveMarker (s : ChangeTracker C O I) (c : C) (n : Option I) : SameItems s (s.moveMarker c n) := by
  cases n with
  | none => exact (sameItems_setMarker s c none).trans (sameItems_addToReadyConsumers _ c)
  | some n => exact sameItems_setMarker s c (some n)

theorem place_moveMarker (s : ChangeTracker C O I) (c : C) (n : Option I) (k : C) : (s.moveMarker c n).place k =
    if k = c then (n, s.hook c, n.isNone || s.isInReadyList c) else s.place k := by
  cases n <;> by_cases hk : k = c <;> simp [moveMarker, place, hk]

theorem Linked.moveMarker (hs : Linked {c} s) (rest : List I) :
    Linked {k | k = c ∧ rest ≠ []} (s.moveMarker c rest.head?) := by
  cases rest with
  | nil =>
    have hset : {k | k = c ∧ ([] : List I) ≠ []} = (∅ : Set C) := by simp
    rw [hset]
    rw [← LawfulSingleton.insert_empty_eq] at hs
    exact (hs.setMarker (Set.mem_insert c ∅) none).addToReadyConsumers (Set.notMem_empty c) (by simp)
  | cons x rest =>
    have hset : {k | k = c ∧ x :: rest ≠ []} = ({c} : Set C) := by simp
    rw [hset]
    exact hs.setMarker rfl (some x)

/-- The skip loop of `markProcessed` stops at the first item of the consumer after the given one. -/
theorem skipUnowned_spec (ht : Listed t) (c : C) {pre : List I} (hsplit : t.changeList = pre ++ x :: rest) :
    ∃ visited rest', rest = visited ++ rest' ∧ (∀ y ∈ visited, t.owns c y = false) ∧
      (∀ y ∈ rest'.head?, t.owns c y = true) ∧ t.skipUnowned c (t.getNext x) = rest'.head? := by
  have hfuel : rest.length ≤ t.changeList.length := by
    rw [hsplit, length_append, length_cons]
    omega
  let atEnd (t' : ChangeTracker C O I) (rest : List I) : Prop := t' = t ∧ ∃ before, t.changeList = before ++ rest
  have hturn : ∀ t' y after, atEnd t' (y :: after) → t.owns c y = false →
      t'.getNext y = after.head? ∧ atEnd t' after := by
    rintro t' y after ⟨rfl, before, hlist⟩ -
    exact ⟨ht.getNext_eq hlist, rfl, before ++ [y], by rw [hlist, append_cons]⟩
  obtain ⟨visited, rest', hrest, hvis, hexit, hcursor, -⟩ :=
    walk_rule atEnd hturn hfuel ⟨rfl, pre ++ [x], by rw [hsplit, append_cons]⟩
  refine ⟨visited, rest', hrest, hvis, hexit, ?_⟩
  rw [ht.getNext_eq hsplit]
  exact hcursor

theorem Cycle.consistent_cons (h : Cycle c s t (x :: rest)) : Consistent {c} t := by
  have hset : {k | k = c ∧ x :: rest ≠ []} = ({c} : Set C) := by simp
  exact hset ▸ h.consistent

theorem Cycle.consistent_nil (h : Cycle c s t []) : Consistent ∅ t := by
  have hset : {k | k = c ∧ ([] : List I) ≠ []} = (∅ : Set C) := by simp
  exact hset ▸ h.consistent

/-- One turn of the cycle: the item at the marker is acknowledged and the marker moves to the next item
of the consumer. -/
theorem Cycle.markProcessed (h : Cycle c s t (x :: rest)) :
    ∃ visited rest', rest = visited ++ rest' ∧ (∀ y ∈ visited, t.owns c y = false) ∧
      (∀ y ∈ rest'.head?, t.owns c y = true) ∧ Cycle c s (t.markProcessed c x) rest' ∧
      ∀ y ∈ rest', (t.markProcessed c x).consumerBitmap y = t.consumerBitmap y := by
  obtain ⟨pre, hsplit⟩ := h.split
  have hs := h.consistent_cons
  have hx : x ∈ t.changeList := by simp [hsplit]
  have hhook : t.hook c = none := hs.linked.detached_hook c rfl
  have hxrest : x ∉ rest := (nodup_cons.mp (nodup_append.mp (hsplit ▸ hs.listed.nodup)).2.1).1
  obtain ⟨visited, rest', hrest, hvis, hexit, hskip⟩ := skipUnowned_spec hs.listed c hsplit
  have hclr := (cleared_markConsumerProcessed hs.listed hx c).sameItems
    (sameItems_moveMarker _ c rest'.head?) fun k hk => (place_moveMarker ..).trans (if_neg hk)
  have hlink : Linked {k | k = c ∧ rest' ≠ []}
      ((t.markConsumerProcessed x (t.bitPosition c)).moveMarker c rest'.head?) :=
    (hs.linked.sameLinks (sameLinks_setConsumerBitMap t x _)).moveMarker rest'
  obtain ⟨hcons, hacked, hbit, hset⟩ := hclr.settle hs hx hlink fun k hk => hk.1
  have heq : t.markProcessed c x =
      ((t.markConsumerProcessed x (t.bitPosition c)).moveMarker c rest'.head?).checkAndNotifyProducer x := by
    simp only [ChangeTracker.markProcessed, removePendingConsumer_of_hook_none hhook, hskip]
  rw [← heq] at hcons hacked hbit hset
  have hmoved := (place_moveMarker (t.markConsumerProcessed x (t.bitPosition c)) c rest'.head? c).trans (if_pos rfl)
  have hplace := (hset.unlinked c ((congrArg (·.2.1) hmoved).trans hhook)).trans hmoved
  have hlist : ∃ pre', (t.markProcessed c x).changeList = pre' ++ rest' := by
    rcases hset.changeList with hlist | hlist <;> rw [hclr.changeList, hsplit, hrest] at hlist
    · exact ⟨pre ++ x :: visited, by rw [hlist]; simp⟩
    · rw [erase_append_right _ (hs.listed.notMem_pre hsplit)] at hlist
      exact ⟨pre ++ visited, by rw [hlist]; simp⟩
  have hbitmap : ∀ y ∈ rest', (t.markProcessed c x).consumerBitmap y = t.consumerBitmap y := by
    intro y hy
    obtain ⟨pre', hpre'⟩ := hlist
    rw [hset.consumerBitmap y (by rw [hpre']; exact mem_append_right _ hy), hclr.untouched y]
    rintro rfl
    exact hxrest (hrest ▸ mem_append_right _ hy)
  refine ⟨visited, rest', hrest, hvis, hexit, ⟨h.acked.trans hacked, hcons, congrArg Prod.fst hplace, hlist,
    fun hnil => ?_, fun htr j howns => ?_⟩, hbitmap⟩
  · exact (congrArg (·.2.2) hplace).trans (by rw [hnil])
  · -- what the consumer still owns was ahead of it, is not the item just acknowledged and was not skipped
    rw [owns, hacked.bitPosition] at howns
    have hbef : t.owns c j = true := hacked.cleared j _ howns
    rcases mem_cons.mp (h.owned htr j hbef) with rfl | hmem
    · rw [hbit] at howns
      cases howns
    · rw [hrest, mem_append] at hmem
      refine hmem.resolve_left fun hmem => ?_
      rw [hvis j hmem] at hbef
      cases hbef

end

section

variable {s t : ChangeTracker C O I} {c : C} {rest : List I}

/-- What the polling cycle does from a given point on: it stops at the boundary, at an item the callback
yields on or at the end of the list. It calls the callback on everything the consumer owned before that
and leaves the rest as it was. -/
theorem Cycle.iterateLoop (untilMarker : Option I) (callback : I → ProcessResult) {fuel : Nat}
    (hfuel : rest.length ≤ fuel) (h : Cycle c s t rest) :
    ∃ rest', Cycle c s (iterateLoop c untilMarker callback fuel t).1 rest' ∧
      (∀ y ∈ rest'.head?, some y = untilMarker ∨ callback y = .YIELD) ∧
      (∀ j ∈ rest, t.owns c j = true → j ∈ (iterateLoop c untilMarker callback fuel t).2.map Prod.fst ∨
          j ∈ rest' ∧ (iterateLoop c untilMarker callback fuel t).1.consumerBitmap j = t.consumerBitmap j) ∧
      ((∀ y ∈ rest.head?, t.owns c y = true) →
        ∀ e ∈ (iterateLoop c untilMarker callback fuel t).2, isBitSet e.2 (s.bitPosition c) = true) ∧
      ∀ y ∈ rest.head?, some y ≠ untilMarker →
        (y, t.consumerBitmap y) ∈ (iterateLoop c untilMarker callback fuel t).2 := by
  induction fuel generalizing t rest with
  | zero =>
    obtain rfl := eq_nil_of_length_eq_zero (Nat.le_zero.mp hfuel)
    exact ⟨[], h, by simp, by simp, by simp [ChangeTracker.iterateLoop], by simp⟩
  | succ n ih =>
    cases rest with
    | nil =>
      have hmk := h.marker
      simp only [ChangeTracker.iterateLoop, hmk]
      exact ⟨[], h, by simp, by simp, by simp, by simp⟩
    | cons x rest =>
      have hmk := h.marker
      rw [List.head?_cons] at hmk
      by_cases huntil : some x = untilMarker
      · simp only [ChangeTracker.iterateLoop, hmk, if_pos huntil]
        refine ⟨x :: rest, h, ?_, fun j hj _ => Or.inr ⟨hj, trivial⟩, by simp, ?_⟩
        · exact fun y hy => Or.inl (Option.some.inj hy ▸ huntil)
        · exact fun y hy hne => absurd (Option.some.inj hy ▸ huntil) hne
      · cases hres : callback x with
        | YIELD =>
          simp only [ChangeTracker.iterateLoop, hmk, if_neg huntil, hres]
          refine ⟨x :: rest, h, ?_, fun j hj _ => Or.inr ⟨hj, trivial⟩, fun howned e he => ?_, ?_⟩
          · exact fun y hy => Or.inr (Option.some.inj hy ▸ hres)
          · rw [mem_singleton.mp he, ← h.acked.bitPosition]
            exact howned x rfl
          · exact fun y hy _ => by rw [← Option.some.inj hy]; exact mem_singleton_self _
        | CONTINUE =>
          obtain ⟨visited, rest', hrest, hvis, hexit, hcycle, hbitmap⟩ := h.markProcessed
          have hfuel' : rest'.length ≤ n := by
            rw [hrest, length_cons, length_append] at hfuel
            omega
          have howns : ∀ j ∈ rest', (t.markProcessed c x).owns c j = t.owns c j := by
            intro j hj
            rw [owns, owns, hbitmap j hj, hcycle.acked.bitPosition, h.acked.bitPosition]
          obtain ⟨final, hfinal, hstop, hdelivered, hbits, -⟩ := ih hfuel' hcycle
          simp only [ChangeTracker.iterateLoop, hmk, if_neg huntil, hres]
          refine ⟨final, hfinal, hstop, fun j hj hjowns => ?_, fun howned e he => ?_, ?_⟩
          · -- an owned item is the one just processed or is still ahead of the marker
            rcases mem_cons.mp hj with rfl | hj
            · exact Or.inl (mem_cons_self ..)
            · rw [hrest, mem_append] at hj
              have hahead : j ∈ rest' := hj.resolve_left fun hmem => by
                rw [hvis j hmem] at hjowns
                cases hjowns
              exact (hdelivered j hahead (by rw [howns j hahead, hjowns])).imp
                (mem_cons_of_mem x) fun hleft => ⟨hleft.1, hleft.2.trans (hbitmap j hahead)⟩
          · rcases mem_cons.mp he with rfl | he
            · rw [← h.acked.bitPosition]
              exact howned x rfl
            · refine hbits (fun y hy => ?_) e he
              rw [howns y (mem_of_head? hy)]
              exact hexit y hy
          · exact fun y hy _ => by rw [← Option.some.inj hy]; exact mem_cons_self ..

theorem Cycle.start {m : I} (hs : Consistent ∅ s) (hm : s.marker c = some m) :
    Cycle c s (s.removePendingConsumer c) (suffixFrom s.changeList m) := by
  obtain ⟨-, hmem, hready⟩ := hs.mem_of_marker hm
  obtain ⟨pre, suf, hlist, -, hsuf⟩ := exists_split hmem
  have hsame := sameItems_removePendingConsumer s c
  rw [hsuf]
  have hset : {k | k = c ∧ m :: suf ≠ []} = ({c} : Set C) := by simp
  refine ⟨acked_removePendingConsumer s c, hset ▸ hs.detach hready, ?_, ⟨pre, ?_⟩, by simp, fun htr j howns => ?_⟩
  · rw [marker_removePendingConsumer, hm, List.head?_cons]
  · rw [hsame.changeList, hlist]
  · obtain ⟨m', hm', hmem'⟩ := htr j (hsame.owns ▸ howns)
    rw [hm, Option.some.injEq] at hm'
    rwa [← hm', hsuf] at hmem'

theorem Cycle.finish (h : Cycle c s t rest) : Advanced c s (t.endProcessing c) ∧ ¬Idle (t.endProcessing c) c := by
  have hsame := sameItems_endProcessing t c
  have hmk := h.marker
  cases rest with
  | nil =>
    rw [endProcessing_of_none hmk]
    refine ⟨⟨h.acked, h.consistent_nil, fun htr j howns => ?_⟩, fun hidle => ?_⟩
    · exact absurd (h.owned htr j howns) not_mem_nil
    · have hready := hidle.2.2
      rw [h.ready rfl] at hready
      cases hready
  | cons x rest =>
    obtain ⟨pre, hsplit⟩ := h.split
    rw [List.head?_cons] at hmk
    rw [endProcessing_eq hmk] at hsame ⊢
    refine ⟨⟨h.acked.trans (acked_pushPendingConsumer t x c),
      h.consistent_cons.attachPending hmk (by simp [hsplit]), fun htr j howns => ⟨x, ?_, ?_⟩⟩, fun hidle => ?_⟩
    · rw [marker_pushPendingConsumer, hmk]
    · rw [hsame.changeList, h.consistent.listed.suffixFrom_eq hsplit]
      exact h.owned htr j (hsame.owns ▸ howns)
    · have hnone := hidle.1
      rw [marker_pushPendingConsumer, hmk] at hnone
      cases hnone

end

section

variable {s : ChangeTracker C O I} {c : C} {untilMarker : Option I} {callback : I → ProcessResult} {j : I}

theorem iterateChangesUntilExcluding_of_boundary (h : untilMarker.any (fun u => !s.owns c u) = true) :
    s.iterateChangesUntilExcluding c untilMarker callback = (s, []) := by
  rw [iterateChangesUntilExcluding, if_pos h]

theorem iterateChangesUntilExcluding_of_none (hm : s.marker c = none) :
    s.iterateChangesUntilExcluding c untilMarker callback = (s, []) := by
  have hloop : iterateLoop c untilMarker callback s.changeList.length s = (s, []) := by
    cases s.changeList.length with
    | zero => rfl
    | succ n => simp only [iterateLoop, hm]
  unfold iterateChangesUntilExcluding
  split
  · rfl
  · simp only [hm, hloop, endProcessing_of_none hm]

theorem iterateChangesUntilExcluding_of_marker {m : I} (hm : s.marker c = some m)
    (h : untilMarker.any (fun u => !s.owns c u) = false) : s.iterateChangesUntilExcluding c untilMarker callback =
      ((iterateLoop c untilMarker callback s.changeList.length (s.removePendingConsumer c)).1.endProcessing c,
        (iterateLoop c untilMarker callback s.changeList.length (s.removePendingConsumer c)).2) := by
  simp only [iterateChangesUntilExcluding, h, Bool.false_eq_true, if_false, hm]

section

variable (hs : Consistent ∅ s)
include hs

/-- Iterating acknowledges items for the consumer; it is idle afterwards only if it was idle before. -/
theorem iterateChangesUntilExcluding_spec (c : C) (untilMarker : Option I)
    (callback : I → ProcessResult) : Advanced c s (s.iterateChangesUntilExcluding c untilMarker callback).1 ∧
      (Idle (s.iterateChangesUntilExcluding c untilMarker callback).1 c ↔ Idle s c) := by
  cases hbd : untilMarker.any (fun u => !s.owns c u) with
  | true =>
    rw [iterateChangesUntilExcluding_of_boundary hbd]
    exact ⟨.refl hs, Iff.rfl⟩
  | false =>
    cases hm : s.marker c with
    | none =>
      rw [iterateChangesUntilExcluding_of_none hm]
      exact ⟨.refl hs, Iff.rfl⟩
    | some m =>
      obtain ⟨_, hcycle, -⟩ :=
        (Cycle.start hs hm).iterateLoop untilMarker callback (suffixFrom_length_le s.changeList m)
      obtain ⟨hadvd, hidle⟩ := hcycle.finish
      rw [iterateChangesUntilExcluding_of_marker hm hbd]
      refine ⟨hadvd, iff_of_false hidle fun h => ?_⟩
      have hnone := h.1
      rw [hm] at hnone
      cases hnone

/-- The callback is called on the consumer's own items only, exactly when the call starts on one, has no
marker to start from, or is given a boundary that is not the consumer's. -/
theorem forall_delivered_iff : (∀ e ∈ (s.iterateChangesUntilExcluding c untilMarker callback).2,
      isBitSet e.2 (s.bitPosition c) = true) ↔
    s.marker c = none ∨ (∃ u, untilMarker = some u ∧ s.owns c u = false) ∨
      ∃ m, s.marker c = some m ∧ s.owns c m = true := by
  cases hbd : untilMarker.any (fun u => !s.owns c u) with
  | true =>
    rw [iterateChangesUntilExcluding_of_boundary hbd]
    simp only [not_mem_nil, false_implies, implies_true, true_iff]
    cases untilMarker with
    | none => cases hbd
    | some u => exact Or.inr (Or.inl ⟨u, rfl, by simpa using hbd⟩)
  | false =>
    cases hm : s.marker c with
    | none =>
      rw [iterateChangesUntilExcluding_of_none hm]
      simp
    | some m =>
      obtain ⟨-, hmem, -⟩ := hs.mem_of_marker hm
      have hsame := sameItems_removePendingConsumer s c
      have howns : ∀ j, (s.removePendingConsumer c).owns c j = s.owns c j := by
        intro j
        rw [owns, owns, hsame.bitPosition, hsame.consumerBitmap]
      obtain ⟨_, -, -, -, hbits, hfirst⟩ :=
        (Cycle.start hs hm).iterateLoop untilMarker callback (suffixFrom_length_le s.changeList m)
      rw [head?_suffixFrom hmem] at hbits hfirst
      rw [iterateChangesUntilExcluding_of_marker hm hbd]
      have hnot : ¬∃ u, untilMarker = some u ∧ s.owns c u = false := by
        rintro ⟨u, rfl, hu⟩
        simp [hu] at hbd
      simp only [reduceCtorEq, hnot, false_or, Option.some.injEq, exists_eq_left']
      constructor
      · intro hall
        by_contra hunowned
        -- the boundary is the consumer's own, so the first item is not it and is delivered
        have hne : some m ≠ untilMarker := by
          intro heq
          exact hnot ⟨m, heq.symm, by simpa using hunowned⟩
        have hbit := hall _ (hfirst m rfl hne)
        rw [hsame.consumerBitmap] at hbit
        exact hunowned hbit
      · intro hmowns
        refine hbits fun y hy => ?_
        rw [howns, ← Option.some.inj hy]
        exact hmowns

/-- An item the consumer owns is handed to the callback or still carries the bit after the cycle. -/
theorem delivered_or_owns (htr : TracksOwned s c) (howns : s.owns c j = true) :
    j ∈ (s.iterateChangesUntilExcluding c untilMarker callback).2.map Prod.fst ∨
      (s.iterateChangesUntilExcluding c untilMarker callback).1.owns c j = true := by
  obtain ⟨m, hm, hsuf⟩ := htr j howns
  cases hbd : untilMarker.any (fun u => !s.owns c u) with
  | true =>
    rw [iterateChangesUntilExcluding_of_boundary hbd]
    exact Or.inr howns
  | false =>
    have hsame := sameItems_removePendingConsumer s c
    obtain ⟨_, hcycle, -, hdelivered, -⟩ :=
      (Cycle.start hs hm).iterateLoop untilMarker callback (suffixFrom_length_le s.changeList m)
    rw [iterateChangesUntilExcluding_of_marker hm hbd]
    refine (hdelivered j hsuf ?_).imp id fun hleft => ?_
    · rw [owns, hsame.bitPosition, hsame.consumerBitmap]
      exact howns
    · have hsame' := sameItems_endProcessing
        (iterateLoop c untilMarker callback s.changeList.length (s.removePendingConsumer c)).1 c
      rw [owns, hsame'.bitPosition, hsame'.consumerBitmap, hleft.2, hcycle.acked.bitPosition, hsame.consumerBitmap]
      exact howns

/-- A cycle that is never told to yield hands every item the consumer owns to the callback. -/
theorem mem_delivered_of_owns (htr : TracksOwned s c)
    (hgo : ∀ i, callback i = .CONTINUE) (howns : s.owns c j = true) :
    j ∈ (s.iterateChangesToEnd c callback).2.map Prod.fst := by
  obtain ⟨m, hm, hsuf⟩ := htr j howns
  have hsame := sameItems_removePendingConsumer s c
  obtain ⟨rest', -, hstop, hdelivered, -, -⟩ :=
    (Cycle.start hs hm).iterateLoop none callback (suffixFrom_length_le s.changeList m)
  rw [iterateChangesToEnd, iterateChangesUntilExcluding_of_marker hm rfl]
  refine (hdelivered j hsuf ?_).resolve_right fun hmem => ?_
  · rw [owns, hsame.bitPosition, hsame.consumerBitmap]
    exact howns
  · cases rest' with
    | nil => exact absurd hmem.1 not_mem_nil
    | cons y rest' =>
      rcases hstop y rfl with h | h
      · cases h
      · rw [hgo y] at h
        cases h

end

end

section

variable (s : ChangeTracker C O I) (c : C) (callback : I → ProcessResult)

theorem sameRegistration_checkAndNotifyProducer (i : I) : SameRegistration s (s.checkAndNotifyProducer i) := by
  unfold checkAndNotifyProducer
  split
  · exact (sameItems_updateItemPendingConsumers s i).toSameRegistration.trans (sameRegistration_retireItem _ i)
  · exact .refl s

theorem consumeLoop_delivers_owned (fuel : Nat) (s : ChangeTracker C O I) :
    ∀ e ∈ (consumeLoop c callback fuel s).2, isBitSet e.2 (s.bitPosition c) = true := by
  induction fuel generalizing s with
  | zero => simp [consumeLoop]
  | succ n ih =>
    unfold consumeLoop
    split
    · simp
    · cases s.marker c with
      | none => simp
      | some i =>
        dsimp only
        split
        · have hsame := sameItems_setMarker s c (s.getNext i)
          rw [← hsame.bitPosition]
          exact ih _
        · rename_i howns
          simp only [Bool.not_eq_true', Bool.not_eq_false] at howns
          cases callback i with
          | YIELD =>
            intro e he
            rw [mem_singleton.mp he]
            exact howns
          | CONTINUE =>
            intro e he
            rcases mem_cons.mp he with rfl | he
            · exact howns
            · have hsame := ((sameRegistration_setConsumerBitMap s i
                (clearBit (s.consumerBitmap i) (s.bitPosition c))).trans
                  (sameItems_setMarker _ c (s.getNext i)).toSameRegistration).trans
                    (sameRegistration_checkAndNotifyProducer _ i)
              rw [← hsame.bitPosition]
              exact ih _ e he

/-- The coroutine's loop calls the callback on the consumer's own items only, from any state. -/
theorem consumeChanges_delivers_owned :
    ∀ e ∈ (s.consumeChanges c callback).2, isBitSet e.2 (s.bitPosition c) = true := by
  unfold consumeChanges
  cases s.marker c with
  | none => exact consumeLoop_delivers_owned c callback _ s
  | some m =>
    rw [← (sameItems_removePendingConsumer s c).bitPosition]
    exact consumeLoop_delivers_owned c callback _ _

end

end FbossBgp.ChangeTracker
