import FbossBgp.ChangeTracker.Acks

/-! Publishing a change: the object's item, new or moved, becomes the last of the list, and the ready
consumers are parked on it. -/

namespace FbossBgp.ChangeTracker

open ListCursor List BitmapUtils

variable {C O I : Type*} [DecidableEq C] [DecidableEq O] [DecidableEq I]

section

variable {s : ChangeTracker C O I} {i : I}

/-- What the loop of `notifyReadyConsumers` does to the links of the consumers it goes through. -/
theorem notifyReadyConsumer_foldl {todo : List C} (hnodup : todo.Nodup) (hhook : ∀ c ∈ todo, s.hook c = none)
    (hi : (s.trackableObject i).isSome) :
    (∀ k, (todo.foldl (notifyReadyConsumer i) s).place k = if k ∈ todo then (some i, some i, false) else s.place k) ∧
      ∀ j, (todo.foldl (notifyReadyConsumer i) s).pendingConsumers j =
        if j = i then s.pendingConsumers j ++ todo else s.pendingConsumers j := by
  induction todo generalizing s with
  | nil => simp
  | cons c todo ih =>
    have hc : (s.setMarker c (some i)).hook c = none := by
      rw [hook_setMarker]
      exact hhook c (mem_cons_self ..)
    obtain ⟨hnm, hnodup'⟩ := nodup_cons.mp hnodup
    have hplace : ∀ k, (notifyReadyConsumer i s c).place k = if k = c then (some i, some i, false) else s.place k := by
      intro k
      rw [place, notifyReadyConsumer, hook_setInReadyList, hook_pushPendingConsumer _ _ _ hc]
      by_cases hk : k = c <;> simp [place, hk]
    have hpend : ∀ j, (notifyReadyConsumer i s c).pendingConsumers j =
        if j = i then s.pendingConsumers j ++ [c] else s.pendingConsumers j := by
      intro j
      rw [notifyReadyConsumer, pendingConsumers_setInReadyList, pendingConsumers_pushPendingConsumer _ _ _ hc hi,
        pendingConsumers_setMarker]
    have hsame : SameItems s (notifyReadyConsumer i s c) :=
      ((sameItems_setMarker s c _).trans (sameItems_pushPendingConsumer _ i c)).trans
        (sameItems_setInReadyList _ c false)
    obtain ⟨hplace', hpend'⟩ := ih hnodup'
      (fun k hk => by
        have hkeeps := hplace k
        rw [if_neg fun heq : k = c => hnm (heq ▸ hk)] at hkeeps
        exact (congrArg (·.2.1) hkeeps).trans (hhook k (mem_cons_of_mem c hk)))
      (by rw [hsame.trackableObject]; exact hi)
    refine ⟨fun k => ?_, fun j => ?_⟩
    · rw [foldl_cons, hplace', hplace]
      by_cases hk : k = c <;> simp [hk]
    · rw [foldl_cons, hpend', hpend]
      by_cases hj : j = i <;> simp [hj]

/-- The ready consumers are parked on the item, and the ready set is empty. -/
theorem notifyReadyConsumers_spec (hs : Linked ∅ s) (hi : (s.trackableObject i).isSome) :
    Linked ∅ (s.notifyReadyConsumers i) ∧ ∀ k, (s.notifyReadyConsumers i).place k =
      if s.isInReadyList k then (some i, some i, false) else s.place k := by
  obtain ⟨hplace, hpend⟩ := notifyReadyConsumer_foldl hs.ready_nodup
    (fun c hc => hs.ready_unlinked c ((hs.mem_ready c).mp hc)) hi
  simp only [hs.mem_ready] at hplace
  have hhook : ∀ k, (s.readyConsumers.foldl (notifyReadyConsumer i) s).hook k =
      if s.isInReadyList k then some i else s.hook k := fun k =>
    (congrArg (·.2.1) (hplace k)).trans (by split <;> rfl)
  have hready : ∀ k, (s.notifyReadyConsumers i).isInReadyList k = false := by
    intro k
    refine (congrArg (·.2.2) (hplace k)).trans ?_
    split
    · rfl
    next hk => exact Bool.not_eq_true _ ▸ hk
  refine ⟨⟨fun j => ?_, fun j k => ?_, fun k _ => ?_, nodup_nil, fun k => ?_, fun k hk => ?_, ?_, ?_⟩, hplace⟩
  · change (List.foldl (notifyReadyConsumer i) s s.readyConsumers).pendingConsumers j |>.Nodup
    rw [hpend]
    split
    · refine (hs.pending_nodup j).append hs.ready_nodup fun k hk hk' => ?_
      rw [hs.mem_pending] at hk
      rw [hs.mem_ready] at hk'
      rw [hs.ready_unlinked k hk'] at hk
      cases hk
    · exact hs.pending_nodup j
  · change k ∈ (List.foldl (notifyReadyConsumer i) s s.readyConsumers).pendingConsumers j ↔
      (List.foldl (notifyReadyConsumer i) s s.readyConsumers).hook k = some j
    rw [hpend, hhook]
    by_cases hk : s.isInReadyList k = true
    · have hnone := hs.ready_unlinked k hk
      by_cases hj : j = i
      · simp [hj, hk, hs.mem_ready]
      · simp [hj, hs.mem_pending, hnone, Ne.symm hj]
    · by_cases hj : j = i
      · simp [hj, hk, hs.mem_ready, hs.mem_pending]
      · simp [hj, hk, hs.mem_pending]
  · refine (congrArg Prod.fst (hplace k)).trans (((congrArg (·.2.1) (hplace k)).trans ?_).symm)
    split
    · rfl
    · exact (hs.marker_eq k (Set.notMem_empty k)).symm
  · rw [hready]
    simp [notifyReadyConsumers]
  · rw [hready] at hk
    cases hk
  · exact fun k hk => absurd hk (Set.notMem_empty k)
  · exact fun k hk => absurd hk (Set.notMem_empty k)

end

/-- The state with the object's item at the end of the list, before the ready consumers are notified. -/
structure Prepared (o : O) (i : I) (bitmap : ConsumerBitmap) (s t : ChangeTracker C O I) : Prop
    extends SameRegistration s t where
  changeList : t.changeList = s.changeList.erase i ++ [i]
  trackableObject : ∀ j, t.trackableObject j = if j = i then some o else s.trackableObject j
  changeItem : t.changeItem = Function.update s.changeItem o (some i)
  processed : t.processed = s.processed
  bits : ∀ j p, isBitSet (t.consumerBitmap j) p =
    (isBitSet (s.consumerBitmap j) p || (decide (j = i) && isBitSet bitmap p))
  linked : Linked ∅ t
  idle : ∀ k, Idle t k ↔ Idle s k
  tracks : ∀ k j, j ≠ i → Tracks s k j → Tracks t k j

section

variable {s : ChangeTracker C O I} {o : O} {i : I} {bitmap : ConsumerBitmap}

/-- Moving the consumers parked on an item that is about to go to the end of the list. -/
theorem unparkForMove_spec (hs : Consistent ∅ s) (hi : i ∈ s.changeList) :
    let updated := if s.changeListHasOnlyOneItem then s else s.updateItemPendingConsumers i
    SameItems s updated ∧ Linked ∅ updated ∧ (∀ k, Idle updated k ↔ Idle s k) ∧
      ∀ k j, j ≠ i → Tracks s k j → ∃ m, updated.marker k = some m ∧ j ∈ suffixFrom (s.changeList.erase i ++ [i]) m := by
  intro updated
  by_cases honly : s.changeListHasOnlyOneItem = true
  · rw [show updated = s from if_pos honly]
    refine ⟨.refl s, hs.linked, fun _ => Iff.rfl, ?_⟩
    rintro k j hj ⟨m, -, hsuf⟩
    -- the only item is the one that moves
    obtain ⟨x, hx⟩ := length_eq_one_iff.mp (beq_iff_eq.mp honly)
    have hmem := mem_of_mem_suffixFrom hsuf
    rw [hx, mem_singleton] at hi hmem
    exact absurd (hmem.trans hi.symm) hj
  · rw [show updated = s.updateItemPendingConsumers i from if_neg honly]
    obtain ⟨hlink, hplaces⟩ := updateItemPendingConsumers_spec hs.linked (getNext_live (i := i) hs.listed)
    refine ⟨sameItems_updateItemPendingConsumers s i, hlink, fun k => idle_moved_iff (hplaces k), ?_⟩
    rintro k j hj ⟨m, hm, hsuf⟩
    have hmk := congrArg Prod.fst (hplaces k)
    rw [show s.hook k = some m by rw [← hs.linked.marker_eq k (Set.notMem_empty k), hm]] at hmk
    by_cases hmi : m = i
    · obtain ⟨n, hn, hsuf'⟩ := mem_suffixFrom_next hs.listed.nodup (hmi ▸ hsuf) hj
      rw [hmi, if_pos rfl] at hmk
      exact ⟨n, hmk.trans hn, mem_suffixFrom_append (mem_suffixFrom_erase hsuf' (next_ne_self hs.listed.nodup hn) hj)⟩
    · rw [if_neg (by simpa using hmi)] at hmk
      exact ⟨m, hmk.trans hm, mem_suffixFrom_append (mem_suffixFrom_erase hsuf hmi hj)⟩

theorem prepared_unlinkForMove (hs : Consistent ∅ s) (ho : s.changeItem o = some i) : Prepared o i bitmap s
    { s.unlinkForMove i bitmap with changeList := (s.unlinkForMove i bitmap).changeList ++ [i] } := by
  have hobj := (hs.listed.owner i o).mpr ho
  have hi : i ∈ s.changeList := (hs.listed.mem_iff i).mpr (by rw [hobj]; rfl)
  obtain ⟨hsame, hlink, hidle, htr⟩ := unparkForMove_spec hs hi
  simp only [unlinkForMove, if_pos hi]
  generalize (if s.changeListHasOnlyOneItem then s else s.updateItemPendingConsumers i) = updated at *
  have hlive : (updated.trackableObject i).isSome := by
    rw [hsame.trackableObject, hobj]
    rfl
  have hlinks := sameLinks_setConsumerBitMap { updated with changeList := updated.changeList.erase i } i
    (orBitmaps (s.consumerBitmap i) bitmap)
  refine ⟨⟨hsame.bitPosition, hsame.consumers, hsame.consumerBitManager, hsame.cachedConsumerBitmap⟩, ?_,
    fun j => ?_, ?_, hsame.processed, fun j p => ?_, ?_, hidle, ?_⟩
  · rw [← hsame.changeList]
    rfl
  · refine (congrFun (trackableObject_setConsumerBitMap _ i _) j).trans ?_
    refine (congrFun hsame.trackableObject j).trans ?_
    split
    next hj => rw [hj, hobj]
    · rfl
  · rw [Function.update_eq_self_iff.mpr ho.symm]
    exact hsame.changeItem
  · refine (congrArg (isBitSet · p) (consumerBitmap_setConsumerBitMap _ i _ hlive j)).trans ?_
    split
    next hj => simp [hj]
    next hj =>
      rw [decide_eq_false hj, Bool.false_and, Bool.or_false]
      exact congrArg (fun f => isBitSet (f j) p) hsame.consumerBitmap
  · exact hlink.sameLinks ⟨hlinks.pendingConsumers, rfl, rfl, rfl, rfl⟩
  · rintro k j hj htrk
    obtain ⟨m, hm, hsuf⟩ := htr k j hj htrk
    refine ⟨m, hm, ?_⟩
    rw [← hsame.changeList] at hsuf
    exact hsuf

theorem prepared_createChangeItem (hs : Consistent ∅ s) (hfresh : s.trackableObject i = none) : Prepared o i bitmap s
    { s.createChangeItem i o bitmap with changeList := (s.createChangeItem i o bitmap).changeList ++ [i] } := by
  have hnm : i ∉ s.changeList := by
    rw [hs.listed.mem_iff, hfresh]
    simp
  have hitems : s.items i = none := by simpa [trackableObject] using hfresh
  refine ⟨⟨rfl, rfl, rfl, rfl⟩, ?_, fun j => ?_, rfl, rfl, fun j p => ?_, ?_, fun k => Iff.rfl, ?_⟩
  · rw [erase_of_not_mem hnm]
    rfl
  · simp only [createChangeItem, trackableObject, Function.update_apply]
    split <;> rfl
  · simp only [createChangeItem, consumerBitmap, Function.update_apply]
    split
    next hj => simp [hj, hitems]
    next hj => simp [hj]
  · refine hs.linked.sameLinks ⟨?_, rfl, rfl, rfl, rfl⟩
    funext j
    simp only [createChangeItem, pendingConsumers, Function.update_apply]
    split
    next hj => simp [hj, hitems]
    · rfl
  · rintro k j - ⟨m, hm, hsuf⟩
    exact ⟨m, hm, mem_suffixFrom_append hsuf⟩

end

/-- A change that was published: its item is the last of the list and everybody who was waiting or
parked somewhere has it ahead. -/
structure Published (o : O) (i : I) (bitmap : ConsumerBitmap) (s s' : ChangeTracker C O I) : Prop
    extends SameRegistration s s' where
  consistent : Consistent ∅ s'
  changeItem : s'.changeItem = Function.update s.changeItem o (some i)
  processed : s'.processed = s.processed
  bits : ∀ j p, isBitSet (s'.consumerBitmap j) p =
    (isBitSet (s.consumerBitmap j) p || (decide (j = i) && isBitSet bitmap p))
  idle : ∀ k, Idle s' k ↔ Idle s k
  tracks : ∀ k j, Tracks s k j → Tracks s' k j
  tracks_new : ∀ k, ¬Idle s k → Tracks s' k i

section

variable {s t : ChangeTracker C O I} {o : O} {i : I} {bitmap : ConsumerBitmap}

theorem Prepared.listed (h : Prepared o i bitmap s t) (hs : Listed s)
    (ho : s.changeItem o = some i ∨ s.changeItem o = none ∧ s.trackableObject i = none) : Listed t := by
  refine ⟨?_, fun j => ?_, fun j o' => ?_⟩
  · rw [h.changeList]
    refine (hs.nodup.erase i).append (nodup_singleton i) ?_
    rw [disjoint_singleton]
    exact hs.nodup.not_mem_erase
  · rw [h.changeList, h.trackableObject, mem_append, hs.nodup.mem_erase_iff, hs.mem_iff]
    by_cases hj : j = i <;> simp [hj]
  · rw [h.trackableObject, h.changeItem, Function.update_apply]
    have hnotOwned : o' ≠ o → s.changeItem o' ≠ some i := by
      intro hne hitem
      have hobj := (hs.owner i o').mpr hitem
      rcases ho with ho | ⟨-, hfresh⟩
      · rw [(hs.owner i o).mpr ho, Option.some.injEq] at hobj
        exact hne hobj.symm
      · rw [hfresh] at hobj
        cases hobj
    have hnotItem : j ≠ i → s.trackableObject j ≠ some o := by
      intro hne hobj
      rw [hs.owner] at hobj
      rcases ho with ho | ⟨ho, -⟩
      · rw [ho, Option.some.injEq] at hobj
        exact hne hobj.symm
      · rw [ho] at hobj
        cases hobj
    by_cases hj : j = i
    · by_cases ho' : o' = o
      · simp [hj, ho']
      · simp [hj, ho', hnotOwned ho', Ne.symm ho']
    · by_cases ho' : o' = o
      · simp [hj, ho', hnotItem hj, Ne.symm hj]
      · rw [if_neg hj, if_neg ho']
        exact hs.owner j o'

theorem Prepared.published (h : Prepared o i bitmap s t) (hs : Consistent ∅ s)
    (ho : s.changeItem o = some i ∨ s.changeItem o = none ∧ s.trackableObject i = none)
    (hbitmap : s.changeItem o = none → isAllBitsCleared bitmap = false) :
    Published o i bitmap s (t.notifyReadyConsumers i) := by
  have hlisted := h.listed hs.listed ho
  have hsame := sameItems_notifyReadyConsumers t i
  have hlive : (t.trackableObject i).isSome := by
    rw [h.trackableObject, if_pos rfl]
    rfl
  obtain ⟨hlink, hplace⟩ := notifyReadyConsumers_spec h.linked hlive
  have hbits : ∀ j p, isBitSet ((t.notifyReadyConsumers i).consumerBitmap j) p =
      (isBitSet (s.consumerBitmap j) p || (decide (j = i) && isBitSet bitmap p)) := by
    intro j p
    rw [hsame.consumerBitmap, h.bits]
  have hlast : ∀ m, m ∈ t.changeList → i ∈ suffixFrom t.changeList m := by
    intro m hm
    rw [h.changeList] at hm ⊢
    exact last_mem_suffixFrom hm
  have hout : Outstanding (t.notifyReadyConsumers i) := by
    intro j hj
    rw [hsame.changeList, h.changeList, mem_append, mem_singleton, hs.listed.nodup.mem_erase_iff] at hj
    rw [allConsumersProcessed, not_isAllBitsCleared_iff]
    -- a bit that was set before stays set; a new item has one of the bits it is published with
    by_cases hold : j ∈ s.changeList
    · have hset := hs.outstanding j hold
      rw [allConsumersProcessed, not_isAllBitsCleared_iff] at hset
      obtain ⟨p, hp⟩ := hset
      exact ⟨p, by rw [hbits, hp, Bool.true_or]⟩
    · have hji : j = i := hj.resolve_left fun h => hold h.2
      have hnew : s.changeItem o = none := by
        rcases ho with ho | ⟨ho, -⟩
        · have hobj := (hs.listed.owner i o).mpr ho
          exact absurd ((hs.listed.mem_iff j).mpr (by rw [hji, hobj]; rfl)) hold
        · exact ho
      have hset := hbitmap hnew
      rw [not_isAllBitsCleared_iff] at hset
      obtain ⟨p, hp⟩ := hset
      exact ⟨p, by simp [hbits, hji, hp]⟩
  have htr : ∀ k j, Tracks t k j → Tracks (t.notifyReadyConsumers i) k j := by
    rintro k j ⟨m, hm, hsuf⟩
    refine ⟨m, (congrArg Prod.fst ((hplace k).trans (if_neg fun hk => ?_))).trans hm, hsame.changeList ▸ hsuf⟩
    rw [h.linked.marker_eq k (Set.notMem_empty k), h.linked.ready_unlinked k hk] at hm
    cases hm
  have hnew : ∀ k, ¬Idle t k → Tracks (t.notifyReadyConsumers i) k i := by
    intro k hk
    cases hm : t.marker k with
    | some m =>
      refine htr k i ⟨m, hm, hlast m ?_⟩
      rw [hlisted.mem_iff]
      exact h.linked.isSome_of_hook (by rw [← h.linked.marker_eq k (Set.notMem_empty k), hm])
    | none =>
      have hflag : t.isInReadyList k = true := by
        by_contra hflag
        exact hk ⟨hm, by rw [← h.linked.marker_eq k (Set.notMem_empty k), hm], by simpa using hflag⟩
      exact ⟨i, congrArg Prod.fst ((hplace k).trans (if_pos hflag)),
        hsame.changeList ▸ hlast i ((hlisted.mem_iff i).mpr hlive)⟩
  refine ⟨h.toSameRegistration.trans hsame.toSameRegistration, ⟨hsame.listed hlisted, hlink, hout⟩,
    hsame.changeItem.trans h.changeItem, hsame.processed.trans h.processed, hbits, fun k => ?_, fun k j htrk => ?_,
    fun k hk => hnew k fun hidle => hk ((h.idle k).mp hidle)⟩
  · rw [← h.idle]
    by_cases hk : t.isInReadyList k = true
    · have hparked := congrArg Prod.fst ((hplace k).trans (if_pos hk))
      exact iff_of_false (fun hidle => Option.some_ne_none i (hparked.symm.trans hidle.1))
        fun hidle => Bool.false_ne_true (hidle.2.2.symm.trans hk)
    · exact idle_congr ((hplace k).trans (if_neg hk))
  · by_cases hj : j = i
    · refine hj ▸ hnew k fun hidle => ?_
      obtain ⟨m, hm, -⟩ := htrk
      rw [((h.idle k).mp hidle).1] at hm
      cases hm
    · exact htr k j (h.tracks k j hj htrk)

/-- A publication either is skipped, which calls the callback at once, or links the object's item. -/
theorem publishChange_spec (hs : Consistent ∅ s) {address : I}
    (hfresh : s.changeItem o = none → s.trackableObject address = none) (bitmap : ConsumerBitmap) :
    (s.shouldSkipChangePublication o bitmap = true ∧ s.publishChange address (some o) bitmap =
        { s with processed := s.processed ++ [(o, ((s.changeItem o).map s.consumerBitmap).getD [])] }) ∨
      (s.shouldSkipChangePublication o bitmap = false ∧
        Published o ((s.changeItem o).getD address) bitmap s (s.publishChange address (some o) bitmap)) := by
  cases hskip : s.shouldSkipChangePublication o bitmap with
  | true => exact Or.inl ⟨rfl, by simp only [publishChange, hskip, if_true]⟩
  | false =>
    refine Or.inr ⟨rfl, ?_⟩
    simp only [publishChange, hskip]
    have hbitmap : s.changeItem o = none → isAllBitsCleared bitmap = false := by
      intro ho
      rw [shouldSkipChangePublication, isOnChangeList, ho] at hskip
      simpa using (Bool.or_eq_false_iff.mp hskip).2
    cases ho : s.changeItem o with
    | some i => exact (prepared_unlinkForMove hs ho).published hs (Or.inl ho) hbitmap
    | none =>
      exact (prepared_createChangeItem hs (hfresh ho)).published hs (Or.inr ⟨ho, hfresh ho⟩) hbitmap

end

end FbossBgp.ChangeTracker
