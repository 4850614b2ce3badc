import FbossBgp.ChangeTracker.WellFormed

/-! Completion of a change item: the consumers parked on it move to its successor or to the ready set,
the item is unlinked and deleted, and the callback is called for its object. -/

namespace FbossBgp.ChangeTracker

open ListCursor List Function

variable {C O I : Type*} [DecidableEq C] [DecidableEq O] [DecidableEq I] (s : ChangeTracker C O I) (c : C)

/-- The consumer has no marker, is in no pending list and is not in the ready set. -/
def Idle : Prop :=
  s.marker c = none ∧ s.hook c = none ∧ s.isInReadyList c = false

variable {s c} in
theorem idle_congr {s' : ChangeTracker C O I} (h : s'.place c = s.place c) : Idle s' c ↔ Idle s c := by
  simp only [place, Prod.mk.injEq] at h
  rw [Idle, Idle, h.1, h.2.1, h.2.2]

/-- All consumers but one are where they were. -/
def SameLinksBut (c : C) (s s' : ChangeTracker C O I) : Prop := ∀ k, k ≠ c → s'.place k = s.place k

theorem SameLinksBut.trans {s s' s'' : ChangeTracker C O I} {c : C} (h : SameLinksBut c s s')
    (h' : SameLinksBut c s' s'') : SameLinksBut c s s'' := fun k hk => (h' k hk).trans (h k hk)

/-- The consumer's marker is the item or an item before it on the list. -/
def Tracks (i : I) : Prop :=
  ∃ m, s.marker c = some m ∧ i ∈ suffixFrom s.changeList m

/-- No object is linked, and the callback is called once for each object that is unlinked, with no bit
left on its item. -/
structure Completes (s s' : ChangeTracker C O I) : Prop where
  changeItem : ∀ o i, s'.changeItem o = some i → s.changeItem o = some i
  completed : ∃ done, s'.processed = s.processed ++ done ∧ (done.map Prod.fst).Nodup ∧
    (∀ e ∈ done, BitmapUtils.isAllBitsCleared e.2 = true) ∧
    ∀ o, o ∈ done.map Prod.fst ↔ s.isOnChangeList o = true ∧ s'.isOnChangeList o = false

theorem completes_of_eq {s s' : ChangeTracker C O I} (hitem : s'.changeItem = s.changeItem)
    (hproc : s'.processed = s.processed) : Completes s s' := by
  refine ⟨fun o i hi => hitem ▸ hi, [], by rw [hproc, append_nil], nodup_nil, by simp, fun o => ?_⟩
  rw [isOnChangeList, isOnChangeList, hitem]
  cases (s.changeItem o).isSome <;> simp

theorem SameItems.completes {s s' : ChangeTracker C O I} (h : SameItems s s') : Completes s s' :=
  completes_of_eq h.changeItem h.processed

theorem Completes.trans {s s' s'' : ChangeTracker C O I} (h : Completes s s') (h' : Completes s' s'') :
    Completes s s'' := by
  obtain ⟨hitem, done, hdone, hnodup, hclr, hmem⟩ := h
  obtain ⟨hitem', done', hdone', hnodup', hclr', hmem'⟩ := h'
  have hlisted : ∀ {t t' : ChangeTracker C O I}, (∀ o i, t'.changeItem o = some i → t.changeItem o = some i) →
      ∀ o, t'.isOnChangeList o = true → t.isOnChangeList o = true := by
    intro t t' hitem o ho
    obtain ⟨i, hi⟩ := Option.isSome_iff_exists.mp ho
    exact Option.isSome_iff_exists.mpr ⟨i, hitem o i hi⟩
  refine ⟨fun o i hi => hitem o i (hitem' o i hi), done ++ done', ?_, ?_, ?_, fun o => ?_⟩
  · rw [hdone', hdone, append_assoc]
  · rw [map_append]
    refine hnodup.append hnodup' fun o ho ho' => ?_
    -- an object completed first is off the list, and only listed objects are completed
    have hoff := ((hmem o).mp ho).2
    have hon := ((hmem' o).mp ho').1
    rw [hoff] at hon
    cases hon
  · intro e he
    exact (mem_append.mp he).elim (hclr e) (hclr' e)
  · rw [map_append, mem_append, hmem, hmem']
    have h1 := hlisted hitem o
    have h2 := hlisted hitem' o
    revert h1 h2
    cases s.isOnChangeList o <;> cases s'.isOnChangeList o <;> cases s''.isOnChangeList o <;> simp

section

variable {detached : Set C} {s : ChangeTracker C O I} {c : C} {i : I} {n : Option I}

theorem place_movePendingConsumer (hc : s.isInReadyList c = false) (k : C) :
    (movePendingConsumer n s c).place k = if k = c then (n, n, n.isNone) else s.place k := by
  unfold place movePendingConsumer
  cases n with
  | none => by_cases hk : k = c <;> simp [hk]
  | some n =>
    dsimp only
    rw [hook_pushPendingConsumer _ _ _ (by simp)]
    by_cases hk : k = c <;> simp [hk, hc]

theorem linked_movePendingConsumer (hs : Linked detached s) (hc : s.hook c = some i)
    (hn : ∀ j, n = some j → (s.trackableObject j).isSome) : Linked detached (movePendingConsumer n s c) := by
  have hnotDetached : c ∉ detached := by
    intro h
    rw [hs.detached_hook c h] at hc
    cases hc
  have hmoved := (hs.removePendingConsumer (hs.not_ready hc)).setMarker (Set.mem_insert c detached) n
  cases n with
  | none => exact hmoved.addToReadyConsumers hnotDetached (by simp)
  | some n =>
    refine hmoved.pushPendingConsumer hnotDetached ?_ (by simp)
    rw [(sameItems_setMarker _ _ _).trackableObject, (sameItems_removePendingConsumer s c).trackableObject]
    exact hn n rfl

/-- All consumers parked on the item move to its successor, or to the ready set when there is none. -/
theorem updateItemPendingConsumers_spec (hs : Linked detached s)
    (hn : ∀ j, s.getNext i = some j → (s.trackableObject j).isSome ∧ j ≠ i) :
    Linked detached (s.updateItemPendingConsumers i) ∧ ∀ k, (s.updateItemPendingConsumers i).place k =
      if s.hook k = some i then (s.getNext i, s.getNext i, (s.getNext i).isNone) else s.place k := by
  have htodo : ∀ k, s.hook k = some i ↔ k ∈ s.pendingConsumers i := fun k => (hs.mem_pending i k).symm
  have hnodup := hs.pending_nodup i
  unfold updateItemPendingConsumers
  generalize s.getNext i = n at hn
  generalize s.pendingConsumers i = todo at htodo hnodup
  -- the consumers still to be moved are those whose hook is in the item's list
  induction todo generalizing s with
  | nil =>
    refine ⟨hs, fun k => ?_⟩
    have hk : s.hook k ≠ some i := by simp [htodo]
    rw [foldl_nil, if_neg hk]
  | cons c todo ih =>
    have hc : s.hook c = some i := (htodo c).mpr (mem_cons_self ..)
    have hnm := (nodup_cons.mp hnodup).1
    have hni : n ≠ some i := fun h => (hn i h).2 rfl
    have hsame := sameItems_movePendingConsumer s n c
    have hlink := linked_movePendingConsumer hs hc fun j hj => (hn j hj).1
    have hplace := place_movePendingConsumer (n := n) (hs.not_ready hc)
    have hhook : ∀ k, (movePendingConsumer n s c).hook k = if k = c then n else s.hook k := fun k =>
      (congrArg (·.2.1) (hplace k)).trans (by split <;> rfl)
    have hrest : ∀ k, (movePendingConsumer n s c).hook k = some i ↔ k ∈ todo := by
      intro k
      rw [hhook]
      split
      next hk => simp [hni, hk, hnm]
      next hk => simp [htodo, hk]
    obtain ⟨hfinal, hplaces⟩ := ih hlink (by rw [hsame.trackableObject]; exact hn) hrest
      (nodup_cons.mp hnodup).2
    refine ⟨hfinal, fun k => ?_⟩
    rw [foldl_cons, hplaces, hplace, hhook]
    by_cases hk : k = c
    · simp [hk, hc]
    · simp [hk]

end

section

variable {detached : Set C} {s : ChangeTracker C O I} {i : I} {o : O}

section

variable (ho : s.trackableObject i = some o) (j : I)
include ho

theorem retireItem_eq : s.retireItem i = { s with
    changeList := s.changeList.erase i
    items := Function.update s.items i none
    changeItem := Function.update s.changeItem o none
    processed := s.processed ++ [(o, s.consumerBitmap i)] } := by
  unfold retireItem
  rw [ho]

theorem trackableObject_retireItem :
    (s.retireItem i).trackableObject j = if j = i then none else s.trackableObject j := by
  rw [retireItem_eq ho]
  simp only [trackableObject, update_apply]
  split <;> rfl

theorem consumerBitmap_retireItem : (s.retireItem i).consumerBitmap j = if j = i then [] else s.consumerBitmap j := by
  rw [retireItem_eq ho]
  simp only [consumerBitmap, update_apply]
  split <;> rfl

theorem pendingConsumers_retireItem :
    (s.retireItem i).pendingConsumers j = if j = i then [] else s.pendingConsumers j := by
  rw [retireItem_eq ho]
  simp only [pendingConsumers, update_apply]
  split <;> rfl

end

theorem sameRegistration_retireItem (s : ChangeTracker C O I) (i : I) : SameRegistration s (s.retireItem i) := by
  unfold retireItem
  split
  · exact .refl s
  · exact ⟨rfl, rfl, rfl, rfl⟩

theorem listed_retireItem (hs : Listed s) (ho : s.trackableObject i = some o) : Listed (s.retireItem i) := by
  have hlist : (s.retireItem i).changeList = s.changeList.erase i := by rw [retireItem_eq ho]
  have hitem : (s.retireItem i).changeItem = Function.update s.changeItem o none := by rw [retireItem_eq ho]
  refine ⟨hlist ▸ hs.nodup.erase i, fun j => ?_, fun j o' => ?_⟩
  · rw [hlist, hs.nodup.mem_erase_iff, hs.mem_iff, trackableObject_retireItem ho]
    split <;> simp_all
  · rw [trackableObject_retireItem ho, hitem, update_apply]
    have howner := (hs.owner i o).mp ho
    split
    next hj =>
      split
      · simp
      next ho' =>
        rw [hj, ← hs.owner, ho]
        simpa using Ne.symm ho'
    next hj =>
      split
      next ho' =>
        rw [hs.owner, ho', howner]
        simpa using Ne.symm hj
      · exact hs.owner j o'

theorem linked_retireItem (hs : Linked detached s) (ho : s.trackableObject i = some o)
    (hempty : ∀ k, s.hook k ≠ some i) : Linked detached (s.retireItem i) := by
  have hpend : (s.retireItem i).pendingConsumers = s.pendingConsumers := by
    funext j
    rw [pendingConsumers_retireItem ho]
    split
    next hj =>
      rw [hj, eq_comm, eq_nil_iff_forall_not_mem]
      exact fun k hk => hempty k ((hs.mem_pending i k).mp hk)
    · rfl
  rw [retireItem_eq ho] at hpend ⊢
  exact hs.sameLinks ⟨hpend, rfl, rfl, rfl, rfl⟩

theorem completes_retireItem (ho : s.trackableObject i = some o) (hs : Listed s)
    (hclr : s.allConsumersProcessed i = true) : Completes s (s.retireItem i) := by
  have hitem : (s.retireItem i).changeItem = Function.update s.changeItem o none := by rw [retireItem_eq ho]
  have howner := (hs.owner i o).mp ho
  refine ⟨fun o' j hj => ?_, [(o, s.consumerBitmap i)], ?_, nodup_singleton o, ?_, fun o' => ?_⟩
  · rw [hitem, update_apply] at hj
    split at hj
    · cases hj
    · exact hj
  · rw [retireItem_eq ho]
  · intro e he
    rw [mem_singleton.mp he]
    exact hclr
  · rw [isOnChangeList, isOnChangeList, hitem, update_apply]
    by_cases ho' : o' = o
    · simp [ho', howner]
    · simp only [map_cons, map_nil, mem_singleton, ho', false_iff, not_and]
      intro hlisted
      simp [hlisted]

end

/-- What checking an item for completion does, whether or not it completes. -/
structure Settled (i : I) (s s' : ChangeTracker C O I) : Prop extends SameRegistration s s', Completes s s' where
  changeList : s'.changeList = s.changeList ∨ s'.changeList = s.changeList.erase i
  consumerBitmap : ∀ j ∈ s'.changeList, s'.consumerBitmap j = s.consumerBitmap j
  unlinked : ∀ k, s.hook k = none → s'.place k = s.place k
  idle : ∀ k, Idle s' k ↔ Idle s k
  tracks : ∀ k j, (s.marker k = some i → s.hook k = some i) → j ∈ s'.changeList → Tracks s k j → Tracks s' k j

section

variable {detached : Set C} {s : ChangeTracker C O I} {i : I}

theorem Settled.refl (s : ChangeTracker C O I) (i : I) : Settled i s s :=
  ⟨.refl s, (SameItems.refl s).completes, .inl rfl, fun _ _ => rfl, fun _ _ => rfl, fun _ => Iff.rfl,
    fun _ _ _ _ h => h⟩

/-- A consumer that is parked stays active wherever it moves. -/
theorem idle_moved_iff {s' : ChangeTracker C O I} {k : C} {n : Option I}
    (h : s'.place k = if s.hook k = some i then (n, n, n.isNone) else s.place k) : Idle s' k ↔ Idle s k := by
  split at h
  next hk =>
    simp only [place, Prod.mk.injEq] at h
    rw [Idle, Idle, h.1, h.2.2, hk]
    cases n <;> simp
  · exact idle_congr h

theorem getNext_live (hs : Listed s) (j : I) (hj : s.getNext i = some j) : (s.trackableObject j).isSome ∧ j ≠ i :=
  ⟨(hs.mem_iff j).mp (next_mem hj), next_ne_self hs.nodup hj⟩

theorem notifyProducer_spec (hl : Listed s) (hs : Linked detached s) (hi : i ∈ s.changeList)
    (hclr : s.allConsumersProcessed i = true) :
    Listed (s.notifyProducer i) ∧ Linked detached (s.notifyProducer i) ∧
      (s.notifyProducer i).changeList = s.changeList.erase i ∧ Settled i s (s.notifyProducer i) := by
  obtain ⟨hlink, hplaces⟩ := updateItemPendingConsumers_spec hs (getNext_live hl)
  have hsame := sameItems_updateItemPendingConsumers s i
  obtain ⟨o, ho⟩ := Option.isSome_iff_exists.mp ((hl.mem_iff i).mp hi)
  have ho' : (s.updateItemPendingConsumers i).trackableObject i = some o := by rw [hsame.trackableObject, ho]
  have hempty : ∀ k, (s.updateItemPendingConsumers i).hook k ≠ some i := by
    intro k hk
    have hplace := congrArg (·.2.1) (hplaces k)
    split at hplace
    · exact (getNext_live hl i (hplace.symm.trans hk)).2 rfl
    next hne => exact hne (hplace.symm.trans hk)
  have hlisted := hsame.listed hl
  have hlist : (s.notifyProducer i).changeList = s.changeList.erase i := by
    rw [notifyProducer, retireItem_eq ho', hsame.changeList]
  have hplace : ∀ k, (s.notifyProducer i).place k =
      if s.hook k = some i then (s.getNext i, s.getNext i, (s.getNext i).isNone) else s.place k := by
    intro k
    rw [notifyProducer, retireItem_eq ho']
    exact hplaces k
  have hclr' : (s.updateItemPendingConsumers i).allConsumersProcessed i = true := by
    rw [allConsumersProcessed, hsame.consumerBitmap]
    exact hclr
  refine ⟨listed_retireItem hlisted ho', linked_retireItem hlink ho' hempty, hlist, ?_, ?_, .inr hlist, ?_,
    fun k hk => (hplace k).trans (if_neg (by simp [hk])), fun k => idle_moved_iff (hplace k), ?_⟩
  · exact hsame.toSameRegistration.trans (sameRegistration_retireItem _ i)
  · exact hsame.completes.trans (completes_retireItem ho' hlisted hclr')
  · intro j hj
    rw [hlist, hl.nodup.mem_erase_iff] at hj
    rw [notifyProducer, consumerBitmap_retireItem ho', if_neg hj.1, hsame.consumerBitmap]
  · rintro k j hmarked hj ⟨m, hm, hsuf⟩
    have hmk := congrArg Prod.fst (hplace k)
    rw [hlist, hl.nodup.mem_erase_iff] at hj
    by_cases hmi : m = i
    · -- the consumer is parked on the item and moves on with the rest of the list ahead of it
      obtain ⟨n, hn, hsuf'⟩ := mem_suffixFrom_next hl.nodup (hmi ▸ hsuf) hj.1
      rw [if_pos (hmarked (hmi ▸ hm))] at hmk
      exact ⟨n, hmk.trans hn, hlist ▸ mem_suffixFrom_erase hsuf' (next_ne_self hl.nodup hn) hj.1⟩
    · refine ⟨m, ?_, hlist ▸ mem_suffixFrom_erase hsuf hmi hj.1⟩
      split at hmk
      next hk =>
        by_cases hd : k ∈ detached
        · cases (hs.detached_hook k hd).symm.trans hk
        · rw [hs.marker_eq k hd, hk] at hm
          exact absurd (Option.some.inj hm).symm hmi
      · exact hmk.trans hm

/-- After the check every listed item is outstanding again. -/
theorem checkAndNotifyProducer_spec (hl : Listed s) (hs : Linked detached s) (hi : i ∈ s.changeList)
    (hout : ∀ j ∈ s.changeList, j ≠ i → s.allConsumersProcessed j = false) :
    Listed (s.checkAndNotifyProducer i) ∧ Linked detached (s.checkAndNotifyProducer i) ∧
      Outstanding (s.checkAndNotifyProducer i) ∧ Settled i s (s.checkAndNotifyProducer i) := by
  unfold checkAndNotifyProducer
  split
  next hclr =>
    obtain ⟨hlisted, hlink, hlist, hset⟩ := notifyProducer_spec hl hs hi hclr
    refine ⟨hlisted, hlink, fun j hj => ?_, hset⟩
    rw [allConsumersProcessed, hset.consumerBitmap j hj]
    rw [hlist, hl.nodup.mem_erase_iff] at hj
    exact hout j hj.2 hj.1
  next hremaining =>
    refine ⟨hl, hs, fun j hj => ?_, .refl s i⟩
    by_cases hji : j = i
    · simpa [hji] using hremaining
    · exact hout j hj hji

end

end FbossBgp.ChangeTracker
