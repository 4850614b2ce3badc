import FbossBgp.ChangeTracker.Completion

/-! Acknowledging items: clearing one consumer's bit on an item and completing it when no bit is left.
Resetting a consumer, fast-forwarding it to another consumer's marker and processing items one by one all consist
of such steps. -/

namespace FbossBgp.ChangeTracker

open ListCursor List BitmapUtils

variable {C O I : Type*} [DecidableEq C] [DecidableEq O] [DecidableEq I]

section

variable {s : ChangeTracker C O I} {j : I} {c : C}

/-- The states between operations. -/
structure Consistent (detached : Set C) (s : ChangeTracker C O I) : Prop where
  listed : Listed s
  linked : Linked detached s
  outstanding : Outstanding s

/-- The second state follows from the first by acknowledging items for the consumer. -/
structure Acked (c : C) (s s' : ChangeTracker C O I) : Prop extends SameRegistration s s', Completes s s' where
  changeList : s'.changeList.Sublist s.changeList
  cleared : ∀ j p, isBitSet (s'.consumerBitmap j) p = true → isBitSet (s.consumerBitmap j) p = true
  others : ∀ j ∈ s'.changeList, ∀ p, p ≠ s.bitPosition c →
    isBitSet (s'.consumerBitmap j) p = isBitSet (s.consumerBitmap j) p
  idle : ∀ k, k ≠ c → (Idle s' k ↔ Idle s k)
  tracks : ∀ k, k ≠ c → ∀ j ∈ s'.changeList, Tracks s k j → Tracks s' k j

theorem consumerBitmap_of_notMem (hs : Listed s) (hj : j ∉ s.changeList) : s.consumerBitmap j = [] := by
  rw [hs.mem_iff, trackableObject, Option.isSome_map, Option.not_isSome_iff_eq_none] at hj
  rw [consumerBitmap, hj]
  rfl

section

variable {pre rest : List I} {x : I} (hs : Listed s) (hsplit : s.changeList = pre ++ x :: rest)
include hs hsplit

theorem Listed.notMem_pre : x ∉ pre := fun hmem =>
  disjoint_of_nodup_append (hsplit ▸ hs.nodup) hmem (mem_cons_self ..)

theorem Listed.getNext_eq : s.getNext x = rest.head? := by
  rw [getNext, hsplit]
  exact next_append_cons (hs.notMem_pre hsplit)

theorem Listed.suffixFrom_eq : suffixFrom s.changeList x = x :: rest := by
  rw [hsplit]
  exact suffixFrom_append_cons (hs.notMem_pre hsplit)

end

theorem mem_of_isBitSet (hs : Listed s) {p : Nat}
    (h : isBitSet (s.consumerBitmap j) p = true) : j ∈ s.changeList := by
  by_contra hj
  rw [consumerBitmap_of_notMem hs hj] at h
  cases h

theorem SameItems.acked {s' : ChangeTracker C O I} (h : SameItems s s') (hbut : SameLinksBut c s s') :
    Acked c s s' := by
  refine ⟨h.toSameRegistration, h.completes, h.changeList ▸ List.Sublist.refl _, fun j p hbit => ?_, fun j _ p _ => ?_,
    fun k hk => idle_congr (hbut k hk), ?_⟩
  · rwa [h.consumerBitmap] at hbit
  · rw [h.consumerBitmap]
  · rintro k hk j hj ⟨m, hm, hsuf⟩
    exact ⟨m, (congrArg Prod.fst (hbut k hk)).trans hm, by rwa [h.changeList]⟩

theorem Acked.refl (c : C) (s : ChangeTracker C O I) : Acked c s s :=
  (SameItems.refl s).acked fun _ _ => rfl

theorem Acked.trans {s' s'' : ChangeTracker C O I} (h : Acked c s s') (h' : Acked c s' s'') : Acked c s s'' := by
  refine ⟨h.toSameRegistration.trans h'.toSameRegistration, h.toCompletes.trans h'.toCompletes,
    h'.changeList.trans h.changeList, fun j p hbit => h.cleared j p (h'.cleared j p hbit), fun j hj p hp => ?_,
    fun k hk => (h'.idle k hk).trans (h.idle k hk), fun k hk j hj htr => ?_⟩
  · rw [h'.others j hj p (by rw [h.bitPosition]; exact hp), h.others j (h'.changeList.subset hj) p hp]
  · exact h'.tracks k hk j hj (h.tracks k hk j (h'.changeList.subset hj) htr)

section

variable {detached : Set C} {s : ChangeTracker C O I} {i : I} {q : Nat} {c : C}

theorem sameRegistration_setConsumerBitMap (s : ChangeTracker C O I) (i : I) (bitmap : ConsumerBitmap) :
    SameRegistration s (s.setConsumerBitMap i bitmap) := ⟨rfl, rfl, rfl, rfl⟩

theorem isBitSet_markConsumerProcessed (hs : Listed s) (hi : i ∈ s.changeList) (j : I) (p : Nat) :
    isBitSet ((s.markConsumerProcessed i q).consumerBitmap j) p =
      (isBitSet (s.consumerBitmap j) p && !decide (j = i ∧ p = q)) := by
  rw [markConsumerProcessed, consumerBitmap_setConsumerBitMap s i _ ((hs.mem_iff i).mp hi)]
  split
  next hj =>
    rw [hj]
    simp [eq_comm]
  next hj => simp [hj]

/-- The state between clearing a consumer's bit on an item and checking the item for completion, in
which the consumer itself may have moved. -/
structure Cleared (c : C) (i : I) (s t : ChangeTracker C O I) : Prop extends SameRegistration s t where
  changeList : t.changeList = s.changeList
  trackableObject : t.trackableObject = s.trackableObject
  changeItem : t.changeItem = s.changeItem
  processed : t.processed = s.processed
  bits : ∀ j p, isBitSet (t.consumerBitmap j) p =
    (isBitSet (s.consumerBitmap j) p && !decide (j = i ∧ p = s.bitPosition c))
  untouched : ∀ j, j ≠ i → t.consumerBitmap j = s.consumerBitmap j
  links : SameLinksBut c s t

theorem cleared_markConsumerProcessed (hs : Listed s) (hi : i ∈ s.changeList) (c : C) :
    Cleared c i s (s.markConsumerProcessed i (s.bitPosition c)) := by
  refine ⟨sameRegistration_setConsumerBitMap s i _, rfl, trackableObject_setConsumerBitMap s i _, rfl, rfl,
    isBitSet_markConsumerProcessed hs hi, fun j hj => ?_, fun _ _ => rfl⟩
  rw [markConsumerProcessed, consumerBitmap_setConsumerBitMap s i _ ((hs.mem_iff i).mp hi), if_neg hj]

theorem Cleared.sameItems {t t' : ChangeTracker C O I} (h : Cleared c i s t) (h' : SameItems t t')
    (hlinks : SameLinksBut c t t') : Cleared c i s t' := by
  refine ⟨h.toSameRegistration.trans h'.toSameRegistration, h'.changeList.trans h.changeList,
    h'.trackableObject.trans h.trackableObject, h'.changeItem.trans h.changeItem, h'.processed.trans h.processed,
    fun j p => ?_, fun j hj => ?_, h.links.trans hlinks⟩
  · rw [h'.consumerBitmap, h.bits]
  · rw [h'.consumerBitmap, h.untouched j hj]

/-- Checking the item turns the cleared bit into an acknowledgement. -/
theorem Cleared.settle {t : ChangeTracker C O I} (h : Cleared c i s t) (hs : Consistent detached s)
    (hi : i ∈ s.changeList) {detached' : Set C} (hlink : Linked detached' t) (hdet : detached' ⊆ {c}) :
    Consistent detached' (t.checkAndNotifyProducer i) ∧ Acked c s (t.checkAndNotifyProducer i) ∧
      isBitSet ((t.checkAndNotifyProducer i).consumerBitmap i) (s.bitPosition c) = false ∧
      Settled i t (t.checkAndNotifyProducer i) := by
  have hlisted : Listed t := by
    refine ⟨h.changeList ▸ hs.listed.nodup, ?_, ?_⟩
    · rw [h.changeList, h.trackableObject]
      exact hs.listed.mem_iff
    · rw [h.trackableObject, h.changeItem]
      exact hs.listed.owner
  have hout : ∀ j ∈ t.changeList, j ≠ i → t.allConsumersProcessed j = false := by
    intro j hj hne
    rw [h.changeList] at hj
    rw [allConsumersProcessed, h.untouched j hne]
    exact hs.outstanding j hj
  obtain ⟨hlisted', hlink', hout', hset⟩ := checkAndNotifyProducer_spec hlisted hlink (h.changeList ▸ hi) hout
  have hbits : ∀ j p, isBitSet ((t.checkAndNotifyProducer i).consumerBitmap j) p = true →
      isBitSet (s.consumerBitmap j) p = true ∧ ¬(j = i ∧ p = s.bitPosition c) := by
    intro j p hbit
    rw [hset.consumerBitmap j (mem_of_isBitSet hlisted' hbit), h.bits, Bool.and_eq_true, Bool.not_eq_true',
      decide_eq_false_iff_not] at hbit
    exact hbit
  have hcompletes : Completes s (t.checkAndNotifyProducer i) := by
    refine ⟨?_, ?_⟩
    · rw [← h.changeItem]
      exact hset.changeItem
    · rw [← h.processed]
      simp only [isOnChangeList, ← h.changeItem]
      exact hset.completed
  refine ⟨⟨hlisted', hlink', hout'⟩, ⟨h.toSameRegistration.trans hset.toSameRegistration, hcompletes, ?_,
    fun j p hbit => (hbits j p hbit).1, fun j hj p hp => ?_,
    fun k hk => (hset.idle k).trans (idle_congr (h.links k hk)), ?_⟩, ?_, hset⟩
  · rw [← h.changeList]
    rcases hset.changeList with hlist | hlist
    · exact hlist ▸ List.Sublist.refl _
    · exact hlist ▸ erase_sublist ..
  · rw [hset.consumerBitmap j hj, h.bits]
    simp [hp]
  · rintro k hk j hj ⟨m, hm, hsuf⟩
    refine hset.tracks k j ?_ hj ⟨m, (congrArg Prod.fst (h.links k hk)).trans hm, by rwa [h.changeList]⟩
    rw [hlink.marker_eq k fun hmem => hk (hdet hmem)]
    exact id
  · cases hbit : isBitSet ((t.checkAndNotifyProducer i).consumerBitmap i) (s.bitPosition c) with
    | false => rfl
    | true => exact absurd ⟨rfl, rfl⟩ (hbits i _ hbit).2

/-- Clearing a consumer's bit and checking for completion, as one acknowledgement. -/
theorem resetItem_spec (hs : Consistent {c} s) (hi : i ∈ s.changeList) :
    Consistent {c} (resetItem (s.bitPosition c) s i) ∧ Acked c s (resetItem (s.bitPosition c) s i) ∧
      isBitSet ((resetItem (s.bitPosition c) s i).consumerBitmap i) (s.bitPosition c) = false ∧
      ((resetItem (s.bitPosition c) s i).changeList = s.changeList ∨
        (resetItem (s.bitPosition c) s i).changeList = s.changeList.erase i) := by
  have hlink := hs.linked.sameLinks (sameLinks_setConsumerBitMap s i (clearBit (s.consumerBitmap i) (s.bitPosition c)))
  obtain ⟨hcons, hacked, hbit, hset⟩ :=
    (cleared_markConsumerProcessed hs.listed hi c).settle hs hi hlink (Set.Subset.refl _)
  exact ⟨hcons, hacked, hbit, hset.changeList⟩

end

section

variable {s : ChangeTracker C O I} {c : C} {i : I}

section

variable (s : ChangeTracker C O I)

theorem acked_setMarker (c : C) (m : Option I) : Acked c s (s.setMarker c m) :=
  (sameItems_setMarker s c m).acked fun k hk => by simp [place, hk]

theorem acked_removePendingConsumer (c : C) : Acked c s (s.removePendingConsumer c) :=
  (sameItems_removePendingConsumer s c).acked fun k hk => by simp [place, hk]

theorem acked_addToReadyConsumers (c : C) : Acked c s (s.addToReadyConsumers c) :=
  (sameItems_addToReadyConsumers s c).acked fun k hk => by simp [place, hk]

theorem acked_pushPendingConsumer (i : I) (c : C) : Acked c s (s.pushPendingConsumer i c) := by
  refine (sameItems_pushPendingConsumer s i c).acked fun k hk => ?_
  cases hhook : s.hook c with
  | none => simp [place, hook_pushPendingConsumer s c i hhook, hk]
  | some j => rw [pushPendingConsumer, hhook]

theorem acked_endProcessing (c : C) : Acked c s (s.endProcessing c) := by
  unfold endProcessing
  split
  · exact acked_pushPendingConsumer s _ c
  · exact .refl c s

end

theorem Consistent.mem_of_marker (hs : Consistent ∅ s) {m : I} (hm : s.marker c = some m) :
    s.hook c = some m ∧ m ∈ s.changeList ∧ s.isInReadyList c = false := by
  have hhook : s.hook c = some m := by rw [← hs.linked.marker_eq c (Set.notMem_empty c), hm]
  exact ⟨hhook, (hs.listed.mem_iff m).mpr (hs.linked.isSome_of_hook hhook), hs.linked.not_ready hhook⟩

theorem Consistent.sameItems {detached detached' : Set C} {s' : ChangeTracker C O I} (hs : Consistent detached s)
    (h : SameItems s s') (hlink : Linked detached' s') : Consistent detached' s' :=
  ⟨h.listed hs.listed, hlink, h.outstanding hs.outstanding⟩

theorem Consistent.detach (hs : Consistent ∅ s) (hc : s.isInReadyList c = false) :
    Consistent {c} (s.removePendingConsumer c) := by
  have hlink := hs.linked.removePendingConsumer hc
  rw [LawfulSingleton.insert_empty_eq] at hlink
  exact hs.sameItems (sameItems_removePendingConsumer s c) hlink

section

variable (hs : Consistent {c} s)
include hs

theorem Consistent.setMarker (m : Option I) : Consistent {c} (s.setMarker c m) :=
  hs.sameItems (sameItems_setMarker s c m) (hs.linked.setMarker rfl m)

theorem Consistent.linked_insert : Linked (insert c ∅) s := by
  rw [LawfulSingleton.insert_empty_eq]
  exact hs.linked

theorem Consistent.attachIdle (hmk : s.marker c = none) : Consistent ∅ s :=
  hs.sameItems (.refl s) (hs.linked_insert.attach_idle hmk)

theorem Consistent.attachReady (hmk : s.marker c = none) : Consistent ∅ (s.addToReadyConsumers c) :=
  hs.sameItems (sameItems_addToReadyConsumers s c) (hs.linked_insert.addToReadyConsumers (Set.notMem_empty c) hmk)

theorem Consistent.attachPending (hmk : s.marker c = some i)
    (hi : i ∈ s.changeList) : Consistent ∅ (s.pushPendingConsumer i c) :=
  hs.sameItems (sameItems_pushPendingConsumer s i c)
    (hs.linked_insert.pushPendingConsumer (Set.notMem_empty c) ((hs.listed.mem_iff i).mp hi) hmk)

end

theorem endProcessing_eq (hmk : s.marker c = some i) : s.endProcessing c = s.pushPendingConsumer i c := by
  rw [endProcessing, hmk]

theorem endProcessing_of_none (hmk : s.marker c = none) : s.endProcessing c = s := by
  rw [endProcessing, hmk]

end

section

variable {s : ChangeTracker C O I} {c : C} {m : I}

/-- The loop invariant of a walk that acknowledges items from `m` on for a detached consumer: `rest` is
the end of the list, and of the items walked only `rest` can still carry the consumer's bit. -/
structure Walking (c : C) (m : I) (s : ChangeTracker C O I) (s' : ChangeTracker C O I) (rest : List I) : Prop where
  consistent : Consistent {c} s'
  acked : Acked c s s'
  split : ∃ pre, s'.changeList = pre ++ rest
  bits : ∀ j ∈ suffixFrom s.changeList m, isBitSet (s'.consumerBitmap j) (s.bitPosition c) = true → j ∈ rest

theorem Walking.start (hs : Consistent ∅ s) (hm : s.marker c = some m) :
    Walking c m s (s.removePendingConsumer c) (suffixFrom s.changeList m) := by
  obtain ⟨-, hmem, hready⟩ := hs.mem_of_marker hm
  obtain ⟨pre, suf, hlist, -, hsuf⟩ := exists_split hmem
  refine ⟨hs.detach hready, acked_removePendingConsumer s c, ⟨pre, ?_⟩, fun j hj _ => hj⟩
  rw [(sameItems_removePendingConsumer s c).changeList, hsuf]
  exact hlist

variable {s' : ChangeTracker C O I} {rest : List I} {x : I}

section

variable (h : Walking c m s s' (x :: rest))
include h

theorem Walking.getNext_eq : x ∈ s'.changeList ∧ s'.getNext x = rest.head? := by
  obtain ⟨pre, hsplit⟩ := h.split
  exact ⟨by simp [hsplit], h.consistent.listed.getNext_eq hsplit⟩

theorem Walking.skip
    (hx : isBitSet (s'.consumerBitmap x) (s.bitPosition c) = false) : Walking c m s s' rest := by
  obtain ⟨pre, hsplit⟩ := h.split
  refine ⟨h.consistent, h.acked, ⟨pre ++ [x], by rw [hsplit, append_cons]⟩, fun j hj hbit => ?_⟩
  refine (mem_cons.mp (h.bits j hj hbit)).resolve_left ?_
  rintro rfl
  rw [hx] at hbit
  cases hbit

theorem Walking.resetItem :
    Walking c m s (resetItem (s.bitPosition c) s' x) rest := by
  obtain ⟨hx, -⟩ := h.getNext_eq
  obtain ⟨pre, hsplit⟩ := h.split
  obtain ⟨hcons, hacked, hclr, hlist⟩ := resetItem_spec h.consistent hx
  rw [h.acked.bitPosition] at hcons hacked hclr hlist
  refine ⟨hcons, h.acked.trans hacked, ?_, fun j hj hbit => ?_⟩
  · rcases hlist with hlist | hlist
    · exact ⟨pre ++ [x], by rw [hlist, hsplit, append_cons]⟩
    · refine ⟨pre, ?_⟩
      rw [hlist, hsplit, erase_append_right _ (h.consistent.listed.notMem_pre hsplit), erase_cons_head]
  · have hbef := hacked.cleared j _ hbit
    refine (mem_cons.mp (h.bits j hj hbef)).resolve_left ?_
    rintro rfl
    rw [hclr] at hbit
    cases hbit

theorem Walking.ackItem : Walking c m s (ackItem (s.bitPosition c) s' x) rest := by
  unfold ChangeTracker.ackItem
  split
  · exact h.resetItem
  next hbit => exact h.skip (by simpa using hbit)

end

theorem suffixFrom_length_le (l : List I) (x : I) : (suffixFrom l x).length ≤ l.length := (dropWhile_suffix _).length_le

theorem head?_suffixFrom {l : List I} (hx : x ∈ l) : (suffixFrom l x).head? = some x := by
  obtain ⟨_, _, -, -, h⟩ := exists_split hx
  rw [h, List.head?_cons]

/-- The loop of `consumerResetChangeList` reaches the end of the list. -/
theorem resetWalk_spec (hs : Consistent ∅ s) (hm : s.marker c = some m) :
    Walking c m s (walk getNext (fun _ => false) (ChangeTracker.resetItem (s.bitPosition c)) s.changeList.length
      (s.removePendingConsumer c) (some m)).1 [] := by
  rw [← head?_suffixFrom (hs.mem_of_marker hm).2.1]
  refine walk_rule_end (Walking c m s) ?_ (suffixFrom_length_le _ _) (.start hs hm)
  exact fun s' x rest h => ⟨h.getNext_eq.2, h.resetItem⟩

/-- The loop of `attachToMarkerAhead` stops at the target's marker or at the end of the list. -/
theorem ackWalk_spec (hs : Consistent ∅ s) (hm : s.marker c = some m) (target : Option I) :
    ∃ visited rest, suffixFrom s.changeList m = visited ++ rest ∧ (∀ x ∈ visited, some x ≠ target) ∧
      (∀ x ∈ rest.head?, some x = target) ∧
      (walk getNext (fun i => decide (some i = target)) (ChangeTracker.ackItem (s.bitPosition c)) s.changeList.length
        (s.removePendingConsumer c) (some m)).2 = rest.head? ∧
      Walking c m s (walk getNext (fun i => decide (some i = target)) (ChangeTracker.ackItem (s.bitPosition c))
        s.changeList.length (s.removePendingConsumer c) (some m)).1 rest := by
  rw [← head?_suffixFrom (hs.mem_of_marker hm).2.1]
  obtain ⟨visited, rest, hsplit, hvis, hexit, hcursor, hwalking⟩ :=
    walk_rule (Walking c m s) (fun s' x rest h _ => ⟨h.getNext_eq.2, h.ackItem⟩)
      (suffixFrom_length_le _ _) (.start hs hm)
  refine ⟨visited, rest, hsplit, fun x hx => ?_, fun x hx => ?_, hcursor, hwalking⟩
  · exact of_decide_eq_false (hvis x hx)
  · exact of_decide_eq_true (hexit x hx)

end

end

/-- Every item that carries the consumer's bit is at or after its marker. -/
def TracksOwned (s : ChangeTracker C O I) (c : C) : Prop := ∀ j, s.owns c j = true → Tracks s c j

/-- The consumer went on by acknowledging items, and lost track of none that it owns. -/
structure Advanced (c : C) (s s' : ChangeTracker C O I) : Prop extends Acked c s s' where
  consistent : Consistent ∅ s'
  tracksOwned : TracksOwned s c → TracksOwned s' c

theorem Advanced.refl {c : C} {s : ChangeTracker C O I} (hs : Consistent ∅ s) : Advanced c s s := ⟨.refl c s, hs, id⟩

section

variable {s t : ChangeTracker C O I} {c : C} {m : I} {rest : List I}

theorem consumerResetChangeList_of_none (hm : s.marker c = none) : s.consumerResetChangeList c = s := by
  rw [consumerResetChangeList, hm]

theorem TracksOwned.owns_eq_false (h : TracksOwned s c) (hm : s.marker c = none) (j : I) : s.owns c j = false := by
  cases howns : s.owns c j with
  | false => rfl
  | true =>
    obtain ⟨m, hmk, -⟩ := h j howns
    rw [hm] at hmk
    cases hmk

/-- Of the items the consumer owned, those it still owns are ahead of the walk. -/
theorem Walking.mem_rest (h : Walking c m s t rest) (hm : s.marker c = some m) (htr : TracksOwned s c) {j : I}
    (howns : t.owns c j = true) : j ∈ rest := by
  rw [owns, h.acked.bitPosition] at howns
  obtain ⟨m', hm', hsuf⟩ := htr j (h.acked.cleared j _ howns)
  rw [hm, Option.some.injEq] at hm'
  exact h.bits j (hm' ▸ hsuf) howns

theorem consumerResetChangeList_spec (hs : Consistent ∅ s) :
    Consistent ∅ (s.consumerResetChangeList c) ∧ Acked c s (s.consumerResetChangeList c) ∧
      (s.consumerResetChangeList c).marker c = none ∧
      (s.marker c ≠ none → Idle (s.consumerResetChangeList c) c) ∧
      (TracksOwned s c → ∀ j, (s.consumerResetChangeList c).owns c j = false) := by
  cases hm : s.marker c with
  | none =>
    rw [consumerResetChangeList_of_none hm]
    exact ⟨hs, .refl c s, hm, fun h => absurd rfl h, fun htr => htr.owns_eq_false hm⟩
  | some m =>
    have hwalk := resetWalk_spec hs hm
    rw [consumerResetChangeList, hm]
    dsimp only
    generalize (walk getNext (fun _ => false) (resetItem (s.bitPosition c)) s.changeList.length
      (s.removePendingConsumer c) (some m)).1 = t at hwalk
    refine ⟨(hwalk.consistent.setMarker none).attachIdle (by simp), hwalk.acked.trans (acked_setMarker t c none),
      by simp, fun _ => ⟨by simp, ?_, ?_⟩, fun htr j => ?_⟩
    · rw [hook_setMarker]
      exact hwalk.consistent.linked.detached_hook c rfl
    · rw [isInReadyList_setMarker]
      exact hwalk.consistent.linked.detached_ready c rfl
    · rw [(sameItems_setMarker t c none).owns]
      cases howns : t.owns c j with
      | false => rfl
      | true => exact absurd (hwalk.mem_rest hm htr howns) List.not_mem_nil

end

section

variable {s t : ChangeTracker C O I} {c : C} {m x : I} {rest : List I}

theorem Walking.ready (h : Walking c m s t []) (hm : s.marker c = some m) :
    Advanced c s ((t.setMarker c none).addToReadyConsumers c) := by
  have hsame := (sameItems_setMarker t c none).trans (sameItems_addToReadyConsumers _ c)
  refine ⟨(h.acked.trans (acked_setMarker t c none)).trans (acked_addToReadyConsumers _ c),
    (h.consistent.setMarker none).attachReady (by simp), fun htr j howns => ?_⟩
  exact absurd (h.mem_rest hm htr (hsame.owns ▸ howns)) List.not_mem_nil

theorem Walking.park (h : Walking c m s t (x :: rest)) (hm : s.marker c = some m) :
    Advanced c s ((t.setMarker c (some x)).endProcessing c) := by
  obtain ⟨hx, -⟩ := h.getNext_eq
  obtain ⟨pre, hsplit⟩ := h.split
  have hsame := (sameItems_setMarker t c (some x)).trans (sameItems_endProcessing _ c)
  have hmk : (t.setMarker c (some x)).marker c = some x := by simp
  have hparked := (h.consistent.setMarker (some x)).attachPending hmk hx
  rw [← endProcessing_eq hmk] at hparked
  refine ⟨(h.acked.trans (acked_setMarker t c (some x))).trans (acked_endProcessing _ c), hparked,
    fun htr j howns => ⟨x, ?_, ?_⟩⟩
  · rw [endProcessing_eq hmk, marker_pushPendingConsumer, hmk]
  · rw [hsame.changeList, h.consistent.listed.suffixFrom_eq hsplit]
    exact h.mem_rest hm htr (hsame.owns ▸ howns)

theorem addToReadyConsumers_spec (hs : Consistent ∅ s) (hm : s.marker c = none) :
    Advanced c s (s.addToReadyConsumers c) := by
  have hsame := sameItems_addToReadyConsumers s c
  refine ⟨acked_addToReadyConsumers s c, ?_, fun htr j howns => ?_⟩
  · cases hready : s.isInReadyList c with
    | true =>
      rw [addToReadyConsumers, if_pos hready]
      exact hs
    | false =>
      have hdet := hs.detach hready
      rw [removePendingConsumer_of_hook_none (by rw [← hs.linked.marker_eq c (Set.notMem_empty _), hm])] at hdet
      exact hdet.attachReady hm
  · rw [hsame.owns, htr.owns_eq_false hm] at howns
    cases howns

/-- Fast-forwarding acknowledges items for the source, and leaves it parked or ready. -/
theorem attachToMarkerAhead_spec (hs : Consistent ∅ s) {source : C}
    (hreg : s.bitPosition source ≠ kInvalidBitPosition) (target : C) :
    Advanced source s (s.attachToMarkerAhead (some source) (some target)) ∧
      ¬Idle (s.attachToMarkerAhead (some source) (some target)) source := by
  simp only [attachToMarkerAhead, if_neg hreg]
  cases hm : s.marker source with
  | none => exact ⟨addToReadyConsumers_spec hs hm, fun hidle => by simpa using hidle.2.2⟩
  | some m =>
    dsimp only
    split
    · exact ⟨.refl hs, fun hidle => by simpa [hm] using hidle.1⟩
    · obtain ⟨visited, rest, -, -, -, hcursor, hwalk⟩ := ackWalk_spec hs hm (s.marker target)
      generalize walk getNext (fun i => decide (some i = s.marker target)) (ackItem (s.bitPosition source))
        s.changeList.length (s.removePendingConsumer source) (some m) = walked at hcursor hwalk
      rw [hcursor]
      cases rest with
      | nil => exact ⟨hwalk.ready hm, fun hidle => by simpa [takePosition] using hidle.2.2⟩
      | cons x rest =>
        refine ⟨hwalk.park hm, fun hidle => ?_⟩
        have hmk : (walked.1.setMarker source (some x)).marker source = some x := by simp
        have hnone := hidle.1
        simp only [List.head?_cons, takePosition] at hnone
        rw [endProcessing_eq hmk, marker_pushPendingConsumer, hmk] at hnone
        cases hnone

end

end FbossBgp.ChangeTracker
