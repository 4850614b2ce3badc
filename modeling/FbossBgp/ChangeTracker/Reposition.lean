import FbossBgp.ChangeTracker.Acks

/-! Moving a consumer to the marker of another one: joining it there, and rewinding it there while the
other one is retired. Both set the moved consumer's bit on a stretch of the list. -/

namespace FbossBgp.ChangeTracker

open ListCursor List BitmapUtils

variable {C O I : Type*} [DecidableEq C] [DecidableEq O] [DecidableEq I]

/-- The second state has the given bit added to the given items, and nothing else changed. -/
structure BitAdded (q : Nat) (added : List I) (s t : ChangeTracker C O I) : Prop
    extends SameRegistration s t, SameLinks s t where
  changeList : t.changeList = s.changeList
  trackableObject : t.trackableObject = s.trackableObject
  changeItem : t.changeItem = s.changeItem
  processed : t.processed = s.processed
  bits : ∀ j p, isBitSet (t.consumerBitmap j) p = (isBitSet (s.consumerBitmap j) p || decide (p = q ∧ j ∈ added))

section

variable {s t : ChangeTracker C O I} {q : Nat} {added : List I}

theorem BitAdded.refl (q : Nat) (s : ChangeTracker C O I) : BitAdded q [] s s :=
  ⟨.refl s, ⟨rfl, rfl, rfl, rfl, rfl⟩, rfl, rfl, rfl, rfl, by simp⟩

theorem BitAdded.setConsumerBit (h : BitAdded q added s t) (hs : Listed s) {i : I} (hi : i ∈ s.changeList) :
    BitAdded q (added ++ [i]) s (t.setConsumerBit i q) := by
  have hlinks := sameLinks_setConsumerBitMap t i (setBit (t.consumerBitmap i) q)
  have hlive : (t.trackableObject i).isSome := by
    rw [h.trackableObject]
    exact (hs.mem_iff i).mp hi
  refine ⟨h.toSameRegistration.trans (sameRegistration_setConsumerBitMap t i _),
    ⟨hlinks.pendingConsumers.trans h.pendingConsumers, hlinks.marker.trans h.marker, hlinks.hook.trans h.hook,
      hlinks.isInReadyList.trans h.isInReadyList, hlinks.readyConsumers.trans h.readyConsumers⟩,
    h.changeList, (trackableObject_setConsumerBitMap t i _).trans h.trackableObject, h.changeItem, h.processed,
    fun j p => ?_⟩
  rw [ChangeTracker.setConsumerBit, consumerBitmap_setConsumerBitMap t i _ hlive]
  split
  next hj =>
    rw [isBitSet_setBit, ← hj, h.bits]
    by_cases hp : p = q
    · simp [hp]
    · simp [hp, Ne.symm hp]
  next hj => simp [h.bits, hj]

theorem BitAdded.consistent {detached : Set C} (h : BitAdded q added s t) (hs : Consistent detached s) :
    Consistent detached t := by
  refine ⟨⟨h.changeList ▸ hs.listed.nodup, ?_, ?_⟩, hs.linked.sameLinks h.toSameLinks, fun j hj => ?_⟩
  · rw [h.changeList, h.trackableObject]
    exact hs.listed.mem_iff
  · rw [h.trackableObject, h.changeItem]
    exact hs.listed.owner
  · rw [h.changeList] at hj
    have hset := hs.outstanding j hj
    rw [allConsumersProcessed, not_isAllBitsCleared_iff] at hset ⊢
    obtain ⟨p, hp⟩ := hset
    exact ⟨p, by rw [h.bits, hp, Bool.true_or]⟩

/-- The loop that sets a consumer's bit along a stretch of the list. -/
theorem setBitWalk_spec (hs : Listed s) (c : C) (step : ChangeTracker C O I → I → Option I) (segment : List I)
    (hsegment : segment.Sublist s.changeList) (hstep : ∀ t : ChangeTracker C O I, t.changeList = s.changeList →
      ∀ visited x rest, segment = visited ++ x :: rest → step t x = rest.head?) :
    BitAdded (s.bitPosition c) segment s
      (walk step (fun _ => false) (fun t i => t.setConsumerBit i (t.bitPosition c)) s.changeList.length s
        segment.head?).1 := by
  let Done (t : ChangeTracker C O I) (rest : List I) : Prop :=
    ∃ visited, segment = visited ++ rest ∧ BitAdded (s.bitPosition c) visited s t
  have hturn : ∀ t x rest, Done t (x :: rest) →
      step t x = rest.head? ∧ Done (t.setConsumerBit x (t.bitPosition c)) rest := by
    rintro t x rest ⟨visited, hsplit, hadded⟩
    have hx : x ∈ s.changeList := hsegment.subset (by simp [hsplit])
    refine ⟨hstep t hadded.changeList visited x rest hsplit, visited ++ [x], by rw [hsplit, append_cons], ?_⟩
    rw [hadded.bitPosition]
    exact hadded.setConsumerBit hs hx
  obtain ⟨visited, hsplit, hadded⟩ := walk_rule_end Done hturn hsegment.length_le ⟨[], rfl, .refl _ s⟩
  rw [append_nil] at hsplit
  exact hsplit ▸ hadded

end

/-- The consumer has a new marker and owns a stretch of items from there on; for the others nothing
changed. -/
structure Placed (c : C) (m : Option I) (added : List I) (s s' : ChangeTracker C O I) : Prop
    extends SameRegistration s s' where
  consistent : Consistent ∅ s'
  changeList : s'.changeList = s.changeList
  changeItem : s'.changeItem = s.changeItem
  processed : s'.processed = s.processed
  bits : ∀ j p, isBitSet (s'.consumerBitmap j) p =
    (isBitSet (s.consumerBitmap j) p || decide (p = s.bitPosition c ∧ j ∈ added))
  marker : ∀ k, s'.marker k = if k = c then m else s.marker k
  active : ¬Idle s' c
  idle : ∀ k, k ≠ c → (Idle s' k ↔ Idle s k)

section

variable {s : ChangeTracker C O I} {c : C} {m : Option I}

theorem leavePosition_spec (hs : Consistent ∅ s) (c : C) :
    Consistent {c} (s.leavePosition c) ∧ SameItems s (s.leavePosition c) ∧ SameLinksBut c s (s.leavePosition c) := by
  unfold leavePosition
  cases hm : s.marker c with
  | some m =>
    refine ⟨hs.detach (hs.mem_of_marker hm).2.2, sameItems_removePendingConsumer s c, fun k hk => ?_⟩
    simp [place, hk]
  | none =>
    have hhook : s.hook c = none := by rw [← hs.linked.marker_eq c (Set.notMem_empty _), hm]
    have hlink := hs.linked.removeFromReadyConsumers hhook
    rw [LawfulSingleton.insert_empty_eq] at hlink
    have hsame := sameItems_removeFromReadyConsumers s c
    refine ⟨hs.sameItems hsame hlink, hsame, fun k hk => ?_⟩
    simp [place, hk]

theorem takePosition_spec (hs : Consistent {c} s) (hm : ∀ i, m = some i → i ∈ s.changeList) :
    Consistent ∅ (s.takePosition c m) ∧ SameItems s (s.takePosition c m) ∧ SameLinksBut c s (s.takePosition c m) ∧
      (s.takePosition c m).marker c = m ∧ ¬Idle (s.takePosition c m) c := by
  cases m with
  | some i =>
    have hmk : (s.setMarker c (some i)).marker c = some i := by simp
    have hhook : (s.setMarker c (some i)).hook c = none := by
      rw [hook_setMarker]
      exact hs.linked.detached_hook c rfl
    simp only [takePosition, endProcessing_eq hmk]
    refine ⟨(hs.setMarker (some i)).attachPending hmk (hm i rfl),
      (sameItems_setMarker s c _).trans (sameItems_pushPendingConsumer _ i c), fun k hk => ?_, by simp,
      fun hidle => by simpa using hidle.1⟩
    simp [place, hook_pushPendingConsumer _ _ _ hhook, hk]
  | none =>
    refine ⟨(hs.setMarker none).attachReady (by simp),
      (sameItems_setMarker s c _).trans (sameItems_addToReadyConsumers _ c), fun k hk => ?_, by simp [takePosition],
      fun hidle => by simpa [takePosition] using hidle.2.2⟩
    simp [takePosition, place, hk]

theorem relocate_spec (hs : Consistent ∅ s) (c : C) (hm : ∀ i, m = some i → i ∈ s.changeList) :
    Consistent ∅ ((s.leavePosition c).takePosition c m) ∧ SameItems s ((s.leavePosition c).takePosition c m) ∧
      SameLinksBut c s ((s.leavePosition c).takePosition c m) ∧
      ((s.leavePosition c).takePosition c m).marker c = m ∧ ¬Idle ((s.leavePosition c).takePosition c m) c := by
  obtain ⟨hleft, hsame, hbut⟩ := leavePosition_spec hs c
  obtain ⟨hpl, hsame', hbut', hmk, hact⟩ := takePosition_spec hleft (m := m) (by
    rw [hsame.changeList]
    exact hm)
  exact ⟨hpl, hsame.trans hsame', hbut.trans hbut', hmk, hact⟩

end

section

variable {s : ChangeTracker C O I} {new : C}

/-- A registered consumer without a marker joins an existing one at its marker; otherwise nothing
happens. -/
theorem joinConsumer_ok (hs : Consistent ∅ s) (h : s.consumers[s.bitPosition new]? = some (some new)) (existing : C) :
    ∃ s', s.joinConsumer existing new = .ok s' ∧ (((s.marker new ≠ none ∨ s.marker existing = none) ∧ s' = s) ∨
        ∃ m, s.marker new = none ∧ s.marker existing = some m ∧
          Placed new (some m) (suffixFrom s.changeList m) s s') := by
  unfold joinConsumer
  rw [if_neg (not_not.mpr h)]
  cases hnew : s.marker new with
  | some _ => exact ⟨s, rfl, Or.inl ⟨Or.inl (by simp), rfl⟩⟩
  | none =>
    cases hexisting : s.marker existing with
    | none => exact ⟨s, rfl, Or.inl ⟨Or.inr rfl, rfl⟩⟩
    | some m =>
      refine ⟨_, rfl, Or.inr ⟨m, rfl, rfl, ?_⟩⟩
      obtain ⟨-, hmem, -⟩ := hs.mem_of_marker hexisting
      have hrelocated := relocate_spec hs new (m := some m) fun i hi => Option.some.inj hi ▸ hmem
      have heq : (s.leavePosition new).takePosition new (some m) =
          ((s.removeFromReadyConsumers new).setMarker new (some m)).pushPendingConsumer m new := by
        simp only [leavePosition, hnew]
        exact endProcessing_eq (by simp)
      rw [heq] at hrelocated
      generalize ((s.removeFromReadyConsumers new).setMarker new (some m)).pushPendingConsumer m new = pended
        at hrelocated
      obtain ⟨hpended, hsame, hbut, hmk, hact⟩ := hrelocated
      have hwalk := setBitWalk_spec hpended.listed new getNext (suffixFrom pended.changeList m)
        (dropWhile_suffix _).sublist ?_
      · rw [hsame.changeList, head?_suffixFrom hmem] at hwalk
        refine ⟨hsame.toSameRegistration.trans hwalk.toSameRegistration, hwalk.consistent hpended,
          hwalk.changeList.trans hsame.changeList, hwalk.changeItem.trans hsame.changeItem,
          hwalk.processed.trans hsame.processed, fun j p => ?_, fun k => ?_, fun hidle => ?_, fun k hk => ?_⟩
        · rw [hwalk.bits, hsame.consumerBitmap, hsame.bitPosition]
        · rw [hwalk.marker]
          split
          next hk => rw [hk, hmk]
          next hk => exact congrArg Prod.fst (hbut k hk)
        · exact hact ((idle_congr (hwalk.place new)).mp hidle)
        · exact idle_congr ((hwalk.place k).trans (hbut k hk))
      · intro t ht visited x rest hsplit
        obtain ⟨pre, suf, hlist, -, hsuf⟩ := exists_split (hsame.changeList ▸ hmem : m ∈ pended.changeList)
        rw [hsuf] at hsplit
        rw [hsplit, ← append_assoc] at hlist
        rw [getNext, ht]
        exact hpended.listed.getNext_eq hlist

end

section

variable {s : ChangeTracker C O I} {source target : C}

/-- The documented precondition of `attachToMarkerBehind`: the target is at or behind the source, which
is behind everything when it has no marker. -/
def AtOrBehind (s : ChangeTracker C O I) (target source : C) : Prop :=
  match s.marker source with
  | none => True
  | some m => ∃ t, s.marker target = some t ∧ m ∈ suffixFrom s.changeList t

theorem AtOrBehind.of_marker {m : I} (h : AtOrBehind s target source) (hm : s.marker source = some m) :
    ∃ t, s.marker target = some t ∧ m ∈ suffixFrom s.changeList t := by
  rwa [AtOrBehind, hm] at h

/-- The items from the target's marker to the source's, or to the end when the source has none. -/
theorem exists_segment (hs : Consistent ∅ s) (h : AtOrBehind s target source) :
    ∃ segment, segment.Sublist s.changeList ∧ segment.head? = s.marker target ∧
      (∀ j ∈ segment, ∃ m, s.marker target = some m ∧ j ∈ suffixFrom s.changeList m) ∧
      ∀ t : ChangeTracker C O I, t.changeList = s.changeList →
        ∀ visited x rest, segment = visited ++ x :: rest → nextUpTo (s.marker source) t x = rest.head? := by
  have hnext : ∀ pre x suf, s.changeList = pre ++ x :: suf → ListCursor.next s.changeList x = suf.head? :=
    fun _ _ _ => hs.listed.getNext_eq
  cases hsource : s.marker source with
  | none =>
    cases htarget : s.marker target with
    | none => exact ⟨[], nil_sublist _, rfl, by simp, by simp⟩
    | some m =>
      obtain ⟨-, hmem, -⟩ := hs.mem_of_marker htarget
      obtain ⟨pre, suf, hlist, -, hsuf⟩ := exists_split hmem
      refine ⟨suffixFrom s.changeList m, (dropWhile_suffix _).sublist, head?_suffixFrom hmem,
        fun j hj => ⟨m, rfl, hj⟩, fun t ht visited x rest hsplit => ?_⟩
      rw [nextUpTo, getNext, ht]
      refine hnext (pre ++ visited) x rest ?_
      rw [hlist, append_assoc, ← hsplit, hsuf]
  | some m =>
    obtain ⟨start, htarget, hm⟩ := h.of_marker hsource
    obtain ⟨-, hmem, -⟩ := hs.mem_of_marker htarget
    obtain ⟨pre, suf, hlist, -, hsuf⟩ := exists_split hmem
    rw [hsuf] at hm
    obtain ⟨front, back, hfront, hnm⟩ := eq_append_cons_of_mem hm
    have hsplitList : s.changeList = pre ++ (front ++ m :: back) := by rw [hlist, hfront]
    refine ⟨front ++ [m], ?_, ?_, ?_, ?_⟩
    · rw [hsplitList, append_cons front m back]
      exact (sublist_append_left _ back).trans (sublist_append_right pre _)
    · have hhead := congrArg List.head? hfront
      rw [htarget]
      cases front with
      | nil => simpa using hhead.symm
      | cons y front => simpa using hhead.symm
    · intro j hj
      refine ⟨start, htarget, ?_⟩
      rw [hsuf, hfront, append_cons]
      exact mem_append_left back hj
    · intro t ht visited x rest hsplit
      rcases eq_nil_or_concat rest with rfl | ⟨front', last, rfl⟩
      · -- the stretch ends at the source's marker
        have hlast := congrArg List.getLast? hsplit
        rw [List.getLast?_concat, List.getLast?_concat] at hlast
        rw [nextUpTo, if_pos hlast.symm]
        rfl
      · rw [concat_eq_append] at hsplit
        rw [← cons_append, ← append_assoc] at hsplit
        obtain ⟨hfront', hlast⟩ := append_inj' hsplit rfl
        have hne : x ≠ m := fun hx => hnm (by rw [hfront', hx]; simp)
        rw [nextUpTo, if_neg (by simpa using hne), getNext, ht]
        rw [hnext (pre ++ visited) x (front' ++ m :: back) (by rw [hsplitList, hfront']; simp)]
        rw [← singleton_inj.mp hlast]
        cases front' <;> rfl

/-- The source takes over the target's marker, before the target is reset. -/
theorem attachToMarkerBehind_placed (hs : Consistent ∅ s) (hreg : s.bitPosition source ≠ kInvalidBitPosition)
    (h : AtOrBehind s target source) : ∃ segment attached, Placed source (s.marker target) segment s attached ∧
      (∀ j ∈ segment, ∃ m, s.marker target = some m ∧ j ∈ suffixFrom s.changeList m) ∧
      s.attachToMarkerBehind (some source) (some target) = attached.consumerResetChangeList target := by
  obtain ⟨segment, hsublist, hhead, hfrom, hstep⟩ := exists_segment hs h
  have hwalk := setBitWalk_spec hs.listed source (nextUpTo (s.marker source)) segment hsublist hstep
  rw [hhead] at hwalk
  simp only [attachToMarkerBehind, if_neg hreg]
  obtain ⟨hatt, hsame, hbut, hmk, hact⟩ := relocate_spec (hwalk.consistent hs) source (m := s.marker target)
    (fun i hi => by
      rw [hwalk.changeList]
      exact (hs.mem_of_marker hi).2.1)
  refine ⟨segment, _, ⟨hwalk.toSameRegistration.trans hsame.toSameRegistration, hatt,
    hsame.changeList.trans hwalk.changeList, hsame.changeItem.trans hwalk.changeItem,
    hsame.processed.trans hwalk.processed, fun j p => ?_, fun k => ?_, hact, fun k hk => ?_⟩, hfrom, rfl⟩
  · rw [hsame.consumerBitmap, hwalk.bits]
  · split
    next hk => rw [hk, hmk]
    next hk => exact congrArg Prod.fst ((hbut k hk).trans (hwalk.place k))
  · exact idle_congr ((hbut k hk).trans (hwalk.place k))

end

end FbossBgp.ChangeTracker
