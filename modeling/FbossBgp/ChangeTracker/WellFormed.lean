import FbossBgp.ChangeTracker.Model

/-! How the tracker's operations on links and bitmaps change each part of the state, and the shape of a state:
what the change list, the objects' items, the pending lists, the markers, the ready set and the registration
tables say about each other. In the middle of an operation a consumer can be detached, with a marker that is not
reflected by any pending list; the set of detached consumers is a parameter and is empty between operations. -/

namespace FbossBgp.ChangeTracker

open ListCursor Function

variable {C O I : Type*} [DecidableEq C] [DecidableEq O] [DecidableEq I]

section

variable {s s' s'' : ChangeTracker C O I}

/-- The two states agree on which consumers are registered and where. -/
structure SameRegistration (s s' : ChangeTracker C O I) : Prop where
  bitPosition : s'.bitPosition = s.bitPosition
  consumers : s'.consumers = s.consumers
  consumerBitManager : s'.consumerBitManager = s.consumerBitManager
  cachedConsumerBitmap : s'.cachedConsumerBitmap = s.cachedConsumerBitmap

/-- The two states differ only in the links: they list the same items with the same objects and bits,
and completed the same objects. -/
structure SameItems (s s' : ChangeTracker C O I) : Prop extends SameRegistration s s' where
  changeList : s'.changeList = s.changeList
  trackableObject : s'.trackableObject = s.trackableObject
  consumerBitmap : s'.consumerBitmap = s.consumerBitmap
  changeItem : s'.changeItem = s.changeItem
  processed : s'.processed = s.processed

/-- The two states link the consumers to the same items. -/
structure SameLinks (s s' : ChangeTracker C O I) : Prop where
  pendingConsumers : s'.pendingConsumers = s.pendingConsumers
  marker : s'.marker = s.marker
  hook : s'.hook = s.hook
  isInReadyList : s'.isInReadyList = s.isInReadyList
  readyConsumers : s'.readyConsumers = s.readyConsumers

/-- Where a consumer is: its marker, the item whose pending list it is in and whether it is in the ready set. -/
def place (s : ChangeTracker C O I) (c : C) : Option I × Option I × Bool := (s.marker c, s.hook c, s.isInReadyList c)

theorem SameLinks.place (h : SameLinks s s') (c : C) : s'.place c = s.place c := by
  rw [ChangeTracker.place, h.marker, h.hook, h.isInReadyList, ChangeTracker.place]

theorem SameRegistration.refl (s : ChangeTracker C O I) : SameRegistration s s := ⟨rfl, rfl, rfl, rfl⟩

theorem SameRegistration.trans (h : SameRegistration s s') (h' : SameRegistration s' s'') : SameRegistration s s'' :=
  ⟨h'.bitPosition.trans h.bitPosition, h'.consumers.trans h.consumers,
    h'.consumerBitManager.trans h.consumerBitManager, h'.cachedConsumerBitmap.trans h.cachedConsumerBitmap⟩

theorem SameItems.owns (h : SameItems s s') : s'.owns = s.owns := by
  funext c i
  rw [ChangeTracker.owns, h.bitPosition, h.consumerBitmap, ChangeTracker.owns]

theorem SameItems.refl (s : ChangeTracker C O I) : SameItems s s := ⟨.refl s, rfl, rfl, rfl, rfl, rfl⟩

theorem SameItems.trans (h : SameItems s s') (h' : SameItems s' s'') : SameItems s s'' :=
  ⟨h.toSameRegistration.trans h'.toSameRegistration, h'.changeList.trans h.changeList,
    h'.trackableObject.trans h.trackableObject, h'.consumerBitmap.trans h.consumerBitmap,
    h'.changeItem.trans h.changeItem, h'.processed.trans h.processed⟩

section

variable (s : ChangeTracker C O I) {α : Type*}

/-- A field that a write to one consumer leaves alone. -/
theorem consumer_update_eq (f : Consumer I → α) {c : C} {k : Consumer I} (h : f k = f (s.consumer c)) :
    (fun c' => f (Function.update s.consumer c k c')) = fun c' => f (s.consumer c') := by
  funext c'
  rw [update_apply]
  split
  next heq => rw [heq, h]
  · rfl

/-- A field that a write to one item leaves alone. -/
theorem item_update_eq (f : ChangeItem C O → α) (i : I) (g : ChangeItem C O → ChangeItem C O)
    (h : ∀ it, f (g it) = f it) :
    (fun j => (Function.update s.items i ((s.items i).map g) j).map f) = fun j => (s.items j).map f := by
  funext j
  rw [update_apply]
  split
  next heq =>
    rw [heq]
    cases s.items i with
    | none => rfl
    | some it => exact congrArg some (h it)
  · rfl

variable (c : C)

/-- A consumer that keeps its bit is no matter of the items. -/
theorem sameItems_modifyConsumer (f : Consumer I → Consumer I)
    (h : (f (s.consumer c)).bitPosition = s.bitPosition c) : SameItems s (s.modifyConsumer c f) :=
  ⟨⟨consumer_update_eq s (·.bitPosition) h, rfl, rfl, rfl⟩, rfl, rfl, rfl, rfl, rfl⟩

variable (i : I)

/-- Nor are the pending consumers of an item. -/
theorem sameItems_modifyItem (f : ChangeItem C O → ChangeItem C O)
    (hobj : ∀ it, (f it).trackableObject = it.trackableObject)
    (hbitmap : ∀ it, (f it).consumerBitmap = it.consumerBitmap) : SameItems s (s.modifyItem i f) :=
  ⟨⟨rfl, rfl, rfl, rfl⟩, rfl, item_update_eq s (·.trackableObject) i f hobj,
    funext fun j => congrArg (Option.getD · []) (congrFun (item_update_eq s (·.consumerBitmap) i f hbitmap) j),
    rfl, rfl⟩

theorem sameItems_setMarker (m : Option I) : SameItems s (s.setMarker c m) := sameItems_modifyConsumer s c _ rfl

theorem sameItems_setInReadyList (b : Bool) : SameItems s (s.setInReadyList c b) := sameItems_modifyConsumer s c _ rfl

theorem sameItems_removePendingConsumer : SameItems s (s.removePendingConsumer c) := by
  unfold removePendingConsumer
  split
  · exact .refl s
  · refine .trans (sameItems_modifyItem s _ _ ?_ ?_) (sameItems_modifyConsumer _ c _ rfl) <;> exact fun _ => rfl

theorem sameItems_pushPendingConsumer (c : C) : SameItems s (s.pushPendingConsumer i c) := by
  unfold pushPendingConsumer
  split
  · exact .refl s
  · refine .trans (sameItems_modifyItem s _ _ ?_ ?_) (sameItems_modifyConsumer _ c _ rfl) <;> exact fun _ => rfl

theorem sameItems_addToReadyConsumers : SameItems s (s.addToReadyConsumers c) := by
  unfold addToReadyConsumers
  split
  · exact .refl s
  · exact ⟨⟨consumer_update_eq s (·.bitPosition) rfl, rfl, rfl, rfl⟩, rfl, rfl, rfl, rfl, rfl⟩

theorem sameItems_removeFromReadyConsumers : SameItems s (s.removeFromReadyConsumers c) := by
  unfold removeFromReadyConsumers
  split
  · exact .refl s
  · exact ⟨⟨consumer_update_eq s (·.bitPosition) rfl, rfl, rfl, rfl⟩, rfl, rfl, rfl, rfl, rfl⟩

theorem sameItems_endProcessing : SameItems s (s.endProcessing c) := by
  unfold endProcessing
  split
  · exact sameItems_pushPendingConsumer s _ c
  · exact .refl s

theorem sameItems_movePendingConsumer (n : Option I) (c : C) : SameItems s (movePendingConsumer n s c) := by
  have hmoved := (sameItems_removePendingConsumer s c).trans (sameItems_setMarker _ c n)
  cases n with
  | none => exact hmoved.trans (sameItems_addToReadyConsumers _ c)
  | some n => exact hmoved.trans (sameItems_pushPendingConsumer _ n c)

/-- By induction on the consumers that move on. -/
theorem sameItems_updateItemPendingConsumers : SameItems s (s.updateItemPendingConsumers i) := by
  unfold updateItemPendingConsumers
  generalize s.getNext i = n
  generalize s.pendingConsumers i = todo
  induction todo generalizing s with
  | nil => exact .refl s
  | cons c todo ih => exact (sameItems_movePendingConsumer s n c).trans (ih _)

theorem sameItems_notifyReadyConsumers : SameItems s (s.notifyReadyConsumers i) := by
  have hfold : SameItems s (s.readyConsumers.foldl (notifyReadyConsumer i) s) := by
    generalize s.readyConsumers = todo
    induction todo generalizing s with
    | nil => exact .refl s
    | cons c todo ih =>
      refine .trans ?_ (ih (notifyReadyConsumer i s c))
      exact ((sameItems_setMarker s c _).trans (sameItems_pushPendingConsumer _ i c)).trans
        (sameItems_setInReadyList _ c false)
  exact hfold.trans ⟨⟨rfl, rfl, rfl, rfl⟩, rfl, rfl, rfl, rfl, rfl⟩

variable (bitmap : ConsumerBitmap)

/-- Bits are no links. -/
theorem sameLinks_setConsumerBitMap : SameLinks s (s.setConsumerBitMap i bitmap) := by
  refine ⟨funext fun j => ?_, rfl, rfl, rfl, rfl⟩
  refine congrArg (Option.getD · []) (congrFun (item_update_eq s (·.pendingConsumers) i _ ?_) j)
  exact fun _ => rfl

theorem trackableObject_setConsumerBitMap : (s.setConsumerBitMap i bitmap).trackableObject = s.trackableObject :=
  item_update_eq s (·.trackableObject) i _ fun _ => rfl

theorem consumerBitmap_setConsumerBitMap (hi : (s.trackableObject i).isSome)
    (j : I) : (s.setConsumerBitMap i bitmap).consumerBitmap j = if j = i then bitmap else s.consumerBitmap j := by
  simp only [consumerBitmap, setConsumerBitMap, modifyItem, update_apply]
  split
  · rw [trackableObject, Option.isSome_map] at hi
    obtain ⟨it, hit⟩ := Option.isSome_iff_exists.mp hi
    simp [hit]
  · rfl

end

section

variable (s : ChangeTracker C O I) (c : C) (m : Option I)

@[simp] theorem marker_setMarker (k : C) : (s.setMarker c m).marker k = if k = c then m else s.marker k := by
  simp only [marker, setMarker, modifyConsumer, update_apply]
  split <;> rfl

@[simp] theorem hook_setMarker : (s.setMarker c m).hook = s.hook := consumer_update_eq s (·.pendingConsumerHook) rfl

@[simp] theorem isInReadyList_setMarker : (s.setMarker c m).isInReadyList = s.isInReadyList :=
  consumer_update_eq s (·.isInReadyList) rfl

@[simp] theorem pendingConsumers_setMarker : (s.setMarker c m).pendingConsumers = s.pendingConsumers := rfl

variable (b : Bool) (k : C)

@[simp] theorem marker_setInReadyList : (s.setInReadyList c b).marker = s.marker := consumer_update_eq s (·.marker) rfl

@[simp] theorem hook_setInReadyList : (s.setInReadyList c b).hook = s.hook :=
  consumer_update_eq s (·.pendingConsumerHook) rfl

@[simp] theorem isInReadyList_setInReadyList :
    (s.setInReadyList c b).isInReadyList k = if k = c then b else s.isInReadyList k := by
  simp only [isInReadyList, setInReadyList, modifyConsumer, update_apply]
  split <;> rfl

@[simp] theorem pendingConsumers_setInReadyList : (s.setInReadyList c b).pendingConsumers = s.pendingConsumers := rfl

@[simp] theorem marker_removePendingConsumer : (s.removePendingConsumer c).marker = s.marker := by
  unfold removePendingConsumer
  split
  · rfl
  · exact consumer_update_eq s (·.marker) rfl

@[simp] theorem hook_removePendingConsumer :
    (s.removePendingConsumer c).hook k = if k = c then none else s.hook k := by
  unfold removePendingConsumer
  split
  next hnone =>
    split
    next hk => rw [hk, hnone]
    · rfl
  · simp only [hook, modifyConsumer, update_apply]
    split <;> rfl

@[simp] theorem isInReadyList_removePendingConsumer : (s.removePendingConsumer c).isInReadyList = s.isInReadyList := by
  unfold removePendingConsumer
  split
  · rfl
  · exact consumer_update_eq s (·.isInReadyList) rfl

@[simp] theorem readyConsumers_removePendingConsumer :
    (s.removePendingConsumer c).readyConsumers = s.readyConsumers := by
  unfold removePendingConsumer
  split <;> rfl

/-- A consumer leaves the list that its hook is in. -/
theorem pendingConsumers_removePendingConsumer (j : I) : (s.removePendingConsumer c).pendingConsumers j =
    if s.hook c = some j then (s.pendingConsumers j).erase c else s.pendingConsumers j := by
  unfold removePendingConsumer
  split
  next hnone => rw [hnone, if_neg (by simp)]
  next i hsome =>
    rw [hsome]
    simp only [pendingConsumers, modifyConsumer, modifyItem, update_apply, Option.some.injEq]
    by_cases hj : j = i
    · subst hj
      rw [if_pos rfl, if_pos rfl]
      cases s.items j <;> rfl
    · rw [if_neg hj, if_neg (Ne.symm hj)]

theorem removePendingConsumer_of_hook_none {s : ChangeTracker C O I} {c : C} (h : s.hook c = none) :
    s.removePendingConsumer c = s := by
  unfold removePendingConsumer
  rw [h]

variable (i : I)

@[simp] theorem marker_pushPendingConsumer : (s.pushPendingConsumer i c).marker = s.marker := by
  unfold pushPendingConsumer
  split
  · rfl
  · exact consumer_update_eq s (·.marker) rfl

theorem hook_pushPendingConsumer (h : s.hook c = none) (k : C) :
    (s.pushPendingConsumer i c).hook k = if k = c then some i else s.hook k := by
  unfold pushPendingConsumer
  rw [h]
  simp only [hook, modifyConsumer, update_apply]
  split <;> rfl

@[simp] theorem isInReadyList_pushPendingConsumer : (s.pushPendingConsumer i c).isInReadyList = s.isInReadyList := by
  unfold pushPendingConsumer
  split
  · rfl
  · exact consumer_update_eq s (·.isInReadyList) rfl

@[simp] theorem readyConsumers_pushPendingConsumer : (s.pushPendingConsumer i c).readyConsumers = s.readyConsumers := by
  unfold pushPendingConsumer
  split <;> rfl

/-- A consumer in no list joins that of a live item. -/
theorem pendingConsumers_pushPendingConsumer (h : s.hook c = none) (hi : (s.trackableObject i).isSome) (j : I) :
    (s.pushPendingConsumer i c).pendingConsumers j =
      if j = i then s.pendingConsumers j ++ [c] else s.pendingConsumers j := by
  unfold pushPendingConsumer
  rw [h]
  simp only [pendingConsumers, modifyConsumer, modifyItem, update_apply]
  by_cases hj : j = i
  · subst hj
    rw [trackableObject, Option.isSome_map] at hi
    obtain ⟨it, hit⟩ := Option.isSome_iff_exists.mp hi
    simp [hit]
  · rw [if_neg hj, if_neg hj]

@[simp] theorem marker_addToReadyConsumers : (s.addToReadyConsumers c).marker = s.marker := by
  unfold addToReadyConsumers
  split
  · rfl
  · exact consumer_update_eq s (·.marker) rfl

@[simp] theorem hook_addToReadyConsumers : (s.addToReadyConsumers c).hook = s.hook := by
  unfold addToReadyConsumers
  split
  · rfl
  · exact consumer_update_eq s (·.pendingConsumerHook) rfl

@[simp] theorem isInReadyList_addToReadyConsumers (k : C) :
    (s.addToReadyConsumers c).isInReadyList k = if k = c then true else s.isInReadyList k := by
  unfold addToReadyConsumers
  split
  next hready =>
    split
    next hk => rw [hk, hready]
    · rfl
  · exact isInReadyList_setInReadyList _ c _ k

@[simp] theorem pendingConsumers_addToReadyConsumers :
    (s.addToReadyConsumers c).pendingConsumers = s.pendingConsumers := by
  unfold addToReadyConsumers
  split <;> rfl

theorem readyConsumers_addToReadyConsumers (h : s.isInReadyList c = false) :
    (s.addToReadyConsumers c).readyConsumers = s.readyConsumers.insert c := by
  unfold addToReadyConsumers
  rw [h]
  rfl

@[simp] theorem marker_removeFromReadyConsumers : (s.removeFromReadyConsumers c).marker = s.marker := by
  unfold removeFromReadyConsumers
  split
  · rfl
  · exact consumer_update_eq s (·.marker) rfl

@[simp] theorem hook_removeFromReadyConsumers : (s.removeFromReadyConsumers c).hook = s.hook := by
  unfold removeFromReadyConsumers
  split
  · rfl
  · exact consumer_update_eq s (·.pendingConsumerHook) rfl

@[simp] theorem isInReadyList_removeFromReadyConsumers (k : C) :
    (s.removeFromReadyConsumers c).isInReadyList k = if k = c then false else s.isInReadyList k := by
  unfold removeFromReadyConsumers
  split
  next hready =>
    split
    next hk => simpa [hk] using hready
    · rfl
  · exact isInReadyList_setInReadyList _ c _ k

@[simp] theorem pendingConsumers_removeFromReadyConsumers :
    (s.removeFromReadyConsumers c).pendingConsumers = s.pendingConsumers := by
  unfold removeFromReadyConsumers
  split <;> rfl

theorem readyConsumers_removeFromReadyConsumers : (s.removeFromReadyConsumers c).readyConsumers =
    if s.isInReadyList c then s.readyConsumers.erase c else s.readyConsumers := by
  unfold removeFromReadyConsumers
  cases s.isInReadyList c <;> rfl

end

end

variable {s s' : ChangeTracker C O I} {detached : Set C} {c : C} {i : I}

/-- The change list holds exactly the live items, each the change item of its own object. -/
structure Listed (s : ChangeTracker C O I) : Prop where
  nodup : s.changeList.Nodup
  mem_iff : ∀ i, i ∈ s.changeList ↔ (s.trackableObject i).isSome
  owner : ∀ i o, s.trackableObject i = some o ↔ s.changeItem o = some i

/-- Lists, hooks, flags and markers agree; a detached consumer is in no list, and its marker is free. -/
structure Linked (detached : Set C) (s : ChangeTracker C O I) : Prop where
  pending_nodup : ∀ i, (s.pendingConsumers i).Nodup
  mem_pending : ∀ i c, c ∈ s.pendingConsumers i ↔ s.hook c = some i
  marker_eq : ∀ c, c ∉ detached → s.marker c = s.hook c
  ready_nodup : s.readyConsumers.Nodup
  mem_ready : ∀ c, c ∈ s.readyConsumers ↔ s.isInReadyList c = true
  ready_unlinked : ∀ c, s.isInReadyList c = true → s.hook c = none
  detached_hook : ∀ c ∈ detached, s.hook c = none
  detached_ready : ∀ c ∈ detached, s.isInReadyList c = false

theorem Linked.not_ready (hs : Linked detached s) (hc : s.hook c = some i) : s.isInReadyList c = false := by
  cases h : s.isInReadyList c with
  | false => rfl
  | true =>
    rw [hs.ready_unlinked c h] at hc
    cases hc

/-- Every item on the list still has a consumer to be processed by. -/
def Outstanding (s : ChangeTracker C O I) : Prop := ∀ i ∈ s.changeList, s.allConsumersProcessed i = false

theorem SameItems.listed (h : SameItems s s') (hs : Listed s) : Listed s' := by
  refine ⟨h.changeList ▸ hs.nodup, fun i => ?_, fun i o => ?_⟩
  · rw [h.changeList, h.trackableObject, hs.mem_iff]
  · rw [h.trackableObject, h.changeItem, hs.owner]

theorem SameItems.outstanding (h : SameItems s s') (hs : Outstanding s) : Outstanding s' := by
  intro i hi
  rw [h.changeList] at hi
  rw [allConsumersProcessed, h.consumerBitmap]
  exact hs i hi

theorem Linked.sameLinks (hs : Linked detached s) (h : SameLinks s s') : Linked detached s' := by
  obtain ⟨hpend, hmk, hhook, hready, hconsumers⟩ := h
  refine ⟨?_, ?_, ?_, ?_, ?_, ?_, ?_, ?_⟩
  · rw [hpend]; exact hs.pending_nodup
  · rw [hpend, hhook]; exact hs.mem_pending
  · rw [hmk, hhook]; exact hs.marker_eq
  · rw [hconsumers]; exact hs.ready_nodup
  · rw [hconsumers, hready]; exact hs.mem_ready
  · rw [hready, hhook]; exact hs.ready_unlinked
  · rw [hhook]; exact hs.detached_hook
  · rw [hready]; exact hs.detached_ready

/-- Only live items have pending consumers. -/
theorem isSome_of_mem_pendingConsumers (h : c ∈ s.pendingConsumers i) :
    (s.trackableObject i).isSome := by
  rw [trackableObject]
  unfold pendingConsumers at h
  cases hi : s.items i with
  | none => rw [hi] at h; exact absurd h List.not_mem_nil
  | some it => rfl

theorem Linked.isSome_of_hook (hs : Linked detached s)
    (h : s.hook c = some i) : (s.trackableObject i).isSome :=
  isSome_of_mem_pendingConsumers ((hs.mem_pending i c).mpr h)

namespace Linked

variable {detached : Set C} {s : ChangeTracker C O I} {c : C}

/-- A consumer that is not ready gets detached. -/
theorem removePendingConsumer (hs : Linked detached s) (hc : s.isInReadyList c = false) :
    Linked (insert c detached) (s.removePendingConsumer c) := by
  refine ⟨fun i => ?_, fun i k => ?_, fun k hk => ?_, ?_, fun k => ?_, fun k => ?_, fun k hk => ?_, fun k hk => ?_⟩
  · rw [pendingConsumers_removePendingConsumer]
    split
    · exact (hs.pending_nodup i).erase c
    · exact hs.pending_nodup i
  · rw [pendingConsumers_removePendingConsumer, hook_removePendingConsumer]
    by_cases hk : k = c
    · rw [hk]
      split
      · simp [(hs.pending_nodup i).not_mem_erase]
      next hne => simp [hs.mem_pending, hne]
    · split
      · rw [List.mem_erase_of_ne hk, hs.mem_pending]
      · rw [hs.mem_pending]
  · rw [Set.mem_insert_iff, not_or] at hk
    rw [marker_removePendingConsumer, hook_removePendingConsumer, if_neg hk.1]
    exact hs.marker_eq k hk.2
  · rw [readyConsumers_removePendingConsumer]
    exact hs.ready_nodup
  · rw [readyConsumers_removePendingConsumer, isInReadyList_removePendingConsumer]
    exact hs.mem_ready k
  · rw [isInReadyList_removePendingConsumer, hook_removePendingConsumer]
    intro hready
    split
    · rfl
    · exact hs.ready_unlinked k hready
  · rw [hook_removePendingConsumer]
    split
    · rfl
    next hne => exact hs.detached_hook k (hk.resolve_left hne)
  · rw [isInReadyList_removePendingConsumer]
    rcases hk with rfl | hk
    · exact hc
    · exact hs.detached_ready k hk

/-- The marker of a detached consumer moves freely. -/
theorem setMarker (hs : Linked detached s) (hc : c ∈ detached) (m : Option I) :
    Linked detached (s.setMarker c m) := by
  refine ⟨hs.pending_nodup, ?_, fun k hk => ?_, hs.ready_nodup, ?_, ?_, ?_, ?_⟩
  · rw [hook_setMarker]; exact hs.mem_pending
  · have hne : k ≠ c := fun h => hk (h ▸ hc)
    rw [marker_setMarker, if_neg hne, hook_setMarker]
    exact hs.marker_eq k hk
  · rw [isInReadyList_setMarker]; exact hs.mem_ready
  · rw [isInReadyList_setMarker, hook_setMarker]; exact hs.ready_unlinked
  · rw [hook_setMarker]; exact hs.detached_hook
  · rw [isInReadyList_setMarker]; exact hs.detached_ready

section

variable (hs : Linked (insert c detached) s)
include hs

/-- A detached consumer without a marker is idle. -/
theorem attach_idle (hmk : s.marker c = none) : Linked detached s := by
  refine ⟨hs.pending_nodup, hs.mem_pending, fun k hk => ?_, hs.ready_nodup, hs.mem_ready, hs.ready_unlinked,
    fun k hk => hs.detached_hook k (Set.mem_insert_of_mem c hk),
    fun k hk => hs.detached_ready k (Set.mem_insert_of_mem c hk)⟩
  by_cases hkc : k = c
  · rw [hkc, hmk, hs.detached_hook c (Set.mem_insert c detached)]
  · exact hs.marker_eq k fun hmem => hk (hmem.resolve_left hkc)

/-- A detached consumer waits at its marker. -/
theorem pushPendingConsumer (hc : c ∉ detached)
    (hi : (s.trackableObject i).isSome) (hmk : s.marker c = some i) :
    Linked detached (s.pushPendingConsumer i c) := by
  have hhook : s.hook c = none := hs.detached_hook c (Set.mem_insert c detached)
  refine ⟨fun j => ?_, fun j k => ?_, fun k hk => ?_, ?_, fun k => ?_, fun k hready => ?_, fun k hk => ?_, fun k hk => ?_⟩
  · rw [pendingConsumers_pushPendingConsumer s c i hhook hi]
    split
    · refine List.Nodup.append (hs.pending_nodup j) (List.nodup_singleton c) ?_
      rw [List.disjoint_singleton, hs.mem_pending, hhook]
      simp
    · exact hs.pending_nodup j
  · rw [pendingConsumers_pushPendingConsumer s c i hhook hi, hook_pushPendingConsumer s c i hhook]
    by_cases hk : k = c
    · rw [hk]
      split
      next hj => simp [hj]
      next hj => simp [hs.mem_pending, hhook, Ne.symm hj]
    · split
      · simp [hs.mem_pending, hk]
      · exact hs.mem_pending j k
  · rw [marker_pushPendingConsumer, hook_pushPendingConsumer s c i hhook]
    split
    next hkc => rw [hkc, hmk]
    next hkc => exact hs.marker_eq k fun hmem => hk (hmem.resolve_left hkc)
  · rw [readyConsumers_pushPendingConsumer]
    exact hs.ready_nodup
  · rw [readyConsumers_pushPendingConsumer, isInReadyList_pushPendingConsumer]
    exact hs.mem_ready k
  · rw [isInReadyList_pushPendingConsumer] at hready
    rw [hook_pushPendingConsumer s c i hhook]
    split
    next hkc =>
      rw [hkc, hs.detached_ready c (Set.mem_insert c detached)] at hready
      cases hready
    · exact hs.ready_unlinked k hready
  · rw [hook_pushPendingConsumer s c i hhook, if_neg (fun h : k = c => hc (h ▸ hk))]
    exact hs.detached_hook k (Set.mem_insert_of_mem c hk)
  · rw [isInReadyList_pushPendingConsumer]
    exact hs.detached_ready k (Set.mem_insert_of_mem c hk)

/-- A detached consumer without a marker becomes ready. -/
theorem addToReadyConsumers (hc : c ∉ detached)
    (hmk : s.marker c = none) : Linked detached (s.addToReadyConsumers c) := by
  have hready : s.isInReadyList c = false := hs.detached_ready c (Set.mem_insert c detached)
  have hnm : c ∉ s.readyConsumers := by simp [hs.mem_ready, hready]
  have hidle := hs.attach_idle hmk
  refine ⟨?_, ?_, ?_, ?_, fun k => ?_, fun k => ?_, ?_, fun k hk => ?_⟩
  · rw [pendingConsumers_addToReadyConsumers]; exact hidle.pending_nodup
  · rw [pendingConsumers_addToReadyConsumers, hook_addToReadyConsumers]; exact hidle.mem_pending
  · rw [marker_addToReadyConsumers, hook_addToReadyConsumers]; exact hidle.marker_eq
  · rw [readyConsumers_addToReadyConsumers s c hready, List.insert_of_not_mem hnm]
    exact List.nodup_cons.mpr ⟨hnm, hs.ready_nodup⟩
  · rw [readyConsumers_addToReadyConsumers s c hready, isInReadyList_addToReadyConsumers, List.mem_insert_iff,
      hs.mem_ready]
    split
    · simp_all
    · simp_all
  · rw [isInReadyList_addToReadyConsumers, hook_addToReadyConsumers]
    intro h
    by_cases hk : k = c
    · rw [hk]
      exact hs.detached_hook c (Set.mem_insert c detached)
    · rw [if_neg hk] at h
      exact hs.ready_unlinked k h
  · rw [hook_addToReadyConsumers]; exact hidle.detached_hook
  · rw [isInReadyList_addToReadyConsumers, if_neg (fun h : k = c => hc (h ▸ hk))]
    exact hidle.detached_ready k hk

end

theorem removeFromReadyConsumers (hs : Linked detached s) (hc : s.hook c = none) :
    Linked (insert c detached) (s.removeFromReadyConsumers c) := by
  refine ⟨?_, ?_, fun k hk => ?_, ?_, fun k => ?_, fun k => ?_, fun k hk => ?_, fun k hk => ?_⟩
  · rw [pendingConsumers_removeFromReadyConsumers]; exact hs.pending_nodup
  · rw [pendingConsumers_removeFromReadyConsumers, hook_removeFromReadyConsumers]; exact hs.mem_pending
  · rw [marker_removeFromReadyConsumers, hook_removeFromReadyConsumers]
    exact hs.marker_eq k fun h => hk (Set.mem_insert_of_mem c h)
  · rw [readyConsumers_removeFromReadyConsumers]
    split
    · exact hs.ready_nodup.erase c
    · exact hs.ready_nodup
  · rw [readyConsumers_removeFromReadyConsumers, isInReadyList_removeFromReadyConsumers]
    by_cases hk : k = c
    · rw [hk]
      split
      · simp [hs.ready_nodup.not_mem_erase]
      next hready => simp [hs.mem_ready, hready]
    · split
      · rw [List.mem_erase_of_ne hk, hs.mem_ready]
      · rw [hs.mem_ready]
  · rw [isInReadyList_removeFromReadyConsumers, hook_removeFromReadyConsumers]
    intro h
    by_cases hk : k = c
    · rw [hk, hc]
    · rw [if_neg hk] at h
      exact hs.ready_unlinked k h
  · rw [hook_removeFromReadyConsumers]
    rcases hk with rfl | hk
    · exact hc
    · exact hs.detached_hook k hk
  · rw [isInReadyList_removeFromReadyConsumers]
    split
    · rfl
    next hne => exact hs.detached_ready k (hk.resolve_left hne)

end Linked

end FbossBgp.ChangeTracker
