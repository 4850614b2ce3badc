import Mathlib.Data.Nat.Bitwise
import FbossBgp.Lib.Cursor
import FbossBgp.ChangeTracker.ConsumerBitManager

/-! The change tracker and its polled consumers. Consumers, trackable objects and change items are
addresses of arbitrary types and the state maps them to their fields; an address of a change item is
live while its object owns it. The intrusive lists are lists of addresses, and a consumer also records
the item whose pending list its hook is linked in. Reading a dangling address gives defaults and writing
it does nothing; the invariants show that no operation does either. The bitmap of an item is a vector of 64-bit
words, read through one observation, `isBitSet`. -/

namespace FbossBgp

abbrev ConsumerBitmap := List UInt64

namespace BitmapUtils

abbrev kBitsPerWord : Nat := 64

def bitMask (position : Nat) : UInt64 := 1 <<< UInt64.ofNat (position % kBitsPerWord)

variable (bitmap : ConsumerBitmap) (position : Nat)

def setBit : ConsumerBitmap :=
  let index := position / kBitsPerWord
  let resized := if index ≥ bitmap.length then bitmap.rightpad (index + 1) 0 else bitmap
  resized.modify index (· ||| bitMask position)

def clearBit : ConsumerBitmap :=
  let index := position / kBitsPerWord
  if index < bitmap.length then bitmap.modify index (· &&& ~~~(bitMask position)) else bitmap

def isBitSet : Bool :=
  match bitmap[position / kBitsPerWord]? with
  | none => false
  | some word => (word &&& bitMask position) != 0

def isAllBitsCleared : Bool := bitmap.all (· == 0)

def orBitmaps (bitmap1 bitmap2 : ConsumerBitmap) : ConsumerBitmap :=
  let maxSize := max bitmap1.length bitmap2.length
  List.zipWith (· ||| ·) (bitmap1.rightpad maxSize 0) (bitmap2.rightpad maxSize 0)

theorem toNat_bitMask : (bitMask position).toNat = 2 ^ (position % 64) := by
  have hlt : position % 64 < 64 := Nat.mod_lt _ (by decide)
  have hpow : 2 ^ (position % 64) < 2 ^ 64 := Nat.pow_lt_pow_right (by decide) hlt
  simp only [bitMask, UInt64.toNat_shiftLeft, UInt64.toNat_ofNat', UInt64.toNat_one]
  rw [Nat.mod_eq_of_lt (show position % 64 < 2 ^ 64 by omega), Nat.mod_eq_of_lt hlt, Nat.one_shiftLeft,
    Nat.mod_eq_of_lt hpow]

variable (word : UInt64) (p q : Nat)

/-- A masked word is nonzero exactly when it holds the bit. -/
theorem and_bitMask_ne_zero (position : Nat) :
    ((word &&& bitMask position) != 0) = word.toNat.testBit (position % 64) := by
  have hzero : ((word &&& bitMask position) = 0) ↔ (word &&& bitMask position).toNat = 0 := by
    rw [← UInt64.toNat_inj]
    rfl
  rw [bne, Bool.eq_iff_iff, Bool.not_eq_true', beq_eq_false_iff_ne, ne_eq, hzero, UInt64.toNat_and, toNat_bitMask]
  rw [Nat.and_two_pow]
  cases word.toNat.testBit (position % 64) <;> simp

theorem testBit_or_bitMask :
    (word ||| bitMask p).toNat.testBit (q % 64) = (word.toNat.testBit (q % 64) || decide (p % 64 = q % 64)) := by
  rw [UInt64.toNat_or, Nat.testBit_lor, toNat_bitMask, Nat.testBit_two_pow]

theorem testBit_and_not_bitMask : (word &&& ~~~(bitMask p)).toNat.testBit (q % 64) =
    (word.toNat.testBit (q % 64) && !decide (p % 64 = q % 64)) := by
  have hlt : q % 64 < 64 := Nat.mod_lt _ (by decide)
  have hnot : (~~~(bitMask p)).toNat.testBit (q % 64) = !decide (p % 64 = q % 64) := by
    have h : (~~~(bitMask p)).toBitVec.getLsbD (q % 64) = !(bitMask p).toBitVec.getLsbD (q % 64) := by
      simp [hlt]
    change (~~~(bitMask p)).toBitVec.toNat.testBit (q % 64) = _
    rw [BitVec.testBit_toNat, h]
    change (!(bitMask p).toNat.testBit (q % 64)) = _
    rw [toNat_bitMask, Nat.testBit_two_pow]
  rw [UInt64.toNat_and, Nat.testBit_land, hnot]

section

variable (bitmap : ConsumerBitmap) (p q : Nat)

theorem getElem?_rightpad_zero (size index : Nat) :
    (bitmap.rightpad size 0)[index]?.getD 0 = bitmap[index]?.getD 0 := by
  rw [List.rightpad, List.getElem?_append]
  split
  · rfl
  · rw [List.getElem?_eq_none (l := bitmap) (by omega), List.getElem?_replicate]
    split <;> rfl

/-- The bit of a position as a bit of the word that holds it, absent words counting as zero. -/
theorem isBitSet_eq_getD (position : Nat) :
    isBitSet bitmap position = (bitmap[position / 64]?.getD 0).toNat.testBit (position % 64) := by
  unfold isBitSet kBitsPerWord
  cases bitmap[position / 64]? with
  | none => simp
  | some word => exact and_bitMask_ne_zero word position

theorem isBitSet_modify (f : UInt64 → UInt64) (index q : Nat) (hindex : index < bitmap.length) :
    isBitSet (bitmap.modify index f) q =
      if index = q / 64 then (f (bitmap[q / 64]?.getD 0)).toNat.testBit (q % 64) else isBitSet bitmap q := by
  rw [isBitSet_eq_getD, isBitSet_eq_getD, List.getElem?_modify]
  by_cases hq : index = q / 64
  · rw [List.getElem?_eq_getElem (hq ▸ hindex)]
    simp [hq]
  · simp [hq]

@[simp] theorem isBitSet_setBit : isBitSet (setBit bitmap p) q = (isBitSet bitmap q || decide (p = q)) := by
  have hmodify : ∀ resized : ConsumerBitmap, p / 64 < resized.length → isBitSet resized q = isBitSet bitmap q →
      isBitSet (resized.modify (p / 64) (· ||| bitMask p)) q = (isBitSet bitmap q || decide (p = q)) := by
    intro resized hlen hsame
    rw [isBitSet_modify _ _ _ _ hlen]
    split
    · rw [testBit_or_bitMask, ← isBitSet_eq_getD]
      congr 1
      rw [decide_eq_decide]
      omega
    · rename_i hindex
      have hne : p ≠ q := fun h => hindex (by rw [h])
      rw [hsame, decide_eq_false hne, Bool.or_false]
  rw [setBit]
  split
  · refine hmodify _ ?_ ?_
    · simp only [kBitsPerWord, List.rightpad, List.length_append, List.length_replicate]
      omega
    · rw [isBitSet_eq_getD, isBitSet_eq_getD, getElem?_rightpad_zero]
  · exact hmodify bitmap (by simp only [kBitsPerWord] at *; omega) rfl

@[simp] theorem isBitSet_clearBit : isBitSet (clearBit bitmap p) q = (isBitSet bitmap q && !decide (p = q)) := by
  simp only [clearBit, kBitsPerWord]
  split_ifs with hlen
  · rw [isBitSet_modify _ _ _ _ hlen]
    split
    · rw [testBit_and_not_bitMask, ← isBitSet_eq_getD]
      congr 2
      rw [decide_eq_decide]
      omega
    · rename_i hindex
      have hne : p ≠ q := fun h => hindex (by rw [h])
      rw [decide_eq_false hne, Bool.not_false, Bool.and_true]
  · by_cases hpq : p = q
    · subst hpq
      simp [isBitSet_eq_getD, List.getElem?_eq_none (l := bitmap) (i := p / 64) (by omega)]
    · simp [hpq]

end

@[simp] theorem isBitSet_orBitmaps (bitmap1 bitmap2 : ConsumerBitmap) (position : Nat) :
    isBitSet (orBitmaps bitmap1 bitmap2) position = (isBitSet bitmap1 position || isBitSet bitmap2 position) := by
  simp only [isBitSet_eq_getD, orBitmaps]
  set size := max bitmap1.length bitmap2.length with hsize
  have hword : (List.zipWith (· ||| ·) (bitmap1.rightpad size 0) (bitmap2.rightpad size 0))[position / 64]?.getD 0 =
      bitmap1[position / 64]?.getD 0 ||| bitmap2[position / 64]?.getD 0 := by
    rw [← getElem?_rightpad_zero bitmap1 size, ← getElem?_rightpad_zero bitmap2 size, List.getElem?_zipWith]
    have hlen1 : (bitmap1.rightpad size 0).length = size := by
      rw [List.length_rightpad]
      omega
    have hlen2 : (bitmap2.rightpad size 0).length = size := by
      rw [List.length_rightpad]
      omega
    by_cases hindex : position / 64 < size
    · rw [List.getElem?_eq_getElem (by omega), List.getElem?_eq_getElem (by omega)]
      rfl
    · rw [List.getElem?_eq_none (by omega), List.getElem?_eq_none (by omega)]
      rfl
  rw [hword, UInt64.toNat_or, Nat.testBit_lor]

@[simp] theorem isBitSet_nil (position : Nat) : isBitSet [] position = false := rfl

theorem isAllBitsCleared_iff : isAllBitsCleared bitmap = true ↔ ∀ position, isBitSet bitmap position = false := by
  simp only [isAllBitsCleared, List.all_eq_true, beq_iff_eq]
  constructor
  · intro hzero position
    rw [isBitSet_eq_getD]
    cases hword : bitmap[position / 64]? with
    | none => simp
    | some word =>
      rw [hzero word (List.mem_of_getElem? hword)]
      simp
  · intro hbits word hmem
    obtain ⟨index, hindex, hword⟩ := List.mem_iff_getElem.mp hmem
    rw [← UInt64.toNat_inj]
    apply Nat.eq_of_testBit_eq
    intro offset
    rw [UInt64.toNat_zero, Nat.zero_testBit]
    by_cases hoffset : offset < 64
    · have hbit := hbits (64 * index + offset)
      rw [isBitSet_eq_getD, show (64 * index + offset) / 64 = index by omega,
        show (64 * index + offset) % 64 = offset by omega, List.getElem?_eq_getElem hindex, hword] at hbit
      exact hbit
    · exact Nat.testBit_lt_two_pow (lt_of_lt_of_le word.toNat_lt (Nat.pow_le_pow_right (by decide) (by omega)))

theorem not_isAllBitsCleared_iff : isAllBitsCleared bitmap = false ↔ ∃ position, isBitSet bitmap position = true := by
  rw [← Bool.not_eq_true, isAllBitsCleared_iff]
  simp

end BitmapUtils

open ListCursor BitmapUtils

inductive ProcessResult where
  | CONTINUE
  | YIELD
  deriving DecidableEq, Repr

structure ChangeItem (C O : Type*) where
  trackableObject : O
  consumerBitmap : ConsumerBitmap
  pendingConsumers : List C

structure Consumer (I : Type*) where
  bitPosition : Nat
  marker : Option I
  pendingConsumerHook : Option I
  isInReadyList : Bool
  shouldTerminate : Bool

/-- `processed` records the calls of the change-processed callback, each with the bits that remained on
the item of its object. -/
structure ChangeTracker (C O I : Type*) where
  changeList : List I
  items : I → Option (ChangeItem C O)
  changeItem : O → Option I
  consumer : C → Consumer I
  consumers : List (Option C)
  readyConsumers : List C
  consumerBitManager : ConsumerBitManager
  cachedConsumerBitmap : ConsumerBitmap
  processed : List (O × ConsumerBitmap)

/-- `static_cast<size_t>(-1)`: the position of a consumer that is not registered. -/
def kInvalidBitPosition : Nat := 2 ^ 64 - 1

variable {C O I : Type*} [DecidableEq C] [DecidableEq O] [DecidableEq I]

namespace ChangeTracker

/-- A new tracker, with consumers that were constructed and not yet registered. -/
def empty : ChangeTracker C O I where
  changeList := []
  items := fun _ => none
  changeItem := fun _ => none
  consumer := fun _ =>
    { bitPosition := kInvalidBitPosition, marker := none, pendingConsumerHook := none,
      isInReadyList := false, shouldTerminate := false }
  consumers := []
  readyConsumers := []
  consumerBitManager := .create ConsumerBitManager.kDefaultMaxBits
  cachedConsumerBitmap := []
  processed := []

section

variable (s : ChangeTracker C O I)

def consumerBitmap (i : I) : ConsumerBitmap := ((s.items i).map (·.consumerBitmap)).getD []

def pendingConsumers (i : I) : List C := ((s.items i).map (·.pendingConsumers)).getD []

def trackableObject (i : I) : Option O := (s.items i).map (·.trackableObject)

variable (c : C) (i : I)

def marker : Option I := (s.consumer c).marker

def hook : Option I := (s.consumer c).pendingConsumerHook

def bitPosition : Nat := (s.consumer c).bitPosition

def isInReadyList : Bool := (s.consumer c).isInReadyList

/-- The consumer's bit is set on the item. -/
def owns : Bool := isBitSet (s.consumerBitmap i) (s.bitPosition c)

def isOnChangeList (o : O) : Bool := (s.changeItem o).isSome

def getNext : Option I := next s.changeList i

end

section

variable (s : ChangeTracker C O I) (c : C) (i : I)

def modifyConsumer (f : Consumer I → Consumer I) : ChangeTracker C O I :=
  { s with consumer := Function.update s.consumer c (f (s.consumer c)) }

def modifyItem (f : ChangeItem C O → ChangeItem C O) : ChangeTracker C O I :=
  { s with items := Function.update s.items i ((s.items i).map f) }

def setMarker (newMarker : Option I) : ChangeTracker C O I :=
  s.modifyConsumer c fun k => { k with marker := newMarker }

def setInReadyList (inReadyList : Bool) : ChangeTracker C O I :=
  s.modifyConsumer c fun k => { k with isInReadyList := inReadyList }

/-- `item->removePendingConsumer(consumer)`: erasing an intrusive node takes it out of the list it is
linked in. -/
def removePendingConsumer : ChangeTracker C O I :=
  match s.hook c with
  | none => s
  | some i =>
    (s.modifyItem i fun it => { it with pendingConsumers := it.pendingConsumers.erase c }).modifyConsumer c
      fun k => { k with pendingConsumerHook := none }

/-- `item->pendingConsumers.push_back(consumer)`, guarded by the test that the hook is not linked. -/
def pushPendingConsumer (c : C) : ChangeTracker C O I :=
  match s.hook c with
  | some _ => s
  | none =>
    (s.modifyItem i fun it => { it with pendingConsumers := it.pendingConsumers ++ [c] }).modifyConsumer c
      fun k => { k with pendingConsumerHook := some i }

def addToReadyConsumers : ChangeTracker C O I :=
  if s.isInReadyList c then s
  else { s with readyConsumers := s.readyConsumers.insert c }.setInReadyList c true

def removeFromReadyConsumers : ChangeTracker C O I :=
  if !s.isInReadyList c then s
  else { s with readyConsumers := s.readyConsumers.erase c }.setInReadyList c false

/-- One turn of the loop of `updateItemPendingConsumers`: the front consumer of the item moves on. -/
def movePendingConsumer (nextItem : Option I) (s : ChangeTracker C O I) (c : C) : ChangeTracker C O I :=
  let moved := (s.removePendingConsumer c).setMarker c nextItem
  match nextItem with
  | some n => moved.pushPendingConsumer n c
  | none => moved.addToReadyConsumers c

def updateItemPendingConsumers : ChangeTracker C O I :=
  (s.pendingConsumers i).foldl (movePendingConsumer (s.getNext i)) s

def endProcessing : ChangeTracker C O I :=
  match s.marker c with
  | some i => s.pushPendingConsumer i c
  | none => s

end

section

variable (s : ChangeTracker C O I) (i : I) (consumerId : Nat)

def setConsumerBitMap (bitmap : ConsumerBitmap) : ChangeTracker C O I :=
  s.modifyItem i fun it => { it with consumerBitmap := bitmap }

def markConsumerProcessed : ChangeTracker C O I :=
  s.setConsumerBitMap i (clearBit (s.consumerBitmap i) consumerId)

def setConsumerBit : ChangeTracker C O I :=
  s.setConsumerBitMap i (setBit (s.consumerBitmap i) consumerId)

def allConsumersProcessed : Bool :=
  isAllBitsCleared (s.consumerBitmap i)

/-- Unlinks the item, deletes it with its object's `changeItem_` and calls the callback. -/
def retireItem : ChangeTracker C O I :=
  match s.trackableObject i with
  | none => s
  | some o =>
    { s with
      changeList := s.changeList.erase i
      items := Function.update s.items i none
      changeItem := Function.update s.changeItem o none
      processed := s.processed ++ [(o, s.consumerBitmap i)] }

def notifyProducer : ChangeTracker C O I :=
  (s.updateItemPendingConsumers i).retireItem i

def checkAndNotifyProducer : ChangeTracker C O I :=
  if s.allConsumersProcessed i then s.notifyProducer i else s

end

section

variable (s : ChangeTracker C O I) (c : C) (consumerId : Nat)

def getFullConsumerBitmap : ConsumerBitmap := s.cachedConsumerBitmap

/-- `consumers_` after the resize and the store at a position. -/
def storeConsumer (position : Nat) (c : C) : List (Option C) :=
  (s.consumers.rightpad (position + 1) none).set position (some c)

def registerConsumer : Except String (Nat × ChangeTracker C O I) :=
  if s.bitPosition c ≠ kInvalidBitPosition then .ok (s.bitPosition c, s)
  else
    match s.consumerBitManager.getConsumerBit with
    | .error e => .error e
    | .ok (position, manager) =>
      .ok (position, { s with
          consumerBitManager := manager
          consumers := s.storeConsumer position c
          cachedConsumerBitmap := setBit s.cachedConsumerBitmap position }.addToReadyConsumers c)

def registerWithTracker : Except String (ChangeTracker C O I) :=
  match s.registerConsumer c with
  | .error e => .error e
  | .ok (position, s') =>
    .ok (s'.modifyConsumer c fun k => { k with bitPosition := position, shouldTerminate := false })

/-- The body of the loop of `consumerResetChangeList`. -/
def resetItem (s : ChangeTracker C O I) (i : I) : ChangeTracker C O I :=
  (s.markConsumerProcessed i consumerId).checkAndNotifyProducer i

def consumerResetChangeList : ChangeTracker C O I :=
  match s.marker c with
  | none => s
  | some m =>
    let unpended := s.removePendingConsumer c
    let walked := walk getNext (fun _ => false) (resetItem (s.bitPosition c)) s.changeList.length unpended (some m)
    walked.1.setMarker c none

def unregisterConsumer : ChangeTracker C O I :=
  match s.consumers[consumerId]? with
  | none => s
  | some none => s
  | some (some c) =>
    let unregistered := { s with
      consumers := s.consumers.set consumerId none
      consumerBitManager := (s.consumerBitManager.freeConsumerBit consumerId).2
      cachedConsumerBitmap := clearBit s.cachedConsumerBitmap consumerId }
    (unregistered.removeFromReadyConsumers c).consumerResetChangeList c

def deregisterFromTracker : ChangeTracker C O I :=
  (s.unregisterConsumer (s.bitPosition c)).modifyConsumer c
    fun k => { k with bitPosition := kInvalidBitPosition, marker := none }

end

section

variable (s : ChangeTracker C O I) (i : I) (address : I) (o : O) (bitmap : ConsumerBitmap)

def changeListHasOnlyOneItem : Bool := s.changeList.length == 1

def shouldSkipChangePublication : Bool :=
  s.consumerBitManager.numBitsInUse == 0 || (!s.isOnChangeList o && isAllBitsCleared bitmap)

/-- One turn of the loop of `notifyReadyConsumers`; a polled consumer has no coroutine to resume. -/
def notifyReadyConsumer (s : ChangeTracker C O I) (c : C) : ChangeTracker C O I :=
  ((s.setMarker c (some i)).pushPendingConsumer i c).setInReadyList c false

def notifyReadyConsumers : ChangeTracker C O I :=
  { s.readyConsumers.foldl (notifyReadyConsumer i) s with readyConsumers := [] }

/-- Takes a listed item off the list to be moved to its end, with the new consumers added. -/
def unlinkForMove : ChangeTracker C O I :=
  let unlinked := if i ∈ s.changeList then
      let updated := if s.changeListHasOnlyOneItem then s else s.updateItemPendingConsumers i
      { updated with changeList := updated.changeList.erase i }
    else s
  unlinked.setConsumerBitMap i (orBitmaps (s.consumerBitmap i) bitmap)

def createChangeItem : ChangeTracker C O I :=
  { s with
    items := Function.update s.items address
      (some { trackableObject := o, consumerBitmap := bitmap, pendingConsumers := [] })
    changeItem := Function.update s.changeItem o (some address) }

/-- `address` is where the allocator would place a new change item. -/
def publishChange (trackableObject : Option O) (bitmap : ConsumerBitmap) : ChangeTracker C O I :=
  match trackableObject with
  | none => s
  | some o =>
    if s.shouldSkipChangePublication o bitmap then
      { s with processed := s.processed ++ [(o, ((s.changeItem o).map s.consumerBitmap).getD [])] }
    else
      let (prepared, i) := match s.changeItem o with
        | some i => (s.unlinkForMove i bitmap, i)
        | none => (s.createChangeItem address o bitmap, address)
      { prepared with changeList := prepared.changeList ++ [i] }.notifyReadyConsumers i

end

section

variable (s : ChangeTracker C O I) (c : C)

/-- The loop of `markProcessed` that skips the items without the consumer's bit. -/
def skipUnowned (start : Option I) : Option I :=
  (walk getNext (fun j => s.owns c j) (fun s _ => s) s.changeList.length s start).2

/-- Sets the marker, and adds the consumer to the ready set at the end of the list. -/
def moveMarker (nextItem : Option I) : ChangeTracker C O I :=
  match nextItem with
  | none => (s.setMarker c none).addToReadyConsumers c
  | some n => s.setMarker c (some n)

def markProcessed (i : I) : ChangeTracker C O I :=
  let unpended := s.removePendingConsumer c
  let nextItem := unpended.skipUnowned c (unpended.getNext i)
  ((unpended.markConsumerProcessed i (s.bitPosition c)).moveMarker c nextItem).checkAndNotifyProducer i

/-- The polling cycle: the state it leaves and the items the callback was called on, each with the
bitmap it had then. An item is visited at most once in a cycle, so a callback that answers by item
covers every sequence of answers. -/
def iterateLoop (c : C) (untilMarker : Option I) (callback : I → ProcessResult) :
    Nat → ChangeTracker C O I → ChangeTracker C O I × List (I × ConsumerBitmap)
  | 0, s => (s, [])
  | n + 1, s =>
    match s.marker c with
    | none => (s, [])
    | some i =>
      if some i = untilMarker then (s, [])
      else
        match callback i with
        | .YIELD => (s, [(i, s.consumerBitmap i)])
        | .CONTINUE =>
          let rest := iterateLoop c untilMarker callback n (s.markProcessed c i)
          (rest.1, (i, s.consumerBitmap i) :: rest.2)

def iterateChangesUntilExcluding (untilMarker : Option I)
    (callback : I → ProcessResult) : ChangeTracker C O I × List (I × ConsumerBitmap) :=
  if untilMarker.any (fun u => !s.owns c u) then (s, [])
  else
    let unpended := match s.marker c with
      | none => s
      | some _ => s.removePendingConsumer c
    let looped := iterateLoop c untilMarker callback s.changeList.length unpended
    (looped.1.endProcessing c, looped.2)

variable (callback : I → ProcessResult)

def iterateChangesToEnd : ChangeTracker C O I × List (I × ConsumerBitmap) :=
  s.iterateChangesUntilExcluding c none callback

/-- The loop of `consumeChanges` in polled mode. -/
def consumeLoop (c : C) (callback : I → ProcessResult) :
    Nat → ChangeTracker C O I → ChangeTracker C O I × List (I × ConsumerBitmap)
  | 0, s => (s, [])
  | n + 1, s =>
    if (s.consumer c).shouldTerminate then (s, [])
    else
      match s.marker c with
      | none => (s.addToReadyConsumers c, [])
      | some i =>
        if !s.owns c i then consumeLoop c callback n (s.setMarker c (s.getNext i))
        else
          match callback i with
          | .YIELD => (s.pushPendingConsumer i c, [(i, s.consumerBitmap i)])
          | .CONTINUE =>
            let processed := s.markConsumerProcessed i (s.bitPosition c)
            let advanced := processed.setMarker c (s.getNext i)
            let rest := consumeLoop c callback n (advanced.checkAndNotifyProducer i)
            (rest.1, (i, s.consumerBitmap i) :: rest.2)

def consumeChanges : ChangeTracker C O I × List (I × ConsumerBitmap) :=
  let unpended := match s.marker c with
    | none => s
    | some _ => s.removePendingConsumer c
  consumeLoop c callback (s.changeList.length + 1) unpended

end

section

variable (s : ChangeTracker C O I) (sourceConsumer targetConsumer : Option C) (c : C)

def leavePosition : ChangeTracker C O I :=
  match s.marker c with
  | some _ => s.removePendingConsumer c
  | none => s.removeFromReadyConsumers c

def takePosition (newMarker : Option I) : ChangeTracker C O I :=
  match newMarker with
  | some _ => (s.setMarker c newMarker).endProcessing c
  | none => (s.setMarker c newMarker).addToReadyConsumers c

def joinConsumer (s : ChangeTracker C O I) (existingConsumer newConsumer : C) : Except String (ChangeTracker C O I) :=
  if s.consumers[s.bitPosition newConsumer]? ≠ some (some newConsumer) then
    .error "New consumer must be registered before calling joinConsumer"
  else
    match s.marker newConsumer, s.marker existingConsumer with
    | some _, _ => .ok s
    | none, none => .ok s
    | none, some pendedItem =>
      let unready := s.removeFromReadyConsumers newConsumer
      let pended := (unready.setMarker newConsumer (some pendedItem)).pushPendingConsumer pendedItem newConsumer
      .ok (walk getNext (fun _ => false) (fun s i => s.setConsumerBit i (s.bitPosition newConsumer))
        s.changeList.length pended (some pendedItem)).1

/-- The body of the loop of `attachToMarkerAhead`. -/
def ackItem (consumerId : Nat) (s : ChangeTracker C O I) (i : I) : ChangeTracker C O I :=
  if isBitSet (s.consumerBitmap i) consumerId then
    (s.markConsumerProcessed i consumerId).checkAndNotifyProducer i
  else s

def attachToMarkerAhead : ChangeTracker C O I :=
  match sourceConsumer, targetConsumer with
  | some source, some target =>
    if s.bitPosition source = kInvalidBitPosition then s
    else
      match s.marker source with
      | none => s.addToReadyConsumers source
      | some startItem =>
        if some startItem = s.marker target then s
        else
          let unpended := s.removePendingConsumer source
          let walked := walk getNext (fun i => decide (some i = s.marker target))
            (ackItem (s.bitPosition source)) s.changeList.length unpended (some startItem)
          walked.1.takePosition source walked.2
  | _, _ => s

/-- The successor of the loop of `attachToMarkerBehind`, which leaves after the source's marker. -/
def nextUpTo (sourceMarker : Option I) (s : ChangeTracker C O I) (i : I) : Option I :=
  if some i = sourceMarker then none else s.getNext i

def attachToMarkerBehind : ChangeTracker C O I :=
  match sourceConsumer, targetConsumer with
  | some source, some target =>
    if s.bitPosition source = kInvalidBitPosition then s
    else
      let owned := (walk (nextUpTo (s.marker source)) (fun _ => false)
        (fun s i => s.setConsumerBit i (s.bitPosition source)) s.changeList.length s (s.marker target)).1
      ((owned.leavePosition source).takePosition source (s.marker target)).consumerResetChangeList target
  | _, _ => s

end

end ChangeTracker

end FbossBgp
