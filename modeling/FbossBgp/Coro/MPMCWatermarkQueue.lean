import FbossBgp.Lib.Semaphore
import FbossBgp.Lib.Transition

/-! The queue with watermarks, under any interleaving of its users. A queue that reaches the high watermark is
blocked until it is down to the low one; producers that find it blocked may wait for that. Both the pop that
unblocks the queue and `close` signal once, so that of several waiting producers only one is released. -/

namespace FbossBgp.Coro

open List Transition

structure MPMCWatermarkQueue (T : Type) where
  capacity : Nat
  hiWm : Nat
  loWm : Nat
  blocked : Bool := false
  closed : Bool := false
  readSem : Semaphore Unit := .create 0
  writeSem : Semaphore Unit := .create 0
  queue : List T := []

namespace MPMCWatermarkQueue

variable {T : Type} (q : MPMCWatermarkQueue T) {capacity hiWm loWm : Nat}

/-- The locked section of `push`: whether the value is now in the queue. -/
def pushLocked (val : T) : Bool × MPMCWatermarkQueue T :=
  if q.capacity ≤ q.queue.length then (false, q)
  else
    (true, { q with
        queue := q.queue ++ [val]
        blocked := q.blocked || decide (q.hiWm ≤ (q.queue ++ [val]).length) })

/-- The queue without its front, and the producers that the signal wakes up. -/
def popNoLock : List Unit × MPMCWatermarkQueue T :=
  if q.blocked && decide (q.queue.tail.length ≤ q.loWm) then
    (q.writeSem.signal.1.toList, { q with queue := q.queue.tail, blocked := false, writeSem := q.writeSem.signal.2 })
  else ([], { q with queue := q.queue.tail })

structure Coroutines (T : Type) where
  queue : MPMCWatermarkQueue T
  /-- Values of `push` calls that have found the queue open. -/
  pushing : List T := []
  /-- Signals of `readSem` owed by `push` calls that have left the lock. -/
  readSignals : Nat := 0
  /-- Consumers that have a read token and are about to pop. -/
  readers : Nat := 0
  /-- Producers that saw the queue blocked, at the start of the loop of `waitToPush`. -/
  calling : Nat := 0
  /-- Producers that have found the queue open and are about to wait. -/
  waiting : Nat := 0
  /-- Producers back from waiting. -/
  woken : Nat := 0
  /-- Producers back from waiting that have found the queue open. -/
  rechecking : Nat := 0
  /-- Signals of `writeSem` owed by `close`. -/
  closeSignals : Nat := 0

inductive Action (T : Type) where
  | push (val : T)
  | pushLocked (pusher : Nat)
  | signalRead
  | waitForData
  | cancelPop (waiter : Nat)
  | popLocked
  | isBlocked
  | checkClosed
  | waitForSignal
  | cancelWait (waiter : Nat)
  | recheckClosed
  | recheckBlocked
  | close
  | signalClose

namespace Coroutines

variable (s : Coroutines T)

def pushLocked (val : T) : Coroutines T :=
  let (pushed, queue) := s.queue.pushLocked val
  { s with queue := queue, readSignals := if pushed then s.readSignals + 1 else s.readSignals }

def signalRead : Coroutines T :=
  let (woken, readSem) := s.queue.readSem.signal
  { s with
    queue := { s.queue with readSem := readSem }
    readSignals := s.readSignals - 1
    readers := s.readers + woken.toList.length }

def waitForData : Coroutines T :=
  let (acquired, readSem) := s.queue.readSem.wait ()
  { s with queue := { s.queue with readSem := readSem }, readers := if acquired then s.readers + 1 else s.readers }

/-- The locked section of `pop` and `get`. -/
def popLocked : Coroutines T :=
  let (woken, queue) := s.queue.popNoLock
  { s with queue := queue, readers := s.readers - 1, woken := s.woken + woken.length }

def waitForSignal : Coroutines T :=
  let (acquired, writeSem) := s.queue.writeSem.wait ()
  { s with
    queue := { s.queue with writeSem := writeSem }
    waiting := s.waiting - 1
    woken := if acquired then s.woken + 1 else s.woken }

def signalClose : Coroutines T :=
  let (woken, writeSem) := s.queue.writeSem.signal
  { s with
    queue := { s.queue with writeSem := writeSem }
    closeSignals := s.closeSignals - 1
    woken := s.woken + woken.toList.length }

def exec : Action T → Coroutines T
  | .push val => if s.queue.closed then s else { s with pushing := s.pushing ++ [val] }
  | .pushLocked pusher => match s.pushing[pusher]? with
    | none => s
    | some val => { s with pushing := s.pushing.eraseIdx pusher }.pushLocked val
  | .signalRead => s.signalRead
  | .waitForData => s.waitForData
  | .cancelPop waiter => { s with queue := { s.queue with readSem := s.queue.readSem.cancel waiter } }
  | .popLocked => s.popLocked
  | .isBlocked => if s.queue.blocked then { s with calling := s.calling + 1 } else s
  | .checkClosed =>
    { s with calling := s.calling - 1, waiting := if s.queue.closed then s.waiting else s.waiting + 1 }
  | .waitForSignal => s.waitForSignal
  | .cancelWait waiter => { s with queue := { s.queue with writeSem := s.queue.writeSem.cancel waiter } }
  | .recheckClosed =>
    { s with woken := s.woken - 1, rechecking := if s.queue.closed then s.rechecking else s.rechecking + 1 }
  | .recheckBlocked =>
    { s with rechecking := s.rechecking - 1, calling := if s.queue.blocked then s.calling + 1 else s.calling }
  | .close => { s with queue := { s.queue with closed := true }, closeSignals := s.closeSignals + 1 }
  | .signalClose => s.signalClose

/-- A step of a call needs the call to be in the stage before it. -/
def Enabled : Action T → Prop
  | .pushLocked pusher => pusher < s.pushing.length
  | .signalRead => 0 < s.readSignals
  | .cancelPop waiter => waiter < s.queue.readSem.waiters.length
  | .popLocked => 0 < s.readers
  | .checkClosed => 0 < s.calling
  | .waitForSignal => 0 < s.waiting
  | .cancelWait waiter => waiter < s.queue.writeSem.waiters.length
  | .recheckClosed => 0 < s.woken
  | .recheckBlocked => 0 < s.rechecking
  | .signalClose => 0 < s.closeSignals
  | _ => True

/-- No call in progress can take a step: each is suspended, and only new calls or a cancellation could change
that. -/
structure Quiescent (s : Coroutines T) : Prop where
  pushing : s.pushing = []
  readSignals : s.readSignals = 0
  readers : s.readers = 0
  calling : s.calling = 0
  waiting : s.waiting = 0
  woken : s.woken = 0
  rechecking : s.rechecking = 0
  closeSignals : s.closeSignals = 0

/-- The producers between their test of `isBlocked` and the return of `waitToPush`. -/
def producers : Nat :=
  s.calling + s.waiting + s.queue.writeSem.waiters.length + s.woken + s.rechecking

end Coroutines

/-- The users of a queue with the given capacity and watermarks. -/
def coroutineSystem (T : Type) (capacity hiWm loWm : Nat) : System (Coroutines T) (Action T) where
  init := { queue := { capacity := capacity, hiWm := hiWm, loWm := loWm } }
  enabled := Coroutines.Enabled
  exec := Coroutines.exec

/-- A producer tests `isBlocked` to wait only while no other one is waiting. -/
def oneProducerSystem (T : Type) (capacity hiWm loWm : Nat) : System (Coroutines T) (Action T) :=
  { coroutineSystem T capacity hiWm loWm with
    enabled := fun s action => s.Enabled action ∧ (action = .isBlocked → s.producers = 0) }

namespace Coroutines

variable {s : Coroutines T} {action : Action T} {val : T} {pushing : List T}

/-- Unblocked the queue is below the high watermark and blocked it is above the low one, and each value has a
read token that is available, held or owed. -/
structure Leveled (s : Coroutines T) : Prop where
  unblocked : s.queue.blocked = false → s.queue.queue.length < s.queue.hiWm
  blocked : s.queue.blocked = true → s.queue.loWm < s.queue.queue.length
  reads : s.queue.readSem.tokens + s.readers + s.readSignals = s.queue.queue.length

theorem pushLocked_of_full (hfull : s.queue.capacity ≤ s.queue.queue.length) :
    { s with pushing }.pushLocked val = { s with pushing } := by
  rw [Coroutines.pushLocked, MPMCWatermarkQueue.pushLocked, if_pos hfull]
  rfl

theorem pushLocked_of_room (hroom : s.queue.queue.length < s.queue.capacity) :
    { s with pushing }.pushLocked val = { s with
        pushing
        queue := { s.queue with
          queue := s.queue.queue ++ [val]
          blocked := s.queue.blocked || decide (s.queue.hiWm ≤ s.queue.queue.length + 1) }
        readSignals := s.readSignals + 1 } := by
  rw [Coroutines.pushLocked, MPMCWatermarkQueue.pushLocked, if_neg (Nat.not_le_of_lt hroom), length_append]
  rfl

theorem popLocked_of_unblocking (hblk : s.queue.blocked = true) (hlow : s.queue.queue.length - 1 ≤ s.queue.loWm) :
    s.popLocked = { s with
        queue := { s.queue with
          queue := s.queue.queue.tail
          blocked := false
          writeSem := s.queue.writeSem.signal.2 }
        readers := s.readers - 1
        woken := s.woken + s.queue.writeSem.signal.1.toList.length } := by
  rw [popLocked, popNoLock, hblk, length_tail, decide_eq_true hlow]
  rfl

theorem popLocked_of_not_unblocking (h : ¬(s.queue.blocked = true ∧ s.queue.queue.length - 1 ≤ s.queue.loWm)) :
    s.popLocked = { s with queue := { s.queue with queue := s.queue.queue.tail }, readers := s.readers - 1 } := by
  rw [popLocked, popNoLock, length_tail, if_neg]
  · rfl
  · rw [Bool.and_eq_true, decide_eq_true_iff]
    exact h

section

variable (h : Leveled s)
include h

theorem Leveled.pushLocked (hwatermarks : s.queue.loWm < s.queue.hiWm) (val : T) :
    Leveled (s.pushLocked val) := by
  obtain ⟨hunblocked, hblk, hreads⟩ := h
  by_cases hfull : s.queue.capacity ≤ s.queue.queue.length
  · rw [pushLocked_of_full hfull]
    exact ⟨hunblocked, hblk, hreads⟩
  · rw [pushLocked_of_room (Nat.lt_of_not_le hfull)]
    refine ⟨fun hoff => ?_, fun hon => ?_, ?_⟩
    · rw [Bool.or_eq_false_iff, decide_eq_false_iff_not] at hoff
      simp only [length_append, length_singleton]
      omega
    · rw [Bool.or_eq_true, decide_eq_true_iff] at hon
      simp only [length_append, length_singleton]
      rcases hon with hon | hon
      · have := hblk hon
        omega
      · omega
    · simp only [length_append, length_singleton]
      omega

theorem Leveled.popLocked (hwatermarks : s.queue.loWm < s.queue.hiWm) (hreader : 0 < s.readers) :
    Leveled s.popLocked := by
  obtain ⟨hunblocked, hblk, hreads⟩ := h
  by_cases hcase : s.queue.blocked = true ∧ s.queue.queue.length - 1 ≤ s.queue.loWm
  · rw [popLocked_of_unblocking hcase.1 hcase.2]
    refine ⟨fun _ => ?_, nofun, ?_⟩
    all_goals
      simp only [length_tail]
      omega
  · rw [popLocked_of_not_unblocking hcase]
    refine ⟨fun hoff => ?_, fun hon => ?_, ?_⟩
    · have := hunblocked hoff
      simp only [length_tail]
      omega
    · simp only [length_tail]
      exact Nat.lt_of_not_le fun hle => hcase ⟨hon, hle⟩
    · simp only [length_tail]
      omega

theorem Leveled.signalRead (howed : 0 < s.readSignals) : Leveled s.signalRead := by
  obtain ⟨hunblocked, hblk, hreads⟩ := h
  refine ⟨hunblocked, hblk, ?_⟩
  have htokens := s.queue.readSem.tokens_signal
  simp only [Coroutines.signalRead]
  omega

theorem Leveled.waitForData : Leveled s.waitForData := by
  obtain ⟨hunblocked, hblk, hreads⟩ := h
  refine ⟨hunblocked, hblk, ?_⟩
  have htokens := s.queue.readSem.tokens_wait () s.readers
  simp only [Coroutines.waitForData]
  omega

theorem Leveled.exec (hwatermarks : s.queue.loWm < s.queue.hiWm)
    (hen : s.Enabled action) : Leveled (s.exec action) := by
  have hsame : ∀ s' : Coroutines T, s'.queue.queue = s.queue.queue → s'.queue.blocked = s.queue.blocked →
      s'.queue.hiWm = s.queue.hiWm → s'.queue.loWm = s.queue.loWm → s'.queue.readSem.tokens = s.queue.readSem.tokens →
      s'.readers = s.readers → s'.readSignals = s.readSignals → Leveled s' := by
    intro s' hqueue hblk hhi hlo htokens hreaders hsignals
    refine ⟨?_, ?_, ?_⟩
    · rw [hqueue, hblk, hhi]
      exact h.unblocked
    · rw [hqueue, hblk, hlo]
      exact h.blocked
    · rw [hqueue, htokens, hreaders, hsignals]
      exact h.reads
  cases action with
  | pushLocked pusher =>
    have hlt : pusher < s.pushing.length := hen
    rw [Coroutines.exec, List.getElem?_eq_getElem hlt]
    exact Leveled.pushLocked (s := { s with pushing := s.pushing.eraseIdx pusher }) (hsame _ rfl rfl rfl rfl rfl rfl rfl)
      hwatermarks _
  | popLocked => exact h.popLocked hwatermarks hen
  | signalRead => exact h.signalRead hen
  | waitForData => exact h.waitForData
  | push val | isBlocked =>
    rw [Coroutines.exec]
    split <;> exact hsame _ rfl rfl rfl rfl rfl rfl rfl
  | _ => exact hsame _ rfl rfl rfl rfl rfl rfl rfl

/-- The steps that change the state of the queue: the push that brings it to the high watermark blocks it, and
the pop that brings it down to the low one unblocks it. -/
theorem blocked_exec_iff (hen : s.Enabled action) :
    (s.exec action).queue.blocked = true ↔
      ((∃ pusher, action = .pushLocked pusher) ∧ (s.exec action).queue.queue.length = s.queue.queue.length + 1 ∧
          (s.exec action).queue.queue.length = s.queue.hiWm) ∨
        (s.queue.blocked = true ∧ ¬(action = .popLocked ∧ (s.exec action).queue.queue.length = s.queue.loWm)) := by
  cases action with
  | pushLocked pusher =>
    have hlt : pusher < s.pushing.length := hen
    have hunblocked := h.unblocked
    rw [Coroutines.exec, List.getElem?_eq_getElem hlt]
    dsimp only
    by_cases hfull : s.queue.capacity ≤ s.queue.queue.length
    · rw [pushLocked_of_full hfull]
      simp
    · rw [pushLocked_of_room (Nat.lt_of_not_le hfull)]
      simp only [Bool.or_eq_true, decide_eq_true_iff, length_append, length_singleton, reduceCtorEq,
        false_and, not_false_eq_true, and_true, true_and]
      constructor
      · rintro (hon | hhi)
        · exact .inr hon
        · by_cases hon : s.queue.blocked = true
          · exact .inr hon
          · have := hunblocked (Bool.not_eq_true _ ▸ hon)
            exact .inl ⟨⟨pusher, rfl⟩, by omega⟩
      · rintro (⟨-, hhi⟩ | hon)
        · exact .inr (by omega)
        · exact .inl hon
  | popLocked =>
    have hblk := h.blocked
    by_cases hcase : s.queue.blocked = true ∧ s.queue.queue.length - 1 ≤ s.queue.loWm
    · have := hblk hcase.1
      rw [Coroutines.exec, popLocked_of_unblocking hcase.1 hcase.2]
      simp only [length_tail, Bool.false_eq_true, true_and, false_iff]
      intro _
      omega
    · rw [Coroutines.exec, popLocked_of_not_unblocking hcase]
      simp only [length_tail, reduceCtorEq, exists_false, false_and, false_or, iff_self_and]
      intro hon hlow
      exact hcase ⟨hon, by omega⟩
  | push val | isBlocked =>
    rw [Coroutines.exec]
    split <;> simp
  | _ => simp [Coroutines.exec, Coroutines.signalRead, Coroutines.waitForData, Coroutines.waitForSignal,
      Coroutines.signalClose]

end

theorem watermarks_exec (action : Action T) :
    (s.exec action).queue.capacity = s.queue.capacity ∧ (s.exec action).queue.hiWm = s.queue.hiWm ∧
      (s.exec action).queue.loWm = s.queue.loWm := by
  cases action with
  | pushLocked pusher =>
    rw [Coroutines.exec]
    split
    · exact ⟨rfl, rfl, rfl⟩
    · by_cases hfull : s.queue.capacity ≤ s.queue.queue.length
      · rw [pushLocked_of_full hfull]
        exact ⟨rfl, rfl, rfl⟩
      · rw [pushLocked_of_room (Nat.lt_of_not_le hfull)]
        exact ⟨rfl, rfl, rfl⟩
  | popLocked =>
    rw [Coroutines.exec]
    by_cases hcase : s.queue.blocked = true ∧ s.queue.queue.length - 1 ≤ s.queue.loWm
    · rw [popLocked_of_unblocking hcase.1 hcase.2]
      exact ⟨rfl, rfl, rfl⟩
    · rw [popLocked_of_not_unblocking hcase]
      exact ⟨rfl, rfl, rfl⟩
  | push val | isBlocked =>
    rw [Coroutines.exec]
    split <;> exact ⟨rfl, rfl, rfl⟩
  | _ => exact ⟨rfl, rfl, rfl⟩

/-- With one producer at a time: one that waits, or is about to, for the queue to be unblocked finds it blocked
or a token; one that has found it open finds it open, or a token or a signal that is owed. -/
structure Served (s : Coroutines T) : Prop where
  one : s.producers ≤ 1
  unblocked : 0 < s.calling + s.waiting + s.queue.writeSem.waiters.length →
    s.queue.blocked = true ∨ 0 < s.queue.writeSem.tokens
  closed : 0 < s.waiting + s.queue.writeSem.waiters.length → s.queue.closed = true →
    0 < s.queue.writeSem.tokens + s.closeSignals

theorem Served.signal {s' : Coroutines T} (h : Served s) (hqueue : s'.queue.writeSem = s.queue.writeSem.signal.2)
    (hcalling : s'.calling = s.calling) (hwaiting : s'.waiting = s.waiting) (hrechecking : s'.rechecking = s.rechecking)
    (hwoken : s'.woken = s.woken + s.queue.writeSem.signal.1.toList.length) : Served s' := by
  obtain ⟨hone, hunblocked, hcl⟩ := h
  rw [producers] at hone
  rcases s.queue.writeSem.signal_cases with ⟨hnil, hnone, htokens, hwait⟩ | ⟨waiter, hwait, hsome, -, htokens⟩
  · rw [hnone] at hwoken
    rw [hnil] at hone
    refine ⟨?_, fun _ => .inr ?_, fun _ _ => ?_⟩
    · rw [producers, hqueue, hwait, hcalling, hwaiting, hwoken, hrechecking]
      exact hone
    all_goals
      rw [hqueue]
      omega
  · have hlen := congrArg List.length hwait
    rw [length_cons] at hlen
    rw [hsome, Option.toList_some, length_singleton] at hwoken
    refine ⟨?_, fun hwaits => ?_, fun hwaits => ?_⟩
    · rw [producers, hqueue]
      omega
    all_goals
      rw [hqueue] at hwaits
      omega

theorem Served.waitForSignal (h : Served s) (hwaiting : 0 < s.waiting) : Served s.waitForSignal := by
  obtain ⟨hone, hunblocked, hcl⟩ := h
  rw [producers] at hone
  rcases s.queue.writeSem.wait_cases () with
    ⟨htokens, hacq, htokens', hwait⟩ | ⟨htokens, hacq, htokens', hwait, hwait'⟩
  · refine ⟨?_, fun _ => ?_, fun _ hc => ?_⟩
    · simp only [producers, Coroutines.waitForSignal, hacq, hwait, Bool.false_eq_true, if_false,
        length_append, length_singleton]
      omega
    · exact .inl ((hunblocked (by omega)).resolve_right (by omega))
    · have := hcl (by omega) hc
      simp only [Coroutines.waitForSignal]
      omega
  · -- the producer that takes the token was the only one
    refine ⟨?_, fun hwaits => ?_, fun hwaits => ?_⟩
    · simp only [producers, Coroutines.waitForSignal, hacq, hwait', if_true, length_nil]
      omega
    all_goals
      simp only [Coroutines.waitForSignal, hwait', length_nil] at hwaits
      omega

theorem Served.exec (h : Served s) (hen : s.Enabled action)
    (hone : action = .isBlocked → s.producers = 0) : Served (s.exec action) := by
  cases action with
  | pushLocked pusher =>
    have hlt : pusher < s.pushing.length := hen
    rw [Coroutines.exec, List.getElem?_eq_getElem hlt]
    dsimp only
    by_cases hfull : s.queue.capacity ≤ s.queue.queue.length
    · rw [pushLocked_of_full hfull]
      exact ⟨h.one, h.unblocked, h.closed⟩
    · rw [pushLocked_of_room (Nat.lt_of_not_le hfull)]
      refine ⟨h.one, fun hwaits => ?_, h.closed⟩
      exact (h.unblocked hwaits).imp (fun hon => by rw [hon, Bool.true_or]) id
  | popLocked =>
    by_cases hcase : s.queue.blocked = true ∧ s.queue.queue.length - 1 ≤ s.queue.loWm
    · rw [Coroutines.exec, popLocked_of_unblocking hcase.1 hcase.2]
      exact h.signal rfl rfl rfl rfl rfl
    · rw [Coroutines.exec, popLocked_of_not_unblocking hcase]
      exact ⟨h.one, h.unblocked, h.closed⟩
  | signalClose => exact h.signal rfl rfl rfl rfl rfl
  | waitForSignal => exact h.waitForSignal hen
  | push val =>
    rw [Coroutines.exec]
    split
    · exact h
    · exact ⟨h.one, h.unblocked, h.closed⟩
  | isBlocked =>
    have hnone := hone rfl
    rw [Coroutines.exec]
    split
    next hon =>
      rw [producers] at hnone
      refine ⟨?_, fun _ => .inl hon, h.closed⟩
      rw [producers]
      dsimp only
      omega
    · exact h
  | checkClosed =>
    have hcalling : 0 < s.calling := hen
    have hprod := h.one
    rw [producers] at hprod
    rw [Coroutines.exec]
    by_cases hcl : s.queue.closed = true
    · simp only [hcl, if_true]
      refine ⟨?_, fun hwaits => h.unblocked ?_, h.closed⟩
      · rw [producers]
        dsimp only
        omega
      · omega
    · simp only [hcl, Bool.false_eq_true, if_false]
      refine ⟨?_, fun hwaits => h.unblocked ?_, fun _ hc => absurd hc hcl⟩
      · rw [producers]
        dsimp only
        omega
      · omega
  | cancelWait waiter =>
    have hle := s.queue.writeSem.length_waiters_cancel_le waiter
    have hprod := h.one
    rw [producers] at hprod
    refine ⟨?_, fun hwaits => h.unblocked ?_, fun hwaits => h.closed ?_⟩
    · rw [producers]
      dsimp only [Coroutines.exec]
      omega
    all_goals
      dsimp only [Coroutines.exec] at hwaits
      omega
  | recheckClosed =>
    have hwoken : 0 < s.woken := hen
    have hprod := h.one
    rw [producers] at hprod
    refine ⟨?_, h.unblocked, h.closed⟩
    rw [producers, Coroutines.exec]
    dsimp only
    split <;> omega
  | recheckBlocked =>
    have hrechecking : 0 < s.rechecking := hen
    have hprod := h.one
    rw [producers] at hprod
    rw [Coroutines.exec]
    by_cases hon : s.queue.blocked = true
    · simp only [hon, if_true]
      refine ⟨?_, fun _ => .inl hon, h.closed⟩
      rw [producers]
      dsimp only
      omega
    · simp only [hon, Bool.false_eq_true, if_false]
      refine ⟨?_, h.unblocked, h.closed⟩
      rw [producers]
      dsimp only
      omega
  | close =>
    refine ⟨h.one, h.unblocked, fun _ _ => ?_⟩
    dsimp only [Coroutines.exec]
    omega
  | signalRead | waitForData | cancelPop waiter => exact ⟨h.one, h.unblocked, h.closed⟩

end Coroutines

/-- Every state in a run of one producer at a time. -/
theorem invariants_of_reachable (hwatermarks : loWm < hiWm) {s : Coroutines T}
    (h : Reachable (oneProducerSystem T capacity hiWm loWm) s) :
    s.Leveled ∧ s.Served ∧ s.queue.hiWm = hiWm ∧ s.queue.loWm = loWm := by
  induction h with
  | init =>
    refine ⟨⟨fun _ => Nat.zero_lt_of_lt hwatermarks, nofun, rfl⟩, ⟨Nat.zero_le _, ?_, ?_⟩, rfl, rfl⟩
    · exact fun hwaits => absurd hwaits (Nat.lt_irrefl 0)
    · exact fun hwaits => absurd hwaits (Nat.lt_irrefl 0)
  | @step s action _ hen ih =>
    obtain ⟨hleveled, hserved, hhi, hlo⟩ := ih
    obtain ⟨-, hhi', hlo'⟩ := s.watermarks_exec action
    exact ⟨hleveled.exec (by rwa [hhi, hlo]) hen.1, hserved.exec hen.1 hen.2, hhi'.trans hhi, hlo'.trans hlo⟩

/-- With one waiting producer at a time: the queue is blocked exactly from the push that brings it to the high
watermark to the pop that brings it down to the low one, and no producer is left suspended when the queue is
unblocked or closed. -/
theorem blocked_iff_and_released (hwatermarks : loWm < hiWm) {s : Coroutines T}
    (h : Reachable (oneProducerSystem T capacity hiWm loWm) s) : (∀ action, s.Enabled action →
      ((s.exec action).queue.blocked = true ↔
        ((∃ pusher, action = .pushLocked pusher) ∧ (s.exec action).queue.queue.length = s.queue.queue.length + 1 ∧
            (s.exec action).queue.queue.length = hiWm) ∨
          (s.queue.blocked = true ∧ ¬(action = .popLocked ∧ (s.exec action).queue.queue.length = loWm)))) ∧
      (s.Quiescent → s.queue.blocked = false ∨ s.queue.closed = true → s.queue.writeSem.waiters = []) := by
  obtain ⟨hleveled, hserved, rfl, rfl⟩ := invariants_of_reachable hwatermarks h
  refine ⟨fun action hen => Coroutines.blocked_exec_iff hleveled hen, fun hquiescent hreleased => ?_⟩
  by_contra hwait
  have hlen := length_pos_of_ne_nil hwait
  have htokens := s.queue.writeSem.idle hwait
  rcases hreleased with hoff | hcl
  · rcases hserved.unblocked (by omega) with hon | htoken
    · rw [hoff] at hon
      cases hon
    · omega
  · have hsignal := hserved.closed (by omega) hcl
    rw [hquiescent.closeSignals] at hsignal
    omega

theorem leveled_of_reachable (loWm : Fin hiWm) {s : Coroutines T}
    (h : Reachable (coroutineSystem T capacity hiWm loWm) s) :
    s.Leveled ∧ s.queue.hiWm = hiWm ∧ s.queue.loWm = loWm := by
  induction h with
  | init => exact ⟨⟨fun _ => loWm.pos, nofun, rfl⟩, rfl, rfl⟩
  | @step s action _ hen ih =>
    obtain ⟨hleveled, hhi, hlo⟩ := ih
    obtain ⟨-, hhi', hlo'⟩ := s.watermarks_exec action
    exact ⟨hleveled.exec (by rw [hhi, hlo]; exact loWm.isLt) hen, hhi'.trans hhi, hlo'.trans hlo⟩

/-- With any number of producers and consumers the queue is blocked exactly from the push that brings it to the high
watermark to the pop that brings it down to the low one, and a consumer that was woken up finds a value. -/
theorem blocked_iff_of_any_producers (loWm : Fin hiWm)
    (hreach : Reachable (coroutineSystem T capacity hiWm loWm) s) :
    (∀ action, s.Enabled action → ((s.exec action).queue.blocked = true ↔
        ((∃ pusher, action = .pushLocked pusher) ∧ (s.exec action).queue.queue.length = s.queue.queue.length + 1 ∧
            (s.exec action).queue.queue.length = hiWm) ∨
          (s.queue.blocked = true ∧ ¬(action = .popLocked ∧ (s.exec action).queue.queue.length = loWm)))) ∧
      (0 < s.readers → s.queue.queue ≠ []) := by
  obtain ⟨hleveled, hhi, hlo⟩ := leveled_of_reachable loWm hreach
  refine ⟨fun action hen => ?_, fun hreader hnil => ?_⟩
  · have hiff := Coroutines.blocked_exec_iff hleveled hen
    rwa [hhi, hlo] at hiff
  · have hreads := hleveled.reads
    rw [hnil, length_nil] at hreads
    omega

/-- A producer that waits for the queue to be unblocked, and the pop that does so. -/
def releasedProducerRun : List (Action Nat) :=
  [.push 1, .pushLocked 0, .signalRead, .isBlocked, .checkClosed, .waitForSignal, .waitForData, .popLocked,
    .recheckClosed, .recheckBlocked]

theorem blocked_iff_and_released_releasedProducerRun :
    let s := run (oneProducerSystem Nat 2 1 0) (oneProducerSystem Nat 2 1 0).init releasedProducerRun
    s.queue.blocked = false ∧ s.queue.writeSem.waiters = [] := by
  have hreach := Reachable.init.run (show Admits (oneProducerSystem Nat 2 1 0) _ releasedProducerRun from
      ⟨⟨trivial, nofun⟩, ⟨Nat.zero_lt_one, nofun⟩, ⟨Nat.zero_lt_one, nofun⟩, ⟨trivial, fun _ => rfl⟩,
        ⟨Nat.zero_lt_one, nofun⟩, ⟨Nat.zero_lt_one, nofun⟩, ⟨trivial, nofun⟩, ⟨Nat.zero_lt_one, nofun⟩,
        ⟨Nat.zero_lt_one, nofun⟩, ⟨Nat.zero_lt_one, nofun⟩, trivial⟩)
  exact ⟨rfl, (blocked_iff_and_released Nat.zero_lt_one hreach).2 ⟨rfl, rfl, rfl, rfl, rfl, rfl, rfl, rfl⟩ (.inl rfl)⟩

/-- Two producers that wait, and what follows until nothing is left to do. -/
def twoProducersRun (release : List (Action Nat)) : List (Action Nat) :=
  [.push 1, .pushLocked 0, .signalRead, .isBlocked, .isBlocked, .checkClosed, .checkClosed, .waitForSignal,
    .waitForSignal] ++ release

theorem reachable_twoProducersRun {release : List (Action Nat)} (hrelease : Admits (coroutineSystem Nat 2 1 0)
      (run (coroutineSystem Nat 2 1 0) (coroutineSystem Nat 2 1 0).init (twoProducersRun [])) release) :
    Reachable (coroutineSystem Nat 2 1 0)
      (run (coroutineSystem Nat 2 1 0) (coroutineSystem Nat 2 1 0).init (twoProducersRun release)) := by
  refine Reachable.init.run (admits_append.mpr ⟨?_, hrelease⟩)
  exact ⟨trivial, Nat.zero_lt_one, Nat.zero_lt_one, trivial, trivial, Nat.zero_lt_two, Nat.zero_lt_one,
    Nat.zero_lt_two, Nat.zero_lt_one, trivial⟩

theorem blocked_iff_of_two_producers :
    let s := run (coroutineSystem Nat 2 1 0) (coroutineSystem Nat 2 1 0).init (twoProducersRun [.waitForData])
    s.queue.blocked = true ∧ (s.exec .popLocked).queue.blocked ≠ true ∧ s.queue.queue ≠ [] := by
  have hreach := @reachable_twoProducersRun [.waitForData] ⟨trivial, trivial⟩
  obtain ⟨hblocked, hreader⟩ := blocked_iff_of_any_producers (0 : Fin 1) hreach
  refine ⟨rfl, fun hpopped => ?_, hreader Nat.zero_lt_one⟩
  rcases (hblocked .popLocked Nat.zero_lt_one).mp hpopped with ⟨⟨_, hpush⟩, -⟩ | ⟨-, hpop⟩
  · cases hpush
  · exact hpop ⟨rfl, rfl⟩

/-- One unblocking pop, like one close, releases one of two waiting producers. -/
theorem exists_producer_left_suspended :
    (∃ s, Reachable (coroutineSystem Nat 2 1 0) s ∧ s.Quiescent ∧ s.queue.blocked = false ∧
        s.queue.writeSem.waiters ≠ []) ∧
      ∃ s, Reachable (coroutineSystem Nat 2 1 0) s ∧ s.Quiescent ∧ s.queue.closed = true ∧
        s.queue.writeSem.waiters ≠ [] := by
  have hpop := @reachable_twoProducersRun [.waitForData, .popLocked, .recheckClosed, .recheckBlocked]
    ⟨trivial, Nat.zero_lt_one, Nat.zero_lt_one, Nat.zero_lt_one, trivial⟩
  have hclose := @reachable_twoProducersRun [.close, .signalClose, .recheckClosed]
    ⟨trivial, Nat.zero_lt_one, Nat.zero_lt_one, trivial⟩
  exact ⟨⟨_, hpop, ⟨rfl, rfl, rfl, rfl, rfl, rfl, rfl, rfl⟩, rfl, nofun⟩,
    ⟨_, hclose, ⟨rfl, rfl, rfl, rfl, rfl, rfl, rfl, rfl⟩, rfl, nofun⟩⟩

end MPMCWatermarkQueue

end FbossBgp.Coro
