import FbossBgp.Lib.Semaphore
import FbossBgp.Lib.Transition
import Mathlib.Data.List.Perm.Basic

/-! The bounded queue with back pressure, under any interleaving of the coroutines that use it. A step is one
locked section or one operation of a semaphore; between two steps of a call its coroutine is in one of the
stages of `Coroutines`. A pusher is represented by the value it pushes. -/

namespace FbossBgp.Coro

open List Transition

structure BackPressuredQueue (T : Type) where
  capacity : Nat
  closed : Bool := false
  dataQueue : List T := []
  dataQueueReadSem : Semaphore Unit := .create 0
  pushRequestQueue : Semaphore T := .create 0
  pushRequestQueueSize : Nat := 0

namespace BackPressuredQueue

variable {T : Type} (q : BackPressuredQueue T) {capacity : Nat}

/-- Whether the request is granted, and whether the value is now in the queue. -/
def requestPushToDataQueue (val : T) : (Bool × Bool) × BackPressuredQueue T :=
  if q.closed then ((true, false), q)
  else if q.dataQueue.length < q.capacity then ((true, true), { q with dataQueue := q.dataQueue ++ [val] })
  else ((false, false), { q with pushRequestQueueSize := q.pushRequestQueueSize + 1 })

/-- The front of the queue, and whether a push request is to be woken up. -/
def popDataQueue : Option ((T × Bool) × BackPressuredQueue T) :=
  match q.dataQueue with
  | [] => none
  | val :: rest =>
    if 0 < q.pushRequestQueueSize then
      some ((val, true), { q with dataQueue := rest, pushRequestQueueSize := q.pushRequestQueueSize - 1 })
    else some ((val, false), { q with dataQueue := rest })

/-- The queue and the calls in progress. -/
structure Coroutines (T : Type) where
  queue : BackPressuredQueue T
  /-- Signals of `dataQueueReadSem` owed by pushers that have left the lock. -/
  readSignals : Nat := 0
  /-- Pushers whose request failed and that are about to wait. -/
  failed : List T := []
  /-- Pushers back from waiting that have not yet retried. -/
  woken : List T := []
  /-- Consumers that have a read token and are about to pop. -/
  readers : Nat := 0
  /-- Signals of `pushRequestQueue` owed by a `pop` or `close` that has left the lock. -/
  pushSignals : Nat := 0

inductive Action (T : Type) where
  | push (val : T)
  | waitForRoom (pusher : Nat)
  | retry (pusher : Nat)
  | cancelPush (waiter : Nat)
  | forcePush (val : T)
  | signalRead
  | waitForData
  | cancelPop (waiter : Nat)
  | popData
  | signalPush
  | close
  | reopen

namespace Action

/-- What a call pushes. -/
def pushed : Action T → List T
  | .push val | .forcePush val => [val]
  | _ => []

def isForcePush : Action T → Bool
  | .forcePush _ => true
  | _ => false

/-- Whether the queue is closed after an action. -/
def closes (closed : Bool) : Action T → Bool
  | .close => true
  | .reopen => false
  | _ => closed

end Action

namespace Coroutines

variable (s : Coroutines T) (val : T)

/-- One turn of the loop of a push, up to where it waits or signals. -/
def request : Coroutines T :=
  match s.queue.requestPushToDataQueue val with
  | ((true, true), queue) => { s with queue := queue, readSignals := s.readSignals + 1 }
  | ((true, false), queue) => { s with queue := queue }
  | ((false, _), queue) => { s with queue := queue, failed := s.failed ++ [val] }

def waitForRoom : Coroutines T :=
  let (acquired, pushRequestQueue) := s.queue.pushRequestQueue.wait val
  { s with
    queue := { s.queue with pushRequestQueue := pushRequestQueue }
    woken := if acquired then s.woken ++ [val] else s.woken }

def forcePush : Coroutines T :=
  { s with
    queue := { s.queue with dataQueue := s.queue.dataQueue ++ [val] }
    readSignals := s.readSignals + 1 }

def signalRead : Coroutines T :=
  let (woken, dataQueueReadSem) := s.queue.dataQueueReadSem.signal
  { s with
    queue := { s.queue with dataQueueReadSem := dataQueueReadSem }
    readSignals := s.readSignals - 1
    readers := s.readers + woken.toList.length }

def waitForData : Coroutines T :=
  let (acquired, dataQueueReadSem) := s.queue.dataQueueReadSem.wait ()
  { s with
    queue := { s.queue with dataQueueReadSem := dataQueueReadSem }
    readers := if acquired then s.readers + 1 else s.readers }

/-- The locked section of `pop`. -/
def popData : Coroutines T :=
  match s.queue.popDataQueue with
  | none => s
  | some ((_, wakeUpPushRequest), queue) =>
    { s with
      queue := queue
      readers := s.readers - 1
      pushSignals := if wakeUpPushRequest then s.pushSignals + 1 else s.pushSignals }

def signalPush : Coroutines T :=
  let (woken, pushRequestQueue) := s.queue.pushRequestQueue.signal
  { s with
    queue := { s.queue with pushRequestQueue := pushRequestQueue }
    pushSignals := s.pushSignals - 1
    woken := s.woken ++ woken.toList }

/-- The locked section of `close`, which owes a signal for each request. -/
def close : Coroutines T :=
  { s with
    queue := { s.queue with closed := true, pushRequestQueueSize := 0 }
    pushSignals := s.pushSignals + s.queue.pushRequestQueueSize }

def exec : Action T → Coroutines T
  | .push val => s.request val
  | .waitForRoom pusher => match s.failed[pusher]? with
    | none => s
    | some val => { s with failed := s.failed.eraseIdx pusher }.waitForRoom val
  | .retry pusher => match s.woken[pusher]? with
    | none => s
    | some val => { s with woken := s.woken.eraseIdx pusher }.request val
  | .cancelPush waiter =>
    { s with queue := { s.queue with pushRequestQueue := s.queue.pushRequestQueue.cancel waiter } }
  | .forcePush val => s.forcePush val
  | .signalRead => s.signalRead
  | .waitForData => s.waitForData
  | .cancelPop waiter =>
    { s with queue := { s.queue with dataQueueReadSem := s.queue.dataQueueReadSem.cancel waiter } }
  | .popData => s.popData
  | .signalPush => s.signalPush
  | .close => s.close
  | .reopen => { s with queue := { s.queue with closed := false } }

/-- A step of a call needs the call to be in the stage before it. -/
def Enabled : Action T → Prop
  | .waitForRoom pusher => pusher < s.failed.length
  | .retry pusher => pusher < s.woken.length
  | .cancelPush waiter => waiter < s.queue.pushRequestQueue.waiters.length
  | .cancelPop waiter => waiter < s.queue.dataQueueReadSem.waiters.length
  | .signalRead => 0 < s.readSignals
  | .popData => 0 < s.readers
  | .signalPush => 0 < s.pushSignals
  | _ => True

/-- What an action puts into the queue: the value of a push that finds it open and with room, or a forced one. -/
def accepts : Action T → List T
  | .push val => if s.queue.closed = false ∧ s.queue.dataQueue.length < s.queue.capacity then [val] else []
  | .retry pusher =>
    if s.queue.closed = false ∧ s.queue.dataQueue.length < s.queue.capacity then s.woken[pusher]?.toList else []
  | .forcePush val => [val]
  | _ => []

/-- What an action takes out of the queue. -/
def pops : Action T → List T
  | .popData => s.queue.dataQueue.take 1
  | _ => []

/-- The push that an action ends without accepting it: a closed queue drops it, or it is cancelled. -/
def drops : Action T → List T
  | .push val => if s.queue.closed then [val] else []
  | .retry pusher => if s.queue.closed then s.woken[pusher]?.toList else []
  | .cancelPush waiter => s.queue.pushRequestQueue.waiters[waiter]?.toList
  | _ => []

/-- The values of the pushes in progress. -/
def pushers : List T := s.failed ++ s.queue.pushRequestQueue.waiters ++ s.woken

/-- Each value in the queue has a read token that is available, held or owed. Whoever waits for room, or is about
to, has a request that is counted or a signal that is owed or available; while the queue is empty such a signal is
on its way or a pusher about to retry. -/
structure Inv (s : Coroutines T) : Prop where
  reads : s.queue.dataQueueReadSem.tokens + s.readers + s.readSignals = s.queue.dataQueue.length
  requests : s.queue.pushRequestQueue.waiters.length + s.failed.length ≤
    s.queue.pushRequestQueueSize + s.queue.pushRequestQueue.tokens + s.pushSignals
  closed : s.queue.closed = true → s.queue.pushRequestQueueSize = 0
  wakeUp : 0 < s.queue.pushRequestQueue.waiters.length + s.failed.length → s.queue.dataQueue.length = 0 →
    0 < s.queue.pushRequestQueue.tokens + s.pushSignals + s.woken.length

variable {s : Coroutines T}

/-- The outcomes of a request: dropped by a closed queue, accepted, or failed at a full one. -/
theorem request_cases (s : Coroutines T) (val : T) : (s.queue.closed = true ∧ s.request val = s) ∨
    (s.queue.closed = false ∧ s.queue.dataQueue.length < s.queue.capacity ∧ s.request val = { s with
          queue := { s.queue with dataQueue := s.queue.dataQueue ++ [val] }
          readSignals := s.readSignals + 1 }) ∨
    (s.queue.closed = false ∧ s.queue.capacity ≤ s.queue.dataQueue.length ∧ s.request val = { s with
          queue := { s.queue with pushRequestQueueSize := s.queue.pushRequestQueueSize + 1 }
          failed := s.failed ++ [val] }) := by
  by_cases hcl : s.queue.closed = true
  · exact .inl ⟨hcl, by rw [request, requestPushToDataQueue, if_pos hcl]⟩
  · have hopen : s.queue.closed = false := Bool.not_eq_true _ ▸ hcl
    by_cases hroom : s.queue.dataQueue.length < s.queue.capacity
    · exact .inr (.inl ⟨hopen, hroom, by rw [request, requestPushToDataQueue, if_neg hcl, if_pos hroom]⟩)
    · exact .inr (.inr ⟨hopen, Nat.le_of_not_lt hroom,
        by rw [request, requestPushToDataQueue, if_neg hcl, if_neg hroom]⟩)

/-- After a request no wake-up rests on the pusher that made it. -/
theorem Inv.request (hcap : 1 ≤ s.queue.capacity) (woken : List T) (h : Inv { s with woken := woken }) (val : T) :
    Inv (s.request val) := by
  obtain ⟨hreads, hreqs, hcl, hwakeUp⟩ := h
  dsimp only at *
  rcases s.request_cases val with ⟨hcase, heq⟩ | ⟨hcase, hroom, heq⟩ | ⟨hcase, hfull, heq⟩
  · -- a closed queue counts no requests, so a signal is owed or available to each waiter
    have := hcl hcase
    rw [heq]
    exact ⟨hreads, hreqs, hcl, fun hwaits _ => by omega⟩
  · rw [heq]
    refine ⟨?_, hreqs, hcl, ?_⟩
    all_goals
      simp only [length_append, length_singleton]
      omega
  · rw [heq]
    refine ⟨hreads, ?_, fun h => ?_, ?_⟩
    · simp only [length_append, length_singleton]
      omega
    · rw [hcase] at h
      cases h
    · dsimp only
      omega

theorem Inv.waitForRoom {val : T} {failed : List T} (h : Inv { s with failed := failed })
    (hfailed : failed.length = s.failed.length + 1) : Inv (s.waitForRoom val) := by
  obtain ⟨hreads, hreqs, hcl, hwakeUp⟩ := h
  dsimp only at *
  rcases s.queue.pushRequestQueue.wait_cases val with
    ⟨htokens, hacq, htokens', hwait⟩ | ⟨htokens, hacq, htokens', hwait, hwait'⟩
  · refine ⟨hreads, ?_, hcl, ?_⟩
    all_goals
      simp only [Coroutines.waitForRoom, hacq, hwait, Bool.false_eq_true, if_false,
        length_append, length_singleton]
      omega
  · refine ⟨hreads, ?_, hcl, ?_⟩
    all_goals
      simp only [Coroutines.waitForRoom, hacq, hwait', if_true, length_append, length_singleton, length_nil] at *
      omega

theorem Inv.forcePush (h : Inv s) (val : T) : Inv (s.forcePush val) := by
  obtain ⟨hreads, hreqs, hcl, hwakeUp⟩ := h
  refine ⟨?_, hreqs, hcl, ?_⟩
  all_goals
    simp only [Coroutines.forcePush, length_append, length_singleton]
    omega

theorem Inv.signalRead (h : Inv s) (howed : 0 < s.readSignals) : Inv s.signalRead := by
  obtain ⟨hreads, hreqs, hcl, hwakeUp⟩ := h
  refine ⟨?_, hreqs, hcl, hwakeUp⟩
  have htokens := s.queue.dataQueueReadSem.tokens_signal
  simp only [Coroutines.signalRead]
  omega

theorem Inv.waitForData (h : Inv s) : Inv s.waitForData := by
  obtain ⟨hreads, hreqs, hcl, hwakeUp⟩ := h
  refine ⟨?_, hreqs, hcl, hwakeUp⟩
  have htokens := s.queue.dataQueueReadSem.tokens_wait () s.readers
  simp only [Coroutines.waitForData]
  omega

theorem popData_of_nil (hqueue : s.queue.dataQueue = []) : s.popData = s := by
  rw [Coroutines.popData, popDataQueue]
  split
  · rfl
  next heq => rw [hqueue] at heq; cases heq

/-- A pop takes one request off the count, if there is one, and owes it a signal. -/
theorem popData_eq {val : T} {rest : List T} (hqueue : s.queue.dataQueue = val :: rest) : s.popData = { s with
    queue := { s.queue with dataQueue := rest, pushRequestQueueSize := s.queue.pushRequestQueueSize - 1 }
    readers := s.readers - 1
    pushSignals := s.pushSignals + min s.queue.pushRequestQueueSize 1 } := by
  rw [Coroutines.popData, popDataQueue, hqueue]
  by_cases hrequest : 0 < s.queue.pushRequestQueueSize
  · simp only [if_pos hrequest, if_true, Nat.min_eq_right (show 1 ≤ s.queue.pushRequestQueueSize from hrequest)]
  · have hzero : s.queue.pushRequestQueueSize = 0 := Nat.eq_zero_of_not_pos hrequest
    simp only [hzero, Nat.lt_irrefl, if_false, Bool.false_eq_true, Nat.zero_min, Nat.add_zero]

/-- A consumer with a read token finds a value, and wakes up a request if there is one. -/
theorem Inv.popData (h : Inv s) (hreader : 0 < s.readers) : Inv s.popData := by
  obtain ⟨hreads, hreqs, hcl, hwakeUp⟩ := h
  cases hqueue : s.queue.dataQueue with
  | nil =>
    rw [hqueue, length_nil] at hreads
    omega
  | cons val rest =>
    rw [hqueue, length_cons] at hreads
    rw [popData_eq hqueue]
    refine ⟨?_, ?_, fun hc => ?_, fun hwaits _ => ?_⟩
    · dsimp only
      omega
    · dsimp only
      omega
    · have := hcl hc
      dsimp only
      omega
    · -- with no request counted, each waiter has a signal that is owed or available
      dsimp only at *
      omega

theorem Inv.signalPush (h : Inv s) (howed : 0 < s.pushSignals) : Inv s.signalPush := by
  obtain ⟨hreads, hreqs, hcl, hwakeUp⟩ := h
  rcases s.queue.pushRequestQueue.signal_cases with
    ⟨hnil, hnone, htokens, hwait⟩ | ⟨waiter, hwait, hsome, htokens, htokens'⟩
  · refine ⟨hreads, ?_, hcl, ?_⟩
    all_goals
      simp only [Coroutines.signalPush, hwait, length_nil] at *
      omega
  · have hlen := congrArg List.length hwait
    rw [length_cons] at hlen
    refine ⟨hreads, ?_, hcl, ?_⟩
    all_goals
      simp only [Coroutines.signalPush, hsome, Option.toList_some, length_append, length_singleton]
      omega

theorem Inv.close (h : Inv s) : Inv s.close := by
  obtain ⟨hreads, hreqs, hcl, hwakeUp⟩ := h
  refine ⟨hreads, ?_, fun _ => rfl, ?_⟩
  all_goals
    dsimp only [Coroutines.close]
    omega

theorem Inv.cancelPush (h : Inv s) (waiter : Nat) : Inv (s.exec (.cancelPush waiter)) := by
  obtain ⟨hreads, hreqs, hcl, hwakeUp⟩ := h
  have hle := s.queue.pushRequestQueue.length_waiters_cancel_le waiter
  refine ⟨hreads, ?_, hcl, ?_⟩
  all_goals
    dsimp only [exec]
    rw [Semaphore.tokens_cancel]
    omega

end Coroutines

def coroutineSystem (T : Type) (capacity : Nat) : System (Coroutines T) (Action T) where
  init := { queue := { capacity := capacity } }
  enabled := Coroutines.Enabled
  exec := Coroutines.exec

instance (s : Coroutines T) (action : Action T) : Decidable ((coroutineSystem T capacity).enabled s action) := by
  cases action <;> dsimp only [coroutineSystem, Coroutines.Enabled] <;> infer_instance

namespace Coroutines

variable {s : Coroutines T} (action : Action T) (val : T)

theorem frame_request :
    (s.request val).queue.capacity = s.queue.capacity ∧ (s.request val).queue.closed = s.queue.closed := by
  rcases s.request_cases val with ⟨-, heq⟩ | ⟨-, -, heq⟩ | ⟨-, -, heq⟩ <;> rw [heq] <;> exact ⟨rfl, rfl⟩

/-- The capacity is fixed, and only `close` and `open` close and open the queue. -/
theorem frame_exec : (s.exec action).queue.capacity = s.queue.capacity ∧
    (s.exec action).queue.closed = action.closes s.queue.closed := by
  cases action with
  | push val => exact frame_request val
  | waitForRoom pusher | retry pusher =>
    rw [exec]
    split
    · exact ⟨rfl, rfl⟩
    · first | exact ⟨rfl, rfl⟩ | exact frame_request _
  | popData =>
    cases hqueue : s.queue.dataQueue with
    | nil => rw [exec, popData_of_nil hqueue]; exact ⟨rfl, rfl⟩
    | cons val rest => rw [exec, popData_eq hqueue]; exact ⟨rfl, rfl⟩
  | _ => exact ⟨rfl, rfl⟩

theorem dataQueue_request : (s.request val).queue.dataQueue = s.queue.dataQueue ++ s.accepts (.push val) := by
  rcases s.request_cases val with ⟨hcl, heq⟩ | ⟨hopen, hroom, heq⟩ | ⟨-, hfull, heq⟩
  · simp [heq, accepts, hcl]
  · simp [heq, accepts, hopen, hroom]
  · simp [heq, accepts, Nat.not_lt.mpr hfull]

/-- The queue is first in, first out. -/
theorem dataQueue_exec :
    s.queue.dataQueue ++ s.accepts action = s.pops action ++ (s.exec action).queue.dataQueue := by
  cases action with
  | push val => exact (dataQueue_request val).symm
  | waitForRoom pusher =>
    rw [exec]
    split <;> exact append_nil _
  | retry pusher =>
    cases hval : s.woken[pusher]? with
    | none => simp [exec, accepts, pops, hval]
    | some val =>
      simpa only [exec, accepts, hval, pops, Option.toList_some, nil_append] using
        (dataQueue_request (s := { s with woken := s.woken.eraseIdx pusher }) val).symm
  | popData =>
    cases hqueue : s.queue.dataQueue with
    | nil => simp [exec, accepts, pops, popData_of_nil hqueue, hqueue]
    | cons val rest => simp [exec, accepts, pops, popData_eq hqueue, hqueue]
  | forcePush val => rfl
  | _ => exact append_nil _

theorem room_of_accepts (h : s.accepts action ≠ []) :
    (∃ val, action = .forcePush val) ∨ s.queue.dataQueue.length < s.queue.capacity := by
  cases action with
  | push val | retry pusher =>
    right
    by_contra hfull
    simp [accepts, hfull] at h
  | forcePush val => exact .inl ⟨val, rfl⟩
  | _ => exact absurd rfl h

theorem length_accepts_le : (s.accepts action).length ≤ 1 := by
  cases action with
  | push val | retry pusher =>
    rw [accepts]
    split
    · first | exact Nat.le_refl _ | exact Option.length_toList_le
    · exact Nat.zero_le _
  | forcePush val => exact Nat.le_refl _
  | _ => exact Nat.zero_le _

/-- Above its capacity the queue only grows by `forcePush`. -/
theorem length_exec_le (hfull : s.queue.capacity < (s.exec action).queue.dataQueue.length) :
    (∃ val, action = .forcePush val) ∨ (s.exec action).queue.dataQueue.length ≤ s.queue.dataQueue.length := by
  have hlen := congrArg length (dataQueue_exec (s := s) action)
  have hone := length_accepts_le (s := s) action
  rw [length_append, length_append] at hlen
  by_cases hnil : s.accepts action = []
  · rw [hnil, length_nil] at hlen
    omega
  · exact (room_of_accepts action hnil).imp_right fun hroom => by omega

theorem perm_cons_eraseIdx {l : List T} {i : Nat} {val : T} (hval : l[i]? = some val) :
    l.Perm (val :: l.eraseIdx i) := by
  obtain ⟨hlt, rfl⟩ := List.getElem?_eq_some_iff.mp hval
  exact (getElem_cons_eraseIdx_perm hlt).symm

theorem pushers_request :
    (val :: s.pushers).Perm (s.accepts (.push val) ++ (s.drops (.push val) ++ (s.request val).pushers)) := by
  rcases s.request_cases val with ⟨hcl, heq⟩ | ⟨hopen, hroom, heq⟩ | ⟨hopen, hfull, heq⟩
  · simp [heq, accepts, drops, hcl]
  · simp [heq, accepts, drops, hopen, hroom, pushers]
  · simpa [heq, accepts, drops, hopen, Nat.not_lt.mpr hfull, pushers] using perm_middle.symm

theorem pushers_waitForRoom : (val :: s.pushers).Perm (s.waitForRoom val).pushers := by
  rw [waitForRoom, pushers, pushers]
  rcases s.queue.pushRequestQueue.wait_cases val with ⟨-, hacq, -, hwait⟩ | ⟨-, hacq, -, hwait, hwait'⟩
  · simp only [hacq, hwait, Bool.false_eq_true, if_false]
    rw [← append_assoc s.failed, append_assoc _ [val]]
    exact perm_middle.symm
  · simpa [hacq, hwait, hwait'] using (perm_append_singleton val (s.failed ++ s.woken)).symm

/-- Each push is in progress until it is accepted, dropped by a closed queue or cancelled. -/
theorem pushers_exec : (s.pushers ++ action.pushed).Perm
    (s.accepts action ++ (s.drops action ++ (s.exec action).pushers)) := by
  cases action with
  | push val => exact (perm_append_singleton _ _).trans (pushers_request val)
  | waitForRoom pusher =>
    cases hval : s.failed[pusher]? with
    | none => simp [exec, accepts, drops, Action.pushed, hval]
    | some val =>
      have hperm : s.pushers.Perm (val :: { s with failed := s.failed.eraseIdx pusher }.pushers) :=
        ((perm_cons_eraseIdx hval).append_right _).append_right _
      simpa [exec, accepts, drops, Action.pushed, hval] using hperm.trans (pushers_waitForRoom val)
  | retry pusher =>
    cases hval : s.woken[pusher]? with
    | none => simp [exec, accepts, drops, Action.pushed, hval]
    | some val =>
      have hperm : s.pushers.Perm (val :: { s with woken := s.woken.eraseIdx pusher }.pushers) :=
        ((perm_cons_eraseIdx hval).append_left _).trans perm_middle
      simpa [exec, accepts, drops, Action.pushed, hval] using hperm.trans (pushers_request val)
  | cancelPush waiter =>
    cases hval : s.queue.pushRequestQueue.waiters[waiter]? with
    | none =>
      simp [exec, accepts, drops, Action.pushed, pushers, Semaphore.cancel, eraseIdx_of_length_le,
        List.getElem?_eq_none_iff.mp hval]
    | some val =>
      have hperm := (((perm_cons_eraseIdx hval).append_left s.failed).trans perm_middle).append_right s.woken
      simpa [exec, accepts, drops, Action.pushed, hval, pushers, Semaphore.cancel] using hperm
  | forcePush val => exact perm_append_singleton _ _
  | popData =>
    cases hqueue : s.queue.dataQueue with
    | nil => simp [exec, accepts, drops, Action.pushed, popData_of_nil hqueue]
    | cons val rest => simp [exec, accepts, drops, Action.pushed, popData_eq hqueue, pushers]
  | signalPush =>
    rcases s.queue.pushRequestQueue.signal_cases with ⟨hnil, hnone, -, hwait⟩ | ⟨waiter, hwait, hsome, -⟩
    · simp [exec, accepts, drops, Action.pushed, pushers, signalPush, hnil, hnone, hwait]
    · simpa [exec, accepts, drops, Action.pushed, pushers, signalPush, hsome, hwait] using
        ((perm_append_singleton waiter (s.queue.pushRequestQueue.signal.2.waiters ++ s.woken)).symm).append_left s.failed
  | _ => exact .of_eq (append_nil _)

theorem Inv.exec (hcap : 1 ≤ s.queue.capacity) (h : Inv s) {action : Action T} (hen : s.Enabled action) :
    Inv (s.exec action) := by
  cases action with
  | push val => exact Inv.request hcap s.woken h val
  | waitForRoom pusher =>
    have hlt : pusher < s.failed.length := hen
    rw [Coroutines.exec, List.getElem?_eq_getElem hlt]
    refine Inv.waitForRoom (s := { s with failed := s.failed.eraseIdx pusher }) h ?_
    rw [length_eraseIdx_of_lt hlt]
    omega
  | retry pusher =>
    have hlt : pusher < s.woken.length := hen
    rw [Coroutines.exec, List.getElem?_eq_getElem hlt]
    exact Inv.request (s := { s with woken := s.woken.eraseIdx pusher }) hcap s.woken h _
  | cancelPush waiter => exact h.cancelPush waiter
  | forcePush val => exact h.forcePush val
  | signalRead => exact h.signalRead hen
  | waitForData => exact h.waitForData
  | cancelPop waiter => exact ⟨h.reads, h.requests, h.closed, h.wakeUp⟩
  | popData => exact h.popData hen
  | signalPush => exact h.signalPush hen
  | close => exact h.close
  | reopen => exact ⟨h.reads, h.requests, nofun, h.wakeUp⟩

end Coroutines

theorem inv_of_reachable (hcap : 1 ≤ capacity) {s : Coroutines T}
    (h : Reachable (coroutineSystem T capacity) s) : s.Inv ∧ s.queue.capacity = capacity := by
  induction h with
  | init => exact ⟨⟨rfl, Nat.le_refl _, fun _ => rfl, fun h => absurd h (Nat.lt_irrefl 0)⟩, rfl⟩
  | step _ hen ih =>
    obtain ⟨hinv, heq⟩ := ih
    exact ⟨hinv.exec (by rwa [heq]) hen, (Coroutines.frame_exec _).1.trans heq⟩

section Runs

variable (capacity : Nat) (s : Coroutines T) (actions : List (Action T))

theorem dataQueue_run : s.queue.dataQueue ++ observed (coroutineSystem T capacity) Coroutines.accepts s actions =
    observed (coroutineSystem T capacity) Coroutines.pops s actions ++
      (run (coroutineSystem T capacity) s actions).queue.dataQueue :=
  observed_fifo (fun s => s.queue.dataQueue) (fun _ => Coroutines.dataQueue_exec) s actions

/-- Whatever has been pushed has been accepted, dropped or cancelled, or is in progress. -/
theorem pushers_run : (s.pushers ++ actions.flatMap Action.pushed).Perm
    (observed (coroutineSystem T capacity) Coroutines.accepts s actions ++
      (observed (coroutineSystem T capacity) Coroutines.drops s actions ++
        (run (coroutineSystem T capacity) s actions).pushers)) := by
  induction actions generalizing s with
  | nil => exact .of_eq (append_nil _)
  | cons action actions ih =>
    rw [flatMap_cons, ← append_assoc]
    refine ((Coroutines.pushers_exec action).append_right _).trans ?_
    simp only [observed, append_assoc]
    exact .append_left _ (((ih (s.exec action)).append_left _).trans (perm_append_comm_assoc _ _ _))

theorem closed_run : (run (coroutineSystem T capacity) s actions).queue.closed =
    actions.foldl Action.closes s.queue.closed := by
  induction actions generalizing s with
  | nil => rfl
  | cons action actions ih =>
    rw [foldl_cons, ← (Coroutines.frame_exec action).2]
    exact ih (s.exec action)

/-- Each `forcePush` takes the queue at most one value above its capacity. -/
theorem length_run_le {n : Nat} (hcap : s.queue.capacity = capacity) (hle : s.queue.dataQueue.length ≤ capacity + n) :
    (run (coroutineSystem T capacity) s actions).queue.dataQueue.length ≤
      capacity + n + actions.countP Action.isForcePush := by
  induction actions generalizing s n with
  | nil => exact hle
  | cons action actions ih =>
    have hlen := congrArg length (Coroutines.dataQueue_exec (s := s) action)
    have hone := Coroutines.length_accepts_le (s := s) action
    have hcap' := (Coroutines.frame_exec (s := s) action).1.trans hcap
    rw [length_append, length_append] at hlen
    rw [countP_cons]
    by_cases hforce : action.isForcePush = true
    · rw [if_pos hforce]
      exact Nat.le_trans (ih (s.exec action) (n := n + 1) hcap' (by omega)) (by omega)
    · rw [if_neg hforce]
      refine ih (s.exec action) hcap' ?_
      by_contra hfull
      rcases Coroutines.length_exec_le (s := s) action (by omega) with ⟨val, rfl⟩ | hle'
      · exact hforce rfl
      · omega

end Runs

/-- Under every interleaving: what was popped is what was accepted, in order, up to what is still in the queue,
and no consumer pops from an empty queue; every push was accepted once, dropped at a closed queue or cancelled,
or is in progress, and the queue is closed if the last `close` or `open` was a `close`; only `forcePush` takes
the queue above its capacity; while a pusher is suspended the queue has a value, or a token is available or owed,
or a woken pusher is about to retry. -/
theorem popped_accepted_and_wakeUp (hcapacity : 1 ≤ capacity) {actions : List (Action T)}
    (h : Admits (coroutineSystem T capacity) (coroutineSystem T capacity).init actions) :
    let s := run (coroutineSystem T capacity) (coroutineSystem T capacity).init actions
    let during observe := observed (coroutineSystem T capacity) observe (coroutineSystem T capacity).init actions
    ((during Coroutines.accepts = during Coroutines.pops ++ s.queue.dataQueue ∧
        (0 < s.readers → s.queue.dataQueue ≠ [])) ∧
      ((actions.flatMap Action.pushed).Perm (during Coroutines.accepts ++ (during Coroutines.drops ++ s.pushers)) ∧
        s.queue.closed = actions.foldl Action.closes false)) ∧
      ((∀ action, s.Enabled action → capacity < (s.exec action).queue.dataQueue.length →
          (∃ val, action = .forcePush val) ∨ (s.exec action).queue.dataQueue.length ≤ s.queue.dataQueue.length) ∧
        s.queue.dataQueue.length ≤ capacity + actions.countP Action.isForcePush) ∧
      (s.queue.pushRequestQueue.waiters ≠ [] →
        s.queue.dataQueue ≠ [] ∨ 0 < s.queue.pushRequestQueue.tokens ∨ 0 < s.pushSignals ∨ s.woken ≠ []) := by
  obtain ⟨hinv, hcap⟩ := inv_of_reachable hcapacity (Reachable.init.run h)
  have hreads := hinv.reads
  have hfifo := dataQueue_run capacity (coroutineSystem T capacity).init actions
  have hperm := pushers_run capacity (coroutineSystem T capacity).init actions
  have hclosed := closed_run capacity (coroutineSystem T capacity).init actions
  have hlen := length_run_le capacity (coroutineSystem T capacity).init actions (n := 0) rfl (Nat.zero_le _)
  generalize run (coroutineSystem T capacity) (coroutineSystem T capacity).init actions = s at *
  refine ⟨⟨⟨hfifo, fun hreader hnil => ?_⟩, hperm, hclosed⟩,
    ⟨fun action _ hfull => Coroutines.length_exec_le action (by rwa [hcap]), hlen⟩, fun hwait => ?_⟩
  · rw [hnil, length_nil] at hreads
    omega
  · by_cases hempty : s.queue.dataQueue = []
    · have hwaiting := length_pos_of_ne_nil hwait
      have hsignal := hinv.wakeUp (by omega) (by rw [hempty, length_nil])
      by_cases hwoken : s.woken = []
      · rw [hwoken, length_nil] at hsignal
        omega
      · exact .inr (.inr (.inr hwoken))
    · exact .inl hempty

/-- At a full queue of one value: a pusher waits, a value is forced in, a push at the closed queue is dropped,
and after the queue is open again the first value is popped, by which the waiting pusher is owed a signal. -/
def suspendedPusherRun : List (Action Nat) :=
  [.push 1, .push 2, .waitForRoom 0, .forcePush 3, .signalRead, .close, .push 4, .reopen, .push 5, .waitForRoom 0,
    .waitForData, .popData, .signalPush]

theorem popped_accepted_and_wakeUp_suspendedPusherRun :
    let sys := coroutineSystem Nat 1
    observed sys Coroutines.pops sys.init suspendedPusherRun = [1] ∧
      [1, 3] = [1] ++ (run sys sys.init suspendedPusherRun).queue.dataQueue ∧
      (suspendedPusherRun.flatMap Action.pushed).Perm
        ([1, 3] ++ ([4] ++ (run sys sys.init suspendedPusherRun).pushers)) := by
  obtain ⟨⟨hfifo, hperm, -⟩, -⟩ := popped_accepted_and_wakeUp (Nat.le_refl 1)
    (show Admits (coroutineSystem Nat 1) _ suspendedPusherRun by decide)
  exact ⟨rfl, hfifo.1, hperm⟩

end BackPressuredQueue

end FbossBgp.Coro
