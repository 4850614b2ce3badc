import Mathlib.Data.List.Basic

/-! Counting semaphores of a library, under two assumptions about it: a signal is handed over to the waiter that came
first, and a waiter that has been handed one can no longer be cancelled. -/

/-- Tokens are only kept while nobody waits. -/
structure Semaphore (W : Type*) where
  tokens : Nat
  waiters : List W
  idle : waiters ≠ [] → tokens = 0

namespace Semaphore

variable {W : Type*}

def create (tokens : Nat) : Semaphore W := ⟨tokens, [], nofun⟩

variable (s : Semaphore W)

/-- Takes a token, or else queues the caller: true if the caller goes on at once. -/
def wait (waiter : W) : Bool × Semaphore W :=
  if h : s.tokens = 0 then (false, ⟨0, s.waiters ++ [waiter], fun _ => rfl⟩)
  else (true, ⟨s.tokens - 1, s.waiters, fun hwaiters => absurd (s.idle hwaiters) h⟩)

def tryWait : Option (Semaphore W) :=
  if h : s.tokens = 0 then none
  else some ⟨s.tokens - 1, s.waiters, fun hwaiters => absurd (s.idle hwaiters) h⟩

/-- The waiter that the signal is handed to, if there is one. -/
def signal : Option W × Semaphore W :=
  match hwaiters : s.waiters with
  | [] => (none, ⟨s.tokens + 1, [], nofun⟩)
  | waiter :: rest => (some waiter, ⟨s.tokens, rest, fun _ => s.idle (by rw [hwaiters]; nofun)⟩)

/-- The waiter at a position gives up. -/
def cancel (position : Nat) : Semaphore W where
  tokens := s.tokens
  waiters := s.waiters.eraseIdx position
  idle h := s.idle fun hnil => h (by rw [hnil, List.eraseIdx_nil])

variable (s : Semaphore W) (position : Nat)

theorem wait_cases (waiter : W) : (s.tokens = 0 ∧ (s.wait waiter).1 = false ∧ (s.wait waiter).2.tokens = 0 ∧
      (s.wait waiter).2.waiters = s.waiters ++ [waiter]) ∨
    (0 < s.tokens ∧ (s.wait waiter).1 = true ∧ (s.wait waiter).2.tokens + 1 = s.tokens ∧
      s.waiters = [] ∧ (s.wait waiter).2.waiters = []) := by
  rw [wait]
  split
  next h => exact .inl ⟨h, rfl, rfl, rfl⟩
  next h =>
    have hnil : s.waiters = [] := by
      by_contra hwait
      exact h (s.idle hwait)
    exact .inr ⟨Nat.pos_of_ne_zero h, rfl, Nat.succ_pred_eq_of_pos (Nat.pos_of_ne_zero h), hnil, hnil⟩

theorem tryWait_cases : (s.tokens = 0 ∧ s.tryWait = none) ∨
    ∃ s', s.tryWait = some s' ∧ s'.tokens + 1 = s.tokens ∧ s'.waiters = s.waiters := by
  rw [tryWait]
  split
  next h => exact .inl ⟨h, rfl⟩
  next h => exact .inr ⟨_, rfl, Nat.succ_pred_eq_of_pos (Nat.pos_of_ne_zero h), rfl⟩

theorem signal_cases :
    (s.waiters = [] ∧ s.signal.1 = none ∧ s.signal.2.tokens = s.tokens + 1 ∧ s.signal.2.waiters = []) ∨
      ∃ waiter, s.waiters = waiter :: s.signal.2.waiters ∧ s.signal.1 = some waiter ∧ s.tokens = 0 ∧
        s.signal.2.tokens = 0 := by
  rw [signal]
  split
  next hnil => exact .inl ⟨hnil, rfl, rfl, rfl⟩
  next waiter rest hcons =>
    have hidle : s.tokens = 0 := s.idle (by rw [hcons]; nofun)
    exact .inr ⟨waiter, hcons, rfl, hidle, hidle⟩

/-- A signal adds a token, or hands it over. -/
theorem tokens_signal : s.signal.2.tokens + s.signal.1.toList.length = s.tokens + 1 := by
  rcases s.signal_cases with ⟨-, hnone, htokens, -⟩ | ⟨waiter, -, hsome, htokens, htokens'⟩
  · rw [hnone, htokens]
    rfl
  · rw [hsome, htokens', htokens]
    rfl

theorem tokens_wait (waiter : W) (n : Nat) :
    (s.wait waiter).2.tokens + (if (s.wait waiter).1 then n + 1 else n) = s.tokens + n := by
  rcases s.wait_cases waiter with ⟨htokens, hwait, htokens', -⟩ | ⟨htokens, hwait, htokens', -⟩ <;>
    simp only [hwait, Bool.false_eq_true, if_false, if_true] <;>
    omega

@[simp] theorem tokens_cancel : (s.cancel position).tokens = s.tokens := rfl

theorem length_waiters_cancel_le : (s.cancel position).waiters.length ≤ s.waiters.length :=
  (List.eraseIdx_sublist _ _).length_le

end Semaphore
