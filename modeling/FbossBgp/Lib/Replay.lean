import Mathlib.Data.List.Basic

/-! Replaying a log in which each event sets or removes the value of one key. -/

namespace Replay

open List

variable {κ ν : Type*} [DecidableEq κ]

/-- The table after one event. -/
def apply (table : κ → Option ν) (event : κ × Option ν) : κ → Option ν :=
  fun k => if k = event.1 then event.2 else table k

variable (events : List (κ × Option ν))

/-- The table after all events of a log, from the empty one. -/
def replay : κ → Option ν := events.foldl apply fun _ => none

theorem replay_append_singleton (event : κ × Option ν) (k : κ) :
    replay (events ++ [event]) k = if k = event.1 then event.2 else replay events k := by
  rw [replay, foldl_append]
  rfl

theorem replay_append_self (k : κ) (value : Option ν) : replay (events ++ [(k, value)]) k = value := by
  rw [replay_append_singleton, if_pos rfl]

variable {events : List (κ × Option ν)} {k : κ}

theorem replay_append_of_ne {event : κ × Option ν} (h : k ≠ event.1) :
    replay (events ++ [event]) k = replay events k := by
  rw [replay_append_singleton, if_neg h]

theorem replay_append (events more : List (κ × Option ν)) : replay (events ++ more) = more.foldl apply (replay events) :=
  foldl_append

theorem foldl_apply_of_not_mem (h : k ∉ events.map Prod.fst)
    (table : κ → Option ν) : events.foldl apply table k = table k := by
  induction events generalizing table with
  | nil => rfl
  | cons event events ih =>
    rw [map_cons, mem_cons, not_or] at h
    rw [foldl_cons, ih h.2, apply, if_neg h.1]

/-- The last event of a key decides, whatever was there before. -/
theorem foldl_apply_of_mem (h : k ∈ events.map Prod.fst)
    (table table' : κ → Option ν) : events.foldl apply table k = events.foldl apply table' k := by
  induction events generalizing table table' with
  | nil => exact (not_mem_nil h).elim
  | cons event events ih =>
    rw [foldl_cons, foldl_cons]
    by_cases hrest : k ∈ events.map Prod.fst
    · exact ih hrest _ _
    · have hk : k = event.1 := (mem_cons.mp h).resolve_right hrest
      rw [foldl_apply_of_not_mem hrest, foldl_apply_of_not_mem hrest, apply, apply, if_pos hk, if_pos hk]

/-- What is known of a key is what some event of it says. -/
theorem exists_foldl_apply_eq (h : k ∈ events.map Prod.fst)
    (table : κ → Option ν) : ∃ event ∈ events, event.1 = k ∧ events.foldl apply table k = event.2 := by
  induction events generalizing table with
  | nil => exact (not_mem_nil h).elim
  | cons event events ih =>
    rw [foldl_cons]
    by_cases hrest : k ∈ events.map Prod.fst
    · obtain ⟨last, hlast, hkey, hval⟩ := ih hrest (apply table event)
      exact ⟨last, mem_cons_of_mem _ hlast, hkey, hval⟩
    · have hk : k = event.1 := (mem_cons.mp h).resolve_right hrest
      refine ⟨event, mem_cons_self, hk.symm, ?_⟩
      rw [foldl_apply_of_not_mem hrest, apply, if_pos hk]

/-- Events of different keys may be told in either order. -/
theorem replay_append_comm {first second : List (κ × Option ν)} (h : ∀ k ∈ first.map Prod.fst, k ∉ second.map Prod.fst)
    (events : List (κ × Option ν)) : replay (events ++ first ++ second) = replay (events ++ second ++ first) := by
  funext k
  rw [replay_append, replay_append, replay_append, replay_append]
  by_cases hk : k ∈ first.map Prod.fst
  · rw [foldl_apply_of_not_mem (h k hk)]
    exact foldl_apply_of_mem hk _ _
  · rw [foldl_apply_of_not_mem hk]
    by_cases hk' : k ∈ second.map Prod.fst
    · exact foldl_apply_of_mem hk' _ _
    · rw [foldl_apply_of_not_mem hk', foldl_apply_of_not_mem hk', foldl_apply_of_not_mem hk]

end Replay
