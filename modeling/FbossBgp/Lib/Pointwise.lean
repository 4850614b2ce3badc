import Mathlib.Data.List.Nodup

/-! Loops over a table seen key by key, each step of which changes what is seen at one key. -/

namespace Pointwise

variable {σ α κ β : Type*} {view : σ → κ → β} {step : σ → α → σ} {key : α → κ} {change : α → β → β → Prop} {as : List α}

/-- A step changes the view at its own key only, as `change` says. -/
structure At (view : σ → κ → β) (step : σ → α → σ) (key : α → κ) (change : α → β → β → Prop) : Prop where
  self (s : σ) (a : α) : change a (view s (key a)) (view (step s a) (key a))
  of_ne {s : σ} {a : α} {k : κ} : k ≠ key a → view (step s a) k = view s k

theorem At.foldl_of_notMem (h : At view step key change) {k : κ} (hk : k ∉ as.map key) (s : σ) :
    view (as.foldl step s) k = view s k := by
  induction as generalizing s with
  | nil => rfl
  | cons a as ih =>
    rw [List.map_cons, List.mem_cons, not_or] at hk
    rw [List.foldl_cons, ih hk.2, h.of_ne hk.1]

/-- With distinct keys each step sees at its key what the loop started with. -/
theorem At.foldl_of_mem (h : At view step key change) (hnodup : (as.map key).Nodup) {a : α}
    (ha : a ∈ as) (s : σ) : change a (view s (key a)) (view (as.foldl step s) (key a)) := by
  induction as generalizing s with
  | nil => cases ha
  | cons b as ih =>
    rw [List.map_cons, List.nodup_cons] at hnodup
    rw [List.foldl_cons]
    rcases List.mem_cons.mp ha with rfl | ha
    · rw [h.foldl_of_notMem hnodup.1]
      exact h.self s a
    · have hne : key a ≠ key b := fun heq => hnodup.1 (heq ▸ List.mem_map_of_mem ha)
      rw [← h.of_ne hne]
      exact ih hnodup.2 ha _

end Pointwise
