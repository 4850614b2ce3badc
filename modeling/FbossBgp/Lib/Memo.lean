import Mathlib.Logic.Function.Basic

/-! Tables that keep the first result computed for each key. -/

namespace Memo

variable {ι κ ρ : Type*} [DecidableEq κ]

/-- The kept result for the key of the input; where there is none, it is computed and kept. -/
def lookup (f : ι → ρ) (key : ι → κ) (table : κ → Option ρ) (x : ι) : ρ × (κ → Option ρ) :=
  match table (key x) with
  | some r => (r, table)
  | none => (f x, Function.update table (key x) (some (f x)))

/-- The first of the earlier inputs with the key of this one, or this one itself. -/
def firstSeen (key : ι → κ) (earlier : List ι) (x : ι) : ι := (earlier.find? fun y => key y = key x).getD x

variable {f : ι → ρ} {key : ι → κ} {table : κ → Option ρ} (x : ι)

theorem lookup_fst : (lookup f key table x).1 = (table (key x)).getD (f x) := by
  unfold lookup
  cases table (key x) <;> rfl

theorem lookup_snd (k : κ) : (lookup f key table x).2 k = (table k).or (if key x = k then some (f x) else none) := by
  unfold lookup
  by_cases hk : key x = k
  · subst hk
    cases htable : table (key x) with
    | some r => simp [htable]
    | none => simp
  · cases table (key x) with
    | some r => simp [hk]
    | none => simp [hk, Function.update_of_ne (Ne.symm hk)]

/-- A machine that answers from such a table, by what `reuse` makes of the result, and fills it answers each input
from what is computed for the first input with its key. `Inv` may look at the inputs that are still to come. -/
theorem foldl_answer {σ : Type*} (reuse : ι → ρ → ρ) (step : σ → ι → ρ × σ) (table : σ → κ → Option ρ)
    (Inv : List ι → σ → Prop) (hstep : ∀ s x xs, Inv (x :: xs) s →
      (step s x).1 = reuse x (lookup f key (table s) x).1 ∧ table (step s x).2 = (lookup f key (table s) x).2 ∧
        Inv xs (step s x).2) (xs : List ι) (x : ι) {s : σ} (hs : Inv (xs ++ [x]) s) :
    (step (xs.foldl (fun s x => (step s x).2) s) x).1 = reuse x ((table s (key x)).getD (f (firstSeen key xs x))) := by
  induction xs generalizing s with
  | nil => exact (hstep s x [] hs).1.trans (congrArg _ (lookup_fst x))
  | cons y xs ih =>
    obtain ⟨-, htable, hnext⟩ := hstep s y _ hs
    rw [List.foldl_cons, ih hnext, htable, lookup_snd, firstSeen, firstSeen]
    by_cases hkey : key y = key x <;> cases table s (key x) <;> simp [hkey]

end Memo
