import Mathlib.Data.List.Lex
import Mathlib.Order.Lattice

/-! Narrowing a list of candidates by one rank after another: each rank keeps the candidates on which it is
least, so the whole chain keeps those whose ranks come first in the lexicographic order. -/

namespace Narrowing

open List

variable {α β : Type*} [LinearOrder β]

/-- The candidates on which the rank is least. -/
def keepLeast (rank : α → β) (xs : List α) : List α := xs.filter fun x => decide (∀ y ∈ xs, rank x ≤ rank y)

variable (ranks : List (α → β))

/-- The candidates that every rank in turn keeps. -/
def narrow (xs : List α) : List α := ranks.foldl (fun xs rank => keepLeast rank xs) xs

/-- The ranks of a candidate, the first one first. -/
def ranksOf (x : α) : List β := ranks.map fun rank => rank x

/-- No candidate has ranks that come before those of this one. -/
def IsFirst (xs : List α) (x : α) : Prop :=
  x ∈ xs ∧ ∀ y ∈ xs, ¬List.Lex (· < ·) (ranksOf ranks y) (ranksOf ranks x)

variable {ranks : List (α → β)} {xs : List α} {rank : α → β} {x : α} {γ : Type*} (g : α → γ)

theorem isFirst_perm {ys : List α} (h : xs.Perm ys) : IsFirst ranks xs x ↔ IsFirst ranks ys x := by
  simp only [IsFirst, h.mem_iff]

theorem mem_keepLeast : x ∈ keepLeast rank xs ↔ x ∈ xs ∧ ∀ y ∈ xs, rank x ≤ rank y := by
  rw [keepLeast, mem_filter, decide_eq_true_iff]

theorem keepLeast_ne_nil (h : xs ≠ []) : keepLeast rank xs ≠ [] := by
  obtain ⟨x, hx, hle⟩ : ∃ x ∈ xs, ∀ y ∈ xs, rank x ≤ rank y := by
    induction xs with
    | nil => exact absurd rfl h
    | cons a xs ih =>
      by_cases hxs : xs = []
      · exact ⟨a, by simp, by simp [hxs]⟩
      · obtain ⟨x, hx, hle⟩ := ih hxs
        rcases le_total (rank a) (rank x) with hax | hxa
        · exact ⟨a, by simp, by simpa using fun y hy => hax.trans (hle y hy)⟩
        · exact ⟨x, by simp [hx], by simpa using ⟨hxa, hle⟩⟩
  exact ne_nil_of_mem (mem_keepLeast.mpr ⟨hx, hle⟩)

theorem keepLeast_perm {ys : List α} (h : xs.Perm ys) : (keepLeast rank xs).Perm (keepLeast rank ys) := by
  have hpred : ∀ x ∈ xs, decide (∀ y ∈ xs, rank x ≤ rank y) = decide (∀ y ∈ ys, rank x ≤ rank y) := by
    intro x _
    simp only [h.mem_iff]
  rw [keepLeast, filter_congr hpred]
  exact h.filter _

@[simp] theorem narrow_nil (xs : List α) : narrow ([] : List (α → β)) xs = xs := rfl

@[simp] theorem narrow_cons (rank : α → β) (ranks : List (α → β)) (xs : List α) :
    narrow (rank :: ranks) xs = narrow ranks (keepLeast rank xs) := rfl

theorem narrow_append (first second : List (α → β)) (xs : List α) :
    narrow (first ++ second) xs = narrow second (narrow first xs) := foldl_append

theorem narrow_ne_nil (h : xs ≠ []) : narrow ranks xs ≠ [] := by
  induction ranks generalizing xs with
  | nil => exact h
  | cons rank ranks ih => exact ih (keepLeast_ne_nil h)

theorem narrow_perm {ys : List α} (h : xs.Perm ys) : (narrow ranks xs).Perm (narrow ranks ys) := by
  induction ranks generalizing xs ys with
  | nil => exact h
  | cons rank ranks ih => exact ih (keepLeast_perm h)

theorem narrow_sublist (ranks : List (α → β)) (xs : List α) : (narrow ranks xs).Sublist xs := by
  induction ranks generalizing xs with
  | nil => exact List.Sublist.refl xs
  | cons rank ranks ih => exact (ih _).trans filter_sublist

/-- The chain keeps the candidates whose ranks come first, compared one after another. -/
theorem mem_narrow : x ∈ narrow ranks xs ↔ IsFirst ranks xs x := by
  induction ranks generalizing xs with
  | nil => simp [IsFirst, ranksOf]
  | cons rank ranks ih =>
    rw [narrow_cons, ih, IsFirst, mem_keepLeast]
    constructor
    · rintro ⟨⟨hx, hleast⟩, hrest⟩
      refine ⟨hx, fun y hy hlex => ?_⟩
      rcases cons_lex_cons_iff.mp hlex with hlt | ⟨(heq : rank y = rank x), htail⟩
      · exact not_lt.mpr (hleast y hy) hlt
      · exact hrest y (mem_keepLeast.mpr ⟨hy, fun z hz => heq ▸ hleast z hz⟩) htail
    · rintro ⟨hx, hfirst⟩
      have hleast : ∀ y ∈ xs, rank x ≤ rank y :=
        fun y hy => not_lt.mp fun hlt => hfirst y hy (cons_lex_cons_iff.mpr (.inl hlt))
      refine ⟨⟨hx, hleast⟩, fun y hy hlex => ?_⟩
      obtain ⟨hy, hleasty⟩ := mem_keepLeast.mp hy
      have heq : rank y = rank x := le_antisymm (hleasty x hx) (hleast y hy)
      exact hfirst y hy (cons_lex_cons_iff.mpr (.inr ⟨heq, hlex⟩))

/-- The chain is one filter, in the order of the candidates. -/
theorem narrow_eq_filter {keeps : α → Bool} (h : ∀ x ∈ xs, keeps x = true ↔ IsFirst ranks xs x) :
    narrow ranks xs = xs.filter keeps := by
  induction ranks generalizing xs with
  | nil => exact (filter_eq_self.mpr fun x hx => (h x hx).mpr ⟨hx, fun y _ => not_lex_nil⟩).symm
  | cons rank ranks ih =>
    have hfirst : ∀ x, IsFirst (rank :: ranks) xs x ↔ IsFirst ranks (keepLeast rank xs) x := fun x => by
      rw [← mem_narrow, narrow_cons, mem_narrow]
    rw [narrow_cons, ih fun x hx => (h x (mem_keepLeast.mp hx).1).trans (hfirst x), keepLeast, filter_filter]
    refine filter_congr fun x hx => ?_
    rw [Bool.and_eq_left_iff_imp, decide_eq_true_iff]
    exact fun hkeeps => (mem_keepLeast.mp ((hfirst x).mp ((h x hx).mp hkeeps)).1).2

theorem isFirst_narrow_append (ranks : List (α → β)) (xs ys : List α) (x : α) :
    IsFirst ranks (narrow ranks xs ++ ys) x ↔ IsFirst ranks (xs ++ ys) x := by
  have hsub := ((narrow_sublist ranks xs).append_right ys).subset
  constructor
  · rintro ⟨hx, hfirst⟩
    refine ⟨hsub hx, fun y hy hlex => ?_⟩
    rcases mem_append.mp hy with hy | hy
    · obtain ⟨z, hz⟩ := exists_mem_of_ne_nil (narrow ranks xs) (narrow_ne_nil (ne_nil_of_mem hy))
      have hle : ranksOf ranks z ≤ ranksOf ranks y := not_lt.mp ((mem_narrow.mp hz).2 y hy)
      exact hfirst z (mem_append_left ys hz) (hle.trans_lt hlex)
    · exact hfirst y (mem_append_right _ hy) hlex
  · rintro ⟨hx, hfirst⟩
    refine ⟨?_, fun y hy => hfirst y (hsub hy)⟩
    rcases mem_append.mp hx with hx | hx
    · exact mem_append_left ys (mem_narrow.mpr ⟨hx, fun y hy => hfirst y (mem_append_left ys hy)⟩)
    · exact mem_append_right _ hx

/-- Candidates that were dropped may be forgotten before others come in. -/
theorem narrow_narrow_append (ranks : List (α → β)) (xs ys : List α) :
    narrow ranks (narrow ranks xs ++ ys) = narrow ranks (xs ++ ys) := by
  classical
  have hfilter : ∀ zs, narrow ranks zs = zs.filter fun z => decide (IsFirst ranks zs z) :=
    fun zs => narrow_eq_filter fun z _ => decide_eq_true_iff
  rw [hfilter, hfilter (xs ++ ys)]
  simp only [isFirst_narrow_append, filter_append, append_left_inj]
  rw [hfilter xs, filter_filter]
  refine filter_congr fun x hx => ?_
  rw [Bool.and_eq_left_iff_imp, decide_eq_true_iff, decide_eq_true_iff]
  exact fun h => ⟨hx, fun y hy => h.2 y (mem_append_left ys hy)⟩

/-- A candidate that comes first and is kept still comes first. -/
theorem head?_narrow (h : x ∈ narrow ranks (x :: xs)) : (narrow ranks (x :: xs)).head? = some x := by
  induction ranks generalizing xs with
  | nil => rfl
  | cons rank ranks ih =>
    have hleast : x ∈ keepLeast rank (x :: xs) := (narrow_sublist ranks _).subset h
    have hcons : keepLeast rank (x :: xs) = x :: xs.filter fun y => decide (∀ z ∈ x :: xs, rank y ≤ rank z) :=
      filter_cons_of_pos (p := fun y => decide (∀ z ∈ x :: xs, rank y ≤ rank z))
        (decide_eq_true (mem_keepLeast.mp hleast).2)
    rw [narrow_cons, hcons] at h ⊢
    exact ih h

theorem map_keepLeast (rank : γ → β) (xs : List α) : (keepLeast (rank ∘ g) xs).map g = keepLeast rank (xs.map g) := by
  rw [keepLeast, keepLeast, filter_map]
  simp only [Function.comp_def, forall_mem_map]

/-- What the ranks look at is all that matters for what is kept. -/
theorem map_narrow (ranks : List (γ → β)) (xs : List α) :
    (narrow (ranks.map (· ∘ g)) xs).map g = narrow ranks (xs.map g) := by
  induction ranks generalizing xs with
  | nil => rfl
  | cons rank ranks ih => rw [map_cons, narrow_cons, narrow_cons, ih, map_keepLeast]

end Narrowing
