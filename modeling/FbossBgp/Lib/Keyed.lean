import Mathlib.Algebra.BigOperators.Group.List.Basic
import Mathlib.Data.List.Nodup
import Mathlib.Tactic.Abel

/-! Tables whose items carry their own keys: no two items have the same key. -/

/-- The items of a table, with distinct keys. -/
@[ext] structure Keyed {α κ : Type*} (key : α → κ) where
  items : List α
  keys_nodup : (items.map key).Nodup

namespace Keyed

open List

variable {α κ : Type*} {key : α → κ}

def empty : Keyed key := ⟨[], nodup_nil⟩

@[simp] theorem items_empty : (empty : Keyed key).items = [] := rfl

theorem eq_of_key_eq (t : Keyed key) {x y : α} (hx : x ∈ t.items) (hy : y ∈ t.items) (h : key x = key y) : x = y :=
  inj_on_of_nodup_map t.keys_nodup hx hy h

/-- Change the items in place, each keeping its key. -/
def modify (t : Keyed key) (f : α → α) (hf : ∀ x, key (f x) = key x) : Keyed key where
  items := t.items.map f
  keys_nodup := by
    rw [map_map, show key ∘ f = key from funext hf]
    exact t.keys_nodup

def filter (t : Keyed key) (p : α → Bool) : Keyed key where
  items := t.items.filter p
  keys_nodup := (filter_sublist.map key).nodup t.keys_nodup

variable {t : Keyed key} {x : α} {k : κ}

theorem mem_filter {p : α → Bool} : x ∈ (t.filter p).items ↔ x ∈ t.items ∧ p x = true := List.mem_filter

def sum {M : Type*} [AddCommMonoid M] (t : Keyed key) (f : α → M) : M := (t.items.map f).sum

variable [DecidableEq κ] {M : Type*} [AddCommMonoid M]

def find (t : Keyed key) (k : κ) : Option α := t.items.find? fun x => key x = k

theorem find_eq_some_iff : t.find k = some x ↔ x ∈ t.items ∧ key x = k := by
  constructor
  · intro h
    exact ⟨mem_of_find?_eq_some h, by simpa using List.find?_some h⟩
  · rintro ⟨hx, hkey⟩
    cases hfind : t.find k with
    | none => exact absurd hkey (by simpa using List.find?_eq_none.mp hfind x hx)
    | some y =>
      have hy : y ∈ t.items := mem_of_find?_eq_some hfind
      have hykey : key y = k := by simpa using List.find?_some hfind
      rw [t.eq_of_key_eq hx hy (hkey.trans hykey.symm)]

theorem find_eq_none_iff : t.find k = none ↔ ∀ x ∈ t.items, key x ≠ k := by
  rw [find, List.find?_eq_none]
  simp only [decide_eq_true_iff]

theorem find_ne_none_iff : t.find k ≠ none ↔ k ∈ t.items.map key := by
  rw [ne_eq, find_eq_none_iff, mem_map]
  push Not
  rfl

theorem find_key (hx : x ∈ t.items) : t.find (key x) = some x := find_eq_some_iff.mpr ⟨hx, rfl⟩

@[simp] theorem find_empty (k : κ) : (empty : Keyed key).find k = none := rfl

/-- The item under a key stands alone between items of other keys. -/
theorem exists_split (h : t.find k = some x) :
    ∃ before after, t.items = before ++ x :: after ∧ key x = k ∧ (∀ y ∈ before, key y ≠ k) ∧ ∀ y ∈ after, key y ≠ k := by
  obtain ⟨hx, hkey⟩ := find_eq_some_iff.mp h
  obtain ⟨before, after, hsplit⟩ := append_of_mem hx
  have hnodup := t.keys_nodup
  rw [hsplit, map_append, map_cons, nodup_append, nodup_cons] at hnodup
  obtain ⟨-, ⟨hafter, -⟩, hbef⟩ := hnodup
  refine ⟨before, after, hsplit, hkey, fun y hy hyk => ?_, fun y hy hyk => ?_⟩
  · exact hbef (key y) (mem_map_of_mem hy) (key x) mem_cons_self (hyk.trans hkey.symm)
  · exact hafter (mem_map.mpr ⟨y, hy, hyk.trans hkey.symm⟩)

/-- The table with the item in place of the one of its key, or added where there is none. -/
def put (t : Keyed key) (x : α) : Keyed key where
  items := if (t.find (key x)).isSome then t.items.map fun y => if key y = key x then x else y else x :: t.items
  keys_nodup := by
    split
    · have hkeys : (key ∘ fun y => if key y = key x then x else y) = key := by
        funext y
        show key (if key y = key x then x else y) = key y
        split
        next hkey => exact hkey.symm
        · rfl
      rw [map_map, hkeys]
      exact t.keys_nodup
    next hnone =>
      have hfree := find_eq_none_iff.mp (Option.not_isSome_iff_eq_none.mp hnone)
      refine nodup_cons.mpr ⟨fun hmem => ?_, t.keys_nodup⟩
      obtain ⟨y, hy, hkey⟩ := mem_map.mp hmem
      exact hfree y hy hkey

/-- The table without the item of a key. -/
def erase (t : Keyed key) (k : κ) : Keyed key where
  items := t.items.filter fun x => key x ≠ k
  keys_nodup := (filter_sublist.map key).nodup t.keys_nodup

theorem items_put (t : Keyed key) (x : α) : (t.put x).items =
    if (t.find (key x)).isSome then t.items.map fun y => if key y = key x then x else y else x :: t.items := rfl

theorem items_erase (t : Keyed key) (k : κ) : (t.erase k).items = t.items.filter fun x => key x ≠ k := rfl

theorem map_put_eq {before after : List α} {y : α} (hy : key y = key x) (hbef : ∀ z ∈ before, key z ≠ key x)
    (hafter : ∀ z ∈ after, key z ≠ key x) :
    ((before ++ y :: after).map fun z => if key z = key x then x else z) = before ++ x :: after := by
  have hkeep : ∀ zs : List α, (∀ z ∈ zs, key z ≠ key x) → (zs.map fun z => if key z = key x then x else z) = zs := by
    intro zs hzs
    calc (zs.map fun z => if key z = key x then x else z) = zs.map id :=
          map_congr_left fun z hz => if_neg (hzs z hz)
      _ = zs := map_id zs
  rw [map_append, map_cons, hkeep before hbef, hkeep after hafter, if_pos hy]

theorem items_put_of_some {y : α} (h : t.find (key x) = some y) :
    ∃ before after, t.items = before ++ y :: after ∧ (t.put x).items = before ++ x :: after := by
  obtain ⟨before, after, hsplit, hy, hbef, hafter⟩ := exists_split h
  refine ⟨before, after, hsplit, ?_⟩
  rw [items_put, if_pos (Option.isSome_iff_exists.mpr ⟨y, h⟩), hsplit]
  exact map_put_eq hy hbef hafter

theorem items_put_of_none (h : t.find (key x) = none) : (t.put x).items = x :: t.items := by
  rw [items_put, if_neg (by simp [h])]

theorem items_erase_of_some (h : t.find k = some x) :
    ∃ before after, t.items = before ++ x :: after ∧ (t.erase k).items = before ++ after := by
  obtain ⟨before, after, hsplit, hx, hbef, hafter⟩ := exists_split h
  refine ⟨before, after, hsplit, ?_⟩
  rw [items_erase, hsplit, filter_append, filter_cons_of_neg (by simpa using hx),
    filter_eq_self.mpr (by simpa using hbef), filter_eq_self.mpr (by simpa using hafter)]

theorem mem_put {y : α} : y ∈ (t.put x).items ↔ y = x ∨ y ∈ t.items ∧ key y ≠ key x := by
  rw [items_put]
  split
  next hsome =>
    obtain ⟨old, hold⟩ := Option.isSome_iff_exists.mp hsome
    obtain ⟨holdmem, holdkey⟩ := find_eq_some_iff.mp hold
    constructor
    · intro h
      obtain ⟨z, hz, rfl⟩ := mem_map.mp h
      by_cases hkey : key z = key x
      · exact .inl (if_pos hkey)
      · rw [if_neg hkey]
        exact .inr ⟨hz, hkey⟩
    · rintro (rfl | ⟨hy, hkey⟩)
      · exact mem_map.mpr ⟨old, holdmem, if_pos holdkey⟩
      · exact mem_map.mpr ⟨y, hy, if_neg hkey⟩
  next hnone =>
    have hfree := find_eq_none_iff.mp (Option.not_isSome_iff_eq_none.mp hnone)
    rw [mem_cons]
    exact or_congr_right ⟨fun hy => ⟨hy, hfree y hy⟩, fun hy => hy.1⟩

theorem mem_erase : x ∈ (t.erase k).items ↔ x ∈ t.items ∧ key x ≠ k := by
  rw [items_erase, List.mem_filter, decide_eq_true_iff]

@[simp] theorem find_put_self (t : Keyed key) (x : α) : (t.put x).find (key x) = some x :=
  find_eq_some_iff.mpr ⟨mem_put.mpr (.inl rfl), rfl⟩

theorem find_put_of_ne (h : k ≠ key x) : (t.put x).find k = t.find k := by
  refine Option.ext fun y => ?_
  rw [find_eq_some_iff, find_eq_some_iff, mem_put]
  constructor
  · rintro ⟨rfl | ⟨hy, -⟩, hkey⟩
    · exact absurd hkey.symm h
    · exact ⟨hy, hkey⟩
  · rintro ⟨hy, hkey⟩
    exact ⟨.inr ⟨hy, hkey ▸ h⟩, hkey⟩

@[simp] theorem find_erase_self (t : Keyed key) (k : κ) : (t.erase k).find k = none :=
  find_eq_none_iff.mpr fun _ hx => (mem_erase.mp hx).2

theorem find_erase_of_ne {k' : κ} (h : k' ≠ k) : (t.erase k).find k' = t.find k' := by
  refine Option.ext fun y => ?_
  rw [find_eq_some_iff, find_eq_some_iff, mem_erase]
  constructor
  · rintro ⟨⟨hy, -⟩, hkey⟩
    exact ⟨hy, hkey⟩
  · rintro ⟨hy, hkey⟩
    exact ⟨⟨hy, hkey ▸ h⟩, hkey⟩

theorem find_modify (t : Keyed key) (f : α → α) (hf : ∀ x, key (f x) = key x) (k : κ) :
    (t.modify f hf).find k = (t.find k).map f := by
  show (t.items.map f).find? (fun x => decide (key x = k)) = _
  rw [List.find?_map]
  simp only [Function.comp_def, hf]
  rfl

theorem find_filter (t : Keyed key) (p : α → Bool) (k : κ) : (t.filter p).find k = (t.find k).filter p := by
  refine Option.ext fun x => ?_
  rw [find_eq_some_iff, mem_filter, Option.filter_eq_some_iff, find_eq_some_iff, and_right_comm]

theorem put_put {y : α} (h : key x = key y) : (t.put x).put y = t.put y := by
  refine Keyed.ext ?_
  have hput : (t.put x).find (key y) = some x := h ▸ find_put_self t x
  rw [items_put (t.put x), if_pos (by rw [hput]; rfl), items_put t x, items_put t y, h]
  split
  · rw [map_map]
    refine map_congr_left fun z _ => ?_
    show (if key (if key z = key y then x else z) = key y then y else if key z = key y then x else z) = _
    by_cases hz : key z = key y
    · rw [if_pos hz, if_pos h, if_pos hz]
    · rw [if_neg hz]
  next hnone =>
    have hfree := find_eq_none_iff.mp (Option.not_isSome_iff_eq_none.mp hnone)
    rw [map_cons, if_pos h]
    refine congrArg _ ?_
    calc (t.items.map fun z => if key z = key y then y else z) = t.items.map id :=
          map_congr_left fun z hz => if_neg (hfree z hz)
      _ = t.items := map_id _

theorem length_put_of_none (h : t.find (key x) = none) :
    (t.put x).items.length = t.items.length + 1 := by rw [items_put_of_none h, length_cons]

theorem length_put_of_some {y : α} (h : t.find (key x) = some y) : (t.put x).items.length = t.items.length := by
  obtain ⟨before, after, hsplit, hput⟩ := items_put_of_some h
  rw [hput, hsplit, length_append, length_append, length_cons, length_cons]

theorem length_erase_of_some (h : t.find k = some x) : (t.erase k).items.length + 1 = t.items.length := by
  obtain ⟨before, after, hsplit, herase⟩ := items_erase_of_some h
  rw [herase, hsplit, length_append, length_append, length_cons, Nat.add_assoc]

theorem sum_put_of_none (h : t.find (key x) = none) (f : α → M) : (t.put x).sum f = f x + t.sum f := by
  rw [sum, items_put_of_none h, map_cons, sum_cons, sum]

theorem sum_put_of_some {y : α} (h : t.find (key x) = some y) (f : α → M) :
    (t.put x).sum f + f y = t.sum f + f x := by
  obtain ⟨before, after, hsplit, hput⟩ := items_put_of_some h
  rw [sum, sum, hput, hsplit]
  simp only [map_append, map_cons, sum_append, sum_cons]
  abel

theorem sum_erase_of_some (h : t.find k = some x) (f : α → M) : (t.erase k).sum f + f x = t.sum f := by
  obtain ⟨before, after, hsplit, herase⟩ := items_erase_of_some h
  rw [sum, sum, herase, hsplit]
  simp only [map_append, map_cons, sum_append, sum_cons]
  abel

end Keyed
