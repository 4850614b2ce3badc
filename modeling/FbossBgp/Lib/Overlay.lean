import Mathlib.Data.List.Basic

/-! Overwriting a field of a buffer in place, and the same field in each buffer of a chain. -/

namespace Overlay

open List

variable {α : Type*}

/-- Write over the bytes from an offset on, when they are all within the buffer. -/
def overwrite (offset : Nat) (bytes buf : List α) : List α :=
  if offset + bytes.length ≤ buf.length then buf.take offset ++ bytes ++ buf.drop (offset + bytes.length) else buf

/-- The buffer holds these bytes at the offset. -/
def HoldsAt (offset : Nat) (bytes buf : List α) : Prop := (buf.drop offset).take bytes.length = bytes

instance [DecidableEq α] (offset : Nat) (bytes buf : List α) : Decidable (HoldsAt offset bytes buf) :=
  inferInstanceAs (Decidable ((buf.drop offset).take bytes.length = bytes))

variable {offset : Nat} {bytes bytes' buf : List α}

@[simp] theorem length_overwrite (offset : Nat) (bytes buf : List α) :
    (overwrite offset bytes buf).length = buf.length := by
  rw [overwrite]
  split
  · simp only [length_append, length_take, length_drop]
    omega
  · rfl

/-- A field between two others is replaced by one of the same length. -/
theorem overwrite_append {front old new back : List α} (h : old.length = new.length) :
    overwrite front.length new (front ++ old ++ back) = front ++ new ++ back := by
  have hfits : front.length + new.length ≤ (front ++ old ++ back).length := by
    simp only [length_append]
    omega
  rw [overwrite, if_pos hfits, append_assoc front old back, take_left, ← append_assoc,
    drop_left' (by rw [length_append, h])]

theorem getElem?_overwrite_of_lt {i : Nat} (h : i < offset) : (overwrite offset bytes buf)[i]? = buf[i]? := by
  rw [overwrite]
  split
  · rw [append_assoc, List.getElem?_append_left (by rw [length_take]; omega), List.getElem?_take_of_lt h]
  · rfl

theorem holdsAt_overwrite (h : offset + bytes.length ≤ buf.length) :
    HoldsAt offset bytes (overwrite offset bytes buf) := by
  rw [HoldsAt, overwrite, if_pos h, append_assoc, drop_left' (by rw [length_take]; omega), take_left]

theorem HoldsAt.of_isPrefix {buf' : List α} (h : HoldsAt offset bytes buf) (hbegins : buf <+: buf')
    (hfits : offset + bytes.length ≤ buf.length) : HoldsAt offset bytes buf' := by
  obtain ⟨rest, rfl⟩ := hbegins
  rw [HoldsAt, drop_append_of_le_length (by omega), take_append_of_le_length (by rw [length_drop]; omega)]
  exact h

theorem overwrite_overwrite (h : bytes.length = bytes'.length) :
    overwrite offset bytes' (overwrite offset bytes buf) = overwrite offset bytes' buf := by
  by_cases hfits : offset + bytes'.length ≤ buf.length
  · have hfront : offset = (buf.take offset).length := by
      rw [length_take]
      omega
    rw [overwrite.eq_1 offset bytes buf, if_pos (by rw [h]; exact hfits), overwrite.eq_1 offset bytes' buf, if_pos hfits,
      h]
    nth_rewrite 1 [hfront]
    exact overwrite_append h
  · rw [overwrite.eq_1 offset bytes buf, if_neg (by rw [h]; exact hfits)]

section

variable {chain : List (List α)}

/-- Changing each element of a list in turn, by its index, changes all of them. -/
theorem foldl_modify_range (f : α → α) (xs : List α) :
    (List.range xs.length).foldl (fun ys i => ys.modify i f) xs = xs.map f := by
  have hstep : ∀ n ≤ xs.length,
      (List.range n).foldl (fun ys i => ys.modify i f) xs = (xs.take n).map f ++ xs.drop n := by
    intro n hn
    induction n with
    | zero => simp
    | succ n ih =>
      have hlt : n < xs.length := hn
      have hlen : ((xs.take n).map f).length = n := by
        rw [length_map, length_take]
        omega
      rw [range_succ, foldl_append, ih (by omega), foldl_cons,
        modify_eq_take_drop, take_left' hlen, drop_left' hlen,
        drop_eq_getElem_cons hlt, take_succ_eq_append_getElem hlt, map_append,
        append_assoc]
      rfl
  simpa using hstep xs.length (Nat.le_refl _)

theorem length_flatten_map_overwrite (offset : Nat) (bytes : List α) (chain : List (List α)) :
    (chain.map (overwrite offset bytes)).flatten.length = chain.flatten.length := by
  simp only [length_flatten, map_map, Function.comp_def, length_overwrite]

theorem map_overwrite_map_overwrite (h : bytes.length = bytes'.length) :
    (chain.map (overwrite offset bytes)).map (overwrite offset bytes') = chain.map (overwrite offset bytes') := by
  simp only [map_map, Function.comp_def, overwrite_overwrite h]

end

end Overlay
