import FbossBgp.Lib.Bytes
import FbossBgp.Lib.Outcome

/-! Writing to the end of a buffer of fixed capacity: a write that does not fit fails, and a sequence of
writes is the write of all its bytes. -/

namespace Writer

open Bytes Outcome List

variable {ε α : Type}

/-- Append to what is written, when it fits. -/
def push (overflow : ε) (capacity : Nat) (bytes written : List UInt8) : Except ε (List UInt8) :=
  if written.length + bytes.length ≤ capacity then .ok (written ++ bytes) else .error overflow

/-- Leave room for a length of `k` bytes, write, and then fill in how much was written. -/
def withLength (overflow : ε) (capacity k : Nat) (write : List UInt8 → Except ε (List UInt8)) (written : List UInt8) :
    Except ε (List UInt8) := do
  let reserved ← push overflow capacity (toBE k 0) written
  let filled ← write reserved
  return written ++ toBE k (filled.length - reserved.length) ++ filled.drop reserved.length

def writeIf (c : Prop) [Decidable c] (write : List UInt8 → Except ε (List UInt8)) (written : List UInt8) :
    Except ε (List UInt8) :=
  if c then write written else .ok written

def writeSome (write : α → List UInt8 → Except ε (List UInt8)) (value : Option α) (written : List UInt8) :
    Except ε (List UInt8) :=
  match value with
  | some a => write a written
  | none => .ok written

/-- From any buffer within its capacity, `write` appends exactly these bytes, or overflows. -/
def Writes (overflow : ε) (capacity : Nat) (write : List UInt8 → Except ε (List UInt8)) (bytes : List UInt8) : Prop :=
  ∀ written, written.length ≤ capacity → write written = push overflow capacity bytes written

variable {overflow : ε} {capacity : Nat} {write write' : List UInt8 → Except ε (List UInt8)} {bytes bytes' : List UInt8}
  {item : α → List UInt8 → Except ε (List UInt8)} {written out : List UInt8} {encode : α → List UInt8} {c : Prop}

theorem push_eq_ok (h : push overflow capacity bytes written = .ok out) :
    written.length + bytes.length ≤ capacity ∧ out = written ++ bytes := by
  rw [push] at h
  split at h
  · exact ⟨‹_›, (Except.ok.inj h).symm⟩
  · cases h

theorem push_of_le (h : written.length + bytes.length ≤ capacity) :
    push overflow capacity bytes written = .ok (written ++ bytes) := if_pos h

theorem writes_push (overflow : ε) (capacity : Nat) (bytes : List UInt8) :
    Writes overflow capacity (push overflow capacity bytes) bytes :=
  fun _ _ => rfl

theorem writes_pure : Writes overflow capacity pure [] := by
  intro written hwrt
  rw [push_of_le (by simpa using hwrt), append_nil]
  rfl

theorem Writes.bind (h : Writes overflow capacity write bytes) (h' : Writes overflow capacity write' bytes') :
    Writes overflow capacity (fun written => write written >>= write') (bytes ++ bytes') := by
  intro written hwrt
  dsimp only
  rw [h written hwrt]
  by_cases hfits : written.length + bytes.length ≤ capacity
  · rw [push_of_le hfits]
    change write' (written ++ bytes) = _
    rw [h' _ (by rw [length_append]; exact hfits), push, push, length_append, length_append,
      append_assoc, Nat.add_assoc]
  · rw [push, if_neg hfits, push, if_neg (by rw [length_append]; omega)]
    rfl

theorem Writes.writeIf [Decidable c] (h : c → Writes overflow capacity write bytes) :
    Writes overflow capacity (writeIf c write) (if c then bytes else []) := by
  by_cases hc : c
  · rw [if_pos hc]
    intro written hwrt
    rw [Writer.writeIf, if_pos hc, h hc written hwrt]
  · rw [if_neg hc]
    intro written hwrt
    rw [Writer.writeIf, if_neg hc]
    exact writes_pure written hwrt

theorem Writes.writeSome
    (value : Option α) (h : ∀ a, value = some a → Writes overflow capacity (item a) (encode a)) :
    Writes overflow capacity (writeSome item value) (value.toList.flatMap encode) := by
  cases value with
  | none => exact writes_pure
  | some a =>
    rw [Option.toList_some, flatMap_singleton]
    exact h a rfl

theorem Writes.foldlM (items : List α) (h : ∀ a ∈ items, Writes overflow capacity (item a) (encode a)) :
    Writes overflow capacity (fun written => items.foldlM (fun written a => item a written) written)
      (items.flatMap encode) := by
  induction items with
  | nil => exact writes_pure
  | cons a items ih =>
    exact (h a mem_cons_self).bind (ih fun b hb => h b (mem_cons_of_mem a hb))

theorem exists_of_foldlM_eq_ok {items : List α}
    (h : items.foldlM (fun written a => item a written) written = .ok out) :
    ∀ a ∈ items, ∃ before after, item a before = .ok after := by
  induction items generalizing written with
  | nil => exact fun a ha => absurd ha not_mem_nil
  | cons b items ih =>
    rw [foldlM_cons, bind_eq_ok] at h
    obtain ⟨next, hnext, hrest⟩ := h
    intro a ha
    rcases mem_cons.mp ha with rfl | ha
    · exact ⟨written, next, hnext⟩
    · exact ih hrest a ha

theorem exists_of_withLength_eq_ok {k : Nat}
    (h : withLength overflow capacity k write written = .ok out) : ∃ before after, write before = .ok after := by
  rw [withLength, bind_eq_ok] at h
  obtain ⟨reserved, -, hrest⟩ := h
  rw [bind_eq_ok] at hrest
  obtain ⟨filled, hwrite, -⟩ := hrest
  exact ⟨reserved, filled, hwrite⟩

theorem exists_of_writeIf_eq_ok [Decidable c]
    (h : writeIf c write written = .ok out) (hc : c) : write written = .ok out := by
  rwa [writeIf, if_pos hc] at h

theorem Writes.withLength (k : Nat) (h : Writes overflow capacity write bytes) :
    Writes overflow capacity (withLength overflow capacity k write) (toBE k bytes.length ++ bytes) := by
  intro written hwrt
  have hlen : (toBE k bytes.length ++ bytes).length = k + bytes.length := by rw [length_append, length_toBE]
  rw [Writer.withLength]
  by_cases hroom : written.length + (toBE k 0).length ≤ capacity
  · rw [push_of_le hroom]
    change (write (written ++ toBE k 0) >>= _) = _
    rw [h _ (by rw [length_append]; exact hroom)]
    by_cases hfits : (written ++ toBE k 0).length + bytes.length ≤ capacity
    · rw [push_of_le hfits, push_of_le (by rw [hlen]; rw [length_append, length_toBE] at hfits; omega)]
      change Except.ok _ = Except.ok _
      rw [drop_left, append_assoc]
      simp only [length_append, Nat.add_sub_cancel_left]
    · rw [push, if_neg hfits, push, if_neg (by rw [hlen]; rw [length_append, length_toBE] at hfits; omega)]
      rfl
  · rw [push, if_neg hroom, push, if_neg (by rw [hlen]; rw [length_toBE] at hroom; omega)]
    rfl

end Writer
