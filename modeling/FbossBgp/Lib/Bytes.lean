import Mathlib.Algebra.Order.Ring.Nat
import Mathlib.Data.List.Basic
import Mathlib.Tactic.Positivity
import Mathlib.Tactic.Ring

/-! Numbers in a fixed number of bytes, most or least significant byte first. -/

namespace Bytes

open List

/-- The lowest `k` bytes of a number, most significant first. -/
def toBE : Nat → Nat → List UInt8
  | 0, _ => []
  | k + 1, n => UInt8.ofNat (n / 256 ^ k) :: toBE k n

variable (bytes : List UInt8)

def ofBE : Nat := bytes.foldl (fun n b => 256 * n + b.toNat) 0

/-- The lowest `k` bytes of a number, least significant first. -/
def toLE (k n : Nat) : List UInt8 := (toBE k n).reverse

def ofLE : Nat := ofBE bytes.reverse

variable (k : Nat) (x : Int) (start : Nat)

/-- An integer cut to `k` bytes, most significant first. -/
def intBE : List UInt8 := toBE k (x % 256 ^ k).toNat

/-- An integer cut to `k` bytes, least significant first. -/
def intLE : List UInt8 := toLE k (x % 256 ^ k).toNat

/-- An integer as it is read back from `k` bytes. -/
def wrap : Int := (x % 256 ^ k).toNat

/-- The integers that `k` bytes hold without a sign. -/
def Fits : Prop := 0 ≤ x ∧ x < 256 ^ k
  deriving Decidable

@[simp] theorem length_toBE (k n : Nat) : (toBE k n).length = k := by
  induction k with
  | zero => rfl
  | succ k ih => rw [toBE, length_cons, ih]

theorem toBE_one (n : Nat) : toBE 1 n = [UInt8.ofNat n] := by
  rw [toBE, toBE, Nat.pow_zero, Nat.div_one]

@[simp] theorem length_toLE (k n : Nat) : (toLE k n).length = k := by
  rw [toLE, length_reverse, length_toBE]

theorem foldl_toBE (k n start : Nat) :
    (toBE k n).foldl (fun n b => 256 * n + b.toNat) start = start * 256 ^ k + n % 256 ^ k := by
  induction k generalizing start with
  | zero => simp [toBE, Nat.mod_one]
  | succ k ih =>
    have hbyte : (UInt8.ofNat (n / 256 ^ k)).toNat = n / 256 ^ k % 256 := by simp
    rw [toBE, foldl_cons, ih, hbyte, Nat.mod_pow_succ]
    ring

@[simp] theorem ofBE_toBE (k n : Nat) : ofBE (toBE k n) = n % 256 ^ k := by
  rw [ofBE, foldl_toBE, Nat.zero_mul, Nat.zero_add]

@[simp] theorem ofLE_toLE (k n : Nat) : ofLE (toLE k n) = n % 256 ^ k := by
  rw [ofLE, toLE, reverse_reverse, ofBE_toBE]

@[simp] theorem length_intBE : (intBE k x).length = k := length_toBE k _

@[simp] theorem length_intLE : (intLE k x).length = k := length_toLE k _

theorem toNat_emod_lt : (x % 256 ^ k).toNat < 256 ^ k := by
  have hpos : (0 : Int) < 256 ^ k := by positivity
  have hlt := Int.emod_lt_of_pos x hpos
  rw [Int.toNat_lt (Int.emod_nonneg x hpos.ne')]
  exact_mod_cast hlt

@[simp] theorem ofLE_intLE : ofLE (intLE k x) = (x % 256 ^ k).toNat := by
  rw [intLE, ofLE_toLE, Nat.mod_eq_of_lt (toNat_emod_lt k x)]

/-- An integer that fits the bytes is not changed by the cut. -/
theorem wrap_of_fits {k : Nat} {x : Int} (h : Fits k x) : wrap k x = x := by
  rw [wrap, Int.emod_eq_of_lt h.1 h.2, Int.toNat_of_nonneg h.1]

theorem foldl_lt : bytes.foldl (fun n b => 256 * n + b.toNat) start < (start + 1) * 256 ^ bytes.length := by
  induction bytes generalizing start with
  | nil => simp
  | cons b bytes ih =>
    have hb := b.toNat_lt
    calc (b :: bytes).foldl (fun n b => 256 * n + b.toNat) start
        < (256 * start + b.toNat + 1) * 256 ^ bytes.length := ih _
      _ ≤ (256 * (start + 1)) * 256 ^ bytes.length := Nat.mul_le_mul_right _ (by omega)
      _ = (start + 1) * 256 ^ (b :: bytes).length := by rw [length_cons]; ring

theorem ofBE_lt : ofBE bytes < 256 ^ bytes.length := by
  have h := foldl_lt bytes 0
  rwa [Nat.one_mul] at h

theorem foldl_eq : bytes.foldl (fun n b => 256 * n + b.toNat) start = start * 256 ^ bytes.length + ofBE bytes := by
  induction bytes generalizing start with
  | nil => simp [ofBE]
  | cons b bytes ih =>
    rw [ofBE, foldl_cons, foldl_cons, ih, ih (256 * 0 + b.toNat), length_cons]
    ring

theorem ofBE_cons (b : UInt8) (bytes : List UInt8) : ofBE (b :: bytes) = b.toNat * 256 ^ bytes.length + ofBE bytes := by
  rw [ofBE, foldl_cons, foldl_eq, Nat.zero_add]

theorem ofBE_injective {xs ys : List UInt8} (hlen : xs.length = ys.length) (h : ofBE xs = ofBE ys) : xs = ys := by
  induction xs generalizing ys with
  | nil => exact (length_eq_zero_iff.mp hlen.symm).symm
  | cons b xs ih =>
    cases ys with
    | nil => cases hlen
    | cons c ys =>
      rw [length_cons, length_cons, Nat.succ.injEq] at hlen
      have hx := ofBE_lt xs
      have hy := ofBE_lt ys
      rw [ofBE_cons, ofBE_cons, hlen] at h
      rw [hlen] at hx
      have hhead : b.toNat = c.toNat := by
        have hpos : 0 < 256 ^ ys.length := by positivity
        have hdiv := congrArg (· / 256 ^ ys.length) h
        simpa only [Nat.mul_comm _ (256 ^ ys.length), Nat.mul_add_div hpos, Nat.div_eq_of_lt hx,
          Nat.div_eq_of_lt hy, Nat.add_zero] using hdiv
      rw [hhead, Nat.add_left_cancel_iff] at h
      rw [UInt8.toNat_inj.mp hhead, ih hlen h]

theorem toBE_ofBE : toBE bytes.length (ofBE bytes) = bytes := by
  apply ofBE_injective (length_toBE _ _)
  rw [ofBE_toBE, Nat.mod_eq_of_lt (ofBE_lt bytes)]

theorem length_flatMap_of_size {α : Type} {encode : α → List UInt8} {size : Nat}
    (hsize : ∀ entry, (encode entry).length = size) (entries : List α) :
    (entries.flatMap encode).length = size * entries.length := by
  induction entries with
  | nil => rfl
  | cons entry entries ih =>
    rw [flatMap_cons, length_append, hsize, ih, length_cons, Nat.mul_succ, Nat.add_comm]

end Bytes
