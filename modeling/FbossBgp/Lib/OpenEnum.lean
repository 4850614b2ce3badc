import Mathlib.Data.List.Basic

/-! Enumerations whose variables may hold a number that no name stands for. -/

/-- The names of an enumeration and their numbers. -/
class EnumNames (ν : Type) where
  names : List ν
  code : ν → Int
  mem_names : ∀ name, name ∈ names := by intro name; cases name <;> simp
  code_injective : Function.Injective code := by intro a b h; cases a <;> cases b <;> first | rfl | cases h

/-- An enumeration whose names are printed. -/
class EnumTexts (ν : Type) extends EnumNames ν where
  text : ν → String

/-- A value of an enumeration: one of its names, or a number that has none. -/
inductive OpenEnum (ν : Type) [EnumNames ν]
  | named (name : ν)
  | unnamed (value : Int) (h : ∀ name : ν, EnumNames.code name ≠ value)

namespace OpenEnum

open EnumNames

variable {ν : Type} [EnumNames ν] (value : Int)

instance [DecidableEq ν] : DecidableEq (OpenEnum ν)
  | named a, named b => decidable_of_iff (a = b) (by rw [named.injEq])
  | named _, unnamed _ _ => isFalse nofun
  | unnamed _ _, named _ => isFalse nofun
  | unnamed a _, unnamed b _ => decidable_of_iff (a = b) (by rw [unnamed.injEq])

def toInt : OpenEnum ν → Int
  | named name => code name
  | unnamed value _ => value

/-- The value a number stands for. -/
def ofInt : OpenEnum ν :=
  match hfind : (names : List ν).find? fun name => code name == value with
  | some name => named name
  | none => unnamed value fun name => by simpa using List.find?_eq_none.mp hfind name (mem_names name)

def isNamed : OpenEnum ν → Bool
  | named _ => true
  | unnamed _ _ => false

/-- The name of a value, or its number in decimal. -/
def nameSafe {ν : Type} [EnumTexts ν] : OpenEnum ν → String
  | named name => EnumTexts.text name
  | unnamed value _ => toString value

@[simp] theorem toInt_ofInt : (ofInt value : OpenEnum ν).toInt = value := by
  rw [ofInt]
  split
  next name hfind =>
    have hcode := List.find?_some hfind
    rw [beq_iff_eq] at hcode
    exact hcode
  · rfl

theorem toInt_injective : Function.Injective (toInt : OpenEnum ν → Int) := by
  intro a b hab
  cases a with
  | named name =>
    cases b with
    | named name' => rw [code_injective hab]
    | unnamed value h => exact absurd hab (h name)
  | unnamed value h =>
    cases b with
    | named name => exact absurd hab.symm (h name)
    | unnamed value' h' =>
      have hval : value = value' := hab
      subst hval
      rfl

@[simp] theorem ofInt_toInt (a : OpenEnum ν) : ofInt a.toInt = a := toInt_injective (toInt_ofInt a.toInt)

end OpenEnum
