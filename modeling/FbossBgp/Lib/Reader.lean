import FbossBgp.Lib.Bytes
import FbossBgp.Lib.Outcome

/-! Reading from the front of a list of bytes: fixed-size reads that fail on a short input, the loop that
repeats a reader until the input is used up, and rules for what such readers consume and throw. -/

namespace Reader

open Bytes Outcome List

variable {ε α σ : Type} (underflow : ε) (k : Nat)

/-- The next `k` bytes and what follows them. -/
def pull (bytes : List UInt8) : Except ε (List UInt8 × List UInt8) :=
  if bytes.length < k then .error underflow else .ok (bytes.take k, bytes.drop k)

/-- The next `k` bytes as a number, most significant first, and what follows them. -/
def readBE (bytes : List UInt8) : Except ε (Nat × List UInt8) := do
  let (digits, rest) ← pull underflow k bytes
  return (ofBE digits, rest)

variable {bytes : List UInt8}

theorem pull_of_le {underflow : ε} {k : Nat} (h : k ≤ bytes.length) :
    pull underflow k bytes = .ok (bytes.take k, bytes.drop k) := by
  rw [pull, if_neg (by omega)]

theorem readBE_of_le {underflow : ε} {k : Nat} (h : k ≤ bytes.length) :
    readBE underflow k bytes = .ok (ofBE (bytes.take k), bytes.drop k) := by
  rw [readBE, pull_of_le h]
  rfl

theorem pull_append {k : Nat} {front : List UInt8} (rest : List UInt8) (h : front.length = k) :
    pull underflow k (front ++ rest) = .ok (front, rest) := by
  rw [pull_of_le (by rw [length_append]; omega), take_left' h, drop_left' h]

@[simp] theorem readBE_toBE (k n : Nat) (rest : List UInt8) :
    readBE underflow k (toBE k n ++ rest) = .ok (n % 256 ^ k, rest) := by
  rw [readBE, pull_append underflow rest (length_toBE k n), ← ofBE_toBE]
  rfl

@[simp] theorem readBE_intBE (x : Int) (rest : List UInt8) :
    readBE underflow k (intBE k x ++ rest) = .ok ((x % 256 ^ k).toNat, rest) := by
  rw [intBE, readBE_toBE, Nat.mod_eq_of_lt (toNat_emod_lt k x)]

@[simp] theorem readBE_one_cons (b : UInt8) (rest : List UInt8) :
    readBE underflow 1 (b :: rest) = .ok (b.toNat, rest) := by
  rw [readBE_of_le (by simp)]
  simp [ofBE]

/-- The number in the `k` bytes from a place on, most significant first. -/
def fieldAt (bytes : List UInt8) (offset k : Nat) : Nat := ofBE ((bytes.drop offset).take k)

theorem readBE_drop {underflow : ε} {offset k next : Nat} (hnext : offset + k = next) (h : next ≤ bytes.length) :
    readBE underflow k (bytes.drop offset) = .ok (fieldAt bytes offset k, bytes.drop next) := by
  rw [readBE_of_le (by rw [length_drop]; omega), drop_drop, hnext]
  rfl

theorem fieldAt_append {offset k : Nat} (more : List UInt8) (h : offset + k ≤ bytes.length) :
    fieldAt (bytes ++ more) offset k = fieldAt bytes offset k := by
  rw [fieldAt, fieldAt, drop_append_of_le_length (by omega), take_append_of_le_length (by rw [length_drop]; omega)]

section

variable {P : ε → Prop} {k : Nat}

theorem ensures_pull {underflow : ε} (h : bytes.length < k → P underflow) :
    Ensures (fun next => next.1 = bytes.take k ∧ next.2 = bytes.drop k ∧ k ≤ bytes.length) P
      (pull underflow k bytes) := by
  exact ensures_ite h fun hk => ⟨rfl, rfl, by omega⟩

theorem ensures_readBE {underflow : ε} (h : bytes.length < k → P underflow) :
    Ensures (fun next => next.1 = ofBE (bytes.take k) ∧ next.2 = bytes.drop k ∧ k ≤ bytes.length) P
      (readBE underflow k bytes) := by
  refine (ensures_pull h).bind ?_
  rintro ⟨digits, rest⟩ ⟨rfl, rfl, hk⟩
  exact ⟨rfl, rfl, hk⟩

theorem ensures_readBE_bind {underflow : ε} {f : Nat × List UInt8 → Except ε α}
    {Q : α → Prop} (h : P underflow) (hf : ∀ n, k ≤ bytes.length → Ensures Q P (f (n, bytes.drop k))) :
    Ensures Q P (readBE underflow k bytes >>= f) := by
  refine (ensures_readBE fun _ => h).bind ?_
  rintro ⟨n, rest⟩ ⟨-, rfl, hk⟩
  exact hf n hk

end

section

variable (body : σ → List UInt8 → Except ε (σ × List UInt8))

/-- At most `fuel` turns of a reader, while there is input left. -/
def loop : Nat → σ → List UInt8 → Except ε σ
  | _, s, [] => .ok s
  | 0, s, _ :: _ => .ok s
  | fuel + 1, s, b :: bytes => do
      let (s, rest) ← body s (b :: bytes)
      loop fuel s rest

/-- A reader repeated until the input is used up. -/
def untilEmpty (s : σ) (bytes : List UInt8) : Except ε σ := loop body bytes.length s bytes

/-- Every turn takes something from the input. -/
def Consumes : Prop := ∀ s bytes, Ensures (fun next => next.2.length < bytes.length) (fun _ => True) (body s bytes)

/-- Every turn takes something from the input or throws what satisfies `P`. -/
def ConsumesOr (P : ε → Prop) : Prop := ∀ s bytes, Ensures (fun next => next.2.length < bytes.length) P (body s bytes)

variable {body} {P : ε → Prop}

theorem ConsumesOr.consumes (h : ConsumesOr body P) : Consumes body :=
  fun s bytes => (h s bytes).mono_error fun _ _ => trivial

@[simp] theorem untilEmpty_nil (s : σ) : untilEmpty body s [] = .ok s := rfl

variable {bytes : List UInt8} {encode : α → List UInt8} {s : σ} {effect : σ → σ} {items : List α} {I : σ → Prop}

theorem loop_congr (h : Consumes body) {m n : Nat} (hm : bytes.length ≤ m)
    (hn : bytes.length ≤ n) : loop body m s bytes = loop body n s bytes := by
  induction m generalizing n s bytes with
  | zero =>
    rw [length_eq_zero_iff.mp (Nat.le_zero.mp hm), loop, loop]
  | succ m ih =>
    cases bytes with
    | nil => rw [loop, loop]
    | cons b bytes =>
      rw [length_cons] at hm hn
      obtain ⟨n, rfl⟩ : ∃ k, n = k + 1 := ⟨n - 1, by omega⟩
      rw [loop, loop]
      cases hbody : body s (b :: bytes) with
      | error e => rfl
      | ok next =>
        have hless := (h _ _).of_ok hbody
        rw [length_cons] at hless
        exact ih (by omega) (by omega)

theorem untilEmpty_of_ne_nil (h : Consumes body) (hbytes : bytes ≠ []) :
    untilEmpty body s bytes = body s bytes >>= fun next => untilEmpty body next.1 next.2 := by
  obtain ⟨b, bytes, rfl⟩ := exists_cons_of_ne_nil hbytes
  rw [untilEmpty, length_cons, loop]
  cases hbody : body s (b :: bytes) with
  | error e => rfl
  | ok next =>
    have hless := (h _ _).of_ok hbody
    rw [length_cons] at hless
    exact loop_congr h (by omega) le_rfl

/-- The loop takes `bytes` off the front of any input, with this effect on its state. -/
def Takes (body : σ → List UInt8 → Except ε (σ × List UInt8)) (bytes : List UInt8) (effect : σ → σ) : Prop :=
  ∀ s rest, untilEmpty body s (bytes ++ rest) = untilEmpty body (effect s) rest

theorem takes_nil : Takes body [] id := fun _ _ => rfl

theorem Takes.append {front back : List UInt8} {effect' : σ → σ} (h : Takes body front effect)
    (h' : Takes body back effect') : Takes body (front ++ back) (effect' ∘ effect) := by
  intro s rest
  rw [append_assoc, h, h']
  rfl

theorem takes_of_turn (h : Consumes body)
    (hbody : ∀ s rest, body s (bytes ++ rest) = .ok (effect s, rest)) : Takes body bytes effect := by
  intro s rest
  have hless := (h _ _).of_ok (hbody s rest)
  rw [untilEmpty_of_ne_nil h (ne_nil_of_length_pos (by omega)), hbody, ok_bind]

theorem takes_flatMap {record : σ → α → σ} (h : ∀ a ∈ items, Takes body (encode a) fun s => record s a) :
    Takes body (items.flatMap encode) fun s => items.foldl record s := by
  induction items with
  | nil => exact takes_nil
  | cons a items ih =>
    exact (h a mem_cons_self).append (ih fun b hb => h b (mem_cons_of_mem a hb))

theorem Takes.untilEmpty_eq (h : Takes body bytes effect) (s : σ) : untilEmpty body s bytes = .ok (effect s) := by
  have hall := h s []
  rwa [append_nil] at hall

/-- A list of encodings, each of which is taken off and added to the values read. -/
theorem untilEmpty_flatMap {β : Type} {body : List β → List UInt8 → Except ε (List β × List UInt8)}
    (h : Consumes body) {decode : α → β}
    (hbody : ∀ a ∈ items, ∀ values rest, body values (encode a ++ rest) = .ok (values ++ [decode a], rest))
    (values : List β) : untilEmpty body values (items.flatMap encode) = .ok (values ++ items.map decode) := by
  have htakes := takes_flatMap fun a ha => takes_of_turn h (hbody a ha)
  rw [htakes.untilEmpty_eq, foldl_append_eq_append, ← flatMap_def, map_eq_flatMap]

/-- What every turn preserves holds at the end, and every error is the error of a turn. -/
theorem ensures_loop
    (hbody : ∀ s b bytes, I s → Ensures (fun next => I next.1) P (body s (b :: bytes))) (fuel : Nat) (hs : I s)
    (bytes : List UInt8) : Ensures I P (loop body fuel s bytes) := by
  induction fuel generalizing s bytes with
  | zero => cases bytes <;> exact hs
  | succ fuel ih =>
    cases bytes with
    | nil => exact hs
    | cons b bytes => exact (hbody s b bytes hs).bind fun next hnext => ih hnext next.2

theorem ensures_untilEmpty
    (hbody : ∀ s b bytes, I s → Ensures (fun next => I next.1) P (body s (b :: bytes))) (hs : I s)
    (bytes : List UInt8) : Ensures I P (untilEmpty body s bytes) :=
  ensures_loop hbody _ hs bytes

end

end Reader
