import Mathlib.Logic.Basic

/-! Computations that may throw, and those that also run on fuel: what they return and throw. Loops that may
stop in the middle. -/

namespace Outcome

variable {ε α β : Type}

/-- What a computation returns satisfies `Q`, and what it throws satisfies `P`. -/
def Ensures (Q : α → Prop) (P : ε → Prop) : Except ε α → Prop
  | .ok a => Q a
  | .error e => P e

/-- A computation throws only what satisfies `P`. -/
abbrev FailsOnly (P : ε → Prop) (x : Except ε α) : Prop := Ensures (fun _ => True) P x

variable {Q : α → Prop} {P : ε → Prop} {a : α} {e : ε}

@[simp] theorem ensures_ok : Ensures Q P (.ok a) ↔ Q a := Iff.rfl

@[simp] theorem ensures_error : Ensures Q P (.error e) ↔ P e := Iff.rfl

@[simp] theorem ensures_pure : Ensures Q P (pure a) ↔ Q a := Iff.rfl

theorem ensures_self (x : Except ε α) : Ensures (fun a => x = .ok a) (fun _ => True) x := by
  cases x with
  | ok a => exact rfl
  | error e => trivial

variable {x : Except ε α} {f : α → Except ε β} {P' : ε → Prop}

theorem Ensures.of_ok (h : Ensures Q P x) (ha : x = .ok a) : Q a := by
  rw [ha] at h
  exact h

theorem Ensures.of_error (h : Ensures Q P x) (he : x = .error e) : P e := by
  rw [he] at h
  exact h

theorem eq_error_of_ensures (h : Ensures (fun _ => False) (fun e' => e' = e) x) : x = .error e := by
  cases x with
  | ok a => exact h.elim
  | error e' => exact congrArg Except.error h

theorem Ensures.mono {Q' : α → Prop} (h : Ensures Q P x) (hQ : ∀ a, Q a → Q' a)
    (hP : ∀ e, P e → P' e) : Ensures Q' P' x := by
  cases x with
  | ok a => exact hQ a h
  | error e => exact hP e h

theorem Ensures.mono_error (h : Ensures Q P x) (hP : ∀ e, P e → P' e) : Ensures Q P' x :=
  h.mono (fun _ hQ => hQ) hP

theorem Ensures.bind {R : β → Prop} (hx : Ensures Q P x)
    (hf : ∀ a, Q a → Ensures R P (f a)) : Ensures R P (x >>= f) := by
  cases x with
  | ok a => exact hf a hx
  | error e => exact hx

theorem ensures_ite {c : Prop} [Decidable c] {y : Except ε α} (hx : c → Ensures Q P x) (hy : ¬c → Ensures Q P y) :
    Ensures Q P (if c then x else y) := by
  split
  · exact hx ‹_›
  · exact hy ‹_›

@[simp] theorem ok_bind (a : α) (f : α → Except ε β) : (Except.ok a >>= f) = f a := rfl

theorem bind_eq_ok {b : β} : (x >>= f) = .ok b ↔ ∃ a, x = .ok a ∧ f a = .ok b := by
  cases x with
  | error e => exact ⟨nofun, fun ⟨_, h, _⟩ => nomatch h⟩
  | ok a => exact ⟨fun h => ⟨a, rfl, h⟩, fun ⟨_, h, hf⟩ => by cases h; exact hf⟩

/-- A last step that only wraps the result tells the results apart. -/
theorem bind_ok_inj {f : α → β} (hf : Function.Injective f) {y : Except ε α} :
    (x >>= fun a => .ok (f a)) = (y >>= fun a => .ok (f a)) ↔ x = y := by
  refine ⟨fun h => ?_, fun h => by rw [h]⟩
  cases x with
  | error e =>
    cases y with
    | error e' => exact congrArg Except.error (Except.error.inj h)
    | ok b => cases h
  | ok a =>
    cases y with
    | error e' => cases h
    | ok b => exact congrArg Except.ok (hf (Except.ok.inj h))

section

/-- The computation has not run out of fuel; `Q` holds of what it returns and `P` of what it throws. -/
def Returns (Q : α → Prop) (P : ε → Prop) (x : ExceptT ε Option α) : Prop := ∃ out, x.run = some out ∧ Ensures Q P out

theorem returns_mk (h : Ensures Q P x) : Returns Q P (ExceptT.mk (some x)) := ⟨x, rfl, h⟩

theorem returns_pure (h : Q a) : Returns Q P (pure a : ExceptT ε Option α) := ⟨.ok a, rfl, h⟩

theorem returns_throw (h : P e) : Returns Q P (throw e : ExceptT ε Option α) := ⟨.error e, rfl, h⟩

variable {x : ExceptT ε Option α} {f : α → ExceptT ε Option β}

theorem Returns.bind {R : β → Prop} (hx : Returns Q P x)
    (hf : ∀ a, Q a → Returns R P (f a)) : Returns R P (x >>= f) := by
  obtain ⟨out, hrun, hout⟩ := hx
  cases out with
  | ok a =>
    obtain ⟨out', hrun', hout'⟩ := hf a hout
    exact ⟨out', by rw [ExceptT.run_bind, hrun]; exact hrun', hout'⟩
  | error e => exact ⟨.error e, by rw [ExceptT.run_bind, hrun]; rfl, hout⟩

theorem run_bind_of_none (f : α → ExceptT ε Option β) (hx : x.run = none) : (x >>= f).run = none := by
  rw [ExceptT.run_bind, hx]
  rfl

theorem run_bind_of_ok (hx : x.run = some (.ok a)) : (x >>= f).run = (f a).run := by
  rw [ExceptT.run_bind, hx]
  rfl

/-- A first part that does not throw, followed by one that never ends. -/
theorem run_bind_of_forall_none
    (hx : ∀ e, x.run ≠ some (.error e)) (hf : ∀ a, (f a).run = none) : (x >>= f).run = none := by
  cases hrun : x.run with
  | none => exact run_bind_of_none f hrun
  | some out =>
    cases out with
    | error e => exact absurd hrun (hx e)
    | ok a => rw [run_bind_of_ok hrun, hf a]

theorem run_bind_ne_error (hx : ∀ e, x.run ≠ some (.error e)) (hf : ∀ a e, (f a).run ≠ some (.error e)) (e : ε) :
    (x >>= f).run ≠ some (.error e) := by
  cases hrun : x.run with
  | none =>
    rw [run_bind_of_none f hrun]
    exact nofun
  | some out =>
    cases out with
    | error e => exact absurd hrun (hx e)
    | ok a =>
      rw [run_bind_of_ok hrun]
      exact hf a e

theorem run_bind_eq_ok {b : β} :
    (x >>= f).run = some (.ok b) ↔ ∃ a, x.run = some (.ok a) ∧ (f a).run = some (.ok b) := by
  constructor
  · intro h
    rw [ExceptT.run_bind] at h
    cases hx : x.run with
    | none =>
      rw [hx] at h
      cases h
    | some out =>
      rw [hx] at h
      cases out with
      | error e => cases h
      | ok a => exact ⟨a, rfl, h⟩
  · rintro ⟨a, hx, hf⟩
    rw [run_bind_of_ok hx, hf]

end

theorem isSome_bind_iff {x : Option α} {f : α → Option β} : (x.bind f).isSome ↔ ∃ a ∈ x, (f a).isSome := by
  cases x with
  | none => simp
  | some a => simp

section

variable {σ : Type} (step : σ → α → Option σ) (condition : σ → α → Prop)

/-- Every step of a loop meets a condition on the state it starts from. -/
def Along : σ → List α → Prop
  | _, [] => True
  | s, a :: as => condition s a ∧ ∀ s', step s a = some s' → Along s' as

variable {step condition} {as : List α} {s : σ}

/-- A loop reaches its end exactly when every step meets the condition under which it gives a state. -/
theorem isSome_foldlM_iff (h : ∀ a ∈ as, ∀ s, (step s a).isSome ↔ condition s a) :
    (as.foldlM step s).isSome ↔ Along step condition s as := by
  induction as generalizing s with
  | nil => exact ⟨fun _ => trivial, fun _ => rfl⟩
  | cons a as ih =>
    obtain ⟨ha, has⟩ := List.forall_mem_cons.mp h
    rw [List.foldlM_cons, Along, ← ha]
    cases step s a with
    | none => exact ⟨fun hnone => absurd hnone nofun, fun hnone => absurd hnone.1 nofun⟩
    | some s' =>
      exact (ih has).trans ⟨fun hrest => ⟨rfl, fun _ hs => Option.some.inj hs ▸ hrest⟩, fun hrest => hrest.2 s' rfl⟩

theorem isSome_foldlM_iff_forall {good : α → Prop} (h : ∀ s a, (step s a).isSome ↔ good a) :
    (as.foldlM step s).isSome ↔ ∀ a ∈ as, good a := by
  induction as generalizing s with
  | nil => exact ⟨fun _ => nofun, fun _ => rfl⟩
  | cons a as ih =>
    rw [List.foldlM_cons, List.forall_mem_cons, ← h s]
    cases step s a with
    | none => exact ⟨fun hnone => absurd hnone nofun, fun hnone => absurd hnone.1 nofun⟩
    | some s' => exact ih.trans ⟨fun hrest => ⟨rfl, hrest⟩, fun hrest => hrest.2⟩

end

end Outcome
