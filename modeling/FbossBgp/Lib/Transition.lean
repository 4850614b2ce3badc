import Mathlib.Data.List.Basic

/-! Systems that take actions one after another: their reachable states and the runs between
states. -/

namespace Transition

/-- An action that is enabled in a state takes it to one next state. -/
structure System (σ α : Type*) where
  init : σ
  enabled : σ → α → Prop
  exec : σ → α → σ

variable {σ α : Type*} (sys : System σ α)

inductive Reachable : σ → Prop where
  | init : Reachable sys.init
  | step {s : σ} {a : α} : Reachable s → sys.enabled s a → Reachable (sys.exec s a)

def run (s : σ) (actions : List α) : σ := actions.foldl sys.exec s

/-- What the actions of a run yield, each in the state in which it is taken. -/
def observed {β : Type*} (observe : σ → α → List β) : σ → List α → List β
  | _, [] => []
  | s, a :: actions => observe s a ++ observed observe (sys.exec s a) actions

/-- Each action is enabled in the state in which it is taken. -/
def Admits : σ → List α → Prop
  | _, [] => True
  | s, a :: actions => sys.enabled s a ∧ Admits (sys.exec s a) actions

instance decidableAdmits [∀ s a, Decidable (sys.enabled s a)] : ∀ s actions, Decidable (Admits sys s actions)
  | _, [] => .isTrue trivial
  | s, a :: actions =>
    have := decidableAdmits (sys.exec s a) actions
    inferInstanceAs (Decidable (sys.enabled s a ∧ Admits sys (sys.exec s a) actions))

variable {sys} {s : σ} {sys' : System σ α} {actions : List α}

/-- Every reachable state of a system is reachable when more actions are enabled. -/
theorem Reachable.mono (hinit : sys'.init = sys.init) (hexec : sys'.exec = sys.exec)
    (hen : ∀ s a, sys.enabled s a → sys'.enabled s a) (h : Reachable sys s) : Reachable sys' s := by
  induction h with
  | init => exact hinit ▸ .init
  | step _ hen' ih => exact hexec ▸ .step ih (hen _ _ hen')

theorem Admits.mono (hexec : sys'.exec = sys.exec)
    (hen : ∀ s a, sys.enabled s a → sys'.enabled s a) (h : Admits sys s actions) :
    Admits sys' s actions := by
  induction actions generalizing s with
  | nil => trivial
  | cons a actions ih => exact ⟨hen s a h.1, hexec ▸ ih h.2⟩

theorem Reachable.run (h : Reachable sys s) (hadm : Admits sys s actions) : Reachable sys (run sys s actions) := by
  induction actions generalizing s with
  | nil => exact h
  | cons a actions ih => exact ih (.step h hadm.1) hadm.2

/-- If each action appends what it accepts and yields what it takes from the front, so does a run. -/
theorem observed_fifo {β : Type*} {accepts yields : σ → α → List β} (contents : σ → List β)
    (hstep : ∀ s a, contents s ++ accepts s a = yields s a ++ contents (sys.exec s a))
    (s : σ) (actions : List α) :
    contents s ++ observed sys accepts s actions = observed sys yields s actions ++ contents (run sys s actions) := by
  induction actions generalizing s with
  | nil => exact List.append_nil _
  | cons a actions ih =>
    rw [observed, observed, ← List.append_assoc, hstep, List.append_assoc, ih, List.append_assoc]
    rfl

theorem run_append (s : σ) (first second : List α) :
    run sys s (first ++ second) = run sys (run sys s first) second := List.foldl_append

theorem admits_append {first second : List α} :
    Admits sys s (first ++ second) ↔ Admits sys s first ∧ Admits sys (run sys s first) second := by
  induction first generalizing s with
  | nil => simp [Admits, run]
  | cons a first ih =>
    rw [List.cons_append, Admits, Admits, ih, and_assoc]
    rfl

end Transition
