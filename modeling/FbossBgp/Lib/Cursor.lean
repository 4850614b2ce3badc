import Mathlib.Data.List.Nodup
import Mathlib.Data.List.TakeWhile

/-! A cursor over a list without repetitions that moves by asking for the element after it, as a loop
over an intrusive list does. The body of such a loop may remove the element it is at, because the
successor is read before the body runs. -/

namespace ListCursor

open List

variable {ι σ : Type*}

section

variable [DecidableEq ι] {pre suf : List ι}

/-- The part of the list that starts at `x`, empty when `x` is not in the list. -/
def suffixFrom (l : List ι) (x : ι) : List ι := l.dropWhile (fun y => decide (y ≠ x))

/-- The element after `x`, none when `x` is last or not in the list. -/
def next (l : List ι) (x : ι) : Option ι := (suffixFrom l x).tail.head?

theorem suffixFrom_append_cons {x : ι} (hx : x ∉ pre) : suffixFrom (pre ++ x :: suf) x = x :: suf := by
  unfold suffixFrom
  rw [dropWhile_append_of_pos, dropWhile_cons_of_neg (by simp)]
  intro y hy
  rw [decide_eq_true_eq]
  rintro rfl
  exact hx hy

variable {l : List ι} {x y : ι}

theorem exists_split (hx : x ∈ l) : ∃ pre suf, l = pre ++ x :: suf ∧ x ∉ pre ∧ suffixFrom l x = x :: suf := by
  obtain ⟨pre, suf, hl, hpre⟩ := eq_append_cons_of_mem hx
  exact ⟨pre, suf, hl, hpre, hl ▸ suffixFrom_append_cons hpre⟩

theorem suffixFrom_of_notMem (hx : x ∉ l) : suffixFrom l x = [] := by
  rw [suffixFrom, dropWhile_eq_nil_iff]
  intro y hy
  rw [decide_eq_true_eq]
  rintro rfl
  exact hx hy

theorem mem_of_mem_suffixFrom (h : y ∈ suffixFrom l x) : y ∈ l := (dropWhile_suffix _).subset h

theorem start_mem_of_mem_suffixFrom (h : y ∈ suffixFrom l x) : x ∈ l := by
  by_contra hx
  rw [suffixFrom_of_notMem hx] at h
  exact absurd h not_mem_nil

theorem next_append_cons (hx : x ∉ pre) : next (pre ++ x :: suf) x = suf.head? := by
  rw [next, suffixFrom_append_cons hx, tail_cons]

theorem next_mem (h : next l x = some y) : y ∈ l := by
  have hmem : y ∈ (suffixFrom l x).tail := mem_of_head? h
  exact mem_of_mem_suffixFrom (mem_of_mem_tail hmem)

theorem next_ne_self (hl : l.Nodup) (h : next l x = some y) : y ≠ x := by
  by_cases hx : x ∈ l
  · obtain ⟨pre, suf, rfl, hpre, -⟩ := exists_split hx
    rw [next_append_cons hpre] at h
    rintro rfl
    have hnm := (nodup_cons.mp (nodup_append.mp hl).2.1).1
    exact hnm (mem_of_head? h)
  · rw [next, suffixFrom_of_notMem hx] at h
    cases h

/-- Past `x`, everything reached from `x` is reached from its successor. -/
theorem mem_suffixFrom_next (hl : l.Nodup) (h : y ∈ suffixFrom l x) (hne : y ≠ x) :
    ∃ n, next l x = some n ∧ y ∈ suffixFrom l n := by
  obtain ⟨pre, suf, rfl, hpre, hfrom⟩ := exists_split (start_mem_of_mem_suffixFrom h)
  rw [hfrom, mem_cons] at h
  have hsuf := h.resolve_left hne
  cases suf with
  | nil => exact absurd hsuf not_mem_nil
  | cons n rest =>
    refine ⟨n, next_append_cons hpre, ?_⟩
    have hn : n ∉ pre ++ [x] := by
      intro hmem
      rw [append_cons] at hl
      exact (disjoint_of_nodup_append hl) hmem (mem_cons_self ..)
    rw [append_cons, suffixFrom_append_cons hn]
    exact hsuf

theorem suffixFrom_trans (hl : l.Nodup) {z : ι} (hy : y ∈ suffixFrom l x)
    (hz : z ∈ suffixFrom l y) : z ∈ suffixFrom l x := by
  obtain ⟨pre, suf, rfl, hpre, hfrom⟩ := exists_split (start_mem_of_mem_suffixFrom hy)
  rw [hfrom] at hy ⊢
  obtain ⟨pre', suf', hsplit, hpre', hfrom'⟩ := exists_split hy
  rw [hsplit] at hl hz ⊢
  have hnm : y ∉ pre ++ pre' := by
    rw [← append_assoc] at hl
    exact fun hmem => (disjoint_of_nodup_append hl) hmem (mem_cons_self ..)
  rw [← append_assoc, suffixFrom_append_cons hnm] at hz
  exact mem_append_right _ hz

theorem mem_suffixFrom_erase {z : ι} (h : y ∈ suffixFrom l x) (hx : x ≠ z) (hy : y ≠ z) :
    y ∈ suffixFrom (l.erase z) x := by
  obtain ⟨pre, suf, rfl, hpre, hfrom⟩ := exists_split (start_mem_of_mem_suffixFrom h)
  rw [hfrom] at h
  by_cases hz : z ∈ pre
  · rw [erase_append_left _ hz, suffixFrom_append_cons fun hmem => hpre (mem_of_mem_erase hmem)]
    exact h
  · rw [erase_append_right _ hz, erase_cons_tail (by simpa using hx), suffixFrom_append_cons hpre]
    rcases mem_cons.mp h with rfl | h
    · exact mem_cons_self ..
    · exact mem_cons_of_mem _ ((mem_erase_of_ne hy).mpr h)

theorem mem_suffixFrom_append {z : ι} (h : y ∈ suffixFrom l x) : y ∈ suffixFrom (l ++ [z]) x := by
  obtain ⟨pre, suf, rfl, hpre, hfrom⟩ := exists_split (start_mem_of_mem_suffixFrom h)
  rw [hfrom] at h
  rw [append_assoc, cons_append, suffixFrom_append_cons hpre]
  rcases mem_cons.mp h with rfl | h
  · exact mem_cons_self ..
  · exact mem_cons_of_mem _ (mem_append_left _ h)

theorem last_mem_suffixFrom {z : ι} (hx : x ∈ l ++ [z]) : z ∈ suffixFrom (l ++ [z]) x := by
  obtain ⟨pre, suf, hl, -, hfrom⟩ := exists_split hx
  have hlast : (x :: suf).getLast? = some z := by
    have hend := congrArg List.getLast? hl
    simpa using hend.symm
  rw [hfrom]
  exact mem_of_getLast? hlast

end

/-- A loop that moves a cursor to the element after it. `stop` is the exit test at the head of the loop;
the successor is read in the state before the body. -/
def walk (step : σ → ι → Option ι) (stop : ι → Bool) (body : σ → ι → σ) : Nat → σ → Option ι → σ × Option ι
  | 0, s, cursor => (s, cursor)
  | _ + 1, s, none => (s, none)
  | n + 1, s, some x => if stop x then (s, some x) else walk step stop body n (body s x) (step s x)

variable (P : σ → List ι → Prop) {step : σ → ι → Option ι} {body : σ → ι → σ} {todo : List ι} {fuel : Nat} {s : σ}

/-- The loop rule: an assertion about the state and the elements still to visit that each turn hands to
the rest holds when the loop is left, at its end or at the first element that stops it. -/
theorem walk_rule {stop : ι → Bool}
    (hturn : ∀ s x rest, P s (x :: rest) → stop x = false → step s x = rest.head? ∧ P (body s x) rest)
    (hfuel : todo.length ≤ fuel) (hP : P s todo) :
    ∃ visited rest, todo = visited ++ rest ∧ (∀ x ∈ visited, stop x = false) ∧ (∀ x ∈ rest.head?, stop x = true) ∧
      (walk step stop body fuel s todo.head?).2 = rest.head? ∧
      P (walk step stop body fuel s todo.head?).1 rest := by
  induction todo generalizing fuel s with
  | nil =>
    refine ⟨[], [], rfl, by simp, by simp, ?_⟩
    cases fuel <;> exact ⟨rfl, hP⟩
  | cons x todo ih =>
    obtain ⟨n, rfl⟩ : ∃ n, fuel = n + 1 := ⟨fuel - 1, by rw [length_cons] at hfuel; omega⟩
    by_cases hstop : stop x = true
    · refine ⟨[], x :: todo, rfl, by simp, by simpa using hstop, ?_⟩
      rw [List.head?_cons, walk, if_pos hstop]
      exact ⟨rfl, hP⟩
    · have hgo : stop x = false := by simpa using hstop
      obtain ⟨hnext, hrest⟩ := hturn s x todo hP hgo
      obtain ⟨visited, rest, htodo, hvis, hexit, hcursor, hfinal⟩ := ih (Nat.le_of_succ_le_succ hfuel) hrest
      refine ⟨x :: visited, rest, by rw [htodo, cons_append], ?_, hexit, ?_⟩
      · intro y hy
        rcases mem_cons.mp hy with rfl | hy
        · exact hgo
        · exact hvis y hy
      · rw [List.head?_cons, walk, if_neg hstop, hnext]
        exact ⟨hcursor, hfinal⟩

/-- The rule for a loop without an exit test, which visits everything. -/
theorem walk_rule_end
    (hturn : ∀ s x rest, P s (x :: rest) → step s x = rest.head? ∧ P (body s x) rest)
    (hfuel : todo.length ≤ fuel) (hP : P s todo) :
    P (walk step (fun _ => false) body fuel s todo.head?).1 [] := by
  obtain ⟨_, rest, -, -, hexit, -, hfinal⟩ := walk_rule P (fun s x rest h _ => hturn s x rest h) hfuel hP
  cases rest with
  | nil => exact hfinal
  | cons x rest => exact absurd (hexit x rfl) (by simp)

end ListCursor
