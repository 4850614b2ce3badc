import Mathlib.Data.Finset.Max
import Mathlib.Data.Prod.Lex
import Mathlib.Order.Interval.Finset.Nat

/-! The allocator of consumer bit positions. Free positions are kept as a `std::set` of inclusive
intervals ordered by their ends, here a finite set of pairs in lexicographic order, so that the
iterators of the source are minima and maxima of filtered sets. The intervals stay disjoint,
non-adjacent and complementary to the positions in use. -/

namespace FbossBgp

open Finset

inductive ConsumerBitError where
  | SUCCESS
  | INVALID_BIT_TOO_BIG
  | INVALID_BIT_ALREADY_FREED
  deriving DecidableEq, Repr

structure ConsumerBitManager where
  maxBits : Nat
  numBitsInUse : Nat
  availableIntervals : Finset (ℕ ×ₗ ℕ)
  deriving DecidableEq

namespace ConsumerBitManager

variable (intervals : Finset (ℕ ×ₗ ℕ))

/-- `begin()` of the ordered set. -/
def first : Option (ℕ ×ₗ ℕ) := intervals.min

/-- The element before `end()` of the ordered set. -/
def last : Option (ℕ ×ₗ ℕ) := intervals.max

/-- The default of the constructor's argument. -/
def kDefaultMaxBits : Nat := 4096

def create (maxBits : Nat) : ConsumerBitManager where
  maxBits := maxBits
  numBitsInUse := 0
  availableIntervals := {toLex (0, maxBits - 1)}

/-- The intervals after the first position of `[start, stop]` is taken. -/
def shrinkStart (start stop : Nat) : Finset (ℕ ×ₗ ℕ) :=
  let erased := intervals.erase (toLex (start, stop))
  if start = stop then erased else insert (toLex (start + 1, stop)) erased

variable (m : ConsumerBitManager) (bitPosition : Nat)

def getConsumerBit : Except String (Nat × ConsumerBitManager) :=
  match first m.availableIntervals with
  | none => .error "No bit positions available"
  | some it =>
    .ok ((ofLex it).1, { m with
      numBitsInUse := m.numBitsInUse + 1
      availableIntervals := shrinkStart m.availableIntervals (ofLex it).1 (ofLex it).2 })

/-- The interval that contains the position, looked for at the first interval not below
`(position, 0)` and at the one before it. -/
def findInterval : Option (ℕ ×ₗ ℕ) :=
  let contains (it : ℕ ×ₗ ℕ) : Bool := decide ((ofLex it).1 ≤ bitPosition ∧ bitPosition ≤ (ofLex it).2)
  let it := first (m.availableIntervals.filter (toLex (bitPosition, 0) ≤ ·))
  let prevIt := last (m.availableIntervals.filter (· < toLex (bitPosition, 0)))
  (it.filter contains).or (prevIt.filter contains)

def isBitInUse : Bool :=
  if bitPosition ≥ m.maxBits then false else (m.findInterval bitPosition).isNone

/-- The first merge of `freeConsumerBit`: the intervals after it and the start of the extended
lower interval. -/
def mergeLower (lowerIt : Option (ℕ ×ₗ ℕ)) : Finset (ℕ ×ₗ ℕ) × Option Nat :=
  match lowerIt with
  | none => (intervals, none)
  | some it =>
    if (ofLex it).2 + 1 = bitPosition then
      (insert (toLex ((ofLex it).1, bitPosition)) (intervals.erase it), some (ofLex it).1)
    else (intervals, none)

/-- The second merge, and the single-bit interval when neither neighbour touches the position. -/
def mergeUpper (mergedLower : Option Nat) (upperIt : Option (ℕ ×ₗ ℕ)) : Finset (ℕ ×ₗ ℕ) :=
  let unmerged := match mergedLower with
    | some _ => intervals
    | none => insert (toLex (bitPosition, bitPosition)) intervals
  match upperIt with
  | none => unmerged
  | some it =>
    if (ofLex it).1 = bitPosition + 1 then
      let erased := intervals.erase it
      match mergedLower with
      | some lowerStart =>
        if toLex (lowerStart, bitPosition) ∈ erased then
          insert (toLex (lowerStart, (ofLex it).2)) (erased.erase (toLex (lowerStart, bitPosition)))
        else erased
      | none => insert (toLex (bitPosition, (ofLex it).2)) erased
    else unmerged

def freeConsumerBit : ConsumerBitError × ConsumerBitManager :=
  if bitPosition ≥ m.maxBits then (.INVALID_BIT_TOO_BIG, m)
  else if !m.isBitInUse bitPosition then (.INVALID_BIT_ALREADY_FREED, m)
  else
    let upperIt := first (m.availableIntervals.filter (toLex (bitPosition, bitPosition) < ·))
    let lowerIt := last (m.availableIntervals.filter (· ≤ toLex (bitPosition, bitPosition)))
    let lower := mergeLower m.availableIntervals bitPosition lowerIt
    (.SUCCESS, { m with
      numBitsInUse := m.numBitsInUse - 1
      availableIntervals := mergeUpper lower.1 bitPosition lower.2 upperIt })

def Available : Prop :=
  ∃ start stop, toLex (start, stop) ∈ m.availableIntervals ∧ start ≤ bitPosition ∧ bitPosition ≤ stop

def InUse : Prop :=
  bitPosition < m.maxBits ∧ ¬m.Available bitPosition

/-- Any two stored intervals leave a gap of at least one position in use between them. -/
structure Intervals (maxBits : Nat) (intervals : Finset (ℕ ×ₗ ℕ)) : Prop where
  bounded : ∀ start stop, toLex (start, stop) ∈ intervals → start ≤ stop ∧ stop < maxBits
  apart : ∀ start stop start' stop', toLex (start, stop) ∈ intervals → toLex (start', stop') ∈ intervals →
    (start = start' ∧ stop = stop') ∨ stop + 1 < start' ∨ stop' + 1 < start

variable {intervals : Finset (ℕ ×ₗ ℕ)} {m : ConsumerBitManager} {maxBits : Nat} {b : Nat} {P : ℕ ×ₗ ℕ → Prop}

theorem first_eq_some {start stop : Nat} (h : first intervals = some (toLex (start, stop))) :
    toLex (start, stop) ∈ intervals ∧ ∀ s e, toLex (s, e) ∈ intervals → start < s ∨ start = s ∧ stop ≤ e :=
  ⟨mem_of_min h, fun _ _ hmem => Prod.Lex.toLex_le_toLex.mp (min_le_of_eq hmem h)⟩

/-- An interval that passes the test is the last one to do so if no other one that does lies above it. -/
theorem Intervals.last_filter {s e : Nat} (hm : Intervals maxBits intervals) (hmem : toLex (s, e) ∈ intervals)
    [DecidablePred P] (hP : P (toLex (s, e))) (hbelow : ∀ s' e', P (toLex (s', e')) → s' ≤ e + 1) :
    last (intervals.filter P) = some (toLex (s, e)) := by
  refine le_antisymm (α := WithBot (ℕ ×ₗ ℕ)) (Finset.max_le fun it hit => ?_) (le_max (mem_filter.mpr ⟨hmem, hP⟩))
  obtain ⟨⟨s', e'⟩, rfl⟩ := toLex.surjective it
  obtain ⟨hmem', hP'⟩ := mem_filter.mp hit
  have hgap := hm.apart s' e' s e hmem' hmem
  have hbdd := hm.bounded s' e' hmem'
  have horder := hbelow s' e' hP'
  exact WithBot.coe_le_coe.mpr (Prod.Lex.toLex_le_toLex.mpr (by simp only; omega))

theorem Intervals.first_filter {s e : Nat} (hm : Intervals maxBits intervals) (hmem : toLex (s, e) ∈ intervals)
    [DecidablePred P] (hP : P (toLex (s, e))) (habove : ∀ s' e', s' ≤ e' → P (toLex (s', e')) → s ≤ e' + 1) :
    first (intervals.filter P) = some (toLex (s, e)) := by
  refine le_antisymm (α := WithTop (ℕ ×ₗ ℕ)) (min_le (mem_filter.mpr ⟨hmem, hP⟩)) (Finset.le_min fun it hit => ?_)
  obtain ⟨⟨s', e'⟩, rfl⟩ := toLex.surjective it
  obtain ⟨hmem', hP'⟩ := mem_filter.mp hit
  have hgap := hm.apart s' e' s e hmem' hmem
  have hbdd := hm.bounded s e hmem
  have horder := habove s' e' (hm.bounded s' e' hmem').1 hP'
  exact WithTop.coe_le_coe.mpr (Prod.Lex.toLex_le_toLex.mpr (by simp only; omega))

theorem findInterval_isNone (hm : Intervals m.maxBits m.availableIntervals) (b : Nat) :
    (m.findInterval b).isNone = true ↔ ¬m.Available b := by
  simp only [findInterval, Option.isNone_iff_eq_none, Option.or_eq_none_iff, Option.filter_eq_none_iff,
    decide_eq_true_eq]
  constructor
  · rintro ⟨hlower, hprev⟩ ⟨s, e, hmem, hs, he⟩
    by_cases hstart : b ≤ s
    · -- the interval starts at `b`, and is the first one not below `(b, 0)`
      refine hlower _ (hm.first_filter hmem ?_ fun s' e' hse' horder => ?_) ⟨hs, he⟩
      · exact Prod.Lex.toLex_le_toLex.mpr (by simp only; omega)
      · have := Prod.Lex.toLex_le_toLex.mp horder
        omega
    · -- otherwise it is the last one below `(b, 0)`
      refine hprev _ (hm.last_filter hmem ?_ fun s' e' horder => ?_) ⟨hs, he⟩
      · exact Prod.Lex.toLex_lt_toLex.mpr (by simp only; omega)
      · have := Prod.Lex.toLex_lt_toLex.mp horder
        omega
  · intro hfree
    refine ⟨fun it hfirst hcontains => hfree ?_, fun it hlast hcontains => hfree ?_⟩
    · exact ⟨_, _, (mem_filter.mp (mem_of_min hfirst)).1, hcontains⟩
    · exact ⟨_, _, (mem_filter.mp (mem_of_max hlast)).1, hcontains⟩

theorem isBitInUse_iff (hm : Intervals m.maxBits m.availableIntervals) (b : Nat) :
    m.isBitInUse b = true ↔ m.InUse b := by
  unfold isBitInUse InUse
  split
  · simp
    omega
  · rw [findInterval_isNone hm]
    constructor
    · exact fun h => ⟨by omega, h⟩
    · exact fun h => h.2

/-- The intervals are the complement of the positions in use, and these are counted. -/
structure Valid (m : ConsumerBitManager) : Prop where
  intervals : Intervals m.maxBits m.availableIntervals
  count : ∀ inUse : Finset ℕ, (∀ b, b ∈ inUse ↔ m.InUse b) → m.numBitsInUse = inUse.card

theorem InUse.exists_finset (m : ConsumerBitManager) : ∃ inUse : Finset ℕ, ∀ b, b ∈ inUse ↔ m.InUse b := by
  classical
  refine ⟨(Finset.range m.maxBits).filter fun b => ¬m.Available b, fun b => ?_⟩
  rw [mem_filter, mem_range, InUse]

theorem Valid.numBitsInUse_ne_zero (hm : m.Valid) (hb : m.InUse b) : m.numBitsInUse ≠ 0 := by
  obtain ⟨inUse, hinUse⟩ := InUse.exists_finset m
  rw [hm.count inUse hinUse]
  exact card_ne_zero_of_mem ((hinUse b).mpr hb)

theorem valid_create (hmax : 0 < maxBits) : (create maxBits).Valid := by
  have hmem : ∀ start stop, toLex (start, stop) ∈ (create maxBits).availableIntervals ↔
      start = 0 ∧ stop = maxBits - 1 := by
    intro start stop
    simp only [create, mem_singleton, EmbeddingLike.apply_eq_iff_eq, Prod.mk.injEq]
  refine ⟨⟨?_, ?_⟩, ?_⟩
  · intro start stop h
    obtain ⟨rfl, rfl⟩ := (hmem _ _).mp h
    exact ⟨Nat.zero_le _, by simp only [create]; omega⟩
  · intro start stop start' stop' h h'
    obtain ⟨rfl, rfl⟩ := (hmem _ _).mp h
    obtain ⟨rfl, rfl⟩ := (hmem _ _).mp h'
    exact Or.inl ⟨rfl, rfl⟩
  · intro inUse hinUse
    have hempty : inUse = ∅ := by
      refine eq_empty_of_forall_notMem fun b hb => ?_
      obtain ⟨hlt, hfree⟩ := (hinUse b).mp hb
      exact hfree ⟨0, maxBits - 1, (hmem _ _).mpr ⟨rfl, rfl⟩, Nat.zero_le _, by simp only [create] at hlt; omega⟩
    rw [hempty]
    rfl

/-- The count follows when one position moves between the free and the used ones. -/
theorem InUse.card_of_take {m' : ConsumerBitManager}
    (havail : ∀ p, m'.Available p ↔ m.Available p ∧ p ≠ b) (hmax : m'.maxBits = m.maxBits)
    (hb : m.Available b) (hlt : b < m.maxBits)
    {inUse inUse' : Finset ℕ} (hinUse : ∀ p, p ∈ inUse ↔ m.InUse p) (hinUse' : ∀ p, p ∈ inUse' ↔ m'.InUse p) :
    inUse'.card = inUse.card + 1 := by
  have hinsert : inUse' = insert b inUse := by
    ext p
    rw [hinUse', mem_insert, hinUse, InUse, InUse, havail, hmax]
    by_cases hp : p = b
    · simp [hp, hlt]
    · simp [hp]
  rw [hinsert, card_insert_of_notMem fun h => ((hinUse b).mp h).2 hb]

theorem mem_shrinkStart (intervals : Finset (ℕ ×ₗ ℕ)) {s e : Nat} (hse : s ≤ e) (x y : Nat) :
    toLex (x, y) ∈ shrinkStart intervals s e ↔
      (s < e ∧ x = s + 1 ∧ y = e) ∨ (toLex (x, y) ∈ intervals ∧ ¬(x = s ∧ y = e)) := by
  unfold shrinkStart
  by_cases heq : s = e
  · simp only [heq, if_true, mem_erase, ne_eq, EmbeddingLike.apply_eq_iff_eq, Prod.mk.injEq,
      lt_irrefl, false_and, false_or]
    exact and_comm
  · have hlt : s < e := by omega
    simp only [heq, if_false, hlt, true_and, mem_insert, mem_erase, ne_eq, EmbeddingLike.apply_eq_iff_eq, Prod.mk.injEq]
    exact or_congr_right and_comm

/-- Replacing intervals by one that keeps clear of the others. -/
theorem Intervals.replace {S E : Nat} {joined : Finset (ℕ ×ₗ ℕ)} (hm : Intervals maxBits intervals)
    (hmem : ∀ x y, toLex (x, y) ∈ joined → (x = S ∧ y = E ∧ x ≤ y ∧ y < maxBits) ∨
      toLex (x, y) ∈ intervals ∧ (y + 1 < S ∨ E + 1 < x)) : Intervals maxBits joined := by
  refine ⟨fun x y h => ?_, fun x y x' y' h h' => ?_⟩
  · rcases hmem x y h with h | ⟨hold, _⟩
    · exact h.2.2
    · exact hm.bounded x y hold
  · rcases hmem x y h with h | ⟨hold, h⟩ <;> rcases hmem x' y' h' with h' | ⟨hold', h'⟩
    case inr.inr => exact hm.apart x y x' y' hold hold'
    all_goals omega

/-- What one allocation does: the smallest free position is taken, and nothing else changes. -/
theorem getConsumerBit_ok {m' : ConsumerBitManager} (hm : m.Valid) (h : m.getConsumerBit = .ok (b, m')) :
    m.Available b ∧ b < m.maxBits ∧ (∀ p, m.Available p → b ≤ p) ∧ m'.maxBits = m.maxBits ∧
      (∀ p, m'.Available p ↔ m.Available p ∧ p ≠ b) ∧ m'.Valid := by
  unfold getConsumerBit at h
  cases hfirst : first m.availableIntervals with
  | none => rw [hfirst] at h; cases h
  | some it =>
    obtain ⟨⟨s, e⟩, rfl⟩ := toLex.surjective it
    obtain ⟨hmem, hleast⟩ := first_eq_some hfirst
    obtain ⟨hse, hemax⟩ := hm.intervals.bounded s e hmem
    have hgap := fun s' e' h' => hm.intervals.apart s e s' e' hmem h'
    have hmem' := mem_shrinkStart m.availableIntervals hse
    rw [hfirst] at h
    obtain ⟨rfl, rfl⟩ := Prod.mk.inj (Except.ok.inj h)
    have havail : ∀ p, Available ⟨m.maxBits, m.numBitsInUse + 1, shrinkStart m.availableIntervals s e⟩ p ↔
        m.Available p ∧ p ≠ s := by
      intro p
      constructor
      · rintro ⟨x, y, hxy, hx, hy⟩
        rcases (hmem' x y).mp hxy with ⟨hlt, rfl, rfl⟩ | ⟨hold, hne⟩
        · exact ⟨⟨s, y, hmem, by omega, hy⟩, by omega⟩
        · refine ⟨⟨x, y, hold, hx, hy⟩, ?_⟩
          have := hgap x y hold
          omega
      · rintro ⟨⟨x, y, hold, hx, hy⟩, hne⟩
        by_cases hxy : x = s ∧ y = e
        · obtain ⟨rfl, rfl⟩ := hxy
          exact ⟨x + 1, y, (hmem' _ _).mpr (Or.inl ⟨by omega, rfl, rfl⟩), by omega, hy⟩
        · exact ⟨x, y, (hmem' _ _).mpr (Or.inr ⟨hold, hxy⟩), hx, hy⟩
    have hfree : m.Available s := ⟨s, e, hmem, le_rfl, hse⟩
    refine ⟨hfree, lt_of_le_of_lt hse hemax, ?_, rfl, havail, hm.intervals.replace (S := s + 1) (E := e) ?_, ?_⟩
    · rintro p ⟨x, y, hold, hx, hy⟩
      have := hleast x y hold
      simp only [ofLex_toLex]
      omega
    · intro x y hxy
      rcases (hmem' x y).mp hxy with ⟨hlt, hx, hy⟩ | ⟨hold, hne⟩
      · omega
      · have := hgap x y hold
        exact Or.inr ⟨hold, by omega⟩
    · intro inUse hinUse
      obtain ⟨before, hbef⟩ := InUse.exists_finset m
      rw [InUse.card_of_take havail rfl hfree (lt_of_le_of_lt hse hemax) hbef hinUse, hm.count before hbef]

/-- The lower merge either finds no interval ending just before the position or extends it. -/
theorem mergeLower_cases (hm : Intervals maxBits intervals) (b : Nat) :
    ((∀ x y, toLex (x, y) ∈ intervals → y + 1 ≠ b) ∧
      mergeLower intervals b (last (intervals.filter (· ≤ toLex (b, b)))) = (intervals, none)) ∨
    ∃ s e, toLex (s, e) ∈ intervals ∧ e + 1 = b ∧ mergeLower intervals b (last (intervals.filter (· ≤ toLex (b, b)))) =
        (insert (toLex (s, b)) (intervals.erase (toLex (s, e))), some s) := by
  by_cases hadj : ∃ s e, toLex (s, e) ∈ intervals ∧ e + 1 = b
  · obtain ⟨s, e, hmem, he⟩ := hadj
    refine Or.inr ⟨s, e, hmem, he, ?_⟩
    have hse := hm.bounded s e hmem
    have hlast : last (intervals.filter (· ≤ toLex (b, b))) = some (toLex (s, e)) := by
      refine hm.last_filter hmem (Prod.Lex.toLex_le_toLex.mpr (by simp only; omega)) fun s' e' horder => ?_
      have := Prod.Lex.toLex_le_toLex.mp horder
      omega
    rw [hlast, mergeLower]
    simp only [ofLex_toLex, he, if_true]
  · push Not at hadj
    refine Or.inl ⟨hadj, ?_⟩
    cases hlast : last (intervals.filter (· ≤ toLex (b, b))) with
    | none => rfl
    | some it =>
      have hmem := (mem_filter.mp (mem_of_max hlast)).1
      rw [mergeLower]
      simp only [hadj (ofLex it).1 (ofLex it).2 hmem, if_false]

/-- The iterator after the position is the interval starting just after it when there is one. -/
theorem upperIt_cases (hm : Intervals maxBits intervals) (b : Nat) :
    ((∀ x y, toLex (x, y) ∈ intervals → x ≠ b + 1) ∧
      ∀ it, first (intervals.filter (toLex (b, b) < ·)) = some it → (ofLex it).1 ≠ b + 1) ∨
    ∃ e, toLex (b + 1, e) ∈ intervals ∧ first (intervals.filter (toLex (b, b) < ·)) = some (toLex (b + 1, e)) := by
  by_cases hadj : ∃ e, toLex (b + 1, e) ∈ intervals
  · obtain ⟨e, hmem⟩ := hadj
    refine Or.inr ⟨e, hmem, ?_⟩
    refine hm.first_filter hmem (Prod.Lex.toLex_lt_toLex.mpr (by simp only; omega)) fun s' e' hse' horder => ?_
    have := Prod.Lex.toLex_lt_toLex.mp horder
    omega
  · push Not at hadj
    have hnone : ∀ x y, toLex (x, y) ∈ intervals → x ≠ b + 1 := fun x y hmem hx => hadj y (hx ▸ hmem)
    exact Or.inl ⟨hnone, fun it hfirst => hnone _ _ (mem_filter.mp (mem_of_min hfirst)).1⟩

/-- `[S, E]` is `b` with the intervals that touch it, and replaces them. -/
structure Joins (intervals joined : Finset (ℕ ×ₗ ℕ)) (b S E : Nat) : Prop where
  lower : (S = b ∧ ∀ x y, toLex (x, y) ∈ intervals → y + 1 ≠ b) ∨ ∃ e, toLex (S, e) ∈ intervals ∧ e + 1 = b
  upper : (E = b ∧ ∀ x y, toLex (x, y) ∈ intervals → x ≠ b + 1) ∨ toLex (b + 1, E) ∈ intervals
  mem_joined : ∀ x y, toLex (x, y) ∈ joined ↔
    (x = S ∧ y = E) ∨ (toLex (x, y) ∈ intervals ∧ y + 1 ≠ b ∧ x ≠ b + 1)

theorem intervals_of_join {S E : Nat} {joined : Finset (ℕ ×ₗ ℕ)} (hm : Intervals maxBits intervals) (hb : b < maxBits)
    (hfree : ∀ x y, toLex (x, y) ∈ intervals → y < b ∨ b < x) (hjoin : Joins intervals joined b S E) :
    Intervals maxBits joined ∧ ∀ p, (∃ x y, toLex (x, y) ∈ joined ∧ x ≤ p ∧ p ≤ y) ↔
      (∃ x y, toLex (x, y) ∈ intervals ∧ x ≤ p ∧ p ≤ y) ∨ p = b := by
  obtain ⟨hS, hE, hjoined⟩ := hjoin
  have hSb : S ≤ b := by
    rcases hS with ⟨rfl, _⟩ | ⟨e, hmem, he⟩
    · exact le_rfl
    · have := hm.bounded S e hmem
      omega
  have hEb : b ≤ E ∧ E < maxBits := by
    rcases hE with ⟨rfl, _⟩ | hmem
    · exact ⟨le_rfl, hb⟩
    · have := hm.bounded (b + 1) E hmem
      omega
  -- what is kept stays clear of the joined interval
  have hclear : ∀ x y, toLex (x, y) ∈ intervals → y + 1 ≠ b → x ≠ b + 1 → y + 1 < S ∨ E + 1 < x := by
    intro x y hmem hlow hhigh
    have hxy := hm.bounded x y hmem
    rcases hfree x y hmem with hside | hside
    · rcases hS with ⟨rfl, _⟩ | ⟨e, hmemS, he⟩
      · omega
      · have := hm.apart x y S e hmem hmemS
        omega
    · rcases hE with ⟨rfl, _⟩ | hmemE
      · omega
      · have := hm.apart x y (b + 1) E hmem hmemE
        omega
  refine ⟨hm.replace (S := S) (E := E) fun x y hxy => ((hjoined x y).mp hxy).imp (fun h => ?_) fun h => ?_,
    fun p => ?_⟩
  · omega
  · exact ⟨h.1, hclear x y h.1 h.2.1 h.2.2⟩
  · have hnew : toLex (S, E) ∈ joined := (hjoined S E).mpr (Or.inl ⟨rfl, rfl⟩)
    constructor
    · rintro ⟨x, y, hxy, hx, hy⟩
      rcases (hjoined x y).mp hxy with ⟨rfl, rfl⟩ | ⟨hold, _⟩
      · rcases Nat.lt_trichotomy p b with hlt | heq | hgt
        · rcases hS with ⟨rfl, _⟩ | ⟨e, hmemS, he⟩
          · omega
          · exact Or.inl ⟨x, e, hmemS, hx, by omega⟩
        · exact Or.inr heq
        · rcases hE with ⟨rfl, _⟩ | hmemE
          · omega
          · exact Or.inl ⟨b + 1, y, hmemE, by omega, hy⟩
      · exact Or.inl ⟨x, y, hold, hx, hy⟩
    · rintro (⟨x, y, hold, hx, hy⟩ | rfl)
      · by_cases hlow : y + 1 = b
        · rcases hS with ⟨_, hnone⟩ | ⟨e, hmemS, he⟩
          · exact absurd hlow (hnone x y hold)
          · have := hm.apart x y S e hold hmemS
            exact ⟨S, E, hnew, by omega, by omega⟩
        · by_cases hhigh : x = b + 1
          · rcases hE with ⟨_, hnone⟩ | hmemE
            · exact absurd hhigh (hnone x y hold)
            · have := hm.apart x y (b + 1) E hold hmemE
              exact ⟨S, E, hnew, by omega, by omega⟩
          · exact ⟨x, y, (hjoined x y).mpr (Or.inr ⟨hold, hlow, hhigh⟩), hx, hy⟩
      · exact ⟨S, E, hnew, hSb, hEb.1⟩

theorem Intervals.unique {s e x y : Nat} (hm : Intervals maxBits intervals) (h : toLex (s, e) ∈ intervals)
    (h' : toLex (x, y) ∈ intervals) (hbound : x = s ∨ y = e) : x = s ∧ y = e := by
  have := hm.apart x y s e h' h
  have := hm.bounded x y h'
  have := hm.bounded s e h
  omega

/-- The two merges of `freeConsumerBit`. -/
def freedIntervals (intervals : Finset (ℕ ×ₗ ℕ)) (b : Nat) : Finset (ℕ ×ₗ ℕ) :=
  let lower := mergeLower intervals b (last (intervals.filter (· ≤ toLex (b, b))))
  mergeUpper lower.1 b lower.2 (first (intervals.filter (toLex (b, b) < ·)))

theorem exists_joins (hm : Intervals maxBits intervals) (hfree : ∀ x y, toLex (x, y) ∈ intervals → y < b ∨ b < x) :
    ∃ S E, Joins intervals (freedIntervals intervals b) b S E := by
  have hunmerged : (∀ it, first (intervals.filter (toLex (b, b) < ·)) = some it → (ofLex it).1 ≠ b + 1) →
      ∀ (intervals' : Finset (ℕ ×ₗ ℕ)) (merged : Option Nat),
        mergeUpper intervals' b merged (first (intervals.filter (toLex (b, b) < ·))) = match merged with
          | some _ => intervals'
          | none => insert (toLex (b, b)) intervals' := by
    intro hupper intervals' merged
    unfold mergeUpper
    cases hfirst : first (intervals.filter (toLex (b, b) < ·)) with
    | none => rfl
    | some it => simp only [hupper it hfirst, if_false]
  rcases mergeLower_cases hm b with ⟨hlow, hmergeLower⟩ | ⟨s, e, hmem, he, hmergeLower⟩ <;>
    rcases upperIt_cases hm b with ⟨hhigh, hupper⟩ | ⟨e', hmem', hupper⟩ <;>
    rw [freedIntervals, hmergeLower]
  · refine ⟨b, b, Or.inl ⟨rfl, hlow⟩, Or.inl ⟨rfl, hhigh⟩, fun x y => ?_⟩
    rw [hunmerged hupper]
    simp only [mem_insert, EmbeddingLike.apply_eq_iff_eq, Prod.mk.injEq]
    exact or_congr_right ⟨fun h => ⟨h, hlow x y h, hhigh x y h⟩, fun h => h.1⟩
  · refine ⟨b, e', Or.inl ⟨rfl, hlow⟩, Or.inr hmem', fun x y => ?_⟩
    simp only [hupper, mergeUpper, ofLex_toLex, if_true, mem_insert, mem_erase, ne_eq,
      EmbeddingLike.apply_eq_iff_eq, Prod.mk.injEq]
    refine or_congr_right ⟨fun h => ⟨h.2, hlow x y h.2, ?_⟩, fun h => ⟨fun heq => h.2.2 heq.1, h.1⟩⟩
    rintro rfl
    exact h.1 (hm.unique hmem' h.2 (.inl rfl))
  · refine ⟨s, b, Or.inr ⟨e, hmem, he⟩, Or.inl ⟨rfl, hhigh⟩, fun x y => ?_⟩
    rw [hunmerged hupper]
    simp only [mem_insert, mem_erase, ne_eq, EmbeddingLike.apply_eq_iff_eq, Prod.mk.injEq]
    refine or_congr_right ⟨fun h => ⟨h.2, fun hy => h.1 (hm.unique hmem h.2 (.inr (by omega))), hhigh x y h.2⟩,
      fun h => ⟨?_, h.1⟩⟩
    rintro ⟨rfl, rfl⟩
    exact h.2.1 he
  · refine ⟨s, e', Or.inr ⟨e, hmem, he⟩, Or.inr hmem', fun x y => ?_⟩
    have hse := hm.bounded s e hmem
    have hpresent : toLex (s, b) ∈ (insert (toLex (s, b)) (intervals.erase (toLex (s, e)))).erase (toLex (b + 1, e')) := by
      simp only [mem_erase, mem_insert, ne_eq, EmbeddingLike.apply_eq_iff_eq, Prod.mk.injEq, true_or, and_true]
      omega
    simp only [hupper, mergeUpper, ofLex_toLex, if_true, hpresent]
    simp only [mem_insert, mem_erase, ne_eq, EmbeddingLike.apply_eq_iff_eq, Prod.mk.injEq]
    refine or_congr_right ⟨?_, ?_⟩
    · rintro ⟨hnew, hne', heq | ⟨hne, hold⟩⟩
      · exact absurd heq hnew
      · refine ⟨hold, fun hy => hne (hm.unique hmem hold (.inr (by omega))), ?_⟩
        rintro rfl
        exact hne' (hm.unique hmem' hold (.inl rfl))
    · rintro ⟨hold, hlow, hhigh⟩
      refine ⟨?_, fun heq => hhigh heq.1, Or.inr ⟨?_, hold⟩⟩
      · rintro ⟨rfl, rfl⟩
        have := hfree x y hold
        omega
      · rintro ⟨rfl, rfl⟩
        exact hlow he

/-- What freeing a used position does: it becomes free, and nothing else changes. -/
theorem freeConsumerBit_inUse (hm : m.Valid) (hb : m.InUse b) :
    (m.freeConsumerBit b).1 = .SUCCESS ∧ (m.freeConsumerBit b).2.maxBits = m.maxBits ∧
      (∀ p, (m.freeConsumerBit b).2.Available p ↔ m.Available p ∨ p = b) ∧ (m.freeConsumerBit b).2.Valid := by
  have hinUse : m.isBitInUse b = true := (isBitInUse_iff hm.intervals b).mpr hb
  have hfree : ∀ x y, toLex (x, y) ∈ m.availableIntervals → y < b ∨ b < x := by
    intro x y hmem
    by_contra hcontains
    exact hb.2 ⟨x, y, hmem, by omega, by omega⟩
  obtain ⟨S, E, hjoin⟩ := exists_joins hm.intervals hfree
  obtain ⟨hintervals, havail⟩ := intervals_of_join hm.intervals hb.1 hfree hjoin
  have heq : m.freeConsumerBit b = (.SUCCESS, { m with
      numBitsInUse := m.numBitsInUse - 1
      availableIntervals := freedIntervals m.availableIntervals b }) := by
    rw [freeConsumerBit, if_neg (by have := hb.1; omega), hinUse]
    rfl
  have havail' : ∀ p, (m.freeConsumerBit b).2.Available p ↔ m.Available p ∨ p = b := by
    rw [heq]
    exact havail
  refine ⟨by rw [heq], by rw [heq], havail', ⟨by rw [heq]; exact hintervals, fun inUse hinUse' => ?_⟩⟩
  obtain ⟨before, hbef⟩ := InUse.exists_finset m
  -- the manager before is the one after with `b` taken
  have htake : ∀ p, m.Available p ↔ (m.freeConsumerBit b).2.Available p ∧ p ≠ b := by
    intro p
    rw [havail']
    constructor
    · exact fun h => ⟨Or.inl h, fun hp => hb.2 (hp ▸ h)⟩
    · rintro ⟨h | h, hne⟩
      · exact h
      · exact absurd h hne
  have hcard := InUse.card_of_take htake (by rw [heq]) ((havail' b).mpr (Or.inr rfl))
    (by rw [heq]; exact hb.1) hinUse' hbef
  have hcount := hm.count before hbef
  rw [heq]
  change m.numBitsInUse - 1 = _
  omega

theorem freeConsumerBit_not_inUse (hm : m.Valid) (hb : ¬m.InUse b) :
    (m.freeConsumerBit b).1 ≠ .SUCCESS ∧ (m.freeConsumerBit b).2 = m := by
  have hfree : m.isBitInUse b = false := by
    rw [← Bool.not_eq_true, isBitInUse_iff hm.intervals]
    exact hb
  unfold freeConsumerBit
  split_ifs <;> simp_all

theorem getConsumerBit_error_iff (hm : m.Valid) :
    (∃ error, m.getConsumerBit = .error error) ↔ ∀ b, ¬m.Available b := by
  unfold getConsumerBit
  cases hfirst : first m.availableIntervals with
  | none =>
    have hempty : m.availableIntervals = ∅ := min_eq_top.mp hfirst
    refine ⟨fun _ b ⟨start, stop, hmem, _⟩ => ?_, fun _ => ⟨_, rfl⟩⟩
    exact notMem_empty _ (hempty ▸ hmem)
  | some it =>
    have hmem : toLex (ofLex it) ∈ m.availableIntervals := mem_of_min hfirst
    refine iff_of_false (fun ⟨_, h⟩ => nomatch h) fun h => h (ofLex it).1 ?_
    exact ⟨_, _, hmem, le_rfl, (hm.intervals.bounded _ _ hmem).1⟩

inductive BitCall where
  | getConsumerBit
  | freeConsumerBit (bitPosition : Nat)

/-- A manager beside the positions its answers have handed out and not taken back. -/
structure Allocation where
  manager : ConsumerBitManager
  handedOut : Finset ℕ

def Allocation.call (s : Allocation) : BitCall → Allocation
  | .getConsumerBit => match s.manager.getConsumerBit with
    | .ok (b, manager) => ⟨manager, insert b s.handedOut⟩
    | .error _ => s
  | .freeConsumerBit b => match s.manager.freeConsumerBit b with
    | (.SUCCESS, manager) => ⟨manager, s.handedOut.erase b⟩
    | (_, manager) => ⟨manager, s.handedOut⟩

structure Allocation.Agrees (maxBits : Nat) (s : Allocation) : Prop where
  maxBits_eq : s.manager.maxBits = maxBits
  valid : s.manager.Valid
  mem_handedOut : ∀ b, b ∈ s.handedOut ↔ s.manager.InUse b

variable {s : Allocation}

theorem Allocation.Agrees.available_iff (h : s.Agrees maxBits) (b : Nat) :
    s.manager.Available b ↔ b < maxBits ∧ b ∉ s.handedOut := by
  rw [h.mem_handedOut, InUse, h.maxBits_eq]
  constructor
  · rintro ⟨start, stop, hmem, hstart, hstop⟩
    have hlt := (h.valid.intervals.bounded start stop hmem).2
    rw [h.maxBits_eq] at hlt
    exact ⟨by omega, fun hin => hin.2 ⟨start, stop, hmem, hstart, hstop⟩⟩
  · rintro ⟨hlt, hin⟩
    by_contra hfree
    exact hin ⟨hlt, hfree⟩

theorem Allocation.Agrees.call (h : s.Agrees maxBits) (c : BitCall) : (s.call c).Agrees maxBits := by
  cases c with
  | getConsumerBit =>
    rw [Allocation.call]
    cases hget : s.manager.getConsumerBit with
    | error error => exact h
    | ok taken =>
      obtain ⟨b, manager⟩ := taken
      obtain ⟨_, hlt, _, hmaxBits, havail, hvalid⟩ := getConsumerBit_ok h.valid hget
      refine ⟨hmaxBits.trans h.maxBits_eq, hvalid, fun p => ?_⟩
      rw [mem_insert, h.mem_handedOut, InUse, InUse, havail, hmaxBits]
      by_cases hp : p = b
      · simp [hp, hlt]
      · simp [hp]
  | freeConsumerBit b =>
    rw [Allocation.call]
    by_cases hb : s.manager.InUse b
    · obtain ⟨hsuccess, hmaxBits, havail, hvalid⟩ := freeConsumerBit_inUse h.valid hb
      rw [← Prod.mk.eta (p := s.manager.freeConsumerBit b), hsuccess]
      refine ⟨hmaxBits.trans h.maxBits_eq, hvalid, fun p => ?_⟩
      rw [mem_erase, h.mem_handedOut, InUse, InUse, havail, hmaxBits]
      tauto
    · obtain ⟨hfails, hsame⟩ := freeConsumerBit_not_inUse h.valid hb
      split
      next hfree => exact absurd (congrArg Prod.fst hfree) hfails
      next hfree =>
        obtain rfl : _ = s.manager := by rw [← hsame, hfree]
        exact h

theorem Allocation.agrees_calls (hmax : 0 < maxBits) (calls : List BitCall) :
    (calls.foldl Allocation.call ⟨create maxBits, ∅⟩).Agrees maxBits := by
  refine List.foldlRecOn calls Allocation.call ⟨rfl, valid_create hmax, fun b => ?_⟩ fun _ h c _ => h.call c
  refine iff_of_false (notMem_empty b) fun hb => hb.2 ⟨0, maxBits - 1, mem_singleton_self _, Nat.zero_le _, ?_⟩
  have hlt : b < maxBits := hb.1
  omega

/-- After any calls the intervals are disjoint, not adjacent and complementary to the positions handed out. The
next call takes the smallest free position and fails only without one, or gives back a position that was handed
out and else changes nothing. -/
theorem calls_keep_complement (hmax : 0 < maxBits) (calls : List BitCall) :
    let s := calls.foldl Allocation.call ⟨create maxBits, ∅⟩
    Intervals maxBits s.manager.availableIntervals ∧
      (∀ b, s.manager.Available b ↔ b < maxBits ∧ b ∉ s.handedOut) ∧
      (∀ b manager, s.manager.getConsumerBit = .ok (b, manager) →
        b < maxBits ∧ b ∉ s.handedOut ∧ ∀ p < maxBits, p ∉ s.handedOut → b ≤ p) ∧
      ((∃ error, s.manager.getConsumerBit = .error error) ↔ s.handedOut = range maxBits) ∧
      (∀ b, (s.manager.freeConsumerBit b).1 ≠ .SUCCESS ↔ maxBits ≤ b ∨ b ∉ s.handedOut) ∧
      (∀ b, (s.manager.freeConsumerBit b).1 ≠ .SUCCESS → (s.manager.freeConsumerBit b).2 = s.manager) ∧
      s.manager.numBitsInUse = s.handedOut.card := by
  intro s
  have h : s.Agrees maxBits := Allocation.agrees_calls hmax calls
  have hbound : ∀ b ∈ s.handedOut, b < maxBits := fun b hb => h.maxBits_eq ▸ ((h.mem_handedOut b).mp hb).1
  have hinUse : ∀ b, s.manager.InUse b ↔ (s.manager.freeConsumerBit b).1 = .SUCCESS := fun b =>
    ⟨fun hb => (freeConsumerBit_inUse h.valid hb).1, fun hok => by_contra fun hb =>
      (freeConsumerBit_not_inUse h.valid hb).1 hok⟩
  refine ⟨h.maxBits_eq ▸ h.valid.intervals, h.available_iff, fun b manager hget => ?_, ?_, fun b => ?_,
    fun b hfails => ?_, h.valid.count _ h.mem_handedOut⟩
  · obtain ⟨hfree, _, hleast, _⟩ := getConsumerBit_ok h.valid hget
    obtain ⟨hlt, hnot⟩ := (h.available_iff b).mp hfree
    exact ⟨hlt, hnot, fun p hp hp' => hleast p ((h.available_iff p).mpr ⟨hp, hp'⟩)⟩
  · rw [getConsumerBit_error_iff h.valid]
    constructor
    · intro hnone
      ext b
      rw [mem_range]
      exact ⟨hbound b, fun hb => by_contra fun hb' => hnone b ((h.available_iff b).mpr ⟨hb, hb'⟩)⟩
    · intro hall b hb
      obtain ⟨hlt, hnot⟩ := (h.available_iff b).mp hb
      exact hnot (hall ▸ mem_range.mpr hlt)
  · rw [ne_eq, ← hinUse, ← h.mem_handedOut]
    constructor
    · exact Or.inr
    · rintro (hle | hnot) hb
      · exact absurd (hbound b hb) (not_lt.mpr hle)
      · exact hnot hb
  · exact (freeConsumerBit_not_inUse h.valid fun hb => hfails ((hinUse b).mp hb)).2

theorem two_bits_one_freed : 0 < 2 ∧
    let s := [.getConsumerBit, .getConsumerBit, .freeConsumerBit 0].foldl Allocation.call ⟨create 2, ∅⟩
    ∀ b, s.manager.Available b ↔ b < 2 ∧ b ∉ s.handedOut :=
  ⟨by decide, (calls_keep_complement (by decide) _).2.1⟩

end ConsumerBitManager
end FbossBgp
