import FbossBgp.BgpLib.Structs
import Mathlib.Data.Fintype.Basic
import Mathlib.Order.Fin.Basic

/-! A policy on one prefix, and the actions that rewrite the AS path as the daemon stores it. The terms of a policy
are tried in order; a term that matches applies its actions and then permits, denies, continues or goes to a later
term. The kinds of matches and actions are parameters. A `noexcept` action that throws ends the process. -/

namespace FbossBgp.Policy

open Outcome BgpLib List

/-- The flags of the action data that actions raise while a policy is evaluated. -/
structure TransientActionData where
  isMedSetByPolicy : Bool := false
  isLbwRejected : Bool := false
  isNexthopSetByPolicy : Bool := false
  deriving DecidableEq

/-- The classes of flow control actions. A `GotoAction` without a term cannot be constructed. -/
inductive FlowControlAction where
  | deny
  | allow
  | continueAction
  | logContinue
  | goto (term : String) (hterm : term ≠ "")

structure PolicyTerm (P M Act : Type) where
  termName : String
  attributesMatches : List M
  prefixMatches : List (P → Bool)
  actions : List Act
  termMissFlowControlAction : FlowControlAction
  termMatchFlowControlAction : FlowControlAction

structure PolicyBase (P M Act : Type) where
  policyName : String
  policyTerms : List (PolicyTerm P M Act)
  defaultAllow : Bool

/-- The accepted attributes, none for a denied prefix, what decided, and the flags that were raised. -/
structure PolicyOut (A : Type) where
  attrs : Option A
  policyName : String
  actionData : TransientActionData
  deriving DecidableEq

/-- The evaluation of a prefix: under way, waiting for a term or not, or done. -/
inductive PrefixState (A : Type) where
  | running (attrs : A) (actionData : TransientActionData) (gotoTerm : Option String)
  | done (out : PolicyOut A)

variable {P M Act A : Type}

section

variable (policyName : String) (term : PolicyTerm P M Act) (defaultAllow : Bool) (attrs : A)
  (actionData : TransientActionData)

def PolicyTerm.policyTermName : String := if term.termName = "" then "N/A" else term.termName

def deniedBy (reasonSuffix : String) : String :=
  "Denied by " ++ policyName ++ " term " ++ term.policyTermName ++
    (if reasonSuffix = "" then "" else " " ++ reasonSuffix)

def acceptedBy : String := "Accepted/Modified by " ++ policyName ++ " term " ++ term.policyTermName

def didNotMatch : String :=
  "Did not match any policy term in " ++ policyName ++ ". " ++
    (if defaultAllow then "Default allowed" else "Default denied")

def kInvalidGarWeightsDenyReason : String := "invalid GAR weights"

/-- The term denies what it matches, without applying its actions. -/
def PolicyTerm.isDeny : Bool :=
  match term.termMatchFlowControlAction with
  | .deny => true
  | _ => false

/-- After the actions of a term that matches. -/
def matched : PrefixState A :=
  if actionData.isLbwRejected then
    .done ⟨none, deniedBy policyName term kInvalidGarWeightsDenyReason, actionData⟩
  else
    match term.termMatchFlowControlAction with
    | .allow => .done ⟨some attrs, acceptedBy policyName term, actionData⟩
    | .deny => .done ⟨none, deniedBy policyName term "", actionData⟩
    | .goto gotoTerm _ => .running attrs actionData (some gotoTerm)
    | _ => .running attrs actionData none

def missed : PrefixState A :=
  match term.termMissFlowControlAction with
  | .deny => .done ⟨none, deniedBy policyName term "", actionData⟩
  | .allow => .done ⟨some attrs, acceptedBy policyName term, actionData⟩
  | _ => .running attrs actionData none

def PrefixState.finish : PrefixState A → PolicyOut A
  | .done out => out
  | .running attrs actionData _ =>
    ⟨if defaultAllow then some attrs else none, didNotMatch policyName defaultAllow, actionData⟩

end

section

-- an action that ends the process gives none
variable (holds : M → A → Bool) (applyAction : A × TransientActionData → Act → Option (A × TransientActionData))
  (term : PolicyTerm P M Act)

def PolicyTerm.isMatch (attrs : A) (pfx : P) : Bool :=
  term.attributesMatches.all (holds · attrs) && term.prefixMatches.all (· pfx)

/-- The prefix does not wait for another term. -/
def PolicyTerm.isAwaited (gotoTerm : Option String) : Bool :=
  gotoTerm.all (· == term.termName)

def PolicyTerm.Applies (pfx : P) (term : PolicyTerm P M Act) (attrs : A) (gotoTerm : Option String) : Prop :=
  term.isAwaited gotoTerm = true ∧ term.isMatch holds attrs pfx = true ∧ term.isDeny = false

def evaluateTerm (policyName : String) (pfx : P) (state : PrefixState A) (term : PolicyTerm P M Act) :
    Option (PrefixState A) :=
  match state with
  | .done out => some (.done out)
  | .running attrs actionData gotoTerm =>
    if !term.isAwaited gotoTerm then some (.running attrs actionData gotoTerm)
    else if term.isMatch holds attrs pfx then
      if term.isDeny then some (.done ⟨none, deniedBy policyName term "", actionData⟩)
      else
        (term.actions.foldlM applyAction (attrs, actionData)).map fun modified =>
          matched policyName term modified.1 modified.2
    else some (missed policyName term attrs actionData)

def evaluatePolicy (policy : PolicyBase P M Act) (attrs : A) (actionData : TransientActionData) (pfx : P) :
    Option (PolicyOut A) :=
  (policy.policyTerms.foldlM (evaluateTerm holds applyAction policy.policyName pfx)
    (.running attrs actionData none)).map (PrefixState.finish policy.policyName policy.defaultAllow)

variable (safe : A × TransientActionData → Act → Prop)

/-- Every action that a term applies meets a condition on what it is applied to. -/
def TermSafe (pfx : P) (state : PrefixState A) (term : PolicyTerm P M Act) : Prop :=
  ∀ attrs actionData gotoTerm, state = .running attrs actionData gotoTerm → term.Applies holds pfx attrs gotoTerm →
    Along applyAction safe (attrs, actionData) term.actions

/-- Every action that a policy applies meets it. -/
def PolicySafe (policy : PolicyBase P M Act) (attrs : A) (actionData : TransientActionData) (pfx : P) : Prop :=
  Along (evaluateTerm holds applyAction policy.policyName pfx) (TermSafe holds applyAction safe pfx)
    (.running attrs actionData none) policy.policyTerms

variable {holds applyAction safe}

theorem isSome_evaluateTerm_iff {term : PolicyTerm P M Act}
    (h : ∀ action ∈ term.actions, ∀ state, (applyAction state action).isSome ↔ safe state action)
    (policyName : String) (pfx : P) (state : PrefixState A) :
    (evaluateTerm holds applyAction policyName pfx state term).isSome ↔
      TermSafe holds applyAction safe pfx state term := by
  cases state with
  | done out => exact ⟨fun _ _ _ _ hrunning => (nomatch hrunning), fun _ => rfl⟩
  | running attrs actionData gotoTerm =>
    have hiff : TermSafe holds applyAction safe pfx (.running attrs actionData gotoTerm) term ↔
        (term.Applies holds pfx attrs gotoTerm → Along applyAction safe (attrs, actionData) term.actions) :=
      ⟨fun hsafe => hsafe _ _ _ rfl, fun hsafe _ _ _ heq => by cases heq; exact hsafe⟩
    rw [hiff, ← isSome_foldlM_iff h, PolicyTerm.Applies, evaluateTerm]
    cases term.isAwaited gotoTerm with
    | false => simp
    | true =>
      cases term.isMatch holds attrs pfx with
      | false => simp
      | true =>
        cases term.isDeny with
        | true => simp
        | false => simp

end

/-- An AS number as it is stored, a `uint32_t`. -/
abbrev Asn := Fin (2 ^ 32)

def kMaxAsPathSegmentSize : Nat := 255

structure BgpAttrAsPathSegmentC where
  asSet : Finset Asn := ∅
  asSequence : List Asn := []
  asConfedSequence : List Asn := []
  asConfedSet : Finset Asn := ∅
  deriving DecidableEq

abbrev BgpAttrAsPathC := List BgpAttrAsPathSegmentC

namespace BgpAttrAsPathSegmentC

def bgpPrivateAsStart : Nat := 64512

variable (seg : BgpAttrAsPathSegmentC)

def isConfedSegment : Bool :=
  !seg.asConfedSequence.isEmpty || decide (seg.asConfedSet ≠ ∅)

/-- Only the first part in use is looked at. -/
def hasPublicAsn : Bool :=
  if seg.asSequence ≠ [] then seg.asSequence.any fun asn => decide (asn.val < bgpPrivateAsStart)
  else if seg.asSet ≠ ∅ then decide (∃ asn ∈ seg.asSet, asn.val < bgpPrivateAsStart)
  else if seg.asConfedSequence ≠ [] then seg.asConfedSequence.any fun asn => decide (asn.val < bgpPrivateAsStart)
  else decide (∃ asn ∈ seg.asConfedSet, asn.val < bgpPrivateAsStart)

/-- The AS numbers of a segment, those of a set in increasing order. -/
def asns : List Asn :=
  seg.asSet.sort ++ seg.asSequence ++ seg.asConfedSequence ++ seg.asConfedSet.sort

/-- The segment of the thrift structure that `getBgpUpdate2` fills. -/
def toThrift : BgpAttrAsPathSegment where
  asSet := seg.asSet.image fun asn => (asn.val : Int)
  asSequence := seg.asSequence.map fun asn => (asn.val : Int)
  asConfedSequence := seg.asConfedSequence.map fun asn => (asn.val : Int)
  asConfedSet := seg.asConfedSet.image fun asn => (asn.val : Int)

/-- Only one of the four parts has elements. -/
def OnePart : Prop :=
  (∃ asSet, seg = { asSet := asSet }) ∨ (∃ asSequence, seg = { asSequence := asSequence }) ∨
    (∃ asConfedSequence, seg = { asConfedSequence := asConfedSequence }) ∨
    ∃ asConfedSet, seg = { asConfedSet := asConfedSet }

section

variable {seg : BgpAttrAsPathSegmentC} (asSequence : List Asn)

@[simp] theorem asns_asSequence : asns { asSequence := asSequence } = asSequence := by
  simp [asns]

variable (asConfedSequence : List Asn)

@[simp] theorem asns_asConfedSequence : asns { asConfedSequence := asConfedSequence } = asConfedSequence := by
  simp [asns]

@[simp] theorem isConfedSegment_asSequence : isConfedSegment { asSequence := asSequence } = false := by
  simp [isConfedSegment]

theorem onePart_asSequence : OnePart { asSequence := asSequence } := .inr (.inl ⟨_, rfl⟩)

theorem onePart_asConfedSequence : OnePart { asConfedSequence := asConfedSequence } := .inr (.inr (.inl ⟨_, rfl⟩))

/-- A segment with AS numbers in its sequence has them nowhere else. -/
theorem OnePart.eq_of_asSequence (h : seg.OnePart) (hne : seg.asSequence ≠ []) :
    seg = { asSequence := seg.asSequence } := by
  rcases h with ⟨_, rfl⟩ | ⟨_, rfl⟩ | ⟨_, rfl⟩ | ⟨_, rfl⟩
  · exact absurd rfl hne
  · rfl
  · exact absurd rfl hne
  · exact absurd rfl hne

theorem OnePart.eq_of_asConfedSequence (h : seg.OnePart) (hne : seg.asConfedSequence ≠ []) :
    seg = { asConfedSequence := seg.asConfedSequence } := by
  rcases h with ⟨_, rfl⟩ | ⟨_, rfl⟩ | ⟨_, rfl⟩ | ⟨_, rfl⟩
  · exact absurd rfl hne
  · exact absurd rfl hne
  · rfl
  · exact absurd rfl hne

theorem OnePart.hasPublicAsn_iff (h : seg.OnePart) :
    seg.hasPublicAsn = true ↔ ∃ asn ∈ seg.asns, asn.val < bgpPrivateAsStart := by
  rcases h with ⟨asSet, rfl⟩ | ⟨asSequence, rfl⟩ | ⟨asConfedSequence, rfl⟩ | ⟨asConfedSet, rfl⟩
  · by_cases hset : asSet = ∅
    · simp [hasPublicAsn, hset]
    · simp [hasPublicAsn, asns, hset]
  · by_cases hseq : asSequence = []
    · simp [hasPublicAsn, hseq]
    · simp [hasPublicAsn, hseq]
  · by_cases hseq : asConfedSequence = []
    · simp [hasPublicAsn, hseq]
    · simp [hasPublicAsn, hseq]
  · simp [hasPublicAsn, asns]

end

end BgpAttrAsPathSegmentC

open BgpAttrAsPathSegmentC

def flattened (asPath : BgpAttrAsPathC) : List Asn := asPath.flatMap asns

/-- `set_as_path`: the list that replaces the path. Its constructor has checked the AS numbers. -/
structure SetAsPath where
  overwriteList : List Asn

def SetAsPath.validateSetAsPath (overwriteList : List Int) : Except String SetAsPath := do
  let overwriteList ← overwriteList.mapM fun asn =>
    if h : 0 ≤ asn ∧ asn < 2 ^ 32 then .ok ⟨asn.toNat, by omega⟩
    else .error ("Malformed SetAsPath config: asn = " ++ toString asn)
  return ⟨overwriteList⟩

def SetAsPath.asPath (action : SetAsPath) : BgpAttrAsPathC :=
  if action.overwriteList ≠ [] then [{ asSequence := action.overwriteList }] else []

/-- `set_as_path_prepend`, with what its constructor has checked. -/
structure SetAsPathPrependAction where
  asn : Asn
  repeatTimes : Nat
  repeatTimes_pos : 0 < repeatTimes
  repeatTimes_le : repeatTimes ≤ kMaxAsPathSegmentSize

def SetAsPathPrependAction.validateAsPathPrepend (asn repeatTimes : Int) : Except String SetAsPathPrependAction :=
  if h : 0 ≤ asn ∧ asn < 2 ^ 32 then
    if h' : 0 < repeatTimes ∧ repeatTimes ≤ kMaxAsPathSegmentSize then
      .ok ⟨⟨asn.toNat, by omega⟩, repeatTimes.toNat, by omega, by omega⟩
    else .error ("Malformed SetAsPathPrepend config: repeat_times = " ++ toString repeatTimes)
  else .error ("Malformed SetAsPathPrepend config: set_as_path_prepend.asn = " ++ toString asn)

/-- Insert a number of entries at the front of a vector. A negative count becomes one that no vector can hold:
`std::length_error`. -/
def insertFront (count : Int) (asn : Asn) (asns : List Asn) : Option (List Asn) :=
  if count < 0 then none else some (List.replicate count.toNat asn ++ asns)

/-- Prepend what is left of the AS numbers as a segment of its own. -/
def prependSegment (prependLength : Int) (asn : Asn) (asPath : BgpAttrAsPathC) : BgpAttrAsPathC :=
  if prependLength > 0 then { asSequence := List.replicate prependLength.toNat asn } :: asPath else asPath

/-- `none` is the end of the process. -/
def SetAsPathPrependAction.applyAction (action : SetAsPathPrependAction) : BgpAttrAsPathC → Option BgpAttrAsPathC
  | [] => some (prependSegment action.repeatTimes action.asn [])
  | firstSegment :: rest =>
    if firstSegment.asSequence ≠ [] then do
      let firstSegmentOccupied : Int := firstSegment.asSequence.length
      let firstSegmentToOccupy := min (action.repeatTimes : Int) (kMaxAsPathSegmentSize - firstSegmentOccupied)
      let asSequence ← insertFront firstSegmentToOccupy action.asn firstSegment.asSequence
      return prependSegment (action.repeatTimes - firstSegmentToOccupy) action.asn
        ({ firstSegment with asSequence } :: rest)
    else some (prependSegment action.repeatTimes action.asn (firstSegment :: rest))

inductive AsPathAction where
  | setAsPath (action : SetAsPath)
  | setAsPathPrepend (action : SetAsPathPrependAction)

def AsPathAction.applyAction : AsPathAction → BgpAttrAsPathC → Option BgpAttrAsPathC
  | .setAsPath action, _ => some action.asPath
  | .setAsPathPrepend action, asPath => action.applyAction asPath

/-- The actions of the terms that match, in order. -/
def applyAsPathActions (actions : List AsPathAction) (asPath : BgpAttrAsPathC) : Option BgpAttrAsPathC :=
  actions.foldlM (fun asPath action => action.applyAction asPath) asPath

/-- The number of AS numbers in the sequence that a path starts with. -/
def leadingSequence (asPath : BgpAttrAsPathC) : Nat := (asPath.head?.elim [] (·.asSequence)).length

section

/-- What prepending does to a path: a new segment, a longer first segment, or a first segment that is filled
and a new one before it. -/
inductive Prepended (asn : Asn) (count : Nat) : BgpAttrAsPathC → BgpAttrAsPathC → Prop where
  | segment {asPath : BgpAttrAsPathC} (hlead : leadingSequence asPath = 0) :
      Prepended asn count asPath ({ asSequence := List.replicate count asn } :: asPath)
  | front {asSequence : List Asn} {rest : BgpAttrAsPathC} (hne : asSequence ≠ [])
      (hroom : asSequence.length + count ≤ kMaxAsPathSegmentSize) :
      Prepended asn count ({ asSequence } :: rest) ({ asSequence := List.replicate count asn ++ asSequence } :: rest)
  | split {asSequence : List Asn} {rest : BgpAttrAsPathC} {filled left : Nat} (hne : asSequence ≠ [])
      (hfull : asSequence.length + filled = kMaxAsPathSegmentSize) (hleft : 0 < left) (hcount : filled + left = count) :
      Prepended asn count ({ asSequence } :: rest)
        ({ asSequence := List.replicate left asn } :: { asSequence := List.replicate filled asn ++ asSequence } :: rest)

variable (action : SetAsPathPrependAction) {asPath : BgpAttrAsPathC}

theorem prependSegment_of_pos {prependLength : Int} (h : 0 < prependLength) (asn : Asn) (asPath : BgpAttrAsPathC) :
    prependSegment prependLength asn asPath =
      { asSequence := List.replicate prependLength.toNat asn } :: asPath := if_pos h

/-- The number of AS numbers that go into a first segment. -/
def SetAsPathPrependAction.firstSegmentToOccupy (firstSegmentOccupied : Nat) : Int :=
  min (action.repeatTimes : Int) (kMaxAsPathSegmentSize - firstSegmentOccupied)

theorem applyAction_of_ne_nil {firstSegment : BgpAttrAsPathSegmentC} (hne : firstSegment.asSequence ≠ [])
    (rest : BgpAttrAsPathC) : action.applyAction (firstSegment :: rest) =
      (insertFront (action.firstSegmentToOccupy firstSegment.asSequence.length) action.asn firstSegment.asSequence).bind
        fun asSequence => some (prependSegment
          (action.repeatTimes - action.firstSegmentToOccupy firstSegment.asSequence.length) action.asn
          ({ firstSegment with asSequence } :: rest)) := if_pos hne

theorem exists_prepended_front {asSequence : List Asn} (hne : asSequence ≠ [])
    (hlead : asSequence.length ≤ kMaxAsPathSegmentSize) (rest : BgpAttrAsPathC) :
    ∃ next, action.applyAction ({ asSequence } :: rest) = some next ∧
      Prepended action.asn action.repeatTimes ({ asSequence } :: rest) next := by
  rw [applyAction_of_ne_nil action hne, SetAsPathPrependAction.firstSegmentToOccupy]
  rcases Nat.lt_or_ge kMaxAsPathSegmentSize (asSequence.length + action.repeatTimes) with hfull | hroom
  · -- The first segment is filled, and the rest becomes a segment of its own.
    obtain ⟨filled, hfilled⟩ := Nat.exists_eq_add_of_le hlead
    have hmin : min (action.repeatTimes : Int) (kMaxAsPathSegmentSize - asSequence.length) = filled := by omega
    rw [hmin, insertFront, if_neg (by omega), Option.bind_some, prependSegment_of_pos (by omega)]
    exact ⟨_, rfl, .split hne hfilled.symm (by omega) (by omega)⟩
  · have hmin : min (action.repeatTimes : Int) (kMaxAsPathSegmentSize - asSequence.length) = action.repeatTimes := by
      omega
    rw [hmin, insertFront, if_neg (by omega), Option.bind_some, prependSegment, if_neg (by omega)]
    exact ⟨_, rfl, .front hne hroom⟩

theorem exists_prepended (hone : ∀ seg ∈ asPath, seg.OnePart) (hlead : leadingSequence asPath ≤ kMaxAsPathSegmentSize) :
    ∃ next, action.applyAction asPath = some next ∧ Prepended action.asn action.repeatTimes asPath next := by
  have hpos : (0 : Int) < action.repeatTimes := by exact_mod_cast action.repeatTimes_pos
  cases asPath with
  | nil =>
    refine ⟨_, rfl, ?_⟩
    rw [prependSegment_of_pos hpos]
    exact .segment rfl
  | cons firstSegment rest =>
    by_cases hne : firstSegment.asSequence ≠ []
    · rw [(hone firstSegment mem_cons_self).eq_of_asSequence hne]
      exact exists_prepended_front action hne hlead rest
    · refine ⟨_, if_neg hne, ?_⟩
      rw [prependSegment_of_pos hpos]
      exact .segment (by simpa [leadingSequence] using hne)

/-- A first segment that is longer than a segment may be ends the process. -/
theorem applyAction_eq_none (hlead : kMaxAsPathSegmentSize < leadingSequence asPath) :
    action.applyAction asPath = none := by
  cases asPath with
  | nil => exact absurd hlead (Nat.not_lt_zero _)
  | cons firstSegment rest =>
    have hlen : kMaxAsPathSegmentSize < firstSegment.asSequence.length := hlead
    have hne : firstSegment.asSequence ≠ [] := ne_nil_of_length_pos (by omega)
    rw [applyAction_of_ne_nil action hne, insertFront, if_pos, Option.bind_none]
    rw [SetAsPathPrependAction.firstSegmentToOccupy]
    omega

/-- No segment has more AS numbers than its count can say. -/
abbrev SegmentsFit (asPath : BgpAttrAsPathC) : Prop := ∀ seg ∈ asPath, seg.asns.length ≤ kMaxAsPathSegmentSize

section

variable {asn : Asn} {count : Nat} {next : BgpAttrAsPathC} (h : Prepended asn count asPath next)
include h

theorem Prepended.onePart (hone : ∀ seg ∈ asPath, seg.OnePart) : ∀ seg ∈ next, seg.OnePart := by
  cases h with
  | segment => exact forall_mem_cons.mpr ⟨onePart_asSequence _, hone⟩
  | front => exact forall_mem_cons.mpr ⟨onePart_asSequence _, (forall_mem_cons.mp hone).2⟩
  | split =>
    refine forall_mem_cons.mpr ⟨onePart_asSequence _, ?_⟩
    exact forall_mem_cons.mpr ⟨onePart_asSequence _, (forall_mem_cons.mp hone).2⟩

theorem Prepended.segments_iff (hcount : count ≤ kMaxAsPathSegmentSize) :
    SegmentsFit next ↔ SegmentsFit asPath := by
  cases h with
  | segment => simpa [SegmentsFit] using fun _ => hcount
  | front hne hroom =>
    simp only [SegmentsFit, forall_mem_cons, asns_asSequence, length_append, length_replicate]
    exact and_congr_left fun _ => ⟨fun _ => by omega, fun _ => by omega⟩
  | split hne hfull hleft hcount' =>
    simp only [SegmentsFit, forall_mem_cons, asns_asSequence, length_append, length_replicate]
    constructor
    · rintro ⟨-, -, hrest⟩
      exact ⟨by omega, hrest⟩
    · rintro ⟨-, hrest⟩
      exact ⟨by omega, by omega, hrest⟩

/-- The first segments are filled one after the other. -/
theorem Prepended.leadingSequence (hpos : 0 < count) (hcount : count ≤ kMaxAsPathSegmentSize) :
    Policy.leadingSequence next = (Policy.leadingSequence asPath + count - 1) % kMaxAsPathSegmentSize + 1 := by
  rw [kMaxAsPathSegmentSize] at hcount ⊢
  cases h with
  | segment hlead =>
    rw [hlead]
    simp only [Policy.leadingSequence, List.head?_cons, Option.elim_some, length_replicate]
    omega
  | front hne hroom =>
    rw [kMaxAsPathSegmentSize] at hroom
    simp only [Policy.leadingSequence, List.head?_cons, Option.elim_some, length_append, length_replicate]
    omega
  | split hne hfull hleft hcount' =>
    rw [kMaxAsPathSegmentSize] at hfull
    simp only [Policy.leadingSequence, List.head?_cons, Option.elim_some, length_replicate]
    omega

end

end

end FbossBgp.Policy
