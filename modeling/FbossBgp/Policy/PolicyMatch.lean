import Mathlib.Data.Finset.Sort
import FbossBgp.Lib.Keyed
import FbossBgp.Lib.Outcome

/-! Matching the communities of a path and its prefix. A community match has three kinds of atoms: communities that
must be present, communities that must be absent, and regular expressions, where `regexMatch` is the library's test.
The prefix lists that a match defines and refers to go into one radix tree, which has one node for each base prefix
and keeps the node that is there when another is inserted. -/

namespace FbossBgp.Policy

inductive BooleanOperator
  | or
  | and
  deriving DecidableEq

structure CommunityMatch (S Regex : Type) where
  booleanOperator : BooleanOperator
  exactMatch : Bool
  communityStrings : Finset S
  communityStringsDoNotMatch : Finset S
  communityRegexs : List Regex

inductive CommunityMatchError (S : Type)
  | malformedCommunityConfig (comm : S)
  | conflictCommunityMatches

variable {S : Type} [LinearOrder S]

/-- Walks two sorted lists and stops at the first common entry. -/
def areOverlapped : List S → List S → Bool
  | a :: vec1, b :: vec2 =>
    if a = b then true else if a < b then areOverlapped vec1 (b :: vec2) else areOverlapped (a :: vec1) vec2
  | [], _ => false
  | _, [] => false

theorem areOverlapped_iff {vec1 vec2 : List S} (h1 : vec1.SortedLT) (h2 : vec2.SortedLT) :
    areOverlapped vec1 vec2 = true ↔ ∃ a ∈ vec1, a ∈ vec2 := by
  fun_induction areOverlapped vec1 vec2 with
  | case1 a vec1 vec2 => simp
  | case2 a vec1 b vec2 hne hlt ih =>
    have hb : a ∉ vec2 := fun hmem => (hlt.trans (List.rel_of_pairwise_cons h2.pairwise hmem)).false
    rw [ih h1.pairwise.of_cons.sortedLT h2]
    simp [hne, hb]
  | case3 a vec1 b vec2 hne hlt ih =>
    have hba : b < a := lt_of_le_of_ne (not_lt.mp hlt) (Ne.symm hne)
    have hb : b ∉ vec1 := fun hmem => (hba.trans (List.rel_of_pairwise_cons h1.pairwise hmem)).false
    rw [ih h1 h2.pairwise.of_cons.sortedLT]
    grind
  | case4 => simp
  | case5 => simp

variable {Regex : Type}

/-- Communities of a configured list: a text that is a community, or else a regular expression. -/
def populateCommunities (parseCommunityStr : S → Bool) (regex : S → Option Regex) (communities : List S)
    (m : CommunityMatch S Regex) : Except (CommunityMatchError S) (CommunityMatch S Regex) :=
  communities.foldlM (fun m comm =>
    if parseCommunityStr comm then
      .ok { m with communityStrings := insert comm m.communityStrings }
    else match regex comm with
      | some commRegex =>
        .ok { m with communityRegexs := m.communityRegexs ++ [commRegex] }
      | none => .error (.malformedCommunityConfig comm)) m

/-- A match of the RIB policy: each community has to be present (`true`) or absent, none of them both. -/
def ofListMatch (booleanOperator : BooleanOperator) (communityMatches : List (Bool × S)) :
    Except (CommunityMatchError S) (CommunityMatch S Regex) :=
  let strings := ((communityMatches.filter (·.1)).map (·.2)).toFinset
  let doNotMatch := ((communityMatches.filter (!·.1)).map (·.2)).toFinset
  if areOverlapped strings.sort doNotMatch.sort then .error .conflictCommunityMatches
  else .ok ⟨booleanOperator, false, strings, doNotMatch, []⟩

namespace CommunityMatch

variable (regexMatch : S → Regex → Bool) (m : CommunityMatch S Regex) (communities : Finset S)

/-- A string or a regular expression covers the community. -/
def Covers (comm : S) : Prop :=
  comm ∈ m.communityStrings ∨ ∃ commRegex ∈ m.communityRegexs, regexMatch comm commRegex

instance : DecidablePred (m.Covers regexMatch) := fun _ => inferInstanceAs (Decidable (_ ∨ _))

def exactMatches : Bool := decide (∀ comm ∈ communities, m.Covers regexMatch comm)

def matchAny : Bool :=
  let isMatch := decide (∃ comm ∈ m.communityStrings, comm ∈ communities)
  let isMatch := isMatch || decide (∃ comm ∈ m.communityStringsDoNotMatch, comm ∉ communities)
  let isMatch := isMatch ||
    decide (∃ comm ∈ communities, ∃ commRegex ∈ m.communityRegexs, regexMatch comm commRegex)
  if isMatch && m.exactMatch then m.exactMatches regexMatch communities else isMatch

def matchAll : Bool :=
  let isMatch := decide (m.communityStrings ⊆ communities)
  let isMatch := isMatch && !areOverlapped communities.sort m.communityStringsDoNotMatch.sort
  if isMatch then
    let isMatch := m.communityRegexs.all fun commRegex =>
      decide (∃ comm ∈ communities, regexMatch comm commRegex)
    -- here the result for the regular expressions is not looked at
    if m.exactMatch then m.exactMatches regexMatch communities else isMatch
  else isMatch

def matches_ : Bool :=
  if communities = ∅ then m.communityRegexs.isEmpty && decide (m.communityStrings = ∅)
  else if m.booleanOperator = .or then m.matchAny regexMatch communities
  else m.matchAll regexMatch communities

/-- The operator's combination of the atoms holds, and an exact match covers all communities. -/
def Holds : Prop :=
  (match m.booleanOperator with
    | .or => (∃ comm ∈ m.communityStrings, comm ∈ communities) ∨
      (∃ comm ∈ m.communityStringsDoNotMatch, comm ∉ communities) ∨
      ∃ commRegex ∈ m.communityRegexs, ∃ comm ∈ communities, regexMatch comm commRegex
    | .and => (∀ comm ∈ m.communityStrings, comm ∈ communities) ∧
      (∀ comm ∈ m.communityStringsDoNotMatch, comm ∉ communities) ∧
      ∀ commRegex ∈ m.communityRegexs, ∃ comm ∈ communities, regexMatch comm commRegex) ∧
    (m.exactMatch → ∀ comm ∈ communities, m.Covers regexMatch comm)

def HasAtom : Prop :=
  m.communityStrings.Nonempty ∨ m.communityStringsDoNotMatch.Nonempty ∨ m.communityRegexs ≠ []

theorem matchAny_iff (hop : m.booleanOperator = .or) :
    m.matchAny regexMatch communities = true ↔ m.Holds regexMatch communities := by
  have hswap : (∃ comm ∈ communities, ∃ commRegex ∈ m.communityRegexs, regexMatch comm commRegex) ↔
      ∃ commRegex ∈ m.communityRegexs, ∃ comm ∈ communities, regexMatch comm commRegex := by tauto
  rw [matchAny, Holds]
  split_ifs
  · simp_all [exactMatches, or_assoc]
  · simp_all [or_assoc]

theorem matchAll_iff : m.matchAll regexMatch communities = true ↔ (∀ comm ∈ m.communityStrings, comm ∈ communities) ∧
    (∀ comm ∈ m.communityStringsDoNotMatch, comm ∉ communities) ∧
    if m.exactMatch then ∀ comm ∈ communities, m.Covers regexMatch comm
    else ∀ commRegex ∈ m.communityRegexs, ∃ comm ∈ communities, regexMatch comm commRegex := by
  have hmatch : (decide (m.communityStrings ⊆ communities) &&
      !areOverlapped communities.sort m.communityStringsDoNotMatch.sort) = true ↔
      (∀ comm ∈ m.communityStrings, comm ∈ communities) ∧
        ∀ comm ∈ m.communityStringsDoNotMatch, comm ∉ communities := by
    rw [Bool.and_eq_true, decide_eq_true_iff, Bool.not_eq_true', ← Bool.not_eq_true,
      areOverlapped_iff (Finset.sortedLT_sort _) (Finset.sortedLT_sort _)]
    simp only [Finset.mem_sort, not_exists, not_and', Finset.subset_iff]
  rw [matchAll, ← and_assoc, ← hmatch]
  split_ifs <;> simp_all [exactMatches]

/-- A match is the combination of its atoms, with two exceptions: for a path without communities when strings or
regular expressions are or-ed with communities to be absent, and for an exact match that ands a regular expression
which no community matches, while everything else fits. -/
theorem matches_iff_holds_iff (hatom : m.HasAtom) :
    (m.matches_ regexMatch communities = true ↔ m.Holds regexMatch communities) ↔
      (communities = ∅ → m.booleanOperator = .or → m.communityStringsDoNotMatch.Nonempty →
          m.communityStrings = ∅ ∧ m.communityRegexs = []) ∧
      (communities ≠ ∅ → m.booleanOperator = .and → m.exactMatch → (∀ comm ∈ m.communityStrings, comm ∈ communities) →
        (∀ comm ∈ m.communityStringsDoNotMatch, comm ∉ communities) →
        (∀ comm ∈ communities, m.Covers regexMatch comm) →
          ∀ commRegex ∈ m.communityRegexs, ∃ comm ∈ communities, regexMatch comm commRegex) := by
  by_cases hempty : communities = ∅
  · subst hempty
    have hnil : m.communityRegexs = [] ↔ ∀ commRegex, commRegex ∉ m.communityRegexs := List.eq_nil_iff_forall_not_mem
    have hnone : m.communityStrings = ∅ ↔ ∀ comm, comm ∉ m.communityStrings := Finset.eq_empty_iff_forall_notMem
    cases hop : m.booleanOperator with
    | or =>
      rw [HasAtom, Finset.nonempty_iff_ne_empty] at hatom
      simp only [matches_, Holds, hop]
      simp
      tauto
    | and => simp [matches_, Holds, hop, hnil, hnone, and_comm]
  · cases hop : m.booleanOperator with
    | or => simp [matches_, hempty, hop, matchAny_iff]
    | and =>
      simp only [matches_, hempty, hop, matchAll_iff, Holds, if_false, reduceCtorEq]
      by_cases hexact : m.exactMatch <;> simp [hexact]
      tauto

theorem matches_iff_holds_one : HasAtom (⟨.or, true, {1}, {2}, [3]⟩ : CommunityMatch Nat Nat) ∧
    (matches_ (· == ·) (⟨.or, true, {1}, {2}, [3]⟩ : CommunityMatch Nat Nat) {1} = true ↔
      Holds (· == ·) (⟨.or, true, {1}, {2}, [3]⟩ : CommunityMatch Nat Nat) {1}) := by
  have hatom : HasAtom (⟨.or, true, {1}, {2}, [3]⟩ : CommunityMatch Nat Nat) := .inl ⟨1, by simp⟩
  exact ⟨hatom, (matches_iff_holds_iff _ _ _ hatom).mpr ⟨by simp, by simp⟩⟩

/-- A community that has to be absent does not make a path without communities match, and an exact match passes over
a regular expression that no community matches. -/
theorem not_matches_iff_holds : (∃ m : CommunityMatch Nat Nat, ofListMatch .or [(true, 1), (false, 2)] = .ok m ∧
      m.matches_ (· == ·) ∅ = false ∧ m.Holds (· == ·) ∅) ∧
    ∃ m : CommunityMatch Nat Nat, populateCommunities (· == 1) some [1, 2] ⟨.and, true, ∅, ∅, []⟩ = .ok m ∧
        m.matches_ (· == ·) {1} = true ∧ ¬m.Holds (· == ·) {1} := by
  refine ⟨⟨⟨.or, false, {1}, {2}, []⟩, ?_, by decide, ?_⟩, ⟨.and, true, {1}, ∅, [2]⟩, rfl, ?_, ?_⟩
  · simp [ofListMatch, areOverlapped]
  · simp [Holds]
  · simp [matches_, matchAll_iff, Covers]
  · simp [Holds]

end CommunityMatch

/-- Prefixes: as a text is read, what contains what, their length, and the test of a regular expression. -/
class Network (P : Type) where
  createNetwork : String → Option P
  contains : P → P → Bool
  prefixLen : P → Int
  fullMatch : P → String → Bool

inductive PolicyComparisonOperator
  | eq | ge | le | ne | gt | lt

def compareNumValue (op : PolicyComparisonOperator) (valueToCompare value : Int) : Bool :=
  match op with
  | .eq => valueToCompare == value
  | .ge => decide (valueToCompare ≤ value)
  | .le => decide (valueToCompare ≥ value)
  | .ne => valueToCompare != value
  | .gt => decide (valueToCompare < value)
  | .lt => decide (valueToCompare > value)

inductive PrefixLenOrRegexComp
  | prefixLenRanges (ranges : List (PolicyComparisonOperator × Int))
  | regex (text : String)

structure PrefixListEntry where
  basePrefix : String
  prefixLenRanges : List (PolicyComparisonOperator × Int) := []
  regex : Option String := none
  seqNum : Option Int := none
  matchLogicEqual : Bool := true

structure PrefixList where
  prefixes : List PrefixListEntry
  booleanOperator : BooleanOperator := .or
  compareOperator : Option PolicyComparisonOperator := none

variable {P : Type} [Network P] (entry : PrefixListEntry)

def PrefixLenOrRegexComp.holds (pfx : P) : PrefixLenOrRegexComp → Bool
  | .prefixLenRanges ranges => ranges.all fun range => compareNumValue range.1 range.2 (Network.prefixLen pfx)
  | .regex text => Network.fullMatch pfx text

/-- A regular expression counts only where no range is given. -/
def PrefixListEntry.comp : PrefixLenOrRegexComp :=
  if entry.prefixLenRanges.isEmpty && entry.regex.getD "" != "" then .regex (entry.regex.getD "")
  else .prefixLenRanges entry.prefixLenRanges

def PrefixListEntry.validate : Except String (P × PrefixLenOrRegexComp) :=
  match Network.createNetwork entry.basePrefix with
  | none => .error ("Malformed base prefix in config: " ++ entry.basePrefix)
  | some pfx =>
    if entry.seqNum.isSome then .error "Unsupported Prefix configuration: seq_num"
    else if !entry.matchLogicEqual then .error "Unsupported Prefix configuration: match_logic"
    else .ok (pfx, entry.comp)

/-- The tree of the library, assumed to have one node for each base prefix and to keep it when another is inserted. -/
abbrev RadixTree (P : Type) := Keyed (Prod.fst : P × List PrefixLenOrRegexComp → P)

variable [DecidableEq P]

def RadixTree.insert (tree : RadixTree P) (node : P × List PrefixLenOrRegexComp) : RadixTree P :=
  if (tree.find node.1).isSome then tree else tree.put node

/-- Entries of one list with the same base prefix share a node. -/
def mergePrefix (merged : RadixTree P) (entry : P × PrefixLenOrRegexComp) : RadixTree P :=
  merged.put (entry.1, (merged.find entry.1).elim [] Prod.snd ++ [entry.2])

variable (list : PrefixList)

def validateAndCreatePrefixTree : Except String (RadixTree P) :=
  if list.compareOperator.isSome then .error "Unsupported PrefixList configuration: compare_operator"
  else if list.booleanOperator ≠ .or then .error "PrefixList BooleanOperator can only be OR"
  else do
    let entries ← list.prefixes.mapM PrefixListEntry.validate
    return (entries.foldl mergePrefix .empty).items.foldl RadixTree.insert .empty

def populateReferences (prefixListMap : String → Option PrefixList) (prefixListNames : List String)
    (radixTree : RadixTree P) : Except String (RadixTree P) :=
  prefixListNames.foldlM (fun radixTree name =>
    match prefixListMap name with
    | none => .error ("Could not find PrefixList reference: " ++ name)
    | some list => do
      let tree ← validateAndCreatePrefixTree list
      return tree.items.foldl RadixTree.insert radixTree) radixTree

/-- Some condition of a node that covers the prefix holds. -/
def prefixTreeMatches (radixTree : RadixTree P) (pfx : P) : Bool :=
  (radixTree.items.filter fun node => Network.contains node.1 pfx).any fun node =>
    node.2.any (PrefixLenOrRegexComp.holds pfx)

def createPrefixTreeMatch (prefixListMap : String → Option PrefixList) (prefixFilters : PrefixList)
    (prefixListNames : List String) : Except String (RadixTree P) := do
  let radixTree ← validateAndCreatePrefixTree prefixFilters
  populateReferences prefixListMap prefixListNames radixTree

def PrefixList.comps (base : P) : List PrefixLenOrRegexComp :=
  (list.prefixes.filter fun entry => Network.createNetwork entry.basePrefix = some base).map PrefixListEntry.comp

def PrefixList.Covers (base pfx : P) : Prop :=
  Network.contains base pfx = true ∧ ∃ comp ∈ list.comps base, comp.holds pfx = true

def PrefixList.node (base : P) : Option (P × List PrefixLenOrRegexComp) :=
  if list.comps base = [] then none else some (base, list.comps base)

variable {radixTree tree : RadixTree P} {list prefixFilters : PrefixList} {prefixListNames : List String}
  {prefixListMap : String → Option PrefixList} {pfx : P}

theorem node_eq_none_iff : list.node pfx = none ↔ list.comps pfx = [] := by simp [PrefixList.node]

theorem node_eq_some_iff {node : P × List PrefixLenOrRegexComp} :
    list.node pfx = some node ↔ node = (pfx, list.comps pfx) ∧ list.comps pfx ≠ [] := by
  by_cases hnil : list.comps pfx = []
  · simp [PrefixList.node, hnil]
  · simpa [PrefixList.node, hnil] using eq_comm

omit [Network P] in
theorem find_foldl_insert (nodes : List (P × List PrefixLenOrRegexComp)) (radixTree : RadixTree P) :
    (nodes.foldl RadixTree.insert radixTree).find pfx =
      (radixTree.find pfx).or (nodes.find? fun node => node.1 = pfx) := by
  induction nodes generalizing radixTree with
  | nil => simp
  | cons node nodes ih =>
    rw [List.foldl_cons, ih, RadixTree.insert]
    by_cases heq : node.1 = pfx
    · subst heq
      cases hfind : radixTree.find node.1 <;> simp [hfind]
    · rw [List.find?_cons_of_neg (by simpa using heq)]
      split
      · rfl
      · rw [Keyed.find_put_of_ne (Ne.symm heq)]

omit [Network P] in
theorem find_foldl_mergePrefix (entries : List (P × PrefixLenOrRegexComp)) (merged : RadixTree P) :
    (entries.foldl mergePrefix merged).find pfx = match (entries.filter (·.1 = pfx)).map Prod.snd with
      | [] => merged.find pfx
      | comp :: comps => some (pfx, (merged.find pfx).elim [] Prod.snd ++ comp :: comps) := by
  induction entries generalizing merged with
  | nil => rfl
  | cons entry entries ih =>
    rw [List.foldl_cons, ih, mergePrefix]
    by_cases heq : entry.1 = pfx
    · subst heq
      rw [Keyed.find_put_self merged (entry.1, _)]
      cases hcomps : (entries.filter (·.1 = entry.1)).map Prod.snd <;> simp [hcomps]
    · have hput := Keyed.find_put_of_ne (t := merged) (k := pfx)
        (x := (entry.1, (merged.find entry.1).elim [] Prod.snd ++ [entry.2])) (Ne.symm heq)
      rw [List.filter_cons_of_neg (by simpa using heq), hput]

theorem comps_of_mapM_validate (prefixes : List PrefixListEntry) (entries : List (P × PrefixLenOrRegexComp))
    (h : prefixes.mapM PrefixListEntry.validate = .ok entries) :
    (entries.filter (·.1 = pfx)).map Prod.snd = ({ prefixes := prefixes } : PrefixList).comps pfx := by
  induction prefixes generalizing entries with
  | nil => cases h; rfl
  | cons entry prefixes ih =>
    rw [List.mapM_cons, Outcome.bind_eq_ok] at h
    obtain ⟨first, hfirst, h⟩ := h
    obtain ⟨rest, hrest, h⟩ := Outcome.bind_eq_ok.mp h
    cases h
    rw [PrefixListEntry.validate] at hfirst
    split at hfirst
    · cases hfirst
    · rename_i base hbase
      split_ifs at hfirst
      cases hfirst
      by_cases heq : base = pfx <;> simp_all [PrefixList.comps]

theorem find_of_validateAndCreatePrefixTree (h : validateAndCreatePrefixTree list = .ok tree) :
    tree.find pfx = list.node pfx := by
  rw [validateAndCreatePrefixTree] at h
  split_ifs at h
  obtain ⟨entries, hents, h⟩ := Outcome.bind_eq_ok.mp h
  cases h
  have hcomps : (entries.filter (·.1 = pfx)).map Prod.snd = list.comps pfx := comps_of_mapM_validate _ _ hents
  rw [find_foldl_insert, PrefixList.node]
  refine (find_foldl_mergePrefix entries .empty).trans ?_
  rw [hcomps]
  cases list.comps pfx <;> rfl

/-- Of the lists with a base prefix the first gives its node. -/
theorem find_of_populateReferences (names : List String) (radixTree : RadixTree P)
    (h : populateReferences prefixListMap names radixTree = .ok tree) :
    tree.find pfx = (radixTree.find pfx).or ((names.filterMap prefixListMap).findSome? (·.node pfx)) := by
  induction names generalizing radixTree with
  | nil =>
    cases h
    exact Option.or_none.symm
  | cons name names ih =>
    rw [populateReferences, List.foldlM_cons] at h
    obtain ⟨next, hstep, h⟩ := Outcome.bind_eq_ok.mp h
    cases hlist : prefixListMap name with
    | none => rw [hlist] at hstep; cases hstep
    | some list =>
      rw [hlist] at hstep
      obtain ⟨listTree, hvalid, hstep⟩ := Outcome.bind_eq_ok.mp hstep
      cases hstep
      have hnode : listTree.items.find? (fun node => node.1 = pfx) = list.node pfx :=
        find_of_validateAndCreatePrefixTree hvalid
      rw [ih _ h, find_foldl_insert, hnode, List.filterMap_cons_some hlist, List.findSome?_cons, Option.or_assoc]
      cases list.node pfx <;> rfl

theorem prefixTreeMatches_iff : prefixTreeMatches radixTree pfx = true ↔
      ∃ node, radixTree.find node.1 = some node ∧ Network.contains node.1 pfx = true ∧
        ∃ comp ∈ node.2, comp.holds pfx = true := by
  simp only [prefixTreeMatches, List.any_eq_true, List.mem_filter, and_assoc, Keyed.find_eq_some_iff, and_true]

/-- A match is right exactly when a prefix that an entry covers is also covered under a base prefix that no earlier list
has. -/
theorem prefixTreeMatches_iff_covers_iff
    (h : createPrefixTreeMatch prefixListMap prefixFilters prefixListNames = .ok radixTree) :
    let lists := prefixFilters :: prefixListNames.filterMap prefixListMap
    (prefixTreeMatches radixTree pfx = true ↔ ∃ list ∈ lists, ∃ base, list.Covers base pfx) ↔
      ((∃ list ∈ lists, ∃ base, list.Covers base pfx) →
        ∃ before list after base, lists = before ++ list :: after ∧ list.Covers base pfx ∧
          ∀ earlier ∈ before, earlier.comps base = []) := by
  intro lists
  obtain ⟨inlineTree, hinline, h⟩ := Outcome.bind_eq_ok.mp h
  have hfind (base : P) : radixTree.find base = lists.findSome? (·.node base) := by
    rw [find_of_populateReferences _ _ h, find_of_validateAndCreatePrefixTree hinline, List.findSome?_cons]
    cases prefixFilters.node base <;> rfl
  have hmatches : prefixTreeMatches radixTree pfx = true ↔
      ∃ before list after base, lists = before ++ list :: after ∧ list.Covers base pfx ∧
        ∀ earlier ∈ before, earlier.comps base = [] := by
    simp only [prefixTreeMatches_iff, hfind, List.findSome?_eq_some_iff]
    constructor
    · rintro ⟨node, ⟨before, list, after, hlists, hnode, hbef⟩, hcontains, comp, hcomp, hholds⟩
      obtain ⟨hnode, -⟩ := node_eq_some_iff.mp hnode
      rw [hnode] at hcomp
      exact ⟨before, list, after, node.1, hlists, ⟨hcontains, comp, hcomp, hholds⟩,
        fun earlier hearlier => node_eq_none_iff.mp (hbef earlier hearlier)⟩
    · rintro ⟨before, list, after, base, hlists, ⟨hcontains, comp, hcomp, hholds⟩, hbef⟩
      exact ⟨(base, list.comps base), ⟨before, list, after, hlists,
        node_eq_some_iff.mpr ⟨rfl, List.ne_nil_of_mem hcomp⟩,
        fun earlier hearlier => node_eq_none_iff.mpr (hbef earlier hearlier)⟩, hcontains, comp, hcomp, hholds⟩
  rw [hmatches]
  refine ⟨fun hiff => hiff.mpr, fun hcond => ⟨?_, hcond⟩⟩
  rintro ⟨before, list, after, base, hlists, hcovers, -⟩
  exact ⟨list, hlists ▸ by simp, base, hcovers⟩

section

/-- The network `10.0.0.0/8` as bits, and one of length 24 in it. -/
def tenNetwork : List Bool := [false, false, false, false, true, false, true, false]

def tenSubnet : List Bool := tenNetwork ++ List.replicate 16 true

/-- Networks as bits; every text names `10.0.0.0/8`. -/
local instance : Network (List Bool) where
  createNetwork _ := some tenNetwork
  contains base pfx := base.isPrefixOf pfx
  prefixLen pfx := pfx.length
  fullMatch _ _ := false

def sampleList (length : Int) : PrefixList :=
  { prefixes := [{ basePrefix := "10.0.0.0/8", prefixLenRanges := [(.eq, length)] }] }

theorem covers_sampleList : (sampleList 24).Covers tenNetwork tenSubnet :=
  ⟨rfl, _, List.mem_singleton_self _, by decide⟩

theorem prefixTreeMatches_iff_covers_sample :
    ∃ list ∈ [sampleList 24, sampleList 16], ∃ base, list.Covers base tenSubnet :=
  have h : createPrefixTreeMatch (fun _ => some (sampleList 16)) (sampleList 24) ["list"] =
      .ok (RadixTree.insert .empty (tenNetwork, [.prefixLenRanges [(.eq, 24)]])) := rfl
  ((prefixTreeMatches_iff_covers_iff h).mpr fun _ => ⟨[], _, _, tenNetwork, rfl, covers_sampleList, by simp⟩).mp
    (by decide)

/-- A condition for a base prefix that an earlier list has is lost, so that the answer depends on the order. -/
theorem not_prefixTreeMatches_of_covers :
    (createPrefixTreeMatch (fun _ => some (sampleList 24)) (sampleList 16) ["list"]).map
        (prefixTreeMatches · tenSubnet) = .ok false ∧
      (sampleList 24).Covers tenNetwork tenSubnet ∧
      (createPrefixTreeMatch (fun _ => some (sampleList 16)) (sampleList 24) ["list"]).map
        (prefixTreeMatches · tenSubnet) = .ok true :=
  ⟨by rfl, covers_sampleList, by rfl⟩

end

end FbossBgp.Policy
