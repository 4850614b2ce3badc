import FbossBgp.Lib.Memo
import FbossBgp.Rib.RibEntry

/-! The policies that RibDC applies to the routes of the RIB, path selection (CPS) and route attributes (CTE).
Both look for a statement that matches the prefix or the communities of its paths, and keep what they found
for the prefix; nothing that changes the paths takes it out again. -/

namespace FbossBgp.Rib

/-- What an evaluation reads of a route, the prefix and the communities of each path that `getAllPaths` lists, and
the time at which it is made. -/
structure PolicyRoute (K : Type) where
  pfx : CIDRNetwork
  allPaths : List K
  now : Int

/-- The matchers of statements: a set of prefixes, or a match on the communities of a path. -/
class RouteMatcher (T : Type) (K : outParam Type) where
  prefixSet : T → List CIDRNetwork
  communityMatch : T → Option (K → Bool)
  /-- The constructor throws unless exactly one of the two is given. -/
  one_given (matcher : T) : prefixSet matcher = [] ↔ (communityMatch matcher).isSome = true

/-- The statement, or that there is none, kept for each key. -/
abbrev Matches (κ : Type) := κ → Option (Option String)

variable {K T : Type} [RouteMatcher T K]

namespace RouteMatcher

variable (matcher : T)

def prefixMatches (pfx : CIDRNetwork) : Bool := decide (pfx ∈ prefixSet matcher)

def communityMatchesPath (communities : K) : Bool := (communityMatch matcher).any fun test => test communities

/-- `RibPolicyRouteMatcher::match`. -/
def isMatch (route : PolicyRoute K) : Bool :=
  prefixMatches matcher route.pfx || route.allPaths.any (communityMatchesPath matcher)

end RouteMatcher

open RouteMatcher

structure PathSelectionStatement (T : Type) where
  name : String
  matcher : T

abbrev PathSelectionStatements (T : Type) := Keyed (PathSelectionStatement.name (T := T))

structure PathSelectionPolicy (T : Type) where
  statements : PathSelectionStatements T
  pathSelectionResults : Matches CIDRNetwork := fun _ => none

namespace PathSelectionPolicy

variable (statements : PathSelectionStatements T)

/-- The statement that a match of the route finds, in the order of the map. -/
def matchStatement (route : PolicyRoute K) : Option String :=
  (statements.items.find? fun stmt => isMatch stmt.matcher route).map PathSelectionStatement.name

/-- The statement whose selector is applied; `none` is the default multipath selector. -/
def overrideMultipathSelection (policy : PathSelectionPolicy T) (route : PolicyRoute K) :
    Option String × PathSelectionPolicy T :=
  let (result, results) :=
    Memo.lookup (matchStatement policy.statements) PolicyRoute.pfx policy.pathSelectionResults route
  (result, { policy with pathSelectionResults := results })

variable (earlier : List (PolicyRoute K)) (route : PolicyRoute K)

/-- The statement applied to a route after the earlier selections under the policy. -/
def applied : Option String :=
  let policy := earlier.foldl (fun policy route => (overrideMultipathSelection policy route).2) { statements }
  (overrideMultipathSelection policy route).1

theorem applied_eq :
    applied statements earlier route = matchStatement statements (Memo.firstSeen PolicyRoute.pfx earlier route) := by
  refine Memo.foldl_answer (f := matchStatement statements) (fun _ result => result) overrideMultipathSelection
    pathSelectionResults (fun _ policy => policy.statements = statements) (fun policy route _ hstatements => ?_)
    earlier route (s := { statements }) rfl
  rw [← hstatements]
  exact ⟨rfl, rfl, rfl⟩

theorem matchStatement_perm {route route' : PolicyRoute K} (hpfx : route.pfx = route'.pfx)
    (hpaths : route.allPaths.Perm route'.allPaths) :
    matchStatement statements route = matchStatement statements route' := by
  have hmatch : ∀ matcher : T, isMatch matcher route = isMatch matcher route' := by
    intro matcher
    rw [isMatch, isMatch, hpfx, hpaths.any_eq]
  simp only [matchStatement, hmatch]

end PathSelectionPolicy

structure RouteAttributeStatement (T : Type) where
  name : String
  matcher : T
  expirationTime : Option Int

namespace RouteAttributeStatement

variable (stmt : RouteAttributeStatement T)

/-- `INT_MAX` where there is none. -/
def getExpirationTime : Int := stmt.expirationTime.getD 2147483647

def isActive (now : Int) : Bool := decide (now < stmt.getExpirationTime)

end RouteAttributeStatement

abbrev RouteAttributeStatements (T : Type) := Keyed (RouteAttributeStatement.name (T := T))

structure RouteAttributePolicy (K T : Type) where
  statements : RouteAttributeStatements T
  matchCache : Matches CIDRNetwork := fun _ => none
  communityToStatement : Matches K := fun _ => none

namespace RouteAttributePolicy

variable (statements : RouteAttributeStatements T) (now : Int)

def activeMatch (test : T → Bool) : Option String :=
  (statements.items.find? fun stmt => stmt.isActive now && test stmt.matcher).map RouteAttributeStatement.name

/-- Only statements with a prefix set can match: the code keeps them in a list of their own. -/
def matchPrefix (pfx : CIDRNetwork) : Option String := activeMatch statements now (prefixMatches · pfx)

def matchCommunities (communities : K) : Option String :=
  activeMatch statements now (communityMatchesPath · communities)

/-- A statement that is missing or has expired counts as no match. -/
def stillActive (name : Option String) : Option String :=
  name.filter fun name => (statements.find name).any fun stmt => stmt.isActive now

variable [DecidableEq K]

/-- The loop of `matchStatement` over the paths, with the index that it fills. -/
def matchPaths : List K → Matches K → Option String × Matches K
  | [], index => (none, index)
  | communities :: paths, index =>
    let (found, index) := Memo.lookup (matchCommunities statements now) id index communities
    match stillActive statements now found with
    | some name => (some name, index)
    | none => matchPaths paths index

def matchStatement (index : Matches K) (route : PolicyRoute K) : Option String × Matches K :=
  match matchPrefix statements route.now route.pfx with
  | some name => (some name, index)
  | none => matchPaths statements route.now route.allPaths index

variable (earlier : List (PolicyRoute K)) (route : PolicyRoute K)

/-- What a match of the route finds when nothing is kept. -/
def freshMatch : Option String := (matchStatement statements (fun _ => none) route).1

/-- The statement that is applied to the route, and the policy with what it keeps. -/
def overwriteRouteAttributes (policy : RouteAttributePolicy K T) (route : PolicyRoute K) :
    Option String × RouteAttributePolicy K T :=
  match policy.matchCache route.pfx with
  | some cached => (stillActive policy.statements route.now cached, policy)
  | none =>
    let (found, index) := matchStatement policy.statements policy.communityToStatement route
    (found, { policy with
      matchCache := Function.update policy.matchCache route.pfx (some found)
      communityToStatement := index })

/-- The statement applied to a route after the earlier evaluations under the policy. -/
def applied : Option String :=
  let policy := earlier.foldl (fun policy route => (overwriteRouteAttributes policy route).2) { statements }
  (overwriteRouteAttributes policy route).1

variable {statements now}

theorem stillActive_activeMatch (test : T → Bool) :
    stillActive statements now (activeMatch statements now test) = activeMatch statements now test := by
  cases h : activeMatch statements now test with
  | none => rfl
  | some name =>
    obtain ⟨stmt, hfind, rfl⟩ := Option.map_eq_some_iff.mp h
    have htest := List.find?_some hfind
    rw [Bool.and_eq_true] at htest
    simp [stillActive, Keyed.find_key (List.mem_of_find?_eq_some hfind), htest.1]

variable (statements now) in
/-- What the index keeps is as good as a match now. -/
def IndexSound (index : Matches K) : Prop :=
  ∀ communities found, index communities = some found →
    stillActive statements now found = matchCommunities statements now communities

variable (statements) in
/-- Whatever the communities, the statement that they match at the time of one evaluation is the one at the time of
another, or it has expired and there is none. -/
def Lasting (route later : PolicyRoute K) : Prop := ∀ communities,
  stillActive statements later.now (matchCommunities statements route.now communities) =
    matchCommunities statements later.now communities

variable {index : Matches K} {later : PolicyRoute K}

omit [DecidableEq K] in
theorem lasting_refl : Lasting statements later later := fun _ => stillActive_activeMatch _

section

variable {route : PolicyRoute K} (hlasting : Lasting statements route later)
  (h : IndexSound statements later.now index)
include hlasting h

theorem IndexSound.lookup (communities : K) : IndexSound statements later.now
    (Memo.lookup (matchCommunities statements route.now) id index communities).2 := by
  intro set found hlookup
  rw [Memo.lookup_snd] at hlookup
  cases hindex : index set with
  | some kept =>
    rw [hindex] at hlookup
    exact h set found (hindex.trans hlookup)
  | none =>
    rw [hindex, Option.none_or, Option.ite_none_right_eq_some] at hlookup
    obtain ⟨rfl, hfound⟩ := hlookup
    cases hfound
    exact hlasting _

theorem IndexSound.matchPaths (paths : List K) :
    IndexSound statements later.now (matchPaths statements route.now paths index).2 := by
  induction paths generalizing index with
  | nil => exact h
  | cons communities paths ih =>
    rw [RouteAttributePolicy.matchPaths]
    dsimp only
    split
    · exact h.lookup hlasting _
    · exact ih (h.lookup hlasting _)

theorem IndexSound.matchStatement : IndexSound statements later.now (matchStatement statements index route).2 := by
  rw [RouteAttributePolicy.matchStatement]
  cases matchPrefix statements route.now route.pfx with
  | some name => exact h
  | none => exact h.matchPaths hlasting _

end

theorem IndexSound.matchPaths_eq (h : IndexSound statements route.now index) (paths : List K) :
    (RouteAttributePolicy.matchPaths statements route.now paths index).1 =
      paths.findSome? (matchCommunities statements route.now) := by
  induction paths generalizing index with
  | nil => rfl
  | cons communities paths ih =>
    have hfound : stillActive statements route.now
        (Memo.lookup (matchCommunities statements route.now) id index communities).1 =
          matchCommunities statements route.now communities := by
      rw [Memo.lookup_fst]
      cases hindex : index (id communities) with
      | none => exact lasting_refl communities
      | some found => exact h _ _ hindex
    rw [RouteAttributePolicy.matchPaths, List.findSome?_cons]
    dsimp only
    rw [hfound]
    cases matchCommunities statements route.now communities with
    | some name => rfl
    | none => exact ih (h.lookup lasting_refl _)

theorem IndexSound.matchStatement_eq (h : IndexSound statements route.now index) :
    (RouteAttributePolicy.matchStatement statements index route).1 = (matchPrefix statements route.now route.pfx).or
      (route.allPaths.findSome? (matchCommunities statements route.now)) := by
  rw [RouteAttributePolicy.matchStatement]
  cases matchPrefix statements route.now route.pfx with
  | some name => rfl
  | none => exact h.matchPaths_eq route _

theorem freshMatch_eq : freshMatch statements route = (matchPrefix statements route.now route.pfx).or
    (route.allPaths.findSome? (matchCommunities statements route.now)) :=
  IndexSound.matchStatement_eq route nofun

theorem stillActive_freshMatch :
    stillActive statements route.now (freshMatch statements route) = freshMatch statements route := by
  rw [freshMatch_eq]
  cases hpfx : matchPrefix statements route.now route.pfx with
  | some name =>
    rw [Option.some_or, ← hpfx]
    exact stillActive_activeMatch _
  | none =>
    rw [Option.none_or]
    cases hpaths : route.allPaths.findSome? (matchCommunities statements route.now) with
    | none => rfl
    | some name =>
      obtain ⟨path, -, hpath⟩ := List.exists_of_findSome?_eq_some hpaths
      rw [← hpath]
      exact stillActive_activeMatch _

variable (statements) in
/-- The index is sound for the evaluations to come. -/
structure KeepsMatches (future : List (PolicyRoute K)) (policy : RouteAttributePolicy K T) : Prop where
  statements_eq : policy.statements = statements
  index : ∀ later ∈ future, IndexSound statements later.now policy.communityToStatement
  lasting : future.Pairwise (Lasting statements)

/-- Under what it keeps, the policy answers a route from a table of first results. -/
theorem KeepsMatches.overwriteRouteAttributes {policy : RouteAttributePolicy K T} {future : List (PolicyRoute K)}
    (h : KeepsMatches statements (route :: future) policy) :
    (overwriteRouteAttributes policy route).1 = stillActive statements route.now
        (Memo.lookup (freshMatch statements) PolicyRoute.pfx policy.matchCache route).1 ∧
      (RouteAttributePolicy.overwriteRouteAttributes policy route).2.matchCache =
        (Memo.lookup (freshMatch statements) PolicyRoute.pfx policy.matchCache route).2 ∧
      KeepsMatches statements future (RouteAttributePolicy.overwriteRouteAttributes policy route).2 := by
  obtain ⟨rfl, hindex, hlasting⟩ := h
  obtain ⟨hsound, hindex⟩ := List.forall_mem_cons.mp hindex
  obtain ⟨hfollows, hlasting⟩ := List.pairwise_cons.mp hlasting
  rw [RouteAttributePolicy.overwriteRouteAttributes, Memo.lookup]
  cases hcache : policy.matchCache route.pfx with
  | some cached => exact ⟨rfl, rfl, rfl, hindex, hlasting⟩
  | none =>
    have hfound := (hsound.matchStatement_eq route).trans (freshMatch_eq route).symm
    dsimp only
    rw [hfound, stillActive_freshMatch]
    exact ⟨rfl, rfl, rfl, fun later hlater => (hindex later hlater).matchStatement (hfollows later hlater), hlasting⟩

theorem applied_eq (h : (earlier ++ [route]).Pairwise (Lasting statements)) : applied statements earlier route =
    stillActive statements route.now (freshMatch statements (Memo.firstSeen PolicyRoute.pfx earlier route)) := by
  have hinit : KeepsMatches statements (earlier ++ [route]) { statements } := ⟨rfl, fun _ _ _ _ => nofun, h⟩
  exact Memo.foldl_answer (fun route => stillActive statements route.now) overwriteRouteAttributes matchCache
    (KeepsMatches statements) (fun _ route _ h => h.overwriteRouteAttributes route) earlier route hinit

end RouteAttributePolicy

/-- The statement applied is the same after both histories, and it is the one that a fresh match finds. -/
def HistoryFree (applied : List (PolicyRoute K) → PolicyRoute K → Option String)
    (fresh : PolicyRoute K → Option String) (earlier earlier' : List (PolicyRoute K)) (route route' : PolicyRoute K) :
    Prop :=
  applied earlier route = fresh route ∧ applied earlier' route' = fresh route' ∧
    applied earlier route = applied earlier' route'

/-- What the prefix matched when the policy first saw it, in so far as it is still recalled, is what a match of the
current paths finds. -/
def FirstMatchStays (reuse : PolicyRoute K → Option String → Option String) (fresh : PolicyRoute K → Option String)
    (earlier : List (PolicyRoute K)) (route : PolicyRoute K) : Prop :=
  reuse route (fresh (Memo.firstSeen PolicyRoute.pfx earlier route)) = fresh route

/-- After any two histories that leave a prefix with the same paths, while no statement for route attributes expires
and leaves its communities to another one: both policies apply the statement that a fresh match finds exactly when
what was first matched, if it has not expired, is what the current paths match and, for route attributes, the match
does not depend on the order of the paths. -/
theorem statements_historyFree_iff [DecidableEq K] (cps : PathSelectionStatements T)
    (cte : RouteAttributeStatements T) {earlier earlier' : List (PolicyRoute K)}
    {route route' : PolicyRoute K} (hpfx : route.pfx = route'.pfx) (hpaths : route.allPaths.Perm route'.allPaths)
    (hlasting : (earlier ++ [route]).Pairwise (RouteAttributePolicy.Lasting cte))
    (hlasting' : (earlier' ++ [route']).Pairwise (RouteAttributePolicy.Lasting cte)) :
    HistoryFree (PathSelectionPolicy.applied cps) (PathSelectionPolicy.matchStatement cps) earlier earlier' route
        route' ∧
      HistoryFree (RouteAttributePolicy.applied cte) (RouteAttributePolicy.freshMatch cte) earlier earlier'
        route route' ↔
    let cpsStays := FirstMatchStays (fun _ name => name) (PathSelectionPolicy.matchStatement cps)
    let cteStays := FirstMatchStays (fun route => RouteAttributePolicy.stillActive cte route.now)
      (RouteAttributePolicy.freshMatch cte)
    (cpsStays earlier route ∧ cpsStays earlier' route') ∧ cteStays earlier route ∧ cteStays earlier' route' ∧
      RouteAttributePolicy.freshMatch cte route = RouteAttributePolicy.freshMatch cte route' := by
  have hcps := PathSelectionPolicy.matchStatement_perm cps hpfx hpaths
  simp only [HistoryFree, PathSelectionPolicy.applied_eq, RouteAttributePolicy.applied_eq _ _ hlasting,
    RouteAttributePolicy.applied_eq _ _ hlasting']
  constructor
  · rintro ⟨⟨hfirst, hfirst', -⟩, hroute, hroute', hsame⟩
    exact ⟨⟨hfirst, hfirst'⟩, hroute, hroute', hroute.symm.trans (hsame.trans hroute')⟩
  · rintro ⟨⟨hfirst, hfirst'⟩, hroute, hroute', hsame⟩
    exact ⟨⟨hfirst, hfirst', hfirst.trans (hcps.trans hfirst'.symm)⟩, hroute, hroute',
      hroute.trans (hsame.trans hroute'.symm)⟩

/-- Matchers that are a prefix or a community. -/
instance : RouteMatcher (CIDRNetwork ⊕ Nat) (List Nat) where
  prefixSet
    | .inl pfx => [pfx]
    | .inr _ => []
  communityMatch
    | .inl _ => none
    | .inr community => some fun communities => communities.contains community
  one_given := by rintro (pfx | community) <;> simp

def routeWith (communities : List Nat) (now : Int) : PolicyRoute (List Nat) := ⟨⟨.empty, 0⟩, [communities], now⟩

def drainSelection : PathSelectionStatements (CIDRNetwork ⊕ Nat) := ⟨[⟨"drain", .inr 2⟩], by decide⟩

def drainAttributes : RouteAttributeStatements (CIDRNetwork ⊕ Nat) := ⟨[⟨"drain", .inr 2, some 20⟩], by decide⟩

/-- The path is replaced by one that the statement matches too, before the statement expires. -/
theorem statements_historyFree_drain :
    HistoryFree (PathSelectionPolicy.applied drainSelection) (PathSelectionPolicy.matchStatement drainSelection)
        [routeWith [2, 3] 0] [] (routeWith [2] 10) (routeWith [2] 10) ∧
      HistoryFree (RouteAttributePolicy.applied drainAttributes) (RouteAttributePolicy.freshMatch drainAttributes)
        [routeWith [2, 3] 0] [] (routeWith [2] 10) (routeWith [2] 10) := by
  refine (statements_historyFree_iff drainSelection drainAttributes rfl (.refl _) (.cons ?_ (List.pairwise_singleton ..))
    (List.pairwise_singleton ..)).mpr ⟨⟨rfl, rfl⟩, rfl, rfl, rfl⟩
  -- the statement is active at both times
  intro later hlater
  obtain rfl := List.mem_singleton.mp hlater
  have hactive : RouteAttributePolicy.Lasting drainAttributes (routeWith [2] 10) (routeWith [2] 10) :=
    RouteAttributePolicy.lasting_refl
  exact hactive

/-- The path of the prefix is replaced by one that the statement matches: both policies still find nothing,
while they find the statement where the prefix had no other path before. -/
theorem replaced_path_not_matched :
    PathSelectionPolicy.applied drainSelection [routeWith [1] 0] (routeWith [2] 10) = none ∧
      PathSelectionPolicy.applied drainSelection [] (routeWith [2] 10) = some "drain" ∧
      RouteAttributePolicy.applied drainAttributes [routeWith [1] 0] (routeWith [2] 10) = none ∧
      RouteAttributePolicy.applied drainAttributes [] (routeWith [2] 10) = some "drain" :=
  ⟨rfl, rfl, rfl, rfl⟩

end FbossBgp.Rib
