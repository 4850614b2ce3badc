import FbossBgp.Lib.Narrowing
import Mathlib.Algebra.Order.Ring.Int

/-! Route filters and the selector that applies a list of them. A filter sees its metric as an unsigned
number of 128 bits; `rule` gives the number a metric has on a route. -/

namespace FbossBgp.RouteLib

inductive RouteMetric
  | bgpLocalPreference
  | bgpAsPathLen
  | bgpOriginCode
  | bgpMedValue
  | deletedRoute
  | controllerCommunity
  | bgpRouterId
  | bgpPeerAsn
  | controllerCommunityMetro
  | prefixLength
  | perfDetourRouteOverride
  | alreadyPreferredRoute
  | externalRoute
  | localRoute
  | bgpPeerIp
  | bgpClusterListLen
  | confedExternalRoute
  | bgpAsPathLenWithConfed
  | bgpPeerNexthop
  | bgpWeightValue
  | igpCost
  deriving DecidableEq, Repr

inductive HighestLowestRouteFilterAction
  | chooseHighest
  | chooseLowest
  deriving DecidableEq, Repr

inductive MembershipRouteFilterAction
  | chooseMember
  | chooseNonmember
  deriving DecidableEq, Repr

/-- A metric and the options of one kind of filter over it. -/
inductive RouteFilterConfig
  | ranged (metric : RouteMetric) (minValue maxValue : Int)
  | highestLowest (metric : RouteMetric) (action : HighestLowestRouteFilterAction)
  | membership (metric : RouteMetric) (action : MembershipRouteFilterAction) (metricValues : List Int)
  | recoverEquivalent (metric : RouteMetric) (tiebreakerConfigs : List RouteFilterConfig)

structure AcceptedAndRejectedRoutes (R : Type) where
  accepted : List R
  rejected : List R

variable {R : Type}

/-- A signed number of 64 bits as the unsigned number of 128 bits it is compared with. -/
def toUint128 (value : Int) : Nat := (value % 2 ^ 128).toNat

/-- The low 64 bits of a metric, read as a signed number. -/
def toInt64 (weight : Nat) : Int := Int.bmod weight (2 ^ 64)

def partitionRoutes (accepts : R → Bool) (routes : List R) : AcceptedAndRejectedRoutes R :=
  ⟨routes.filter accepts, routes.filter fun route => !accepts route⟩

variable (action : HighestLowestRouteFilterAction)

/-- The greatest or the least of the weights; the list is not empty where it is used. -/
def targetWeight (weights : List Nat) : Nat :=
  match action with
  | .chooseHighest => weights.max?.getD 0
  | .chooseLowest => weights.min?.getD 0

def isMember (action : MembershipRouteFilterAction) (metricValues : List Int) (weight : Nat) : Bool :=
  match action with
  | .chooseMember => metricValues.contains (toInt64 weight)
  | .chooseNonmember => !metricValues.contains (toInt64 weight)

/-- Each accepted route in turn takes the rejected routes of its weight back. -/
def recoverRoutes (weight : R → Nat) : List R → List R → AcceptedAndRejectedRoutes R
  | [], rejected => ⟨[], rejected⟩
  | route :: routes, rejected =>
    let recovered := rejected.filter fun r => weight r == weight route
    let rest := recoverRoutes weight routes (rejected.filter fun r => !(weight r == weight route))
    ⟨route :: recovered ++ rest.accepted, rest.rejected⟩

mutual

def RouteFilterConfig.filter (rule : RouteMetric → R → Nat) (previous : AcceptedAndRejectedRoutes R) :
    RouteFilterConfig → AcceptedAndRejectedRoutes R
  | .ranged metric minValue maxValue =>
    partitionRoutes (fun route =>
      decide (toUint128 minValue ≤ rule metric route ∧ rule metric route ≤ toUint128 maxValue)) previous.accepted
  | .highestLowest metric action =>
    match previous.accepted with
    | [] => ⟨[], []⟩
    | routes =>
      partitionRoutes (fun route => rule metric route == targetWeight action (routes.map (rule metric))) routes
  | .membership metric action metricValues =>
    partitionRoutes (fun route => isMember action metricValues (rule metric route)) previous.accepted
  | .recoverEquivalent metric tiebreakerConfigs =>
    let rejected := if tiebreakerConfigs.isEmpty then previous.rejected else []
    let broken := filterTiebreakers rule previous rejected tiebreakerConfigs
    recoverRoutes (rule metric) broken.accepted broken.rejected

/-- The tiebreakers one after another, with the routes that any of them rejected. -/
def filterTiebreakers (rule : RouteMetric → R → Nat) (previous : AcceptedAndRejectedRoutes R) (rejected : List R) :
    List RouteFilterConfig → AcceptedAndRejectedRoutes R
  | [] => ⟨previous.accepted, rejected⟩
  | config :: configs =>
    let next := config.filter rule previous
    filterTiebreakers rule next (next.rejected ++ rejected) configs

end

variable (rule : RouteMetric → R → Nat)

/-- The routes that the filters leave, each filter seeing what the one before it accepted and rejected. -/
def applyFilters (configs : List RouteFilterConfig) (routes : List R) : List R :=
  (configs.foldl (fun filtered (config : RouteFilterConfig) =>
    if routes.isEmpty then filtered else config.filter rule filtered) ⟨routes, []⟩).accepted

def selectRoutes (configs : List RouteFilterConfig) (routes : List R) : List R :=
  applyFilters rule configs routes

/-- The weight of the first route is the worse one. -/
def compareWeights (weight1 weight2 : Nat) : Bool :=
  match action with
  | .chooseHighest => decide (weight1 < weight2)
  | .chooseLowest => decide (weight1 > weight2)

/-- The first highest or lowest filter that tells the routes apart decides; the other filters compare nothing. -/
def compareRoutes (rule : RouteMetric → R → Nat) : List RouteFilterConfig → R → R → Bool
  | [], _, _ => false
  | .highestLowest metric action :: filters, ri1, ri2 =>
    if compareWeights action (rule metric ri1) (rule metric ri2) then true
    else if compareWeights action (rule metric ri2) (rule metric ri1) then false
    else compareRoutes rule filters ri1 ri2
  | _ :: filters, ri1, ri2 => compareRoutes rule filters ri1 ri2

/-- The number a highest or lowest filter prefers the least of. -/
def preference (weight : Nat) : Int :=
  match action with
  | .chooseHighest => -weight
  | .chooseLowest => weight

open Narrowing List

theorem eq_targetWeight_iff {action : HighestLowestRouteFilterAction} {weights : List Nat} {w : Nat}
    (hw : w ∈ weights) :
    w = targetWeight action weights ↔ ∀ v ∈ weights, preference action w ≤ preference action v := by
  cases action with
  | chooseHighest =>
    obtain ⟨m, hm⟩ : ∃ m, weights.max? = some m := Option.isSome_iff_exists.mp (isSome_max?_of_mem hw)
    obtain ⟨hmem, hmax⟩ := List.max?_eq_some_iff.mp hm
    simp only [targetWeight, hm, preference, neg_le_neg_iff, Int.ofNat_le]
    exact ⟨fun h => h ▸ hmax, fun h => le_antisymm (hmax w hw) (h m hmem)⟩
  | chooseLowest =>
    obtain ⟨m, hm⟩ : ∃ m, weights.min? = some m := Option.isSome_iff_exists.mp (isSome_min?_of_mem hw)
    obtain ⟨hmem, hmin⟩ := List.min?_eq_some_iff.mp hm
    simp only [targetWeight, hm, preference, Int.ofNat_le]
    exact ⟨fun h => h ▸ hmin, fun h => le_antisymm (h m hmem) (hmin w hw)⟩

/-- A highest or lowest filter accepts the routes it prefers most. -/
theorem accepted_highestLowest (previous : AcceptedAndRejectedRoutes R) (metric : RouteMetric)
    (action : HighestLowestRouteFilterAction) :
    ((RouteFilterConfig.highestLowest metric action).filter rule previous).accepted =
      keepLeast (fun route => preference action (rule metric route)) previous.accepted := by
  rw [RouteFilterConfig.filter]
  split
  next hnil => rw [hnil]; rfl
  · refine filter_congr fun route hroute => ?_
    have htarget := @eq_targetWeight_iff action _ _ (mem_map_of_mem (f := rule metric) hroute)
    simp only [forall_mem_map] at htarget
    rw [Bool.eq_iff_iff, beq_iff_eq, decide_eq_true_iff]
    exact htarget

/-- What a highest or lowest filter compares routes by, the least being the best. -/
def rankBy (choice : RouteMetric × HighestLowestRouteFilterAction) (route : R) : Int :=
  preference choice.2 (rule choice.1 route)

section

variable (choices : List (RouteMetric × HighestLowestRouteFilterAction))

theorem accepted_foldl_highestLowest (filtered : AcceptedAndRejectedRoutes R) :
    ((choices.map fun choice => RouteFilterConfig.highestLowest choice.1 choice.2).foldl
      (RouteFilterConfig.filter rule) filtered).accepted = narrow (choices.map (rankBy rule)) filtered.accepted := by
  induction choices generalizing filtered with
  | nil => rfl
  | cons choice choices ih =>
    rw [map_cons, foldl_cons, ih, accepted_highestLowest]
    rfl

variable (configs : List RouteFilterConfig)

theorem applyFilters_eq_foldl {routes : List R} (h : routes ≠ []) : applyFilters rule configs routes =
    (configs.foldl (RouteFilterConfig.filter rule) ⟨routes, []⟩).accepted := by
  have hempty : routes.isEmpty = false := by simpa using h
  simp only [applyFilters, hempty, Bool.false_eq_true, if_false]

theorem applyFilters_nil : applyFilters rule configs [] = [] := by
  induction configs with
  | nil => rfl
  | cons config configs ih => exact ih

/-- Highest and lowest filters narrow the routes by one rank after another, also after filters that accept them all. -/
theorem selectRoutes_append_highestLowest (first : List RouteFilterConfig) {routes : List R}
    (haccepts : (first.foldl (RouteFilterConfig.filter rule) ⟨routes, []⟩).accepted = routes) :
    selectRoutes rule (first ++ choices.map fun choice => .highestLowest choice.1 choice.2) routes =
      narrow (choices.map (rankBy rule)) routes := by
  by_cases hrts : routes = []
  · subst hrts
    rw [selectRoutes, applyFilters_nil]
    exact (sublist_nil.mp (narrow_sublist _ [])).symm
  · rw [selectRoutes, applyFilters_eq_foldl _ _ hrts, foldl_append, accepted_foldl_highestLowest, haccepts]

theorem selectRoutes_highestLowest (routes : List R) :
    selectRoutes rule (choices.map fun choice => .highestLowest choice.1 choice.2) routes =
      narrow (choices.map (rankBy rule)) routes := selectRoutes_append_highestLowest rule choices [] rfl

/-- Routes that were not selected may be forgotten: with any further routes the selected ones lead to the same
selection. -/
theorem selectRoutes_selected_append (routes others : List R) :
    let configs : List RouteFilterConfig := choices.map fun choice => .highestLowest choice.1 choice.2
    selectRoutes rule configs (selectRoutes rule configs routes ++ others) =
      selectRoutes rule configs (routes ++ others) := by
  simp only [selectRoutes_highestLowest, narrow_narrow_append]

theorem compareWeights_iff (choice : RouteMetric × HighestLowestRouteFilterAction) (ri1 ri2 : R) :
    compareWeights choice.2 (rule choice.1 ri1) (rule choice.1 ri2) = true ↔
      rankBy rule choice ri2 < rankBy rule choice ri1 := by
  obtain ⟨metric, action⟩ := choice
  cases action <;> simp [compareWeights, rankBy, preference]

/-- A route compares as worse when its ranks come after those of the other. -/
theorem compareRoutes_iff (ri1 ri2 : R) :
    compareRoutes rule (choices.map fun choice => .highestLowest choice.1 choice.2) ri1 ri2 = true ↔
      Lex (· < ·) (ranksOf (choices.map (rankBy rule)) ri2) (ranksOf (choices.map (rankBy rule)) ri1) := by
  induction choices with
  | nil => simp [compareRoutes, ranksOf]
  | cons choice choices ih =>
    rw [map_cons, compareRoutes, map_cons, ranksOf, map_cons, ranksOf, map_cons, cons_lex_cons_iff]
    split_ifs with hworse hbetter
    · exact iff_of_true rfl (.inl ((compareWeights_iff _ _ _ _).mp hworse))
    · rw [compareWeights_iff] at hbetter
      exact iff_of_false not_false (by rintro (h | h) <;> omega)
    · rw [compareWeights_iff, not_lt] at hworse hbetter
      exact ih.trans ⟨fun h => .inr ⟨le_antisymm hbetter hworse, h⟩, fun h => (h.resolve_left (not_lt.mpr hworse)).2⟩

/-- Comparing routes is a strict weak order, and selecting keeps the routes that compare as worse than none, in their
order: some route of those there are, and all of them when selecting again. -/
theorem selectRoutes_eq_filter_compareRoutes (routes : List R) :
    let configs : List RouteFilterConfig := choices.map fun choice => .highestLowest choice.1 choice.2
    IsStrictWeakOrder R (fun ri1 ri2 => compareRoutes rule configs ri1 ri2 = true) ∧ selectRoutes rule configs routes =
        routes.filter (fun route => routes.all fun other => !compareRoutes rule configs route other) ∧
      (selectRoutes rule configs routes = [] ↔ routes = []) ∧
      selectRoutes rule configs (selectRoutes rule configs routes) = selectRoutes rule configs routes := by
  intro configs
  have horder : (fun ri1 ri2 => compareRoutes rule configs ri1 ri2 = true) =
      Function.onFun (Function.swap (Lex (· < ·))) (ranksOf (choices.map (rankBy rule))) := by
    ext ri1 ri2
    exact compareRoutes_iff rule choices ri1 ri2
  have hselect : ∀ routes, selectRoutes rule configs routes =
      routes.filter (fun route => routes.all fun other => !compareRoutes rule configs route other) := by
    intro routes
    rw [selectRoutes_highestLowest]
    refine narrow_eq_filter fun route hroute => ?_
    simp only [all_eq_true, Bool.not_eq_true', ← Bool.not_eq_true, configs, compareRoutes_iff, IsFirst, hroute, true_and]
  have := isStrictWeakOrder_of_isOrderConnected (r := Lex (α := ℤ) (· < ·))
  refine ⟨horder ▸ inferInstance, hselect routes, ?_, ?_⟩
  · rw [selectRoutes_highestLowest]
    refine ⟨fun h => by_contra fun hrts => narrow_ne_nil hrts h, ?_⟩
    rintro rfl
    exact sublist_nil.mp (narrow_sublist _ [])
  · rw [hselect (selectRoutes rule configs routes), filter_eq_self]
    intro route hroute
    rw [hselect, mem_filter, all_eq_true] at hroute
    exact all_eq_true.mpr fun other hother => hroute.2 other (mem_of_mem_filter (hselect routes ▸ hother))

end

end FbossBgp.RouteLib
