import FbossBgp.Rib.SendPathId

/-! What path selection does to an entry: the paths stay as they are, apart from the ids they are sent under, and
what is selected is among them; and whether the order in which the candidate paths are enumerated matters to it. -/

namespace FbossBgp.Rib

open RouteLib Narrowing List

variable {F : Type} (config : SelectionConfig F)

section

/-- The metrics of both selections, in the order in which they narrow the candidates. -/
def selectionRules : List (RouteMetric × HighestLowestRouteFilterAction) :=
  multiPathRules config.features config.countConfedsInAsPathLen ++ bestPathRules config.countConfedsInAsPathLen

variable (nexthops : NexthopInfoMap)

/-- What paths are compared by, the least number being preferred. -/
def selectionRanks : List (RouteInfo F → Int) :=
  (selectionRules config).map (rankBy (RouteInfo.rule config.features nexthops))

variable (features : BgpBestpathFeatures)

theorem accepted_deletedRoute (nexthops : NexthopInfoMap) (routes : List (RouteInfo F)) :
    ((getMembershipFilterConfig .deletedRoute .chooseMember [0]).filter (RouteInfo.rule features nexthops)
      ⟨routes, []⟩).accepted = routes := by
  refine filter_eq_self.mpr fun r _ => ?_
  have hzero : toInt64 0 = 0 := Int.zero_bmod
  simp [isMember, RouteInfo.rule, hzero]

theorem multipathSelector_eq (routes : List (RouteInfo F)) : multipathSelector config nexthops routes =
    narrow ((multiPathRules config.features config.countConfedsInAsPathLen).map
      (rankBy (RouteInfo.rule config.features nexthops))) routes :=
  selectRoutes_append_highestLowest _ _ [_] (accepted_deletedRoute _ _ _)

theorem bestpathSelector_eq (routes : List (RouteInfo F)) : bestpathSelector config nexthops routes =
    narrow ((bestPathRules config.countConfedsInAsPathLen).map (rankBy (RouteInfo.rule config.features nexthops)))
      routes := selectRoutes_highestLowest _ _ _

variable {routes : List (RouteInfo F)}

/-- Both selections together leave the paths to which none is preferred. -/
theorem mem_bestpathSelector_multipathSelector {config : SelectionConfig F} {nexthops : NexthopInfoMap}
    {r : RouteInfo F} : r ∈ bestpathSelector config nexthops (multipathSelector config nexthops routes) ↔
      IsFirst (selectionRanks config nexthops) routes r := by
  rw [bestpathSelector_eq, multipathSelector_eq, ← narrow_append, ← map_append, mem_narrow]
  exact Iff.rfl

theorem exists_head_bestpathSelector (h : routes ≠ []) :
    ∃ r, (bestpathSelector config nexthops (multipathSelector config nexthops routes)).head? = some r ∧
      IsFirst (selectionRanks config nexthops) routes r := by
  have hne : bestpathSelector config nexthops (multipathSelector config nexthops routes) ≠ [] := by
    rw [bestpathSelector_eq, multipathSelector_eq]
    exact narrow_ne_nil (narrow_ne_nil h)
  obtain ⟨r, rest, hcons⟩ := ne_nil_iff_exists_cons.mp hne
  refine ⟨r, congrArg List.head? hcons, mem_bestpathSelector_multipathSelector.mp ?_⟩
  rw [hcons]
  exact mem_cons_self

/-- A path without the id it is sent under, which no metric reads. -/
def RouteInfo.withoutSendId (r : RouteInfo F) : RouteInfo F := { r with pathIdToSend := none }

/-- The ids that paths get do not matter to which of them is best. -/
theorem map_key_bestpathSelector
    {paths paths' : List (RouteInfo F)} (h : paths.map RouteInfo.withoutSendId = paths'.map RouteInfo.withoutSendId) :
    (bestpathSelector config nexthops paths).map RouteInfo.key =
      (bestpathSelector config nexthops paths').map RouteInfo.key := by
  have hranks : ((bestPathRules config.countConfedsInAsPathLen).map
      (rankBy (RouteInfo.rule (F := F) config.features nexthops))).map (· ∘ RouteInfo.withoutSendId) =
        (bestPathRules config.countConfedsInAsPathLen).map (rankBy (RouteInfo.rule config.features nexthops)) := by
    rw [map_map]
    refine map_congr_left fun choice _ => funext fun r => ?_
    exact congrArg (preference choice.2) (by cases choice.1 <;> rfl)
  have hstrip : (bestpathSelector config nexthops paths).map RouteInfo.withoutSendId =
      (bestpathSelector config nexthops paths').map RouteInfo.withoutSendId := by
    rw [bestpathSelector_eq, bestpathSelector_eq, ← hranks, map_narrow, map_narrow, h]
  have hkeys := congrArg (List.map RouteInfo.key) hstrip
  rw [map_map, map_map] at hkeys
  exact hkeys

/-- Two paths that none of the configured metrics tells apart. -/
def Tied (r q : RouteInfo F) : Prop :=
  (config.features.enableWeightComparison = true → r.attrs.val.weight = q.attrs.val.weight) ∧
  r.attrs.val.localPref = q.attrs.val.localPref ∧ r.getIsRouteLocal = q.getIsRouteLocal ∧
  (if config.countConfedsInAsPathLen then r.getBgpAsPathLenWithConfed = q.getBgpAsPathLenWithConfed
    else r.getBgpAsPathLen = q.getBgpAsPathLen) ∧
  r.attrs.val.origin.toInt.toNat = q.attrs.val.origin.toInt.toNat ∧
  (config.features.enableMedComparison = true →
    getMed config.features r.attrs.val = getMed config.features q.attrs.val) ∧
  (config.features.enableEiBgpMultipath = false → r.getIsRouteExternal = q.getIsRouteExternal) ∧
  (config.features.enableNextHopTracking = true → r.getIgpCostValue nexthops = q.getIgpCostValue nexthops) ∧
  r.getIsRouteConfedExternal = q.getIsRouteConfedExternal ∧ r.getBgpRouterId = q.getBgpRouterId ∧
  r.attrs.val.clusterList.length = q.attrs.val.clusterList.length ∧
  RouteInfo.transformIP2Int r.peer.addr = RouteInfo.transformIP2Int q.peer.addr ∧
  RouteInfo.transformIP2Int r.nexthop = RouteInfo.transformIP2Int q.nexthop

theorem ranksOf_eq_iff {config : SelectionConfig F} {nexthops : NexthopInfoMap} {r q : RouteInfo F} :
    ranksOf (selectionRanks config nexthops) r = ranksOf (selectionRanks config nexthops) q ↔
      Tied config nexthops r q := by
  have htoNat : ∀ a b : Bool, a.toNat = b.toNat ↔ a = b := by decide
  have hrank : ∀ choice, rankBy (RouteInfo.rule config.features nexthops) choice r =
      rankBy (RouteInfo.rule config.features nexthops) choice q ↔
        RouteInfo.rule config.features nexthops choice.1 r = RouteInfo.rule config.features nexthops choice.1 q := by
    rintro ⟨metric, _ | _⟩ <;> simp [rankBy, preference]
  rw [ranksOf, ranksOf, selectionRanks, map_map, map_map, map_inj_left, selectionRules, multiPathRules, bestPathRules,
    Tied]
  simp only [Function.comp_apply, hrank, forall_mem_append, forall_mem_cons]
  cases config.countConfedsInAsPathLen <;> cases config.features.enableEiBgpMultipath <;>
    simp [RouteInfo.rule, htoNat] <;> tauto

variable [Zero F] (entry : RibEntry F)

theorem map_withoutSendId_assignSendPathIds (paths : List (RouteInfo F)) :
    (entry.assignSendPathIds paths).1.map RouteInfo.withoutSendId = paths.map RouteInfo.withoutSendId := by
  induction paths generalizing entry with
  | nil => rfl
  | cons path paths ih =>
    have hpath : (entry.getOrAssignSendPathId path).1.withoutSendId = path.withoutSendId := by
      unfold RibEntry.getOrAssignSendPathId
      split <;> rfl
    show (entry.getOrAssignSendPathId path).1.withoutSendId :: _ = _
    rw [hpath, map_cons]
    exact congrArg _ (ih _)

/-- The selected paths, as a set, and the best one, each named by its key. -/
def chosen (routes : List (RouteInfo F)) :
    Multiset (BgpPeerId × Nat) × Option (BgpPeerId × Nat) :=
  let (selectedPaths, entry) := entry.multiPathSelection config nexthops routes
  (Multiset.ofList (selectedPaths.map RouteInfo.key),
    (entry.bestPathSelection config nexthops selectedPaths).bestpath.map RouteInfo.key)

section

variable (config : SelectionConfig F)

section

variable (nexthops : NexthopInfoMap) (entry : RibEntry F) {r : RouteInfo F}

theorem map_key_multiPathSelection
    (routes : List (RouteInfo F)) : (entry.multiPathSelection config nexthops routes).1.map RouteInfo.key =
      (multipathSelector config nexthops routes).map RouteInfo.key := by
  have hkeys := congrArg (List.map RouteInfo.key)
    (map_withoutSendId_assignSendPathIds entry (multipathSelector config nexthops routes))
  rw [map_map, map_map] at hkeys
  exact hkeys

/-- The best path is the first one that both selections leave. -/
theorem chosen_snd
    (h : (bestpathSelector config nexthops (multipathSelector config nexthops routes)).head? = some r) :
    (chosen config nexthops entry routes).2 = some r.key := by
  have hkeys := congrArg List.head? (map_key_bestpathSelector config nexthops
    (map_withoutSendId_assignSendPathIds entry (multipathSelector config nexthops routes)))
  rw [List.head?_map, List.head?_map, h] at hkeys
  obtain ⟨best, hbest, hkey⟩ := Option.map_eq_some_iff.mp hkeys
  have hselection : (chosen config nexthops entry routes).2 =
      ((entry.multiPathSelection config nexthops routes).2.bestPathSelection config nexthops
        (entry.multiPathSelection config nexthops routes).1).bestpath.map RouteInfo.key := rfl
  rw [hselection, RibEntry.bestPathSelection, RibEntry.multiPathSelection, hbest, ← hkey]
  rfl

/-- A first path that none is preferred to is the best one. -/
theorem chosen_snd_cons (h : IsFirst (selectionRanks config nexthops) (r :: routes) r) :
    (chosen config nexthops entry (r :: routes)).2 = some r.key := by
  refine chosen_snd config nexthops entry ?_
  rw [bestpathSelector_eq, multipathSelector_eq, ← narrow_append, ← map_append]
  exact head?_narrow (mem_narrow.mpr h)

theorem chosen_fst_perm {routes' : List (RouteInfo F)} (h : routes.Perm routes') :
    (chosen config nexthops entry routes).1 = (chosen config nexthops entry routes').1 := by
  show Multiset.ofList ((entry.multiPathSelection config nexthops routes).1.map RouteInfo.key) =
    Multiset.ofList ((entry.multiPathSelection config nexthops routes').1.map RouteInfo.key)
  rw [map_key_multiPathSelection, map_key_multiPathSelection, multipathSelector_eq, multipathSelector_eq]
  exact Multiset.coe_eq_coe.mpr ((narrow_perm h).map _)

/-- Where no two candidates tie, whatever order they come in yields the same best path. -/
theorem chosen_snd_perm {routes' : List (RouteInfo F)} (h : routes.Perm routes')
    (hunique : ∀ r q, IsFirst (selectionRanks config nexthops) routes r →
      IsFirst (selectionRanks config nexthops) routes q → r = q) :
    (chosen config nexthops entry routes).2 = (chosen config nexthops entry routes').2 := by
  by_cases hrts : routes = []
  · subst hrts
    rw [nil_perm.mp h]
  · have hrts' : routes' ≠ [] := fun hnil => hrts (perm_nil.mp (hnil ▸ h))
    obtain ⟨r, hr, hfirst⟩ := exists_head_bestpathSelector config nexthops hrts
    obtain ⟨q, hq, hfirst'⟩ := exists_head_bestpathSelector config nexthops hrts'
    have heq : r = q := hunique r q hfirst ((isFirst_perm h).mpr hfirst')
    rw [chosen_snd config nexthops entry hr, chosen_snd config nexthops entry hq, heq]

end

end

/-- A path of one peer, which sends several under ids of its own. -/
def addPath (receivedPathId : Nat) : RouteInfo Nat :=
  { object := receivedPathId, pfx := samplePrefix, peer := ebgpPeer 1, attrs := attrsVia 0 1, receivedPathId }

/-- The settings of a RIB with every optional comparison switched off, and without weights. -/
def plainConfig : SelectionConfig Nat where
  features := {}
  countConfedsInAsPathLen := false
  computeUcmp := false
  ucmpWidth := 0
  arithmetic :=
    { isNonnegative := fun _ => true, isPositive := fun x => decide (0 < x), add := (· + ·)
      exceedsGBps := fun _ => false, exceedsMBps := fun _ => false, quantize := id, toUcmpWeight := fun x _ => x }

/-- The two paths tie on every metric. -/
theorem isFirst_addPath {id : Nat} (h : id ∈ [1, 2]) :
    IsFirst (selectionRanks plainConfig fun _ => none) [addPath 1, addPath 2] (addPath id) := by
  refine ⟨mem_map_of_mem (f := addPath) h, fun q hq => ?_⟩
  obtain ⟨id', -, rfl⟩ := mem_map.mp (show q ∈ [1, 2].map addPath from hq)
  exact lex_irrefl lt_irrefl _

end

variable (nexthops : NexthopInfoMap)

theorem multipathSelector_subset (routes : List (RouteInfo F)) : multipathSelector config nexthops routes ⊆ routes := by
  rw [multipathSelector_eq]
  exact (narrow_sublist _ routes).subset

theorem exists_best {paths : List (RouteInfo F)}
    (h : paths ≠ []) : ∃ best ∈ paths, (bestpathSelector config nexthops paths).head? = some best := by
  have hne : bestpathSelector config nexthops paths ≠ [] := by
    rw [bestpathSelector_eq]
    exact narrow_ne_nil h
  obtain ⟨best, rest, hcons⟩ := ne_nil_iff_exists_cons.mp hne
  refine ⟨best, ?_, congrArg List.head? hcons⟩
  have hsub : bestpathSelector config nexthops paths ⊆ paths := by
    rw [bestpathSelector_eq]
    exact (narrow_sublist _ paths).subset
  exact hsub (hcons ▸ mem_cons_self)

/-- The part of an entry that selection does not touch. -/
structure EntryFrame (F : Type) where
  pfx : CIDRNetwork
  hasFibOutState : Bool
  advertisedBestpath : Option (RouteInfo F)
  advertisedMultipaths : List (Nat × RouteInfo F)
  advertisedWeightedNexthops : Option (SharedPtr WeightedNexthopMap)

namespace RibEntry

variable {x : Nat × RouteInfo F} {path : RouteInfo F}

theorem mem_emplaceMultipath {multipaths : List (Nat × RouteInfo F)}
    (h : x ∈ emplaceMultipath multipaths path) : x ∈ multipaths ∨ x.2 = path := by
  unfold emplaceMultipath at h
  split at h
  · split at h
    · exact .inl h
    · rcases mem_append.mp h with h | h
      · exact .inl h
      · exact .inr (mem_singleton.mp h ▸ rfl)
  · exact .inl h

theorem mem_multipathsOf {selected : List (RouteInfo F)} (h : x ∈ multipathsOf selected) : x.2 ∈ selected := by
  have hfold : ∀ (paths : List (RouteInfo F)) (map : List (Nat × RouteInfo F)),
      x ∈ paths.foldl emplaceMultipath map → x ∈ map ∨ x.2 ∈ paths := by
    intro paths
    induction paths with
    | nil => exact fun map hx => .inl hx
    | cons path paths ih =>
      intro map hx
      rcases ih _ hx with hx | hx
      · rcases mem_emplaceMultipath hx with hx | hx
        · exact .inl hx
        · exact .inr (hx ▸ mem_cons_self)
      · exact .inr (mem_cons_of_mem _ hx)
  exact (hfold selected [] h).resolve_left not_mem_nil

/-- A path that replaces one that differs only in its id leaves the routes as they are. -/
theorem map_withoutSendId_put {infos : RouteInfos F} (path : RouteInfo F)
    (h : path.withoutSendId ∈ infos.paths.map RouteInfo.withoutSendId) :
    (infos.put path).paths.map RouteInfo.withoutSendId = infos.paths.map RouteInfo.withoutSendId := by
  obtain ⟨old, hold, heq⟩ := mem_map.mp h
  have hkey : old.withoutSendId.key = path.withoutSendId.key := congrArg RouteInfo.key heq
  obtain ⟨before, after, hsplit, hput⟩ :=
    Keyed.items_put_of_some (t := infos.table) (x := path) (Keyed.find_eq_some_iff.mpr ⟨hold, hkey⟩)
  show (infos.table.put path).items.map RouteInfo.withoutSendId = infos.table.items.map RouteInfo.withoutSendId
  rw [hput, hsplit, map_append, map_append, map_cons, map_cons, heq]

theorem map_object_of_not_differs {a b : Option (RouteInfo F)} {rest rest' : Bool}
    (h : (pathDiffers a b || rest || rest') = false) : b.map (·.object) = a.map (·.object) := by
  simp only [Bool.or_eq_false_iff, pathDiffers, bne_eq_false_iff_eq] at h
  exact h.1.1.symm

variable [Zero F]

/-- The paths of an entry, without the ids they are sent under. -/
def routes (entry : RibEntry F) : List (RouteInfo F) := entry.routeInfos.paths.map RouteInfo.withoutSendId

variable {entry : RibEntry F} {config : SelectionConfig F} {nexthops : NexthopInfoMap} {old : RibEntry F}
  {routes : List (RouteInfo F)}

theorem mem_routes {r : RouteInfo F} (h : r ∈ entry.routeInfos.paths) :
    r.withoutSendId ∈ entry.routes := mem_map_of_mem h

theorem getAllPathsCnt_eq (entry : RibEntry F) : entry.getAllPathsCnt = entry.routes.length := by
  rw [getAllPathsCnt, entry.routeInfos.count_eq, routes, length_map]
  rfl

/-- The entries differ only in ids that paths are sent under. -/
def Renumbered (entry entry' : RibEntry F) : Prop :=
  ∃ infos interval, entry' = { entry with routeInfos := infos, freePathIdInterval := interval } ∧
    entry'.routes = entry.routes

theorem Renumbered.refl (entry : RibEntry F) : entry.Renumbered entry :=
  ⟨entry.routeInfos, entry.freePathIdInterval, rfl, rfl⟩

theorem Renumbered.trans {first second third : RibEntry F} (h : first.Renumbered second)
    (h' : second.Renumbered third) : first.Renumbered third := by
  obtain ⟨infos, interval, rfl, hrts⟩ := h
  obtain ⟨infos', interval', rfl, hrts'⟩ := h'
  exact ⟨infos', interval', rfl, hrts'.trans hrts⟩

theorem renumbered_getOrAssignSendPathId
    (h : path.withoutSendId ∈ entry.routes) : entry.Renumbered (entry.getOrAssignSendPathId path).2 := by
  unfold getOrAssignSendPathId
  split
  · exact .refl entry
  · exact ⟨_, _, rfl, map_withoutSendId_put { path with pathIdToSend := some entry.getPathIdToSend.1 } h⟩

theorem renumbered_assignSendPathIds {paths : List (RouteInfo F)}
    (h : ∀ path ∈ paths, path.withoutSendId ∈ entry.routes) : entry.Renumbered (entry.assignSendPathIds paths).2 := by
  induction paths generalizing entry with
  | nil => exact .refl entry
  | cons path paths ih =>
    have hfirst := renumbered_getOrAssignSendPathId (h path mem_cons_self)
    obtain ⟨-, -, -, hrts⟩ := hfirst
    refine (renumbered_getOrAssignSendPathId (h path mem_cons_self)).trans (ih fun q hq => ?_)
    rw [hrts]
    exact h q (mem_cons_of_mem _ hq)

theorem withoutSendId_mem_of_selected
    (hrts : routes ⊆ entry.routeInfos.paths) {r : RouteInfo F}
    (hr : r ∈ (entry.multiPathSelection config nexthops routes).1) : r.withoutSendId ∈ entry.routes := by
  have hmem : r.withoutSendId ∈ (entry.multiPathSelection config nexthops routes).1.map RouteInfo.withoutSendId :=
    mem_map_of_mem hr
  rw [multiPathSelection, map_withoutSendId_assignSendPathIds] at hmem
  obtain ⟨q, hq, heq⟩ := mem_map.mp hmem
  rw [← heq]
  exact mem_routes (hrts (multipathSelector_subset config nexthops routes hq))

theorem renumbered_multiPathSelection (hrts : routes ⊆ entry.routeInfos.paths) :
    entry.Renumbered (entry.multiPathSelection config nexthops routes).2 :=
  renumbered_assignSendPathIds fun _ hpath =>
    mem_routes (hrts (multipathSelector_subset config nexthops routes hpath))

theorem buildAndNormalizeWeightedNexthops_snd (config : SelectionConfig F) (entry : RibEntry F)
    (selectedPaths : List (RouteInfo F)) (lbwMultiplier : LbwMultiplier) :
    (entry.buildAndNormalizeWeightedNexthops config selectedPaths lbwMultiplier).2 =
      { entry with multipaths := multipathsOf selectedPaths } := by
  unfold buildAndNormalizeWeightedNexthops
  dsimp only
  split <;> rfl

/-- The part of an entry that selection does not touch. -/
def frame (entry : RibEntry F) : EntryFrame F :=
  ⟨entry.pfx, entry.hasFibOutState, entry.advertisedBestpath, entry.advertisedMultipaths,
    entry.advertisedWeightedNexthops⟩

variable (config nexthops old)

/-- The paths that may be selected. -/
def eligible : List (RouteInfo F) := (old.prePathSelectionFiltering config.features nexthops).1

/-- The entry as selection starts from it. -/
def filtered : RibEntry F :=
  { old with
    needPathSelection := false, aggregateReceivedUcmpWeight := 0, aggregateLocalUcmpWeight := 0
    nexthopsAndTopoInfo := none
    inactivePathCount := (old.prePathSelectionFiltering config.features nexthops).2.inactivePathCount }

/-- The paths that share the traffic, with the entry that holds their ids. -/
def selection : List (RouteInfo F) × RibEntry F :=
  (old.filtered config nexthops).multiPathSelection config nexthops (old.eligible config nexthops)

theorem eligible_subset : old.eligible config nexthops ⊆ (old.filtered config nexthops).routeInfos.paths :=
  filter_subset_self _

variable {config nexthops old}

theorem selection_fst_ne_nil (h : old.eligible config nexthops ≠ []) : (old.selection config nexthops).1 ≠ [] := by
  intro hnil
  have hrts := map_withoutSendId_assignSendPathIds (old.filtered config nexthops)
    (multipathSelector config nexthops (old.eligible config nexthops))
  rw [show ((old.filtered config nexthops).assignSendPathIds
    (multipathSelector config nexthops (old.eligible config nexthops))).1 = [] from hnil, map_nil] at hrts
  rw [multipathSelector_eq] at hrts
  exact narrow_ne_nil h (map_eq_nil_iff.mp hrts.symm)

theorem mem_routes_of_mem_selection
    {r : RouteInfo F} (h : r ∈ (old.selection config nexthops).1) : r.withoutSendId ∈ old.routes :=
  withoutSendId_mem_of_selected (eligible_subset config nexthops old) h

variable [DecidableEq F] (object : Nat) (config nexthops old)

/-- The entry with the sums of the selected paths' weights. -/
def weighted : LbwMultiplier × Bool × RibEntry F :=
  (old.selection config nexthops).2.accumulateAggregateWeightsAndTopoInfo config.arithmetic
    (old.selection config nexthops).1 old.nexthopsAndTopoInfo

/-- The entry once the paths that share the traffic, the best path and the weights are known, with the weights. -/
def afterSelection : WeightedNexthopMap × RibEntry F :=
  ((old.weighted config nexthops).2.2.bestPathSelection config nexthops
    (old.selection config nexthops).1).buildAndNormalizeWeightedNexthops config (old.selection config nexthops).1
      (old.weighted config nexthops).1

theorem frame_weighted :
    (old.weighted config nexthops).2.2.frame = old.frame ∧
      (old.weighted config nexthops).2.2.weightedNexthops = old.weightedNexthops ∧
      (old.weighted config nexthops).2.2.routes = old.routes := by
  obtain ⟨infos, interval, hentry, hrts⟩ : (old.filtered config nexthops).Renumbered (old.selection config nexthops).2 :=
    renumbered_multiPathSelection (eligible_subset config nexthops old)
  refine ⟨?_, ?_, hrts⟩
  · rw [weighted, hentry]; rfl
  · rw [weighted, hentry]; rfl

variable {config nexthops old}

theorem selectBestPath_of_eligible (h : old.eligible config nexthops ≠ []) :
    old.selectBestPath config nexthops object =
      old.computeChangePair (old.afterSelection config nexthops).2 object (old.weighted config nexthops).2.1
        (old.afterSelection config nexthops).1 := by
  have hempty : ¬(old.eligible config nexthops).isEmpty = true := by simpa using h
  exact (if_neg hempty).trans rfl

theorem selectBestPath_of_not_eligible (h : old.eligible config nexthops = []) :
    old.selectBestPath config nexthops object = (old.bestpath.isSome, old.weightedNexthops.isSome,
        { old.filtered config nexthops with
          bestpath := none, multipaths := [], installToFib := true, weightedNexthops := none }) :=
  (if_pos (by rw [h]; rfl : (old.eligible config nexthops).isEmpty = true)).trans rfl

/-- The selection leaves the best of the selected paths, and their map. -/
theorem exists_afterSelection_eq (h : old.eligible config nexthops ≠ []) :
    ∃ best ∈ (old.selection config nexthops).1, (old.afterSelection config nexthops).2 =
      { (old.weighted config nexthops).2.2 with
        bestpath := some best, installToFib := best.installToFib
        multipaths := multipathsOf (old.selection config nexthops).1 } := by
  obtain ⟨best, hbest, hhead⟩ := exists_best config nexthops (selection_fst_ne_nil h)
  refine ⟨best, hbest, ?_⟩
  rw [afterSelection, bestPathSelection, hhead, buildAndNormalizeWeightedNexthops_snd]

/-- What a selection may do to an entry; `object` is the identity of the nexthops made by it. -/
structure Selected (object : Nat) (old entry : RibEntry F) (bestpathChanged nexthopChanged : Bool) : Prop where
  frame : entry.frame = old.frame
  routes : entry.routes = old.routes
  bestpath_mem : ∀ b, entry.bestpath = some b → b.withoutSendId ∈ old.routes
  multipaths_mem : ∀ x ∈ entry.multipaths, x.2.withoutSendId ∈ old.routes
  bestpath_eq_none_iff : entry.bestpath = none ↔ entry.weightedNexthops = none
  weightedNexthops : entry.weightedNexthops = none ∨ entry.weightedNexthops = old.weightedNexthops ∨
    ∃ map, entry.weightedNexthops = some ⟨object, map⟩
  of_bestpathChanged : bestpathChanged = false → entry.bestpath.map (·.object) = old.bestpath.map (·.object)
  of_nexthopChanged : nexthopChanged = false → entry.weightedNexthops = old.weightedNexthops

theorem computeChangePair_of_bestpath {best : RouteInfo F} (h : entry.bestpath = some best)
    (object : Nat) (topoInfoChanged : Bool) (map : WeightedNexthopMap) :
    old.computeChangePair entry object topoInfoChanged map =
      if old.weightedNexthops.all fun nexthops => mapsDiffer map nexthops.val then
        (pathDiffers old.bestpath entry.bestpath ||
          entry.aggregateReceivedUcmpWeight != old.aggregateReceivedUcmpWeight ||
          entry.aggregateLocalUcmpWeight != old.aggregateLocalUcmpWeight, true,
          { entry with weightedNexthops := some ⟨object, map⟩ })
      else
        (pathDiffers old.bestpath entry.bestpath ||
          entry.aggregateReceivedUcmpWeight != old.aggregateReceivedUcmpWeight ||
          entry.aggregateLocalUcmpWeight != old.aggregateLocalUcmpWeight, topoInfoChanged, entry) := by
  have hsome : (old.bestpath.isNone && entry.bestpath.isNone) = false := by simp [h]
  unfold computeChangePair
  cases old.weightedNexthops.all fun nexthops => mapsDiffer map nexthops.val <;> simp [hsome]

theorem selected_selectBestPath (config : SelectionConfig F) (nexthops : NexthopInfoMap) (object : Nat)
    (old : RibEntry F) :
    Selected object old (old.selectBestPath config nexthops object).2.2 (old.selectBestPath config nexthops object).1
      (old.selectBestPath config nexthops object).2.1 := by
  by_cases helig : old.eligible config nexthops = []
  · rw [selectBestPath_of_not_eligible object helig]
    refine ⟨rfl, rfl, fun _ hb => (nomatch hb), fun _ hx => (nomatch hx), ⟨fun _ => rfl, fun _ => rfl⟩, .inl rfl, ?_, ?_⟩
    · intro hnone
      rw [Option.isSome_eq_false_iff, Option.isNone_iff_eq_none] at hnone
      rw [hnone]
    · intro hnone
      rw [Option.isSome_eq_false_iff, Option.isNone_iff_eq_none] at hnone
      rw [hnone]
  · obtain ⟨best, hbest, hentry⟩ := exists_afterSelection_eq helig
    obtain ⟨hframe, hnhs, hrts⟩ := frame_weighted config nexthops old
    have hmps : ∀ x ∈ multipathsOf (old.selection config nexthops).1, x.2.withoutSendId ∈ old.routes :=
      fun x hx => mem_routes_of_mem_selection (mem_multipathsOf hx)
    have hmem : ∀ b, some best = some b → b.withoutSendId ∈ old.routes := by
      rintro b ⟨rfl⟩
      exact mem_routes_of_mem_selection hbest
    rw [selectBestPath_of_eligible object helig, hentry, computeChangePair_of_bestpath rfl]
    generalize (old.weighted config nexthops).2.2 = weighted at hframe hnhs hrts
    split
    · exact ⟨hframe, hrts, hmem, hmps, by simp, .inr (.inr ⟨_, rfl⟩), map_object_of_not_differs, nofun⟩
    next hmap =>
      -- the nexthops stay as they are, so there were some
      have hsome : old.weightedNexthops ≠ none := by
        intro hnone
        rw [hnone] at hmap
        exact hmap rfl
      refine ⟨hframe, hrts, hmem, hmps, ⟨nofun, fun hnone => ?_⟩, .inr (.inl hnhs),
        map_object_of_not_differs, fun _ => hnhs⟩
      exact absurd (hnhs.symm.trans hnone) hsome

end RibEntry

end FbossBgp.Rib
