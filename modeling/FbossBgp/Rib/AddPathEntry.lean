import FbossBgp.Rib.BestpathReplay

/-! The selected paths of an entry and their nexthops. The nexthops of the selected paths are those that get a weight,
unless the weight of one of them comes to 0, and what was advertised of an entry is told by comparing objects. -/

namespace FbossBgp.Rib

open BgpLib List

variable {F : Type} (multipaths : List (Nat × RouteInfo F))

/-- The nexthops of selected paths. -/
def nexthopsOf : List IPAddress := multipaths.map fun x => x.2.nexthop

def weightedKeys (nexthops : Option (SharedPtr WeightedNexthopMap)) : List IPAddress :=
  (nexthops.map fun nexthops => nexthops.val.map Prod.fst).getD []

/-- Peers know a path with the attributes. -/
def Carries (nexthop : IPAddress) (attrs : BgpPath F) : Prop :=
  ∃ x ∈ multipaths, x.2.nexthop = nexthop ∧ x.2.attrs.val = attrs

theorem mem_map_fst_emplace {K V : Type} [DecidableEq K] {map : List (K × V)} {key k : K} {value : V} :
    k ∈ (emplace map key value).map Prod.fst ↔ k ∈ map.map Prod.fst ∨ k = key := by
  unfold emplace
  split
  next hany =>
    obtain ⟨x, hx, hkey⟩ := any_eq_true.mp hany
    refine ⟨.inl, fun h => h.elim id fun heq => ?_⟩
    rw [heq, ← beq_iff_eq.mp hkey]
    exact mem_map_of_mem hx
  · rw [map_append, mem_append, map_singleton, mem_singleton]

theorem mem_map_fst_foldl_emplace {α K V : Type} [DecidableEq K] (key : α → K) (value : α → V) (xs : List α)
    (map : List (K × V)) (k : K) : k ∈ (xs.foldl (fun map x => emplace map (key x) (value x)) map).map Prod.fst ↔
      k ∈ map.map Prod.fst ∨ k ∈ xs.map key := by
  induction xs generalizing map with
  | nil => rw [foldl_nil, map_nil, or_iff_left not_mem_nil]
  | cons x xs ih => rw [foldl_cons, ih, mem_map_fst_emplace, map_cons, mem_cons, or_assoc]

namespace RibEntry

/-- A path that has an id is in the map under it, or another one is. -/
theorem exists_mem_multipathsOf {selected : List (RouteInfo F)} {path : RouteInfo F} (hpath : path ∈ selected) {id : Nat}
    (hid : path.pathIdToSend = some id) : ∃ x ∈ multipathsOf selected, x.1 = id := by
  have hkeep : ∀ (paths : List (RouteInfo F)) (map : List (Nat × RouteInfo F)), (∃ x ∈ map, x.1 = id) →
      ∃ x ∈ paths.foldl emplaceMultipath map, x.1 = id := by
    intro paths
    induction paths with
    | nil => exact fun _ h => h
    | cons q paths ih =>
      rintro map ⟨x, hx, hxid⟩
      refine ih _ ⟨x, ?_, hxid⟩
      unfold emplaceMultipath
      split
      · split
        · exact hx
        · exact mem_append_left _ hx
      · exact hx
  have hfold : ∀ (paths : List (RouteInfo F)) (map : List (Nat × RouteInfo F)), path ∈ paths →
      ∃ x ∈ paths.foldl emplaceMultipath map, x.1 = id := by
    intro paths
    induction paths with
    | nil => exact fun _ h => (not_mem_nil h).elim
    | cons q paths ih =>
      intro map hmem
      rcases mem_cons.mp hmem with rfl | hmem
      · refine hkeep paths _ ?_
        unfold emplaceMultipath
        rw [hid]
        dsimp only
        split
        next hany =>
          obtain ⟨x, hx, hxid⟩ := any_eq_true.mp hany
          exact ⟨x, hx, beq_iff_eq.mp hxid⟩
        · exact ⟨(id, path), mem_append_right _ (mem_singleton.mpr rfl), rfl⟩
      · exact ih _ hmem
  exact hfold selected [] hpath

variable [Zero F]

variable {entry : RibEntry F} {config : SelectionConfig F} {nexthops : NexthopInfoMap} {old : RibEntry F}
  {r : RouteInfo F}

theorem isSome_pathIdToSend_of_mem_assignSendPathIds {paths : List (RouteInfo F)}
    (h : r ∈ (entry.assignSendPathIds paths).1) : r.pathIdToSend.isSome := by
  have hfirst : ∀ (entry : RibEntry F) path, (entry.getOrAssignSendPathId path).1.pathIdToSend.isSome := by
    intro entry path
    unfold getOrAssignSendPathId
    split
    next hid => exact Option.isSome_of_eq_some hid
    · rfl
  induction paths generalizing entry with
  | nil => exact (not_mem_nil h).elim
  | cons path paths ih =>
    rcases mem_cons.mp h with heq | h
    · exact heq ▸ hfirst entry path
    · exact ih h

theorem mem_nexthopsOf_of_mem_weights {selected : List (RouteInfo F)}
    (hids : ∀ r ∈ selected, r.pathIdToSend.isSome) {lbwMultiplier : LbwMultiplier} {nexthop : IPAddress}
    (h : nexthop ∈ (entry.buildAndNormalizeWeightedNexthops config selected lbwMultiplier).1.map Prod.fst) :
    nexthop ∈ nexthopsOf (multipathsOf selected) := by
  let paths := selected.map fun path =>
    (((multipathsOf selected).find? fun x => some x.1 == path.pathIdToSend).map (·.2)).getD path
  have hpaths : ∀ path ∈ paths, path.nexthop ∈ nexthopsOf (multipathsOf selected) := by
    intro path hpath
    obtain ⟨r, hr, rfl⟩ := mem_map.mp hpath
    obtain ⟨id, hid⟩ := Option.isSome_iff_exists.mp (hids r hr)
    obtain ⟨x, hx, hxid⟩ := exists_mem_multipathsOf hr hid
    cases hfind : (multipathsOf selected).find? fun x => some x.1 == r.pathIdToSend with
    | none =>
      rw [List.find?_eq_none] at hfind
      exact absurd (by rw [hid, hxid]; exact beq_self_eq_true _) (hfind x hx)
    | some y => exact mem_map_of_mem (mem_of_find?_eq_some hfind)
  have hmem : nexthop ∈ paths.map RouteInfo.nexthop := by
    unfold buildAndNormalizeWeightedNexthops at h
    dsimp only at h
    split at h
    · obtain ⟨x, hx, rfl⟩ := mem_map.mp h
      have hkey := mem_map_of_mem (f := Prod.fst) (mem_filter.mp hx).1
      rw [map_map] at hkey
      have hzip := ((mem_map_fst_foldl_emplace (fun x : RouteInfo F × Nat => x.1.nexthop) Prod.snd _ [] _).mp hkey)
      obtain ⟨y, hy, hyx⟩ := mem_map.mp (hzip.resolve_left not_mem_nil)
      exact hyx ▸ mem_map_of_mem (of_mem_zip hy).1
    · exact ((mem_map_fst_foldl_emplace RouteInfo.nexthop (fun _ => 0) paths [] _).mp h).resolve_left not_mem_nil
  obtain ⟨path, hpath, rfl⟩ := mem_map.mp hmem
  exact hpaths path hpath

structure AddPathReady (entry : RibEntry F) : Prop where
  /-- The nexthops with weights are those of the selected paths. -/
  keys : ∀ nexthop, nexthop ∈ weightedKeys entry.weightedNexthops ↔ nexthop ∈ nexthopsOf entry.multipaths
  coherent : ∀ x ∈ entry.multipaths, ∀ y ∈ entry.multipaths, x.2.nexthop = y.2.nexthop → x.2.attrs.val = y.2.attrs.val
  multipaths_ne_nil : entry.bestpath ≠ none → entry.multipaths ≠ []

theorem AddPathReady.multipaths_eq_nil (h : entry.AddPathReady)
    (hnhs : entry.weightedNexthops = none) : entry.multipaths = [] := by
  have hnil : nexthopsOf entry.multipaths = [] := by
    refine eq_nil_iff_forall_not_mem.mpr fun nexthop hmem => ?_
    have hkey := (h.keys nexthop).mpr hmem
    rw [hnhs] at hkey
    exact not_mem_nil hkey
  exact map_eq_nil_iff.mp hnil

variable [DecidableEq F] {object : Nat} {best : RouteInfo F} {next : Nat}

/-- A selection that lets peers follow: a prefix is not withdrawn while paths are left that peers know, selected paths
with one nexthop have the same attributes, and no selected nexthop is dropped for its weight. -/
structure SelectsWell (config : SelectionConfig F) (nexthops : NexthopInfoMap) (entry : RibEntry F) : Prop where
  gone : entry.eligible config nexthops = [] → entry.advertisedBestpath.isSome →
    ∀ x ∈ entry.advertisedMultipaths, ∀ r ∈ entry.routes, r.object ≠ x.2.object
  coherent : ∀ r ∈ (entry.selection config nexthops).1, ∀ r' ∈ (entry.selection config nexthops).1,
    r.nexthop = r'.nexthop → r.attrs.val = r'.attrs.val
  weights : ∀ x ∈ (entry.afterSelection config nexthops).2.multipaths,
    x.2.nexthop ∈ (entry.afterSelection config nexthops).1.map Prod.fst

theorem addPathReady_of_not_eligible (h : old.eligible config nexthops = []) :
    (old.selectBestPath config nexthops object).2.2.AddPathReady := by
  rw [selectBestPath_of_not_eligible object h]
  exact ⟨fun _ => Iff.rfl, fun _ hx => (nomatch hx), fun hbest => absurd rfl hbest⟩

/-- The nexthops of a selection are those of the map it made, be it new or the one of before. -/
theorem mem_weightedKeys_computeChangePair (hbest : entry.bestpath = some best)
    (hold : entry.weightedNexthops = old.weightedNexthops) (object : Nat) (topoInfoChanged : Bool)
    (map : WeightedNexthopMap) (nexthop : IPAddress) :
    nexthop ∈ weightedKeys (old.computeChangePair entry object topoInfoChanged map).2.2.weightedNexthops ↔
      nexthop ∈ map.map Prod.fst := by
  rw [computeChangePair_of_bestpath hbest]
  split
  · exact Iff.rfl
  next hsame =>
    rw [hold]
    cases hnhs : old.weightedNexthops with
    | none => simp [hnhs] at hsame
    | some kept =>
      rw [hnhs, Option.all_some, mapsDiffer, Bool.not_eq_true, Bool.not_eq_false', decide_eq_true_iff] at hsame
      exact (hsame.map Prod.fst).mem_iff.symm

theorem multipaths_computeChangePair (hbest : entry.bestpath = some best)
    (object : Nat) (topoInfoChanged : Bool) (map : WeightedNexthopMap) :
    (old.computeChangePair entry object topoInfoChanged map).2.2.multipaths = entry.multipaths := by
  rw [computeChangePair_of_bestpath hbest]
  split <;> rfl

theorem addPathReady_of_eligible
    (h : old.eligible config nexthops ≠ []) (hwell : old.SelectsWell config nexthops) :
    (old.selectBestPath config nexthops object).2.2.AddPathReady := by
  obtain ⟨best, hbest, hafter⟩ := exists_afterSelection_eq h
  have hids : ∀ r ∈ (old.selection config nexthops).1, r.pathIdToSend.isSome := fun r hr =>
    isSome_pathIdToSend_of_mem_assignSendPathIds hr
  have hmps : (old.afterSelection config nexthops).2.multipaths = multipathsOf (old.selection config nexthops).1 := by
    rw [hafter]
  have hbp : (old.afterSelection config nexthops).2.bestpath = some best := by rw [hafter]
  have hnhs : (old.afterSelection config nexthops).2.weightedNexthops = old.weightedNexthops := by
    rw [hafter]
    exact (frame_weighted config nexthops old).2.1
  rw [selectBestPath_of_eligible object h]
  refine ⟨fun nexthop => ?_, fun x hx y hy heq => ?_, fun _ hnil => ?_⟩
  · rw [mem_weightedKeys_computeChangePair hbp hnhs, multipaths_computeChangePair hbp, hmps]
    constructor
    · exact fun hmem => mem_nexthopsOf_of_mem_weights hids hmem
    · intro hmem
      obtain ⟨x, hx, rfl⟩ := mem_map.mp hmem
      exact hwell.weights x (hmps ▸ hx)
  · rw [multipaths_computeChangePair hbp, hmps] at hx hy
    exact hwell.coherent x.2 (mem_multipathsOf hx) y.2 (mem_multipathsOf hy) heq
  · rw [multipaths_computeChangePair hbp, hmps] at hnil
    obtain ⟨id, hid⟩ := Option.isSome_iff_exists.mp (hids best hbest)
    obtain ⟨x, hx, -⟩ := exists_mem_multipathsOf hbest hid
    rw [hnil] at hx
    exact not_mem_nil hx

theorem SelectsWell.addPathReady (h : old.SelectsWell config nexthops) (object : Nat) :
    (old.selectBestPath config nexthops object).2.2.AddPathReady := by
  by_cases helig : old.eligible config nexthops = []
  · exact addPathReady_of_not_eligible helig
  · exact addPathReady_of_eligible helig h

/-- What was advertised of an entry to the peers that take more than the best path. -/
structure AddPathAdvertised (entry : RibEntry F) : Prop where
  keys : entry.advertisedBestpath.isSome → ∀ nexthop,
    nexthop ∈ weightedKeys entry.advertisedWeightedNexthops ↔ nexthop ∈ nexthopsOf entry.advertisedMultipaths
  /-- What was advertised of a prefix that is withdrawn is not there to be selected again. -/
  stale : entry.advertisedBestpath = none → ∀ x ∈ entry.advertisedMultipaths,
    (∀ r ∈ entry.routes, r.object ≠ x.2.object) ∧ ∀ y ∈ entry.multipaths, y.2.object ≠ x.2.object

structure AddPathConsistent (entry : RibEntry F) : Prop where
  ready : entry.AddPathReady
  advertised : entry.AddPathAdvertised

theorem addPathConsistent_new (pfx : CIDRNetwork) : ({ pfx } : RibEntry F).AddPathConsistent where
  ready := ⟨fun _ => Iff.rfl, fun _ hx => (nomatch hx), fun hbest => absurd rfl hbest⟩
  advertised := ⟨fun hsome => (nomatch hsome), fun _ _ hx => (nomatch hx)⟩

/-- A new path is none of those that were advertised. -/
theorem AddPathConsistent.updatePath (h : entry.AddPathConsistent)
    (hnum : WellNumbered entry.refs next) (peer : TinyPeerInfo F) (attrs : Option (BgpPathPtr F))
    (install : Bool) (pathId : Nat) :
    (entry.updatePath next peer attrs install pathId).1.AddPathConsistent := by
  unfold RibEntry.updatePath
  split
  next infos hinfos =>
    refine ⟨⟨h.ready.keys, h.ready.coherent, h.ready.multipaths_ne_nil⟩, h.advertised.keys, fun hnone x hx => ?_⟩
    obtain ⟨hrts, hmps⟩ := h.advertised.stale hnone x hx
    refine ⟨fun r hr => ?_, hmps⟩
    obtain ⟨q, hq, rfl⟩ := mem_map.mp hr
    rcases RouteInfos.mem_updatePath hinfos hq with hold | ⟨⟨hnew, -⟩, -⟩
    · exact hrts _ (mem_routes hold)
    · have hlt := hnum.lt x.2.ref (mem_refs.mpr (.inr (.inr (.inl ⟨x, hx, rfl⟩))))
      exact fun heq => absurd (hnew.symm.trans heq) hlt.ne'
  · exact h

theorem AddPathConsistent.selected {bestChanged nhChanged : Bool}
    (h : old.AddPathConsistent) (hsel : Selected object old entry bestChanged nhChanged)
    (hready : entry.AddPathReady) : entry.AddPathConsistent := by
  have hbest : entry.advertisedBestpath = old.advertisedBestpath := congrArg EntryFrame.advertisedBestpath hsel.frame
  have hmps : entry.advertisedMultipaths = old.advertisedMultipaths :=
    congrArg EntryFrame.advertisedMultipaths hsel.frame
  have hnhs : entry.advertisedWeightedNexthops = old.advertisedWeightedNexthops :=
    congrArg EntryFrame.advertisedWeightedNexthops hsel.frame
  refine ⟨hready, ?_, ?_⟩
  · rw [hbest, hmps, hnhs]
    exact h.advertised.keys
  · rw [hbest, hmps]
    intro hnone x hx
    obtain ⟨hrts, -⟩ := h.advertised.stale hnone x hx
    exact ⟨hsel.routes ▸ hrts, fun y hy => hrts y.2.withoutSendId (hsel.multipaths_mem y hy)⟩

theorem eligible_eq_nil_of_bestpath
    (h : (old.selectBestPath config nexthops object).2.2.bestpath = none) :
    old.eligible config nexthops = [] := by
  by_contra helig
  obtain ⟨best, -, hafter⟩ := exists_afterSelection_eq helig
  have hbest : (old.afterSelection config nexthops).2.bestpath = some best := by rw [hafter]
  rw [selectBestPath_of_eligible object helig, computeChangePair_of_bestpath hbest] at h
  split at h
  · cases hbest.symm.trans h
  · cases hbest.symm.trans h

/-- A prefix is withdrawn: no path is left that was advertised. -/
theorem AddPathConsistent.withdrawn (h : entry.AddPathConsistent) (hbest : entry.bestpath = none)
    (hnhs : entry.weightedNexthops = none)
    (hgone : entry.advertisedBestpath.isSome → ∀ x ∈ entry.advertisedMultipaths, ∀ r ∈ entry.routes,
      r.object ≠ x.2.object) (ribVersion : Nat) :
    (entry.committed ribVersion).AddPathConsistent := by
  rw [committed, hbest]
  refine ⟨⟨h.ready.keys, h.ready.coherent, fun hne => absurd rfl hne⟩, fun hsome => (Bool.false_ne_true hsome).elim,
    fun _ x hx => ?_⟩
  refine ⟨?_, fun y hy => ?_⟩
  · cases hadv : entry.advertisedBestpath with
    | none => exact (h.advertised.stale hadv x hx).1
    | some best => exact hgone (hadv ▸ rfl) x hx
  · have hy' : y ∈ entry.multipaths := hy
    rw [h.ready.multipaths_eq_nil hnhs] at hy'
    exact (not_mem_nil hy').elim

theorem AddPathConsistent.advertise (h : entry.AddPathConsistent) (hbest : entry.bestpath ≠ none)
    (ribVersion : Nat) : (entry.advertised ribVersion).AddPathConsistent :=
  ⟨⟨h.ready.keys, h.ready.coherent, h.ready.multipaths_ne_nil⟩, fun _ => h.ready.keys, fun hnone => absurd hnone hbest⟩

/-- What was advertised of a prefix that is not advertised any more differs from what is selected. -/
theorem AddPathConsistent.multipathChanged (h : entry.AddPathConsistent)
    (hbest : entry.bestpath ≠ none) (hadv : entry.advertisedBestpath = none) : entry.multipathChanged = true := by
  by_contra hsame
  rw [RibEntry.multipathChanged, multipathsDiffer, Bool.not_eq_true, Bool.not_eq_false', decide_eq_true_iff] at hsame
  obtain ⟨y, rest, hcons⟩ := ne_nil_iff_exists_cons.mp (h.ready.multipaths_ne_nil hbest)
  have hy : y ∈ entry.multipaths := hcons ▸ mem_cons_self
  obtain ⟨x, hx, heq⟩ := mem_map.mp (hsame.symm.subset (mem_map_of_mem hy))
  exact (h.advertised.stale hadv x hx).2 y hy (congrArg Prod.snd heq).symm

/-- Where the selected paths are the advertised ones they are known with their attributes. -/
theorem carries_iff_of_not_multipathChanged (hnum : WellNumbered entry.refs next)
    (hsame : entry.multipathChanged = false) (nexthop : IPAddress) (attrs : BgpPath F) :
    Carries entry.advertisedMultipaths nexthop attrs ↔ Carries entry.multipaths nexthop attrs := by
  rw [RibEntry.multipathChanged, multipathsDiffer, Bool.not_eq_false', decide_eq_true_iff] at hsame
  have hattrs : ∀ x ∈ entry.advertisedMultipaths, ∀ y ∈ entry.multipaths, x.2.object = y.2.object →
      x.2.attrs = y.2.attrs := fun x hx y hy heq =>
    hnum.eq x.2.ref (mem_refs.mpr (.inr (.inr (.inl ⟨x, hx, rfl⟩)))) y.2.ref
      (mem_refs.mpr (.inr (.inl ⟨y, hy, rfl⟩))) heq
  constructor
  · rintro ⟨x, hx, rfl, rfl⟩
    obtain ⟨y, hy, heq⟩ := mem_map.mp (hsame.subset (mem_map_of_mem hx))
    have hxy := hattrs x hx y hy (congrArg Prod.snd heq).symm
    exact ⟨y, hy, congrArg (fun attrs => attrs.val.nexthop) hxy.symm, congrArg SharedPtr.val hxy.symm⟩
  · rintro ⟨y, hy, rfl, rfl⟩
    obtain ⟨x, hx, heq⟩ := mem_map.mp (hsame.symm.subset (mem_map_of_mem hy))
    have hxy := hattrs x hx y hy (congrArg Prod.snd heq)
    exact ⟨x, hx, congrArg (fun attrs => attrs.val.nexthop) hxy, congrArg SharedPtr.val hxy⟩

end RibEntry

end FbossBgp.Rib
