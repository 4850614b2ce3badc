import FbossBgp.Rib.RibSteps

/-! The support counts of aggregates. A route supports every aggregate that covers its prefix: a prefix that is no
local route counts once, of a local route each path counts, and a path that originates an aggregate does not count.
The count of an aggregate is the number of its supporting routes, and it is originated while the count reaches its
minimum, as long as no RIB-in message touches the paths of the local peer at the prefix of an aggregate. -/

namespace FbossBgp.Rib

open BgpLib List Keyed

variable {F : Type}

def localPeerId : BgpPeerId := ⟨kLocalRoutePeerAddr, 0⟩

def ownKey : BgpPeerId × Nat := (localPeerId, kDefaultPathID)

variable (minSupportRoutes : Option Int) {old new : List (BgpPeerId × Nat)} {key : BgpPeerId × Nat} {n : Int}
  {announced : Bool}

/-- The routes that a prefix with the given paths gives to the aggregates that cover it. The minimum is that of a
local route for the prefix itself. -/
def supportsOf (keys : List (BgpPeerId × Nat)) : Nat :=
  match minSupportRoutes with
  | none => min keys.length 1
  | some minSupportRoutes =>
    if 0 < minSupportRoutes then keys.countP (fun key => key.1 ≠ localPeerId) else keys.length

theorem supportsOf_nil : supportsOf minSupportRoutes [] = 0 := by
  unfold supportsOf
  split
  · rfl
  · split <;> rfl

theorem supportsOf_of_pos (hn : 0 < n) (keys : List (BgpPeerId × Nat)) :
    supportsOf (some n) keys = keys.countP fun key => key.1 ≠ localPeerId := if_pos hn

theorem supportsOf_of_not_pos (hn : ¬0 < n) (keys : List (BgpPeerId × Nat)) :
    supportsOf (some n) keys = keys.length := if_neg hn

/-- The keys after an update of one of them: it is among them after an announcement and not after a withdrawal. -/
inductive KeyUpdate {α : Type} (key : α) : Bool → List α → List α → Prop
  | same {announced : Bool} {keys : List α} : (key ∈ keys ↔ announced = true) → KeyUpdate key announced keys keys
  | added {old new : List α} : key ∉ old → new.Perm (key :: old) → KeyUpdate key true old new
  | removed {old new : List α} : key ∉ new → old.Perm (key :: new) → KeyUpdate key false old new

namespace KeyUpdate

variable {α : Type} {key : α} {announced : Bool} {old new : List α}

section

variable (h : KeyUpdate key announced old new)
include h

theorem mem_self_iff : key ∈ new ↔ announced = true := by
  cases h with
  | same hmem => exact hmem
  | added _ hperm => exact iff_of_true (hperm.mem_iff.mpr mem_cons_self) rfl
  | removed hmem _ => exact iff_of_false hmem Bool.false_ne_true

theorem mem_iff_of_ne {other : α} (hne : other ≠ key) : other ∈ new ↔ other ∈ old := by
  cases h with
  | same _ => exact Iff.rfl
  | added _ hperm => rw [hperm.mem_iff, mem_cons, or_iff_right hne]
  | removed _ hperm => rw [hperm.mem_iff, mem_cons, or_iff_right hne]

theorem length_eq : new.length = old.length ∨ new.length = old.length + 1 ∨ new.length + 1 = old.length := by
  cases h with
  | same _ => exact .inl rfl
  | added _ hperm => exact .inr (.inl hperm.length_eq)
  | removed _ hperm => exact .inr (.inr hperm.length_eq.symm)

/-- A key that counts changes the count as it changes the length. -/
theorem countP_add_length {counts : α → Bool} (hkey : counts key = true) :
    new.countP counts + old.length = old.countP counts + new.length := by
  cases h with
  | same _ => rfl
  | added _ hperm =>
    rw [hperm.countP_eq, hperm.length_eq, countP_cons_of_pos hkey, length_cons]
    omega
  | removed _ hperm =>
    rw [hperm.countP_eq, hperm.length_eq, countP_cons_of_pos hkey, length_cons]
    omega

end

end KeyUpdate

/-- An update that is no path of the local peer at the prefix of an aggregate: what it supports grows or shrinks by
one exactly if it counts as an announcement or a withdrawal of a supporting route. -/
theorem supportsOf_keyUpdate {minSupportRoutes : Option Int} (h : KeyUpdate key announced old new)
    (hkey : ∀ n, minSupportRoutes = some n → 0 < n → key.1 ≠ localPeerId) :
    if RibBase.supportingRouteAnnouncement minSupportRoutes.isSome old.length new.length then
      supportsOf minSupportRoutes new = supportsOf minSupportRoutes old + 1
    else if RibBase.supportingRouteWithdrawn minSupportRoutes.isSome old.length new.length then
      supportsOf minSupportRoutes new + 1 = supportsOf minSupportRoutes old
    else supportsOf minSupportRoutes new = supportsOf minSupportRoutes old := by
  have hlen := h.length_eq
  cases minSupportRoutes with
  | none =>
    show if (old.length == 0 && new.length == 1 || false) = true then min new.length 1 = min old.length 1 + 1
      else if (old.length == 1 && new.length == 0 || false) = true then min new.length 1 + 1 = min old.length 1
      else min new.length 1 = min old.length 1
    grind
  | some n =>
    -- each path that comes or goes is a route
    have hdelta : supportsOf (some n) new + old.length = supportsOf (some n) old + new.length := by
      by_cases hn : 0 < n
      · rw [supportsOf_of_pos hn, supportsOf_of_pos hn]
        exact h.countP_add_length (decide_eq_true (hkey n rfl hn))
      · rw [supportsOf_of_not_pos hn, supportsOf_of_not_pos hn]
        exact Nat.add_comm _ _
    show if (false || new.length == old.length + 1) = true then _
      else if (false || new.length + 1 == old.length) = true then _ else _
    grind

/-- A path of the local peer supports no aggregate if it is one. -/
theorem supportsOf_keyUpdate_own (hn : 0 < n) (hkey : key.1 = localPeerId) (h : KeyUpdate key announced old new) :
    supportsOf (some n) new = supportsOf (some n) old := by
  rw [supportsOf_of_pos hn, supportsOf_of_pos hn]
  cases h with
  | same _ => rfl
  | added _ hperm => rw [hperm.countP_eq, countP_cons_of_neg (by simpa using hkey)]
  | removed _ hperm => rw [hperm.countP_eq, countP_cons_of_neg (by simpa using hkey)]

namespace RouteInfos

variable {infos : RouteInfos F}

theorem paths_put_of_none {path : RouteInfo F} (h : infos.find path.key = none) :
    (infos.put path).paths = path :: infos.paths := items_put_of_none h

theorem map_key_put_of_some {path old : RouteInfo F} (h : infos.find path.key = some old) :
    (infos.put path).paths.map RouteInfo.key = infos.paths.map RouteInfo.key := by
  obtain ⟨before, after, hitems, hput⟩ := items_put_of_some h
  have hkey : old.key = path.key := (find_eq_some_iff.mp h).2
  show (infos.table.put path).items.map RouteInfo.key = infos.table.items.map RouteInfo.key
  rw [hput, hitems, map_append, map_append, map_cons, map_cons, hkey]

end RouteInfos

namespace RibEntry

variable [Zero F] (entry : RibEntry F)

def keys : List (BgpPeerId × Nat) := entry.routeInfos.paths.map RouteInfo.key

theorem length_keys : entry.keys.length = entry.getAllPathsCnt := by
  rw [keys, length_map, getAllPathsCnt, entry.routeInfos.count_eq]
  rfl

theorem keys_of_routes {a b : RibEntry F} (h : a.routes = b.routes) : a.keys = b.keys := by
  have hkeys : ∀ entry : RibEntry F, entry.keys = entry.routes.map RouteInfo.key := by
    intro entry
    rw [routes, map_map]
    rfl
  rw [hkeys, hkeys, h]

theorem mem_keys_iff {entry : RibEntry F} :
    key ∈ entry.keys ↔ ∃ r, entry.routeInfos.find key = some r := by
  constructor
  · intro h
    obtain ⟨r, hr, rfl⟩ := mem_map.mp h
    exact ⟨r, find_key hr⟩
  · rintro ⟨r, hr⟩
    obtain ⟨hmem, rfl⟩ := find_eq_some_iff.mp hr
    exact mem_map_of_mem hmem

variable [DecidableEq F]

theorem keyUpdate_updatePath (object : Nat) (peer : TinyPeerInfo F)
    (attrs : Option (BgpPathPtr F)) (install : Bool) (pathId : Nat) :
    KeyUpdate (peer.peerId, pathId) attrs.isSome entry.keys
      (entry.updatePath object peer attrs install pathId).1.keys := by
  have hmem : (peer.peerId, pathId) ∈ entry.keys ↔ _ := mem_keys_iff
  unfold updatePath RouteInfos.updatePath
  cases hold : entry.routeInfos.find (peer.peerId, pathId) with
  | none =>
    have hnew : (peer.peerId, pathId) ∉ entry.keys := by
      rw [hmem, hold]
      rintro ⟨r, hr⟩
      exact nomatch hr
    cases attrs with
    | none => exact .same (iff_of_false hnew Bool.false_ne_true)
    | some attrs =>
      exact .added hnew (.of_eq (congrArg (List.map RouteInfo.key) (RouteInfos.paths_put_of_none hold)))
  | some old =>
    have hkept : (peer.peerId, pathId) ∈ entry.keys := hmem.mpr ⟨old, hold⟩
    have holdkey : old.key = (peer.peerId, pathId) := (find_eq_some_iff.mp hold).2
    cases attrs with
    | none =>
      obtain ⟨before, after, hitems, herase⟩ := items_erase_of_some hold
      have hgone : (peer.peerId, pathId) ∉ (entry.routeInfos.table.erase (peer.peerId, pathId)).items.map
          RouteInfo.key := by
        intro h
        obtain ⟨r, hr, hkey⟩ := mem_map.mp h
        exact (mem_erase.mp hr).2 hkey
      refine .removed hgone ?_
      show (entry.routeInfos.table.items.map RouteInfo.key).Perm
        (_ :: (entry.routeInfos.table.erase (peer.peerId, pathId)).items.map RouteInfo.key)
      rw [hitems, herase, ← holdkey]
      exact perm_middle.map RouteInfo.key
    | some attrs =>
      have hreplaced : ∀ path : RouteInfo F, path.key = (peer.peerId, pathId) →
          (entry.routeInfos.put path).paths.map RouteInfo.key = entry.keys :=
        fun path hpath => RouteInfos.map_key_put_of_some (hpath ▸ hold)
      dsimp only
      split
      next infos hinfos =>
        split at hinfos
        · exact nomatch hinfos
        · cases hinfos
          show KeyUpdate _ true entry.keys ((entry.routeInfos.put _).paths.map RouteInfo.key)
          rw [hreplaced _ rfl]
          exact .same (iff_of_true hkept rfl)
      · exact .same (iff_of_true hkept rfl)

end RibEntry

namespace RibBase

variable [Zero F] (rib : RibBase F) (pfx : CIDRNetwork)

/-- The keys of the paths of a prefix. -/
def keysAt : List (BgpPeerId × Nat) :=
  ((rib.ribEntries.find pfx).map RibEntry.keys).getD []

def minSupportRoutesAt : Option Int :=
  (rib.localRoutes.find pfx).map LocalRoute.minSupportRoutes

def supportCount : Nat :=
  rib.ribEntries.sum fun entry =>
    if isSubnet entry.pfx pfx then supportsOf (rib.minSupportRoutesAt entry.pfx) entry.keys else 0

/-- Local routes and all paths but those of one prefix are as before. -/
structure KeysPut (pfx : CIDRNetwork) (keys : List (BgpPeerId × Nat)) (rib rib' : RibBase F) : Prop where
  localRoutes : rib'.localRoutes = rib.localRoutes
  self : rib'.keysAt pfx = keys
  other : ∀ p, p ≠ pfx → rib'.keysAt p = rib.keysAt p
  sum : ∀ f : CIDRNetwork → List (BgpPeerId × Nat) → Nat, (∀ p, f p [] = 0) →
    (rib'.ribEntries.sum fun entry => f entry.pfx entry.keys) + f pfx (rib.keysAt pfx) =
      (rib.ribEntries.sum fun entry => f entry.pfx entry.keys) + f pfx keys

variable {rib pfx} {rib' mid : RibBase F} {announcement : Bool} {entry : RibEntry F}

theorem minSupportRoutesAt_congr (h : rib'.localRoutes = rib.localRoutes) :
    rib'.minSupportRoutesAt = rib.minSupportRoutesAt := by
  unfold minSupportRoutesAt
  rw [h]

theorem minSupportRoutesAt_of_mem {route : LocalRoute F} (h : route ∈ rib.localRoutes.items) :
    rib.minSupportRoutesAt route.pfx = some route.minSupportRoutes := by
  rw [minSupportRoutesAt, find_key h]
  rfl

theorem keysAt_of_find (h : rib.ribEntries.find pfx = some entry) : rib.keysAt pfx = entry.keys := by
  rw [keysAt, h]
  rfl

theorem keysAt_of_find_none (h : rib.ribEntries.find pfx = none) : rib.keysAt pfx = [] := by
  rw [keysAt, h]
  rfl

theorem KeysPut.refl (rib : RibBase F) (pfx : CIDRNetwork) : KeysPut pfx (rib.keysAt pfx) rib rib :=
  ⟨rfl, rfl, fun _ _ => rfl, fun _ _ => rfl⟩

theorem KeysPut.trans {keys keys' : List (BgpPeerId × Nat)}
    (h : KeysPut pfx keys rib mid) (h' : KeysPut pfx keys' mid rib') : KeysPut pfx keys' rib rib' where
  localRoutes := h'.localRoutes.trans h.localRoutes
  self := h'.self
  other p hp := (h'.other p hp).trans (h.other p hp)
  sum f hf := by
    have hfirst := h.sum f hf
    have hsecond := h'.sum f hf
    rw [h.self] at hsecond
    omega

theorem keysPut_put (entry : RibEntry F) (hents : rib'.ribEntries = rib.ribEntries.put entry)
    (hlocal : rib'.localRoutes = rib.localRoutes) : KeysPut entry.pfx entry.keys rib rib' where
  localRoutes := hlocal
  self := keysAt_of_find (by rw [hents]; exact find_put_self _ _)
  other p hp := by rw [keysAt, keysAt, hents, find_put_of_ne hp]
  sum f hf := by
    rw [hents]
    cases hfind : rib.ribEntries.find entry.pfx with
    | none =>
      rw [keysAt_of_find_none hfind, hf, sum_put_of_none hfind, Nat.add_zero]
      exact Nat.add_comm _ _
    | some old =>
      rw [keysAt_of_find hfind]
      have hpfx : old.pfx = entry.pfx := (find_eq_some_iff.mp hfind).2
      exact hpfx ▸ sum_put_of_some hfind fun entry => f entry.pfx entry.keys

theorem keysPut_eraseEntry
    (hfind : rib.ribEntries.find entry.pfx = some entry) : KeysPut entry.pfx [] rib (rib.eraseEntry entry) where
  localRoutes := rfl
  self := keysAt_of_find_none (find_erase_self _ _)
  other p hp := by
    show ((rib.ribEntries.erase entry.pfx).find p |>.map RibEntry.keys).getD [] = _
    rw [find_erase_of_ne hp]
    rfl
  sum f hf := by
    rw [keysAt_of_find hfind, hf]
    exact sum_erase_of_some hfind fun entry => f entry.pfx entry.keys

theorem keysPut_emplaceEntry (rib : RibBase F) (pfx : CIDRNetwork) :
    KeysPut pfx (rib.emplaceEntry pfx).1.keys rib (rib.emplaceEntry pfx).2 ∧
      rib.keysAt pfx = (rib.emplaceEntry pfx).1.keys := by
  unfold emplaceEntry
  split
  next entry hfind => exact ⟨keysAt_of_find hfind ▸ KeysPut.refl rib pfx, keysAt_of_find hfind⟩
  next hfind => exact ⟨keysPut_put { pfx } rfl rfl, keysAt_of_find_none hfind⟩

theorem aggregatePathChange_same (rib : RibBase F) (pfx : CIDRNetwork) (n : Nat) :
    rib.aggregatePathChange pfx n n = ([], rib) := by
  refine if_neg ?_
  unfold supportingRouteWithdrawn supportingRouteAnnouncement
  grind

variable {pending : List (CIDRNetwork × Option (BgpPathPtr F))} {keys : List (BgpPeerId × Nat)}
  {agg : CIDRNetwork × Option (BgpPathPtr F)} {peer : TinyPeerInfo F} {route : LocalRoute F}

/-- Whether the path that originates a local route is in the RIB once the pending aggregates have been processed. -/
def OriginatedAfter (rib : RibBase F) (pending : List (CIDRNetwork × Option (BgpPathPtr F)))
    (pfx : CIDRNetwork) : Prop :=
  (∃ attrs, (pfx, some attrs) ∈ pending) ∨ pfx ∉ pending.map Prod.fst ∧ ownKey ∈ rib.keysAt pfx

/-- The counts are right, and the aggregates are originated as their counts say once the pending ones have been
processed. -/
structure Supported (pending : List (CIDRNetwork × Option (BgpPathPtr F))) (rib : RibBase F) : Prop where
  counted : ∀ localRoute ∈ rib.localRoutes.items, localRoute.minSupportRoutes ≠ 0 →
    localRoute.supportPfxCnt = rib.supportCount localRoute.pfx
  originated : ∀ localRoute ∈ rib.localRoutes.items, 0 < localRoute.minSupportRoutes →
    (rib.OriginatedAfter pending localRoute.pfx ↔ localRoute.minSupportRoutes ≤ localRoute.supportPfxCnt)
  pending_nodup : (pending.map Prod.fst).Nodup
  pending_aggregate : ∀ agg ∈ pending, ∃ n, rib.minSupportRoutesAt agg.1 = some n ∧ 0 < n

theorem KeysPut.supportCount (h : KeysPut pfx keys rib rib') (parent : CIDRNetwork) : rib'.supportCount parent +
        (if isSubnet pfx parent then supportsOf (rib.minSupportRoutesAt pfx) (rib.keysAt pfx) else 0) =
      rib.supportCount parent + (if isSubnet pfx parent then supportsOf (rib.minSupportRoutesAt pfx) keys else 0) := by
  unfold RibBase.supportCount
  rw [minSupportRoutesAt_congr h.localRoutes]
  refine h.sum (fun p keys => if isSubnet p parent then supportsOf (rib.minSupportRoutesAt p) keys else 0) fun p => ?_
  rw [supportsOf_nil, ite_self]

/-- What leaves the routes of the prefix alone leaves all counts alone. -/
theorem KeysPut.supportCount_eq (h : KeysPut pfx keys rib rib')
    (hkeys : supportsOf (rib.minSupportRoutesAt pfx) keys = supportsOf (rib.minSupportRoutesAt pfx) (rib.keysAt pfx))
    (parent : CIDRNetwork) : rib'.supportCount parent = rib.supportCount parent := by
  have hsum := h.supportCount parent
  rw [hkeys] at hsum
  exact Nat.add_right_cancel hsum

/-- What a supporting route that comes or goes does to the count of a local route. -/
def supportDelta (pfx : CIDRNetwork) (announcement : Bool) (parent : CIDRNetwork) : Int :=
  if isSubnet pfx parent then (if announcement then 1 else -1) else 0

theorem supportDelta_eq (pfx : CIDRNetwork) (announcement : Bool) (parent : CIDRNetwork) :
    supportDelta pfx announcement parent = 1 ∨ supportDelta pfx announcement parent = -1 ∨
      supportDelta pfx announcement parent = 0 := by
  unfold supportDelta
  split
  · split <;> simp
  · simp

theorem minSupportRoutesAt_aggregateRoute (rib : RibBase F) (pfx : CIDRNetwork) (announcement : Bool) :
    (rib.aggregateRoute pfx announcement).2.minSupportRoutesAt = rib.minSupportRoutesAt := by
  funext p
  show ((rib.localRoutes.modify _ (pfx_aggregateLocalRoute pfx announcement)).find p).map LocalRoute.minSupportRoutes = _
  rw [find_modify, Option.map_map]
  refine congrArg (Option.map · (rib.localRoutes.find p)) (funext fun route => ?_)
  show (aggregateLocalRoute pfx announcement route).1.minSupportRoutes = route.minSupportRoutes
  unfold aggregateLocalRoute
  split
  · rfl
  · split <;> rfl

/-- What is picked out of a list under the items' own keys has keys in the list's order. -/
theorem map_fst_filterMap_sublist {α β κ : Type} {key : α → κ} {f : α → Option (κ × β)}
    (h : ∀ x y, f x = some y → y.1 = key x) (xs : List α) : ((xs.filterMap f).map Prod.fst).Sublist (xs.map key) := by
  induction xs with
  | nil => exact List.Sublist.refl _
  | cons x xs ih =>
    cases hx : f x with
    | none =>
      rw [filterMap_cons_none hx]
      exact ih.trans (sublist_cons_self _ _)
    | some y =>
      rw [filterMap_cons_some hx, map_cons, h x y hx]
      exact ih.cons_cons _

/-- The routes of one prefix became one more or one less. -/
structure SupportChange (pfx : CIDRNetwork) (announcement : Bool) (rib mid : RibBase F) : Prop where
  localRoutes : mid.localRoutes = rib.localRoutes
  supportCount : ∀ parent, (mid.supportCount parent : Int) = rib.supportCount parent + supportDelta pfx announcement parent
  own : ∀ localRoute ∈ rib.localRoutes.items, 0 < localRoute.minSupportRoutes →
    (ownKey ∈ mid.keysAt localRoute.pfx ↔ ownKey ∈ rib.keysAt localRoute.pfx)

omit [Zero F] in
theorem pfx_of_aggregateLocalRoute
    (h : (RibBase.aggregateLocalRoute pfx announcement route).2 = some agg) : agg.1 = route.pfx := by
  unfold RibBase.aggregateLocalRoute at h
  grind

theorem originatedAfter_nil (rib : RibBase F) (pfx : CIDRNetwork) :
    rib.OriginatedAfter [] pfx ↔ ownKey ∈ rib.keysAt pfx := by
  simp [OriginatedAfter]

section

variable (hchange : SupportChange pfx announcement rib mid) (h : rib.Supported [])
include hchange h

/-- A supporting route changes the count of a local route that covers it; the local route itself is to be announced
when its count reaches the minimum, and to be withdrawn when the count drops below. -/
theorem SupportChange.aggregateLocalRoute (hlocal : route ∈ rib.localRoutes.items) (hmin : route.minSupportRoutes ≠ 0) :
    RibBase.aggregateLocalRoute pfx announcement route = ({ route with supportPfxCnt := mid.supportCount route.pfx },
        if supportDelta pfx announcement route.pfx = 1 ∧
            route.supportPfxCnt + 1 = route.minSupportRoutes then some (route.pfx, some route.attrs)
        else if supportDelta pfx announcement route.pfx = -1 ∧
            route.supportPfxCnt = route.minSupportRoutes then some (route.pfx, none)
        else none) := by
  have hcount := hchange.supportCount route.pfx
  rw [hcount, ← h.counted route hlocal hmin]
  rw [← h.counted route hlocal hmin] at hcount
  unfold RibBase.aggregateLocalRoute supportDelta
  cases hsub : isSubnet pfx route.pfx with
  | false => simp
  | true =>
    cases announcement with
    | true => simp [hmin]
    | false =>
      have hne : route.supportPfxCnt ≠ 0 := by
        rw [supportDelta, if_pos hsub, if_neg Bool.false_ne_true] at hcount
        omega
      simp [hmin, hne, Int.sub_eq_add_neg]

theorem SupportChange.exists_of_mem_localRoutes {updated : LocalRoute F}
    (hupdated : updated ∈ (mid.aggregateRoute pfx announcement).2.localRoutes.items)
    (hmin : updated.minSupportRoutes ≠ 0) : ∃ route ∈ rib.localRoutes.items, route.minSupportRoutes ≠ 0 ∧
      updated = { route with supportPfxCnt := mid.supportCount route.pfx } := by
  obtain ⟨route, hlocal, rfl⟩ := mem_map.mp hupdated
  rw [hchange.localRoutes] at hlocal
  have hlmin : route.minSupportRoutes ≠ 0 := by
    intro hzero
    refine hmin ?_
    unfold RibBase.aggregateLocalRoute
    rw [if_pos (by simp [hzero])]
    exact hzero
  refine ⟨route, hlocal, hlmin, ?_⟩
  rw [hchange.aggregateLocalRoute h hlocal hlmin]

/-- The counts follow a supporting route that comes or goes, and the aggregates that come or go with it are pending. -/
theorem SupportChange.aggregateRoute :
    (mid.aggregateRoute pfx announcement).2.Supported (mid.aggregateRoute pfx announcement).1 := by
  have hcounts : (mid.aggregateRoute pfx announcement).2.supportCount = mid.supportCount := by
    funext parent
    unfold RibBase.supportCount
    rw [minSupportRoutesAt_aggregateRoute]
    rfl
  have hmem : ∀ agg, agg ∈ (mid.aggregateRoute pfx announcement).1 ↔
      ∃ route ∈ rib.localRoutes.items, (RibBase.aggregateLocalRoute pfx announcement route).2 = some agg := by
    intro agg
    show agg ∈ mid.localRoutes.items.filterMap _ ↔ _
    rw [mem_filterMap, hchange.localRoutes]
  refine ⟨fun updated hupdated hmin => ?_, fun updated hupdated hmin => ?_, ?_, fun agg hagg => ?_⟩
  · obtain ⟨route, hlocal, hlmin, rfl⟩ := hchange.exists_of_mem_localRoutes h hupdated hmin
    rw [hcounts]
  · obtain ⟨route, hlocal, hlmin, rfl⟩ := hchange.exists_of_mem_localRoutes h hupdated hmin.ne'
    have hbef := h.originated route hlocal hmin
    rw [originatedAfter_nil, ← hchange.own route hlocal hmin] at hbef
    have hcount := hchange.supportCount route.pfx
    rw [← h.counted route hlocal hlmin] at hcount
    have hself : ∀ attrs, (route.pfx, attrs) ∈ (mid.aggregateRoute pfx announcement).1 ↔
        (RibBase.aggregateLocalRoute pfx announcement route).2 = some (route.pfx, attrs) := by
      intro attrs
      rw [hmem]
      constructor
      · rintro ⟨other, hother, heq⟩
        have hpfx := pfx_of_aggregateLocalRoute heq
        cases rib.localRoutes.eq_of_key_eq hlocal hother hpfx
        exact heq
      · exact fun heq => ⟨route, hlocal, heq⟩
    have hkeys : route.pfx ∈ (mid.aggregateRoute pfx announcement).1.map Prod.fst ↔
        ∃ attrs, (route.pfx, attrs) ∈ (mid.aggregateRoute pfx announcement).1 := by
      rw [mem_map]
      exact ⟨fun ⟨agg, hagg, heq⟩ => ⟨agg.2, heq ▸ hagg⟩, fun ⟨attrs, hagg⟩ => ⟨_, hagg, rfl⟩⟩
    show OriginatedAfter mid (mid.aggregateRoute pfx announcement).1 route.pfx ↔
      route.minSupportRoutes ≤ mid.supportCount route.pfx
    unfold OriginatedAfter
    rw [hkeys]
    simp only [hself]
    rw [hchange.aggregateLocalRoute h hlocal hlmin, hbef, hcount]
    rcases supportDelta_eq pfx announcement route.pfx with hdelta | hdelta | hdelta
    · by_cases hreached : route.supportPfxCnt + 1 = route.minSupportRoutes
      · simp [hdelta, hreached]
      · simp [hdelta]
        omega
    · by_cases hdropped : route.supportPfxCnt = route.minSupportRoutes
      · simp [hdelta, hdropped]
      · simp [hdelta]
        omega
    · simp [hdelta]
  · refine List.Nodup.sublist ?_ mid.localRoutes.keys_nodup
    exact map_fst_filterMap_sublist (fun _ _ => pfx_of_aggregateLocalRoute) _
  · obtain ⟨route, hlocal, heq⟩ := (hmem agg).mp hagg
    have hlmin : route.minSupportRoutes ≠ 0 := by grind [RibBase.aggregateLocalRoute]
    have hpfx := pfx_of_aggregateLocalRoute heq
    have hcounted := h.counted route hlocal hlmin
    refine ⟨route.minSupportRoutes, ?_, ?_⟩
    · rw [minSupportRoutesAt_aggregateRoute, minSupportRoutesAt_congr hchange.localRoutes, hpfx]
      exact minSupportRoutesAt_of_mem hlocal
    · rw [hchange.aggregateLocalRoute h hlocal hlmin] at heq
      grind

end

/-- What leaves the local routes, the counts and the keys alone keeps the counts right. -/
theorem Supported.congr (h : rib.Supported pending) (hlocal : rib'.localRoutes = rib.localRoutes)
    (hcount : ∀ parent, rib'.supportCount parent = rib.supportCount parent)
    (hown : ∀ route ∈ rib.localRoutes.items, 0 < route.minSupportRoutes →
      (ownKey ∈ rib'.keysAt route.pfx ↔ ownKey ∈ rib.keysAt route.pfx)) : rib'.Supported pending := by
  refine ⟨fun route hmem hmin => ?_, fun route hmem hmin => ?_, h.pending_nodup, fun agg hagg => ?_⟩
  · rw [hlocal] at hmem
    rw [hcount]
    exact h.counted route hmem hmin
  · rw [hlocal] at hmem
    rw [← h.originated route hmem hmin, OriginatedAfter, OriginatedAfter, hown route hmem hmin]
  · exact minSupportRoutesAt_congr hlocal ▸ h.pending_aggregate agg hagg

/-- The routes of a prefix became one more or one less, and with them the counts of what covers it. -/
theorem KeysPut.supportChange (h : KeysPut pfx keys rib mid)
    (hown : ∀ route ∈ rib.localRoutes.items, 0 < route.minSupportRoutes →
      (ownKey ∈ mid.keysAt route.pfx ↔ ownKey ∈ rib.keysAt route.pfx))
    (hdelta : (supportsOf (rib.minSupportRoutesAt pfx) keys : Int) =
      supportsOf (rib.minSupportRoutesAt pfx) (rib.keysAt pfx) + if announcement then 1 else -1) :
    SupportChange pfx announcement rib mid := by
  refine ⟨h.localRoutes, fun parent => ?_, hown⟩
  have hcount := h.supportCount parent
  unfold supportDelta
  by_cases hsub : isSubnet pfx parent = true
  · rw [if_pos hsub, if_pos hsub] at hcount
    rw [if_pos hsub]
    omega
  · rw [if_neg hsub, if_neg hsub] at hcount
    rw [if_neg hsub]
    omega

/-- A path that is none of the local peer at an aggregate's prefix. -/
def IsForeign (rib : RibBase F) (peer : TinyPeerInfo F) (pfx : CIDRNetwork) : Prop :=
  ∀ n, rib.minSupportRoutesAt pfx = some n → 0 < n → peer.peerId ≠ localPeerId

theorem Supported.modify (h : rib.Supported []) {f : RibEntry F → RibEntry F}
    (hf : ∀ entry, (f entry).pfx = entry.pfx) (hents : rib'.ribEntries = rib.ribEntries.modify f hf)
    (hlocal : rib'.localRoutes = rib.localRoutes) (hkeys : ∀ entry, (f entry).keys = entry.keys) : rib'.Supported [] := by
  have hkeysAt : ∀ p, rib'.keysAt p = rib.keysAt p := by
    intro p
    rw [keysAt, hents, find_modify, Option.map_map]
    exact congrArg (fun g => ((rib.ribEntries.find p).map g).getD []) (funext hkeys)
  refine h.congr hlocal (fun parent => ?_) fun route _ _ => by rw [hkeysAt]
  unfold RibBase.supportCount minSupportRoutesAt
  rw [hents, hlocal]
  show ((rib.ribEntries.items.map f).map _).sum = (rib.ribEntries.items.map _).sum
  rw [map_map]
  refine congrArg List.sum (map_congr_left fun entry _ => ?_)
  show (if isSubnet (f entry).pfx parent then supportsOf _ (f entry).keys else 0) = _
  rw [hf, hkeys]

theorem Supported.keysPut (h : rib.Supported [])
    (hput : KeysPut pfx (rib.keysAt pfx) rib rib') : rib'.Supported [] := by
  refine h.congr hput.localRoutes (hput.supportCount_eq rfl) fun route _ _ => ?_
  by_cases hpfx : route.pfx = pfx
  · rw [hpfx, hput.self]
  · rw [hput.other _ hpfx]

/-- Nothing but RIB-in messages changes the routes. -/
theorem stepClosed_supported : StepClosed (fun _ : RibEntry F => True) (Supported []) where
  congr {rib rib'} h hents hlocal _ := by
    refine h.congr hlocal (fun parent => ?_) fun route _ _ => by rw [keysAt, keysAt, hents]
    unfold RibBase.supportCount minSupportRoutesAt
    rw [hents, hlocal]
  required rib condition h := by
    refine h.modify (RibEntry.pfx_requirePathSelectionIf condition) rfl rfl fun entry => ?_
    unfold RibEntry.requirePathSelectionIf
    split <;> rfl
  marked rib fibBatchList h := by
    refine h.modify (RibEntry.pfx_markFibOutStatePresentIf fibBatchList) rfl rfl fun entry => ?_
    unfold RibEntry.markFibOutStatePresentIf
    split <;> rfl
  reselected rib object old entry _ _ hfind hsel h := by
    have hput : KeysPut entry.pfx entry.keys rib (rib.reselected old entry) := keysPut_put entry rfl rfl
    rw [RibEntry.keys_of_routes hsel.routes, ← keysAt_of_find hfind] at hput
    exact h.keysPut hput
  committed rib entry committed hfind hpfx hinfos _ _ h := by
    have hput : KeysPut committed.pfx committed.keys rib (rib.setEntry committed) := keysPut_put committed rfl rfl
    have hkeys : committed.keys = entry.keys := by rw [RibEntry.keys, RibEntry.keys, hinfos]
    rw [hkeys, ← keysAt_of_find hfind, ← hpfx] at hput
    exact h.keysPut hput
  erased rib entry hfind hpaths _ h := by
    have hput := keysPut_eraseEntry hfind
    have hkeys : entry.keys = [] := length_eq_zero_iff.mp (entry.length_keys.trans hpaths)
    rw [← hkeys, ← keysAt_of_find hfind] at hput
    exact h.keysPut hput
  erasable _ _ _ h := h

/-- The action is no RIB-in message about paths of the local peer at the prefix of an aggregate. -/
def LeavesAggregates (rib : RibBase F) : RibAction F → Prop
  | .announcement _ peer _ pfxPathIds => ∀ x ∈ pfxPathIds, rib.IsForeign peer x.1
  | .withdrawal _ peer pfxPathIds => ∀ x ∈ pfxPathIds, rib.IsForeign peer x.1
  | _ => True

variable [DecidableEq F] (config : SelectionConfig F) (cache : NexthopCache)

/-- What an update of one path comes to: the keys of the prefix are updated, and then the change is counted at the
aggregates, if the path is not one that originates an aggregate. -/
theorem processSingleRibInUpdate_spec (rib : RibBase F)
    (peer : TinyPeerInfo F) (attrs : Option (BgpPathPtr F)) (pfx : CIDRNetwork) (pathId : Nat) :
    ∃ mid keys, KeysPut pfx keys rib mid ∧ KeyUpdate (peer.peerId, pathId) attrs.isSome (rib.keysAt pfx) keys ∧
      rib.processSingleRibInUpdate config cache peer attrs pfx pathId =
        if (rib.ownLocalRoute peer pfx).any fun route => decide (route.minSupportRoutes > 0) then ([], mid)
        else mid.aggregatePathChange pfx (rib.keysAt pfx).length keys.length := by
  unfold processSingleRibInUpdate
  split
  next hskip =>
    -- a withdrawal from a prefix without paths
    rw [Bool.and_eq_true, Option.isNone_iff_eq_none] at hskip
    obtain ⟨rfl, hall⟩ := hskip
    have hkeys : rib.keysAt pfx = [] := by
      cases hfind : rib.ribEntries.find pfx with
      | none => exact keysAt_of_find_none hfind
      | some entry =>
        rw [hfind, Option.all_some, beq_iff_eq, ← entry.length_keys] at hall
        rw [keysAt_of_find hfind]
        exact length_eq_zero_iff.mp hall
    refine ⟨rib, [], hkeys ▸ KeysPut.refl rib pfx, ?_, ?_⟩
    · rw [hkeys]
      exact .same (iff_of_false not_mem_nil Bool.false_ne_true)
    · rw [hkeys, aggregatePathChange_same, ite_self]
  · obtain ⟨hemp, hkeys⟩ := keysPut_emplaceEntry rib pfx
    obtain ⟨hfind, hpfx⟩ := find_emplaceEntry rib pfx
    have hlocal : ∀ peer, (rib.emplaceEntry pfx).2.ownLocalRoute peer pfx = rib.ownLocalRoute peer pfx := by
      intro peer
      rw [ownLocalRoute, ownLocalRoute, hemp.localRoutes]
    generalize rib.emplaceEntry pfx = emplaced at hpfx hemp hkeys hlocal
    obtain ⟨entry, made⟩ := emplaced
    dsimp only at ⊢
    rw [hlocal]
    generalize (Option.map _ (rib.ownLocalRoute peer pfx)).getD _ = install
    obtain ⟨nexthops, hupd⟩ := exists_updateEntryPath_eq config cache made entry peer attrs install pathId
    have hkeyUpdate := entry.keyUpdate_updatePath made.nextObject peer attrs install pathId
    obtain ⟨infos, needPathSelection, heq⟩ := entry.exists_updatePath_eq made.nextObject peer attrs install pathId
    rw [hupd]
    generalize (entry.updatePath made.nextObject peer attrs install pathId).1 = updated at heq hkeyUpdate
    have hupdatedpfx : updated.pfx = pfx := heq ▸ hpfx
    have hput : KeysPut pfx updated.keys made (made.pathUpdated entry updated nexthops) :=
      hupdatedpfx ▸ keysPut_put updated rfl rfl
    have hchk : KeysPut pfx updated.keys made (if attrs.isNone then
        (made.pathUpdated entry updated nexthops).checkWithdrawalBeforeRouteProgrammed updated
        else made.pathUpdated entry updated nexthops) := by
      split
      · unfold checkWithdrawalBeforeRouteProgrammed
        split
        next herase =>
          rw [Bool.and_eq_true, List.isEmpty_iff] at herase
          have hnone : updated.keys = [] := congrArg (List.map RouteInfo.key) herase.2
          have hfound : (made.pathUpdated entry updated nexthops).ribEntries.find updated.pfx = some updated :=
            find_put_self _ _
          have herased : KeysPut pfx [] _ _ := hupdatedpfx ▸ keysPut_eraseEntry hfound
          rw [hnone] at ⊢
          exact hput.trans herased
        · exact hput
      · exact hput
    refine ⟨_, updated.keys, hemp.trans hchk, hkeys ▸ hkeyUpdate, ?_⟩
    rw [hkeys, entry.length_keys, updated.length_keys]

/-- The first pending aggregate is processed: its own path comes or goes, and supports no other aggregate. -/
theorem Supported.processPending
    (h : rib.Supported (agg :: pending)) (config : SelectionConfig F) (cache : NexthopCache) :
    (rib.processSingleRibInUpdate config cache kV4LocalPeerInfo agg.2 agg.1 kDefaultPathID).2.Supported pending := by
  obtain ⟨mid, keys, hput, hupd, heq⟩ :=
    processSingleRibInUpdate_spec config cache rib kV4LocalPeerInfo agg.2 agg.1 kDefaultPathID
  obtain ⟨n, hn, hpos⟩ := h.pending_aggregate agg mem_cons_self
  have hown : ((rib.ownLocalRoute kV4LocalPeerInfo agg.1).any fun route =>
      decide (route.minSupportRoutes > 0)) = true := by
    rw [ownLocalRoute]
    obtain ⟨route, hfind, rfl⟩ := Option.map_eq_some_iff.mp hn
    rw [hfind]
    exact decide_eq_true hpos
  rw [heq, if_pos hown]
  have hcount := hput.supportCount_eq (hn ▸ supportsOf_keyUpdate_own hpos rfl hupd)
  obtain ⟨hfresh, hnodup⟩ := nodup_cons.mp h.pending_nodup
  refine ⟨fun route hlocal hmin => ?_, fun route hlocal hmin => ?_, hnodup, fun agg' hagg' => ?_⟩
  · rw [hput.localRoutes] at hlocal
    rw [hcount]
    exact h.counted route hlocal hmin
  · rw [hput.localRoutes] at hlocal
    rw [← h.originated route hlocal hmin]
    unfold OriginatedAfter
    rw [map_cons, mem_cons]
    by_cases hpfx : route.pfx = agg.1
    · -- the own path of the processed aggregate is there if it was announced
      have hself : ownKey ∈ mid.keysAt route.pfx ↔ agg.2.isSome = true := by
        rw [hpfx, hput.self]
        exact hupd.mem_self_iff
      have hrest : ∀ attrs, (route.pfx, attrs) ∉ pending := fun attrs hmem =>
        hfresh (hpfx ▸ mem_map_of_mem hmem)
      have hfirst : (∃ attrs, (route.pfx, some attrs) ∈ agg :: pending) ↔ agg.2.isSome = true := by
        rw [Option.isSome_iff_exists]
        refine exists_congr fun attrs => ?_
        rw [mem_cons, or_iff_left (hrest _), hpfx, Prod.ext_iff]
        exact ⟨fun h => h.2.symm, fun h => ⟨rfl, h.symm⟩⟩
      rw [hfirst, hself]
      have hnotin : route.pfx ∉ pending.map Prod.fst := hpfx ▸ hfresh
      have hnone : ¬∃ attrs, (route.pfx, some attrs) ∈ pending := fun ⟨_, hmem⟩ => hrest _ hmem
      rw [or_iff_right hnone, and_iff_right hnotin, or_iff_left fun h => h.1 (.inl hpfx)]
    · have hfirst : ∀ attrs, (route.pfx, some attrs) ∈ agg :: pending ↔ (route.pfx, some attrs) ∈ pending := by
        intro attrs
        rw [mem_cons, or_iff_right]
        exact fun heq => hpfx (congrArg Prod.fst heq)
      simp only [hfirst, hpfx, false_or, hput.other _ hpfx]
  · obtain ⟨n', hn', hpos'⟩ := h.pending_aggregate agg' (mem_cons_of_mem _ hagg')
    exact ⟨n', minSupportRoutesAt_congr hput.localRoutes ▸ hn', hpos'⟩

theorem Supported.foldl
    (h : rib.Supported pending) (config : SelectionConfig F) (cache : NexthopCache) : (pending.foldl (fun rib agg =>
      (rib.processSingleRibInUpdate config cache kV4LocalPeerInfo agg.2 agg.1 kDefaultPathID).2) rib).Supported [] := by
  induction pending generalizing rib with
  | nil => exact h
  | cons agg pending ih => exact ih (h.processPending config cache)

/-- A path comes, goes or is replaced: the counts follow, and the aggregates that come or go with it are pending. -/
theorem Supported.processSingleRibInUpdate (h : rib.Supported []) (config : SelectionConfig F)
    (cache : NexthopCache) (hforeign : rib.IsForeign peer pfx)
    (attrs : Option (BgpPathPtr F)) (pathId : Nat) :
    (rib.processSingleRibInUpdate config cache peer attrs pfx pathId).2.Supported
      (rib.processSingleRibInUpdate config cache peer attrs pfx pathId).1 := by
  obtain ⟨mid, keys, hput, hupd, heq⟩ := processSingleRibInUpdate_spec config cache rib peer attrs pfx pathId
  have hnotown : ((rib.ownLocalRoute peer pfx).any fun route => decide (route.minSupportRoutes > 0)) = false := by
    rw [ownLocalRoute]
    split
    next hpeer =>
      cases hfind : rib.localRoutes.find pfx with
      | none => rfl
      | some route =>
        refine decide_eq_false fun hpos => hforeign route.minSupportRoutes ?_ hpos (hpeer ▸ rfl)
        rw [minSupportRoutesAt, hfind]
        rfl
    · rfl
  have hown : ∀ route ∈ rib.localRoutes.items, 0 < route.minSupportRoutes →
      (ownKey ∈ mid.keysAt route.pfx ↔ ownKey ∈ rib.keysAt route.pfx) := by
    intro route hlocal hmin
    by_cases hpfx : route.pfx = pfx
    · rw [hpfx, hput.self]
      refine hupd.mem_iff_of_ne fun hkey => hforeign _ (hpfx ▸ minSupportRoutesAt_of_mem hlocal) hmin ?_
      exact (congrArg Prod.fst hkey).symm
    · rw [hput.other _ hpfx]
  have hdelta := supportsOf_keyUpdate hupd hforeign
  have hsame : (mid.localRoutes.find pfx).isSome = (rib.minSupportRoutesAt pfx).isSome := by
    rw [hput.localRoutes, minSupportRoutesAt, Option.isSome_map]
  rw [heq, hnotown, RibBase.aggregatePathChange, hsame]
  split at hdelta
  next hann =>
    -- one route more
    rw [hann, Bool.or_true]
    exact (hput.supportChange hown (by rw [hdelta]; rfl)).aggregateRoute h
  next hann =>
    rw [Bool.not_eq_true] at hann
    rw [hann, Bool.or_false]
    split at hdelta
    next hwd =>
      rw [if_pos hwd]
      refine (hput.supportChange hown ?_).aggregateRoute h
      rw [if_neg Bool.false_ne_true]
      omega
    next hwd =>
      rw [if_neg hwd]
      exact h.congr hput.localRoutes (hput.supportCount_eq hdelta) hown

/-- The configured minimums stay. -/
theorem minSupportRoutesAt_processSingleRibInUpdate (rib : RibBase F)
    (peer : TinyPeerInfo F) (attrs : Option (BgpPathPtr F)) (pfx : CIDRNetwork) (pathId : Nat) :
    (rib.processSingleRibInUpdate config cache peer attrs pfx pathId).2.minSupportRoutesAt =
      rib.minSupportRoutesAt := by
  obtain ⟨mid, keys, hput, -, heq⟩ := processSingleRibInUpdate_spec config cache rib peer attrs pfx pathId
  have hmid := minSupportRoutesAt_congr hput.localRoutes
  rw [heq]
  split
  · exact hmid
  · unfold RibBase.aggregatePathChange
    dsimp only
    split
    · rw [minSupportRoutesAt_aggregateRoute, hmid]
    · exact hmid

theorem minSupportRoutesAt_processRibInPath (rib : RibBase F)
    (peer : TinyPeerInfo F) (attrs : Option (BgpPathPtr F)) (pfxPathId : CIDRNetwork × Nat) :
    (RibBase.processRibInPath config cache peer attrs rib pfxPathId).minSupportRoutesAt = rib.minSupportRoutesAt := by
  exact foldlRecOn (motive := fun after : RibBase F => after.minSupportRoutesAt = rib.minSupportRoutesAt) _ _
    (minSupportRoutesAt_processSingleRibInUpdate _ _ _ _ _ _ _)
    fun _ heq _ _ => (minSupportRoutesAt_processSingleRibInUpdate _ _ _ _ _ _ _).trans heq

theorem Supported.foldl_processRibInPath (h : rib.Supported []) (config : SelectionConfig F)
    (cache : NexthopCache) (attrs : Option (BgpPathPtr F))
    {pfxPathIds : List (CIDRNetwork × Nat)} (hforeign : ∀ x ∈ pfxPathIds, rib.IsForeign peer x.1) :
    (pfxPathIds.foldl (RibBase.processRibInPath config cache peer attrs) rib).Supported [] := by
  induction pfxPathIds generalizing rib with
  | nil => exact h
  | cons x pfxPathIds ih =>
    obtain ⟨hfirst, hrest⟩ := forall_mem_cons.mp hforeign
    refine ih ((h.processSingleRibInUpdate config cache hfirst attrs x.2).foldl config cache) fun y hy => ?_
    unfold IsForeign
    rw [minSupportRoutesAt_processRibInPath]
    exact hrest y hy

theorem Supported.exec (h : rib.Supported []) (config : SelectionConfig F) {action : RibAction F}
    (hleaves : rib.LeavesAggregates action) : (rib.exec config action).Supported [] := by
  refine stepClosed_supported.exec h config (fun cache peer attrs pfxPathIds hann => ?_)
    (fun cache peer pfxPathIds hwithdrawal => ?_) fun _ _ _ _ _ _ _ _ _ _ => trivial
  · subst hann
    exact h.foldl_processRibInPath config cache (some attrs) hleaves
  · subst hwithdrawal
    exact h.foldl_processRibInPath config cache none hleaves

end RibBase

/-- The runs of a RIB in which aggregates are originated by their supporting routes only. -/
def aggregatingSystem [Zero F] [DecidableEq F] (config : SelectionConfig F)
    (localRoutes : Keyed (LocalRoute.pfx (F := F))) : Transition.System (RibBase F) (RibAction F) where
  init := (ribSystem config localRoutes).init
  enabled rib action := rib.Enabled action ∧ rib.LeavesAggregates action
  exec := RibBase.exec config

namespace RibBase

theorem supported_of_reachable [Zero F] [DecidableEq F] {config : SelectionConfig F}
    {localRoutes : Keyed (LocalRoute.pfx (F := F))} {rib : RibBase F}
    (h : Transition.Reachable (aggregatingSystem config localRoutes) rib) : rib.Supported [] := by
  induction h with
  | init =>
    refine ⟨fun route hlocal _ => ?_, fun route hlocal hmin => ?_, nodup_nil, fun _ hagg => nomatch hagg⟩
    · obtain ⟨configured, -, rfl⟩ := mem_map.mp hlocal
      rfl
    · obtain ⟨configured, -, rfl⟩ := mem_map.mp hlocal
      rw [originatedAfter_nil]
      exact iff_of_false not_mem_nil (not_le.mpr hmin)
  | step _ hen ih => exact ih.exec config hen.2

/-- The count of an aggregate is the number of routes that support it, and its own path is in the RIB exactly while
the count reaches the minimum. -/
theorem aggregate_supported_of_reachable [Zero F] [DecidableEq F] (config : SelectionConfig F)
    (localRoutes : Keyed (LocalRoute.pfx (F := F))) (rib : RibBase F)
    (h : Transition.Reachable (aggregatingSystem config localRoutes) rib) (localRoute : LocalRoute F)
    (hlocal : localRoute ∈ rib.localRoutes.items) (hmin : 0 < localRoute.minSupportRoutes) :
    localRoute.supportPfxCnt = rib.supportCount localRoute.pfx ∧
      (ownKey ∈ rib.keysAt localRoute.pfx ↔ localRoute.minSupportRoutes ≤ localRoute.supportPfxCnt) := by
  have hsup := supported_of_reachable h
  refine ⟨hsup.counted localRoute hlocal hmin.ne', ?_⟩
  rw [← originatedAfter_nil]
  exact hsup.originated localRoute hlocal hmin

def sampleAggregate : LocalRoute Nat where
  pfx := samplePrefix
  minSupportRoutes := 1
  installToFib := false
  supportPfxCnt := 0
  attrs := attrsVia 7 7

def sampleAggregates : Keyed (LocalRoute.pfx (F := Nat)) := ⟨[sampleAggregate], nodup_singleton _⟩

/-- A peer has announced a route that supports the aggregate. -/
def supportedRib : RibBase Nat :=
  (aggregatingSystem plainConfig sampleAggregates).exec (aggregatingSystem plainConfig sampleAggregates).init
    (.announcement (fun _ => none) (ebgpPeer 1) (attrsVia 0 1) [(samplePrefix, 0)])

theorem aggregate_supported_supportedRib :
    ({ sampleAggregate with supportPfxCnt := 1 } : LocalRoute Nat).supportPfxCnt = supportedRib.supportCount samplePrefix ∧
      (ownKey ∈ supportedRib.keysAt samplePrefix ↔ (1 : Int) ≤ 1) := by
  have hforeign : (ebgpPeer 1).peerId ≠ localPeerId := by decide
  have hreach : Transition.Reachable (aggregatingSystem plainConfig sampleAggregates) supportedRib :=
    .step .init ⟨trivial, fun _ _ _ _ _ => hforeign⟩
  have hlocal : supportedRib.localRoutes.items = [{ sampleAggregate with supportPfxCnt := 1 }] := rfl
  exact aggregate_supported_of_reachable plainConfig sampleAggregates supportedRib hreach
    { sampleAggregate with supportPfxCnt := 1 } (hlocal ▸ mem_singleton.mpr rfl) Int.one_pos

/-- A network that is added by hand at the prefix of an aggregate is there without any supporting route. -/
theorem exists_unsupported_aggregate : ∃ rib, Transition.Reachable (ribSystem plainConfig sampleAggregates) rib ∧
    ∃ localRoute ∈ rib.localRoutes.items, 0 < localRoute.minSupportRoutes ∧
      ¬(ownKey ∈ rib.keysAt localRoute.pfx ↔ localRoute.minSupportRoutes ≤ localRoute.supportPfxCnt) := by
  let action : RibAction Nat := .announcement (fun _ => none) kV4LocalPeerInfo (attrsVia 7 7) [(samplePrefix, kDefaultPathID)]
  let sys := ribSystem plainConfig sampleAggregates
  have hlocal : (sys.exec sys.init action).localRoutes.items = [sampleAggregate] := rfl
  have hown : ownKey ∈ (sys.exec sys.init action).keysAt samplePrefix := by decide +kernel
  refine ⟨sys.exec sys.init action, .step .init trivial, sampleAggregate, hlocal ▸ mem_singleton.mpr rfl,
    Int.one_pos, fun h => ?_⟩
  exact absurd (h.mp hown) (by decide)

end RibBase

end FbossBgp.Rib
