import FbossBgp.BgpLib.Nlri
import FbossBgp.RouteLib.RouteFilter
import FbossBgp.Lib.Keyed

/-! The entry of one prefix: its paths and what route selection reads of them, which of them are candidates and which
are selected, the ids under which selected paths are sent, and what has been selected and what has been advertised.
Bandwidths are floating-point numbers in the source; their type `F` stays a parameter. -/

namespace FbossBgp.Rib

open BgpLib RouteLib

/-- A `folly::CIDRNetwork`: an address and a number of bits. -/
structure CIDRNetwork where
  addr : IPAddress
  len : Nat
  deriving DecidableEq

def isSubnet (subPfx parentPfx : CIDRNetwork) : Bool :=
  subPfx.addr.isV4 == parentPfx.addr.isV4 &&
    IPAddress.maskBytes parentPfx.len subPfx.addr.bytes == IPAddress.maskBytes parentPfx.len parentPfx.addr.bytes &&
    decide (parentPfx.len ≤ subPfx.len)

inductive BgpSessionType
  | ebgp
  | ibgp
  | confedEbgp
  deriving DecidableEq, Repr

inductive BgpRouteType
  | ebgp
  | ibgp
  | confedEbgp
  | localRoute
  | unknown
  deriving DecidableEq, Repr

structure BgpPeerId where
  peerAddr : IPAddress
  remoteBgpId : Nat
  deriving DecidableEq

structure TinyPeerInfo (F : Type) where
  addr : IPAddress
  asn : Nat := 0
  routerId : Nat := 0
  sessionType : BgpSessionType
  isRrClient : Bool := false
  isRedistributePeer : Bool := false
  ucmpWeight : Option F := none
  description : String := ""
  deriving DecidableEq

/-- The address `0.0.0.0`, of the pseudo-peer that originates local routes and of their nexthop. -/
def kLocalRoutePeerAddr : IPAddress := .ofOctets 0 0 0 0

def kV4LocalPeerInfo {F : Type} : TinyPeerInfo F := { addr := kLocalRoutePeerAddr, sessionType := .ibgp }

/-- A `shared_ptr`: two pointers are equal when they point to the same object. -/
structure SharedPtr (T : Type) where
  object : Nat
  val : T
  deriving DecidableEq

/-- The attributes of a path that the RIB reads. -/
structure BgpPath (F : Type) where
  nexthop : IPAddress
  localPref : Nat := 100
  asPath : List BgpAttrAsPathSegment := []
  origin : BgpAttrOrigin := .bgpOriginIgp
  med : Nat := 0
  isMedSet : Bool := false
  weight : Nat := 0
  originatorId : Nat := 0
  clusterList : List Nat := []
  nonTransitiveLbw : Option F := none
  topologyInfo : Option (List (String × Int)) := none

abbrev BgpPathPtr (F : Type) := SharedPtr (BgpPath F)

/-- What the RIB knows of the nexthop of a path. -/
structure NexthopStatus where
  isReachable : Bool
  igpCost : Option Nat := none
  excludeNexthopWithoutCost : Bool := true
  epoch : Nat := 0
  deriving DecidableEq

def NexthopStatus.isResolvedForSelection (status : NexthopStatus) : Bool :=
  status.isReachable && (status.igpCost.isSome || !status.excludeNexthopWithoutCost)

/-- The nexthops that the RIB tracks. -/
abbrev NexthopInfoMap := IPAddress → Option NexthopStatus

/-- One path of a prefix. `object` is the object's identity, which tells it from the paths that replace it. -/
structure RouteInfo (F : Type) where
  object : Nat
  pfx : CIDRNetwork
  peer : TinyPeerInfo F
  attrs : BgpPathPtr F
  receivedPathId : Nat
  pathIdToSend : Option Nat := none
  installToFib : Bool := true

variable {F : Type}

def TinyPeerInfo.peerId (peer : TinyPeerInfo F) : BgpPeerId := ⟨peer.addr, peer.routerId⟩

namespace RouteInfo

variable (r : RouteInfo F)

/-- The peer and the path id under which the RIB entry holds the path. -/
def key : BgpPeerId × Nat := (r.peer.peerId, r.receivedPathId)

def nexthop : IPAddress := r.attrs.val.nexthop

def getIsRouteLocal : Bool := r.peer.addr == kLocalRoutePeerAddr

def getIsRouteExternal : Bool := !r.getIsRouteLocal && r.peer.sessionType == .ebgp

def getIsRouteConfedExternal : Bool := !r.getIsRouteLocal && r.peer.sessionType == .confedEbgp

variable (nexthops : NexthopInfoMap)

def isResolvedForSelection (r : RouteInfo F) : Bool :=
  r.getIsRouteLocal || (nexthops r.nexthop).any NexthopStatus.isResolvedForSelection

/-- Confederation segments do not count. -/
def getBgpAsPathLen : Nat :=
  (r.attrs.val.asPath.map fun segment =>
    if segment.asSet.card ≠ 0 then 1 else segment.asSequence.length).sum

def getBgpAsPathLenWithConfed : Nat :=
  (r.attrs.val.asPath.map fun segment =>
    if segment.asSet.card ≠ 0 ∨ segment.asConfedSet.card ≠ 0 then 1
    else if segment.asSequence.length ≠ 0 then segment.asSequence.length
    else segment.asConfedSequence.length).sum

/-- The first AS of the path, with sets and sequences in one row. -/
def getPeerAsn : Nat :=
  let asns := r.attrs.val.asPath.flatMap fun (segment : BgpAttrAsPathSegment) => sortedAsns segment.asSet ++ segment.asSequence
  (asns.headD 0).toNat

/-- The originator, or the peer's own id without one, above the peer's router id. -/
def getBgpRouterId : Nat :=
  (if r.attrs.val.originatorId ≠ 0 then r.attrs.val.originatorId else r.peer.routerId) * 2 ^ 32 + r.peer.routerId

def transformIP2Int (addr : IPAddress) : Nat := Bytes.ofBE addr.bytes

/-- A nexthop without a cost, or that is not tracked, has the largest one. -/
def getIgpCostValue (r : RouteInfo F) : Nat :=
  ((nexthops r.nexthop).bind (·.igpCost)).getD (2 ^ 32 - 1)

end RouteInfo

def getBgpPathType (r : RouteInfo F) : BgpRouteType :=
  if r.getIsRouteLocal then .localRoute
  else if r.getIsRouteExternal then .ebgp
  else if r.getIsRouteConfedExternal then .confedEbgp
  else .ibgp

structure BgpBestpathFeatures where
  enableMedComparison : Bool := false
  enableMedMissingAsWorst : Bool := false
  enableWeightComparison : Bool := false
  enableNextHopTracking : Bool := false
  enableEiBgpMultipath : Bool := false

def kMedMax : Nat := 2 ^ 32 - 1

variable (features : BgpBestpathFeatures)

def getMed (attrs : BgpPath F) : Nat :=
  if attrs.isMedSet then attrs.med else if features.enableMedMissingAsWorst then kMedMax else 0

/-- The number each metric has on a path. No path of the RIB is ever marked deleted or preferred; the last
three metrics have no rule for a path, and neither of the RIB's filter lists has them. -/
def RouteInfo.rule (nexthops : NexthopInfoMap) : RouteMetric → RouteInfo F → Nat
  | .bgpLocalPreference, r => r.attrs.val.localPref
  | .bgpAsPathLen, r => r.getBgpAsPathLen
  | .bgpAsPathLenWithConfed, r => r.getBgpAsPathLenWithConfed
  | .bgpOriginCode, r => r.attrs.val.origin.toInt.toNat
  | .bgpMedValue, r => getMed features r.attrs.val
  | .bgpWeightValue, r => r.attrs.val.weight
  | .bgpRouterId, r => r.getBgpRouterId
  | .bgpPeerAsn, r => r.getPeerAsn
  | .prefixLength, r => r.pfx.len
  | .externalRoute, r => r.getIsRouteExternal.toNat
  | .localRoute, r => r.getIsRouteLocal.toNat
  | .confedExternalRoute, r => r.getIsRouteConfedExternal.toNat
  | .bgpPeerIp, r => transformIP2Int r.peer.addr
  | .bgpPeerNexthop, r => transformIP2Int r.nexthop
  | .bgpClusterListLen, r => r.attrs.val.clusterList.length
  | .igpCost, r => r.getIgpCostValue nexthops
  | .deletedRoute, _ => 0
  | .alreadyPreferredRoute, _ => 0
  | .controllerCommunity, _ => 0
  | .controllerCommunityMetro, _ => 0
  | .perfDetourRouteOverride, _ => 0

/-- The paths of an entry under their peers and received ids, with their number kept beside them. -/
structure RouteInfos (F : Type) where
  table : Keyed (RouteInfo.key (F := F))
  allPathsCount : Nat
  count_eq : allPathsCount = table.items.length

namespace RouteInfos

def empty : RouteInfos F := ⟨.empty, 0, rfl⟩

variable (infos : RouteInfos F)

def paths : List (RouteInfo F) := infos.table.items

def find (key : BgpPeerId × Nat) : Option (RouteInfo F) := infos.table.find key

/-- A path in place of the one under its key, or added under a key that has none. -/
def put (path : RouteInfo F) : RouteInfos F where
  table := infos.table.put path
  allPathsCount := if (infos.find path.key).isSome then infos.allPathsCount else infos.allPathsCount + 1
  count_eq := by
    cases hfind : infos.table.find path.key with
    | none => rw [Keyed.length_put_of_none hfind, find, hfind, infos.count_eq]; rfl
    | some old => rw [Keyed.length_put_of_some hfind, find, hfind, infos.count_eq]; rfl

def erase (key : BgpPeerId × Nat) : RouteInfos F where
  table := infos.table.erase key
  allPathsCount := if (infos.find key).isSome then infos.allPathsCount - 1 else infos.allPathsCount
  count_eq := by
    cases hfind : infos.table.find key with
    | none =>
      have herase : (infos.table.erase key).items = infos.table.items := by
        rw [Keyed.items_erase, List.filter_eq_self]
        simpa using Keyed.find_eq_none_iff.mp hfind
      rw [herase, find, hfind, infos.count_eq]; rfl
    | some old =>
      have hlength := Keyed.length_erase_of_some hfind
      rw [find, hfind, infos.count_eq, ← hlength]; rfl

/-- The paths after an announcement or a withdrawal, or nothing where no path changes. A path that replaces
another one keeps the id it is sent under. -/
def updatePath [DecidableEq F] (pfx : CIDRNetwork) (object : Nat) (peer : TinyPeerInfo F)
    (attrs : Option (BgpPathPtr F)) (installToFib : Bool) (receivedPathId : Nat) : Option (RouteInfos F) :=
  match attrs, infos.find (peer.peerId, receivedPathId) with
  | none, none => none
  | none, some _ => some (infos.erase (peer.peerId, receivedPathId))
  | some attrs, old =>
    if old.any fun old => old.attrs.object == attrs.object && old.peer == peer then none
    else some (infos.put
      { object, pfx, peer, attrs, receivedPathId, pathIdToSend := old.bind (·.pathIdToSend), installToFib })

/-- A path after an update was there before, or is the new one. -/
theorem mem_updatePath [DecidableEq F] {infos infos' : RouteInfos F} {pfx : CIDRNetwork} {object : Nat}
    {peer : TinyPeerInfo F} {attrs : Option (BgpPathPtr F)} {install : Bool} {pathId : Nat}
    (h : infos.updatePath pfx object peer attrs install pathId = some infos') {r : RouteInfo F}
    (hr : r ∈ infos'.paths) :
    r ∈ infos.paths ∨ (r.object = object ∧ attrs = some r.attrs) ∧ r.key = (peer.peerId, pathId) ∧
      r.pathIdToSend = (infos.find (peer.peerId, pathId)).bind (·.pathIdToSend) := by
  unfold updatePath at h
  split at h
  · exact nomatch h
  · cases h
    exact .inl (Keyed.mem_erase.mp hr).1
  · split at h
    · exact nomatch h
    · cases h
      rcases Keyed.mem_put.mp hr with rfl | ⟨hr, -⟩
      · exact .inr ⟨⟨rfl, rfl⟩, rfl, rfl⟩
      · exact .inl hr

end RouteInfos

def kMinPathIDToSend : Nat := 0

def kMaxPathIDToSend : Nat := 2 ^ 32 - 1

def kDefaultPathID : Nat := 0

/-- A 64-bit number stored in a variable of 32 bits. -/
def toUint32 (value : Int) : Nat := (value % 2 ^ 32).toNat

/-- The first largest gap between consecutive used ids, with the largest gap so far. -/
def largestGap : List Int → Nat × Nat × Int → Nat × Nat × Int
  | used :: next :: rest, (left, right, maxGap) =>
    let thisGap := next - used - 1
    largestGap (next :: rest)
      (if thisGap > maxGap then (toUint32 (used + 1), toUint32 (next - 1), thisGap) else (left, right, maxGap))
  | _, best => best

def findLargestFreePathIdInterval (infos : RouteInfos F) (minPathId maxPathId : Nat) : Nat × Nat :=
  let used := infos.paths.filterMap fun r =>
    r.pathIdToSend.filter fun id => decide (minPathId ≤ id ∧ id ≤ maxPathId)
  -- the limits stand as guard posts around the ids in use
  let usedIds := (((minPathId : Int) - 1) :: ((maxPathId : Int) + 1) :: used.map Int.ofNat).insertionSort (· ≤ ·)
  let (left, right, _) := largestGap usedIds (minPathId, maxPathId, -1)
  (left, right)

abbrev WeightedNexthopMap := List (IPAddress × Nat)

abbrev NexthopTopoInfoMap := List (IPAddress × List (String × Int))

structure RibEntry (F : Type) [Zero F] where
  pfx : CIDRNetwork
  routeInfos : RouteInfos F := .empty
  aggregateReceivedUcmpWeight : F := 0
  advertisedAggregateReceivedUcmpWeight : F := 0
  aggregateLocalUcmpWeight : F := 0
  advertisedAggregateLocalUcmpWeight : F := 0
  ribPolicyUcmpWeight : F := 0
  advertisedRibPolicyUcmpWeight : F := 0
  isPartialDrain : Bool := false
  advertisedIsPartialDrain : Bool := false
  needPathSelection : Bool := true
  hasFibOutState : Bool := false
  inactivePathCount : Nat := 0
  weightedNexthops : Option (SharedPtr WeightedNexthopMap) := none
  advertisedWeightedNexthops : Option (SharedPtr WeightedNexthopMap) := none
  nexthopsAndTopoInfo : Option NexthopTopoInfoMap := none
  multipaths : List (Nat × RouteInfo F) := []
  advertisedMultipaths : List (Nat × RouteInfo F) := []
  bestpath : Option (RouteInfo F) := none
  advertisedBestpath : Option (RouteInfo F) := none
  installToFib : Bool := true
  ribVersion : Nat := 0
  freePathIdInterval : Nat × Nat := (kMinPathIDToSend, kMaxPathIDToSend)

namespace RibEntry

variable [Zero F] [DecidableEq F] (entry : RibEntry F)

def getAllPathsCnt : Nat := entry.routeInfos.allPathsCount

/-- Add, replace or withdraw one path; `object` is the identity of a `RouteInfo` made here. The flag says whether
a path was added, replaced or withdrawn. -/
def updatePath (object : Nat) (peer : TinyPeerInfo F) (attrs : Option (BgpPathPtr F))
    (installToFib : Bool) (receivedPathId : Nat) : RibEntry F × Bool :=
  match entry.routeInfos.updatePath entry.pfx object peer attrs installToFib receivedPathId with
  | some infos => ({ entry with routeInfos := infos, needPathSelection := true }, true)
  | none => (entry, false)

/-- Take the left id out of the free interval; an empty interval is refilled first. -/
def getPathIdToSend : Nat × RibEntry F :=
  let interval := if entry.freePathIdInterval.1 > entry.freePathIdInterval.2 then
      findLargestFreePathIdInterval entry.routeInfos kMinPathIDToSend kMaxPathIDToSend
    else entry.freePathIdInterval
  (interval.1, { entry with freePathIdInterval := ((interval.1 + 1) % 2 ^ 32, interval.2) })

/-- The id that a path of the entry is sent under, assigned where it has none; the path comes back with it. -/
def getOrAssignSendPathId (path : RouteInfo F) : RouteInfo F × RibEntry F :=
  match path.pathIdToSend with
  | some _ => (path, entry)
  | none =>
    let (id, entry) := entry.getPathIdToSend
    let path := { path with pathIdToSend := some id }
    (path, { entry with routeInfos := entry.routeInfos.put path })

/-- Add a path to a map by the id it is sent under; a path that is there under that id stays. -/
def emplaceMultipath (multipaths : List (Nat × RouteInfo F)) (path : RouteInfo F) : List (Nat × RouteInfo F) :=
  match path.pathIdToSend with
  | some id => if multipaths.any fun x => x.1 == id then multipaths else multipaths ++ [(id, path)]
  | none => multipaths

def multipathsOf (selected : List (RouteInfo F)) : List (Nat × RouteInfo F) := selected.foldl emplaceMultipath []

def pathDiffers (a b : Option (RouteInfo F)) : Bool := a.map (·.object) != b.map (·.object)

def nexthopsDiffer (a b : Option (SharedPtr WeightedNexthopMap)) : Bool := a.map (·.object) != b.map (·.object)

/-- Whether two maps of selected paths differ, the paths being compared as pointers. -/
def multipathsDiffer (a b : List (Nat × RouteInfo F)) : Bool :=
  !decide ((a.map fun x => (x.1, x.2.object)).Perm (b.map fun x => (x.1, x.2.object)))

/-- Make the selected best path the advertised one; the flag says whether peers need a new advertisement. -/
def commitBestpath : Bool × RibEntry F :=
  let ret := pathDiffers entry.advertisedBestpath entry.bestpath ||
    entry.advertisedAggregateReceivedUcmpWeight != entry.aggregateReceivedUcmpWeight ||
    entry.advertisedAggregateLocalUcmpWeight != entry.aggregateLocalUcmpWeight ||
    entry.advertisedRibPolicyUcmpWeight != entry.ribPolicyUcmpWeight ||
    entry.advertisedIsPartialDrain != entry.isPartialDrain
  let entry := { entry with
    advertisedAggregateReceivedUcmpWeight := entry.aggregateReceivedUcmpWeight
    advertisedAggregateLocalUcmpWeight := entry.aggregateLocalUcmpWeight
    advertisedRibPolicyUcmpWeight := entry.ribPolicyUcmpWeight
    advertisedIsPartialDrain := entry.isPartialDrain }
  if entry.advertisedBestpath.isNone && entry.bestpath.isNone then (false, entry)
  else (ret, { entry with advertisedBestpath := entry.bestpath })

def commitMultipathNexthops : Bool × RibEntry F :=
  (nexthopsDiffer entry.advertisedWeightedNexthops entry.weightedNexthops,
    { entry with advertisedWeightedNexthops := entry.weightedNexthops })

def multipathChanged : Bool := multipathsDiffer entry.advertisedMultipaths entry.multipaths

def commitMultipaths : Bool × RibEntry F :=
  (entry.multipathChanged, { entry with advertisedMultipaths := entry.multipaths })

end RibEntry

def getMembershipFilterConfig (metric : RouteMetric) (action : MembershipRouteFilterAction) (filterValues : List Int) :
    RouteFilterConfig := .membership metric action filterValues

def getHighestLowestRouteFilterConfig (rule : RouteMetric × HighestLowestRouteFilterAction) : RouteFilterConfig :=
  .highestLowest rule.1 rule.2

variable (countConfedsInAsPathLen : Bool)

/-- The metrics that decide which paths share the traffic, in their order. -/
def multiPathRules :
    List (RouteMetric × HighestLowestRouteFilterAction) :=
  (if features.enableWeightComparison then [(.bgpWeightValue, .chooseHighest)] else []) ++
  [(.bgpLocalPreference, .chooseHighest), (.localRoute, .chooseHighest),
    (if countConfedsInAsPathLen then .bgpAsPathLenWithConfed else .bgpAsPathLen, .chooseLowest),
    (.bgpOriginCode, .chooseLowest)] ++
  (if features.enableMedComparison then [(.bgpMedValue, .chooseLowest)] else []) ++
  (if features.enableEiBgpMultipath then [] else [(.externalRoute, .chooseHighest)]) ++
  (if features.enableNextHopTracking then [(.igpCost, .chooseLowest)] else []) ++
  [(.confedExternalRoute, .chooseHighest)]

/-- The metrics that break the tie between the paths that share the traffic. -/
def bestPathRules : List (RouteMetric × HighestLowestRouteFilterAction) :=
  [(if countConfedsInAsPathLen then .bgpAsPathLenWithConfed else .bgpAsPathLen, .chooseHighest),
    (.bgpRouterId, .chooseLowest), (.bgpClusterListLen, .chooseLowest), (.bgpPeerIp, .chooseLowest),
    (.bgpPeerNexthop, .chooseLowest)]

def getBaseRouteFilterConfigsMultiPath :
    List RouteFilterConfig :=
  getMembershipFilterConfig .deletedRoute .chooseMember [0] ::
    (multiPathRules features countConfedsInAsPathLen).map getHighestLowestRouteFilterConfig

def getRouteFilterConfigsBestPath : List RouteFilterConfig :=
  (bestPathRules countConfedsInAsPathLen).map getHighestLowestRouteFilterConfig

/-- The unit in which the bandwidths of an entry's paths are counted. -/
inductive LbwMultiplier
  | bpsPerGBps
  | bpsPerMBps
  | bps
  deriving DecidableEq, Repr

/-- The floating-point operations of the weight computation. -/
structure UcmpArithmetic (F : Type) where
  isNonnegative : F → Bool
  isPositive : F → Bool
  add : F → F → F
  exceedsGBps : F → Bool
  exceedsMBps : F → Bool
  quantize : F → F
  /-- The bandwidth in the unit, rounded to an integer of 32 bits. -/
  toUcmpWeight : F → LbwMultiplier → Nat

structure SelectionConfig (F : Type) where
  features : BgpBestpathFeatures
  countConfedsInAsPathLen : Bool
  computeUcmp : Bool
  ucmpWidth : Nat
  arithmetic : UcmpArithmetic F

variable (arithmetic : UcmpArithmetic F)

def RouteInfo.getUcmpWeight [Zero F] (r : RouteInfo F) : F :=
  match r.attrs.val.nonTransitiveLbw with
  | some lbw => if arithmetic.isNonnegative lbw then lbw else 0
  | none => 0

variable (config : SelectionConfig F) (nexthops : NexthopInfoMap) (routes : List (RouteInfo F)) {K V : Type}

def multipathSelector :
    List (RouteInfo F) :=
  selectRoutes (RouteInfo.rule config.features nexthops)
    (getBaseRouteFilterConfigsMultiPath config.features config.countConfedsInAsPathLen) routes

def bestpathSelector :
    List (RouteInfo F) :=
  selectRoutes (RouteInfo.rule config.features nexthops) (getRouteFilterConfigsBestPath config.countConfedsInAsPathLen)
    routes

namespace RibEntry

variable [Zero F] [DecidableEq F]

/-- The paths that may be selected; the entry keeps the number of the others. -/
def prePathSelectionFiltering (features : BgpBestpathFeatures) (nexthops : NexthopInfoMap) (entry : RibEntry F) :
    List (RouteInfo F) × RibEntry F :=
  let inactive := fun r : RouteInfo F => features.enableNextHopTracking && !r.isResolvedForSelection nexthops
  (entry.routeInfos.paths.filter fun r => !inactive r,
    { entry with inactivePathCount := (entry.routeInfos.paths.filter inactive).length })

/-- Give each selected path an id to be sent under. -/
def assignSendPathIds (entry : RibEntry F) : List (RouteInfo F) → List (RouteInfo F) × RibEntry F
  | [] => ([], entry)
  | path :: paths =>
    let (path, entry) := entry.getOrAssignSendPathId path
    let (paths, entry) := entry.assignSendPathIds paths
    (path :: paths, entry)

def multiPathSelection (config : SelectionConfig F) (nexthops : NexthopInfoMap) (entry : RibEntry F)
    (routes : List (RouteInfo F)) : List (RouteInfo F) × RibEntry F :=
  entry.assignSendPathIds (multipathSelector config nexthops routes)

/-- The first path that the tie-breakers leave is the best one. -/
def bestPathSelection (config : SelectionConfig F) (nexthops : NexthopInfoMap) (entry : RibEntry F)
    (selectedPaths : List (RouteInfo F)) : RibEntry F :=
  match (bestpathSelector config nexthops selectedPaths).head? with
  | some best => { entry with bestpath := some best, installToFib := best.installToFib }
  | none => entry

end RibEntry

/-- Add a pair to a map; one that is there under the key stays. -/
def emplace [DecidableEq K] (map : List (K × V)) (key : K) (value : V) : List (K × V) :=
  if map.any fun x => x.1 == key then map else map ++ [(key, value)]

def mapsDiffer [DecidableEq K] [DecidableEq V] (a b : List (K × V)) : Bool := !decide (a.Perm b)

def nextLbwMultiplier (weight : F) (multiplier : LbwMultiplier) : LbwMultiplier :=
  if arithmetic.exceedsGBps weight then multiplier
  else if arithmetic.exceedsMBps weight then
    match multiplier with
    | .bps => .bps
    | _ => .bpsPerMBps
  else .bps

/-- The weight a nexthop has after division by the common divisor and scaling to the width. -/
def normalizeWeight (ucmpWidth weightMultiplier totalUcmpWeight weight : Nat) : Nat :=
  let weight := weight / max weightMultiplier 1
  if totalUcmpWeight > ucmpWidth then
    (2 * (weight * ucmpWidth % 2 ^ 32) + totalUcmpWeight) / (2 * totalUcmpWeight)
  else weight

namespace RibEntry

variable [Zero F] [DecidableEq F]

/-- Sum the weights of the selected paths and collect their topology information. The results are the unit
of the weights and whether the information changed. -/
def accumulateAggregateWeightsAndTopoInfo (arithmetic : UcmpArithmetic F) (entry : RibEntry F)
    (selectedPaths : List (RouteInfo F)) (oldNexthopAndTopoInfo : Option NexthopTopoInfoMap) :
    LbwMultiplier × Bool × RibEntry F :=
  let received := selectedPaths.map (RouteInfo.getUcmpWeight arithmetic)
  let lbwMultiplier := received.foldl (fun multiplier weight => nextLbwMultiplier arithmetic weight multiplier) .bpsPerGBps
  let nexthopsAndTopoInfo : NexthopTopoInfoMap := selectedPaths.foldl (fun map path =>
    match path.attrs.val.topologyInfo with
    | some topoInfo => emplace map path.nexthop topoInfo
    | none => map) []
  let complete := nexthopsAndTopoInfo.length == selectedPaths.length
  let topoInfoChanged := complete && oldNexthopAndTopoInfo.all fun old => mapsDiffer old nexthopsAndTopoInfo
  let aggregateReceived := if received.contains 0 then 0 else received.foldl arithmetic.add 0
  -- the weight is the peers' own bandwidth, and counts only when every peer has one
  let aggregateLocal := if selectedPaths.any fun path => path.peer.ucmpWeight.isNone then 0
    else arithmetic.quantize
      (selectedPaths.foldl (fun sum path => arithmetic.add sum (path.peer.ucmpWeight.getD 0)) 0)
  (lbwMultiplier, topoInfoChanged, { entry with
      aggregateReceivedUcmpWeight := aggregateReceived
      aggregateLocalUcmpWeight := aggregateLocal
      nexthopsAndTopoInfo := if complete then some nexthopsAndTopoInfo else none })

/-- Make the map of selected paths, and the weight of each nexthop; a nexthop whose weight comes to 0 is dropped. -/
def buildAndNormalizeWeightedNexthops (config : SelectionConfig F) (entry : RibEntry F)
    (selectedPaths : List (RouteInfo F)) (lbwMultiplier : LbwMultiplier) : WeightedNexthopMap × RibEntry F :=
  let multipaths := multipathsOf selectedPaths
  -- of paths with one id the one in the map counts
  let paths := selectedPaths.map fun path => ((multipaths.find? fun x => some x.1 == path.pathIdToSend).map (·.2)).getD path
  let entry := { entry with multipaths }
  if config.computeUcmp && config.arithmetic.isPositive entry.aggregateReceivedUcmpWeight then
    let weights := paths.map fun path => config.arithmetic.toUcmpWeight (path.getUcmpWeight config.arithmetic) lbwMultiplier
    let weightMultiplier := weights.foldl Nat.gcd 0
    let totalUcmpWeight := weights.sum / max weightMultiplier 1
    let map := (paths.zip weights).foldl (fun map x => emplace map x.1.nexthop x.2) []
    let normalized := map.map fun x => (x.1, normalizeWeight config.ucmpWidth weightMultiplier totalUcmpWeight x.2)
    (normalized.filter fun x => x.2 != 0, entry)
  else (paths.foldl (fun map path => emplace map path.nexthop 0) [], entry)

/-- Whether the best path and whether the nexthops changed since `old`. The nexthops move to a new object only
when their map differs; `object` is that object's identity. -/
def computeChangePair (old entry : RibEntry F) (object : Nat) (topoInfoChanged : Bool) (newNhWtMap : WeightedNexthopMap) :
    Bool × Bool × RibEntry F :=
  let mapChanged := old.weightedNexthops.all fun nexthops => mapsDiffer newNhWtMap nexthops.val
  let entry := if mapChanged then { entry with weightedNexthops := some ⟨object, newNhWtMap⟩ } else entry
  let multipathChanged := mapChanged || topoInfoChanged
  if old.bestpath.isNone && entry.bestpath.isNone then (false, multipathChanged, entry)
  else
    (pathDiffers old.bestpath entry.bestpath || entry.aggregateReceivedUcmpWeight != old.aggregateReceivedUcmpWeight ||
        entry.aggregateLocalUcmpWeight != old.aggregateLocalUcmpWeight,
      multipathChanged, entry)

/-- Select among the paths of an entry. The flags say whether the best path and whether the nexthops changed. -/
def selectBestPath (config : SelectionConfig F) (nexthops : NexthopInfoMap) (object : Nat) (old : RibEntry F) :
    Bool × Bool × RibEntry F :=
  let entry := { old with
    needPathSelection := false, aggregateReceivedUcmpWeight := 0, aggregateLocalUcmpWeight := 0
    nexthopsAndTopoInfo := none }
  let (routes, entry) := entry.prePathSelectionFiltering config.features nexthops
  if routes.isEmpty then
    (old.bestpath.isSome, old.weightedNexthops.isSome,
      { entry with bestpath := none, multipaths := [], installToFib := true, weightedNexthops := none })
  else
    let (selectedPaths, entry) := entry.multiPathSelection config nexthops routes
    let (lbwMultiplier, topoInfoChanged, entry) :=
      entry.accumulateAggregateWeightsAndTopoInfo config.arithmetic selectedPaths old.nexthopsAndTopoInfo
    let entry := entry.bestPathSelection config nexthops selectedPaths
    let (newNhWtMap, entry) := entry.buildAndNormalizeWeightedNexthops config selectedPaths lbwMultiplier
    old.computeChangePair entry object topoInfoChanged newNhWtMap

end RibEntry

end FbossBgp.Rib
