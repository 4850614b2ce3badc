import FbossBgp.Lib.Transition
import FbossBgp.Rib.RibOut

/-! The RIB as a state machine. RIB-in messages change the paths of entries, a selection pass selects among them
and hands the entries that changed to the FIB, and the FIB's acknowledgements let them be advertised. Counters are
kept beside the entries. -/

namespace FbossBgp.Rib

open BgpLib

variable {F : Type}

def kMaxPrefixLen : Nat := 128

/-- One value that is counted for each address family. -/
inductive Gauge
  | totalPrefixes
  | totalPaths
  | inactivePaths
  | prefixLenCounts (len : Nat)
  /-- The prefixes whose best path has the type. -/
  | source (type : BgpRouteType)
  deriving DecidableEq

/-- The values for IPv4 (`true`) and IPv6 (`false`). -/
abbrev RibCounters := Bool → Gauge → Int

namespace RibCounters

def reset : RibCounters := fun _ _ => 0

variable (counters : RibCounters) (isV4 : Bool) (prefixLen : Nat) (delta : Int)

def adjust (gauge : Gauge) (delta : Int) : RibCounters :=
  fun v g => if v = isV4 ∧ g = gauge then counters v g + delta else counters v g

def bucket : Nat := if prefixLen > kMaxPrefixLen then kMaxPrefixLen else prefixLen

def onPrefixAdded : RibCounters :=
  (counters.adjust isV4 .totalPrefixes 1).adjust isV4 (.prefixLenCounts (bucket prefixLen)) 1

def onInactivePathsDelta : RibCounters :=
  if delta = 0 then counters else counters.adjust isV4 .inactivePaths delta

/-- An entry is gone, and its inactive paths with it. -/
def onPrefixRemoved (prefixLen inactivePaths : Nat) : RibCounters :=
  ((counters.adjust isV4 .totalPrefixes (-1)).adjust isV4 (.prefixLenCounts (bucket prefixLen)) (-1)).onInactivePathsDelta
    isV4 (-inactivePaths)

def onPathsDelta : RibCounters :=
  if delta = 0 then counters else counters.adjust isV4 .totalPaths delta

/-- No best path is in no bucket. -/
def adjustSource (source : Option BgpRouteType) (delta : Int) : RibCounters :=
  match source with
  | none => counters
  | some type => counters.adjust isV4 (.source type) delta

def onBestpathSourceChanged (oldSource newSource : Option BgpRouteType) : RibCounters :=
  if oldSource = newSource then counters
  else (counters.adjustSource isV4 oldSource (-1)).adjustSource isV4 newSource 1

end RibCounters

def bestpathSource (bestpath : Option (RouteInfo F)) : Option BgpRouteType := bestpath.map getBgpPathType

/-- What one entry adds to a value. Its inactive paths are those that its last selection left out. -/
def RibEntry.count [Zero F] (entry : RibEntry F) (isV4 : Bool) (gauge : Gauge) : Int :=
  if entry.pfx.addr.isV4 = isV4 then
    match gauge with
    | .totalPrefixes => 1
    | .totalPaths => entry.getAllPathsCnt
    | .inactivePaths => entry.inactivePathCount
    | .prefixLenCounts len => if RibCounters.bucket entry.pfx.len = len then 1 else 0
    | .source type => if bestpathSource entry.bestpath = some type then 1 else 0
  else 0

/-- A configured network. With a minimum number of supporting routes it is an aggregate, which is originated
while that many routes support it. -/
structure LocalRoute (F : Type) where
  pfx : CIDRNetwork
  minSupportRoutes : Int
  installToFib : Bool
  supportPfxCnt : Int
  attrs : BgpPathPtr F

/-- A programmed prefix and its nexthops; none for a prefix that was deleted. -/
abbrev FibProgrammedPfx := CIDRNetwork × Option (SharedPtr WeightedNexthopMap)

instance : DecidableEq FibProgrammedPfx := inferInstance

/-- The programmed prefixes come in groups, one for each attributes of a best path. -/
structure FibProgrammedMessage where
  fibProgrammedPfxs : List (List FibProgrammedPfx)
  isSync : Bool

structure FibBatch where
  pfxs : List FibProgrammedPfx
  isSync : Bool

/-- The statuses of nexthops as the nexthop cache has them. -/
abbrev NexthopCache := IPAddress → Option NexthopStatus

namespace RibEntry

variable [Zero F] (condition : RibEntry F → Bool) (entry : RibEntry F)

def requirePathSelectionIf : RibEntry F :=
  if condition entry then { entry with needPathSelection := true } else entry

theorem pfx_requirePathSelectionIf : (entry.requirePathSelectionIf condition).pfx = entry.pfx := by
  unfold requirePathSelectionIf
  split <;> rfl

variable (fibBatchList : List CIDRNetwork)

/-- The FIB has heard of the entries on the batch list. -/
def markFibOutStatePresentIf (entry : RibEntry F) : RibEntry F :=
  if fibBatchList.contains entry.pfx then { entry with hasFibOutState := true } else entry

theorem pfx_markFibOutStatePresentIf (entry : RibEntry F) :
    (entry.markFibOutStatePresentIf fibBatchList).pfx = entry.pfx := by
  unfold markFibOutStatePresentIf
  split <;> rfl

end RibEntry

structure RibBase (F : Type) [Zero F] where
  ribEntries : Keyed (RibEntry.pfx (F := F)) := .empty
  localRoutes : Keyed (LocalRoute.pfx (F := F))
  ribCounters : RibCounters := .reset
  nexthopInfoMap : NexthopInfoMap := fun _ => none
  fibBatchList : List CIDRNetwork := []
  /-- The requests for FIB programming, each with its `fullSync`. -/
  toFibMessageQ : List Bool := []
  programming : Option FibBatch := none
  fromFibMessageQ : List FibProgrammedMessage := []
  ribOut : RibOut F := {}
  ribEoRReceived : Bool := false
  initialEorSent : Bool := false
  /-- The identity of the next object that is made. -/
  nextObject : Nat := 0

namespace RibBase

variable [Zero F] [DecidableEq F] (rib : RibBase F) (nexthop : IPAddress)

def isNexthopUsed : Bool :=
  rib.ribEntries.items.any fun entry => entry.routeInfos.paths.any fun r => r.nexthop == nexthop

/-- Track a nexthop from the first path that has it; the unspecified address is not tracked. -/
def getNexthopInfo (cache : NexthopCache) (attrs : BgpPath F) : RibBase F :=
  if attrs.nexthop.bytes.all (· == 0) || (rib.nexthopInfoMap attrs.nexthop).isSome then rib
  else { rib with
    nexthopInfoMap := fun nh =>
      if nh = attrs.nexthop then some ((cache nh).getD { isReachable := false }) else rib.nexthopInfoMap nh }

/-- Stop tracking a nexthop that no path has, unless an entry waits for the FIB. -/
def checkAndDeleteNexthopInfo : RibBase F :=
  if rib.isNexthopUsed nexthop || !rib.fibBatchList.isEmpty then rib
  else { rib with nexthopInfoMap := fun nh => if nh = nexthop then none else rib.nexthopInfoMap nh }

def deleteUnusedNexthopInfos : RibBase F :=
  { rib with nexthopInfoMap := fun nh => if rib.isNexthopUsed nh then rib.nexthopInfoMap nh else none }

variable (entry : RibEntry F)

def setEntry : RibBase F := { rib with ribEntries := rib.ribEntries.put entry }

def eraseEntry : RibBase F :=
  { rib with
    ribEntries := rib.ribEntries.erase entry.pfx
    ribCounters := rib.ribCounters.onPrefixRemoved entry.pfx.addr.isV4 entry.pfx.len entry.inactivePathCount
    fibBatchList := rib.fibBatchList.filter (· ≠ entry.pfx) }

variable (pfx : CIDRNetwork)

def emplaceEntry : RibEntry F × RibBase F :=
  match rib.ribEntries.find pfx with
  | some entry => (entry, rib)
  | none =>
    ({ pfx }, { rib.setEntry { pfx } with ribCounters := rib.ribCounters.onPrefixAdded pfx.addr.isV4 pfx.len })

/-- Erase an entry whose last path goes before the FIB has heard of it. -/
def checkWithdrawalBeforeRouteProgrammed : RibBase F :=
  if !entry.hasFibOutState && entry.routeInfos.paths.isEmpty then rib.eraseEntry entry else rib

variable (config : SelectionConfig F) (cache : NexthopCache) (sameAsLocalRoute : Bool)
  (oldAllPathCnt newAllPathCnt : Nat) (peer : TinyPeerInfo F)

def trackNexthop (rib : RibBase F) (attrs : Option (BgpPathPtr F)) : RibBase F :=
  match attrs with
  | some attrs => if config.features.enableNextHopTracking then rib.getNexthopInfo cache attrs.val else rib
  | none => rib

/-- Look after the nexthop of a path that was replaced or withdrawn. -/
def cleanupNexthop (replaced : Option (RouteInfo F)) : RibBase F :=
  match replaced with
  | some path => rib.checkAndDeleteNexthopInfo path.nexthop
  | none => rib

/-- Update one path of an entry, with the nexthops that are tracked and the number of paths. The entry after the
update comes with the RIB. -/
def updateEntryPath (rib : RibBase F) (entry : RibEntry F)
    (peer : TinyPeerInfo F) (attrs : Option (BgpPathPtr F)) (installToFib : Bool) (receivedPathId : Nat) :
    RibEntry F × RibBase F :=
  let (updated, changed) := entry.updatePath rib.nextObject peer attrs installToFib receivedPathId
  let replaced := if changed then entry.routeInfos.find (peer.peerId, receivedPathId) else none
  let linked := ((rib.trackNexthop config cache attrs).setEntry updated).cleanupNexthop replaced
  (updated, { linked with
      nextObject := rib.nextObject + 1
      ribCounters := linked.ribCounters.onPathsDelta entry.pfx.addr.isV4
        ((updated.getAllPathsCnt : Int) - entry.getAllPathsCnt) })

/-- A local route after a supporting route came or went, and its path if that has to be announced or withdrawn. -/
def aggregateLocalRoute (supportingRouteAnnouncement : Bool) (localRoute : LocalRoute F) :
    LocalRoute F × Option (CIDRNetwork × Option (BgpPathPtr F)) :=
  if !isSubnet pfx localRoute.pfx || localRoute.minSupportRoutes == 0 ||
      !supportingRouteAnnouncement && localRoute.supportPfxCnt == 0 then (localRoute, none)
  else if supportingRouteAnnouncement then
    ({ localRoute with supportPfxCnt := localRoute.supportPfxCnt + 1 },
      if localRoute.supportPfxCnt + 1 == localRoute.minSupportRoutes then some (localRoute.pfx, some localRoute.attrs)
      else none)
  else
    ({ localRoute with supportPfxCnt := localRoute.supportPfxCnt - 1 },
      if localRoute.supportPfxCnt - 1 == localRoute.minSupportRoutes - 1 then some (localRoute.pfx, none) else none)

omit [Zero F] [DecidableEq F] in
theorem pfx_aggregateLocalRoute (announcement : Bool) (localRoute : LocalRoute F) :
    (aggregateLocalRoute pfx announcement localRoute).1.pfx = localRoute.pfx := by
  unfold aggregateLocalRoute
  split
  · rfl
  · split <;> rfl

/-- Count a supporting route at the aggregates it supports; the paths of aggregates to announce or to withdraw. -/
def aggregateRoute (supportingRouteAnnouncement : Bool) :
    List (CIDRNetwork × Option (BgpPathPtr F)) × RibBase F :=
  (rib.localRoutes.items.filterMap fun localRoute =>
      (aggregateLocalRoute pfx supportingRouteAnnouncement localRoute).2,
    { rib with
      localRoutes := rib.localRoutes.modify
        (fun localRoute => (aggregateLocalRoute pfx supportingRouteAnnouncement localRoute).1)
        (pfx_aggregateLocalRoute pfx supportingRouteAnnouncement) })

/-- Whether a route that supports aggregates went. Of a prefix that is a local route each path counts. -/
def supportingRouteWithdrawn : Bool :=
  !sameAsLocalRoute && oldAllPathCnt == 1 && newAllPathCnt == 0 ||
    sameAsLocalRoute && newAllPathCnt + 1 == oldAllPathCnt

def supportingRouteAnnouncement : Bool :=
  !sameAsLocalRoute && oldAllPathCnt == 0 && newAllPathCnt == 1 ||
    sameAsLocalRoute && newAllPathCnt == oldAllPathCnt + 1

def aggregatePathChange :
    List (CIDRNetwork × Option (BgpPathPtr F)) × RibBase F :=
  let sameAsLocalRoute := (rib.localRoutes.find pfx).isSome
  let announcement := supportingRouteAnnouncement sameAsLocalRoute oldAllPathCnt newAllPathCnt
  if supportingRouteWithdrawn sameAsLocalRoute oldAllPathCnt newAllPathCnt || announcement then
    rib.aggregateRoute pfx announcement
  else ([], rib)

def ownLocalRoute (pfx : CIDRNetwork) : Option (LocalRoute F) :=
  if peer = kV4LocalPeerInfo then rib.localRoutes.find pfx else none

/-- Announce or withdraw (without attributes) one path; the aggregates that come or go with it are the result. -/
def processSingleRibInUpdate (rib : RibBase F)
    (peer : TinyPeerInfo F) (attrs : Option (BgpPathPtr F)) (pfx : CIDRNetwork) (receivedPathId : Nat) :
    List (CIDRNetwork × Option (BgpPathPtr F)) × RibBase F :=
  if attrs.isNone && (rib.ribEntries.find pfx).all fun entry => entry.getAllPathsCnt == 0 then ([], rib)
  else
    let (entry, rib) := rib.emplaceEntry pfx
    let own := rib.ownLocalRoute peer pfx
    let installToFib := (own.map (·.installToFib)).getD !peer.isRedistributePeer
    let isAggRoute := own.any fun localRoute => decide (localRoute.minSupportRoutes > 0)
    let (updated, rib) := rib.updateEntryPath config cache entry peer attrs installToFib receivedPathId
    let rib := if attrs.isNone then rib.checkWithdrawalBeforeRouteProgrammed updated else rib
    if isAggRoute then ([], rib)
    else rib.aggregatePathChange pfx entry.getAllPathsCnt updated.getAllPathsCnt

/-- One path of a RIB-in message, and then the aggregates that come or go with it. -/
def processRibInPath
    (attrs : Option (BgpPathPtr F)) (rib : RibBase F) (pfxPathId : CIDRNetwork × Nat) : RibBase F :=
  let (aggs, rib) := rib.processSingleRibInUpdate config cache peer attrs pfxPathId.1 pfxPathId.2
  aggs.foldl (fun rib agg =>
    (rib.processSingleRibInUpdate config cache kV4LocalPeerInfo agg.2 agg.1 kDefaultPathID).2) rib

def processRibInAnnouncement (rib : RibBase F)
    (peer : TinyPeerInfo F) (attrs : BgpPathPtr F) (pfxPathIds : List (CIDRNetwork × Nat)) : RibBase F :=
  pfxPathIds.foldl (processRibInPath config cache peer (some attrs)) rib

def processRibInWithdrawal (rib : RibBase F)
    (peer : TinyPeerInfo F) (pfxPathIds : List (CIDRNetwork × Nat)) : RibBase F :=
  pfxPathIds.foldl (processRibInPath config cache peer none) rib

def requirePathSelection (condition : RibEntry F → Bool) : RibBase F :=
  { rib with
    ribEntries := rib.ribEntries.modify (RibEntry.requirePathSelectionIf condition)
      (RibEntry.pfx_requirePathSelectionIf condition) }

/-- Take over the status that the cache has for a nexthop. The queued update names the nexthop and its epoch; one
that is older than what the RIB knows is skipped, and so is one for a nexthop that is not tracked. -/
def processNexthopStatus (rib : RibBase F) (queued : IPAddress × Nat) : RibBase F :=
  match rib.nexthopInfoMap queued.1, cache queued.1 with
  | some info, some status =>
    if queued.2 ≠ 0 ∧ info.epoch > queued.2 then rib
    else
      let updated := { rib with
        nexthopInfoMap := fun nh => if nh = queued.1 then some status else rib.nexthopInfoMap nh }
      if (info.igpCost != status.igpCost || info.isResolvedForSelection != status.isResolvedForSelection) &&
          rib.ribEoRReceived then
        updated.requirePathSelection fun entry => entry.routeInfos.paths.any fun r => r.nexthop == queued.1
      else updated
  | _, _ => rib

def processRibInNexthopUpdate (rib : RibBase F)
    (nexthopStatuses : List (IPAddress × Nat)) : RibBase F :=
  if config.features.enableNextHopTracking then nexthopStatuses.foldl (processNexthopStatus cache) rib else rib

/-- Select among the paths of an entry, and count what changed. -/
def runBestPathSelection (rib : RibBase F) (old : RibEntry F) : Bool × Bool × RibEntry F × RibBase F :=
  let (bestpathChanged, nexthopChanged, entry) := old.selectBestPath config rib.nexthopInfoMap rib.nextObject
  (bestpathChanged, nexthopChanged, entry, { rib.setEntry entry with
      nextObject := rib.nextObject + 1
      ribCounters := (rib.ribCounters.onBestpathSourceChanged entry.pfx.addr.isV4 (bestpathSource old.bestpath)
          (bestpathSource entry.bestpath)).onInactivePathsDelta entry.pfx.addr.isV4
            ((entry.inactivePathCount : Int) - old.inactivePathCount) })

def addToFibBatchList : RibBase F :=
  if rib.fibBatchList.contains pfx then rib else { rib with fibBatchList := rib.fibBatchList ++ [pfx] }

/-- Withdraw each path that has been advertised to the peers that take more than the best one. -/
def handleFullAddPathWithdrawal (out : RibOut F) : RibOut F :=
  match entry.advertisedWeightedNexthops with
  | some nexthops => nexthops.val.foldl (fun out x => out.withdrawAddPath entry.pfx x.1) out
  | none => out

/-- Withdraw a prefix from the peers, before the FIB withdraws it. -/
def withdrawEntry : RibBase F :=
  let out := handleFullAddPathWithdrawal entry rib.ribOut.flushFullWithdrawal.incrementRibVersion
  { rib.setEntry { entry.commitBestpath.2 with ribVersion := out.ribVersion } with
    ribOut := { out with withdrawal := out.withdrawal ++ [⟨entry.pfx, kDefaultPathID, none, out.ribVersion⟩] } }

variable (fullSync : Bool)

/-- Withdraw an entry from which the selection took the best path or all nexthops, and put it on the batch list if
anything changed. -/
def enqueueEntry (rib : RibBase F) (bestpathChanged nexthopChanged : Bool) (entry : RibEntry F) : RibBase F :=
  let rib := if fullSync then { rib with fibBatchList := rib.fibBatchList ++ [entry.pfx] } else rib
  if !bestpathChanged && !nexthopChanged && entry.multipathChanged then rib.addToFibBatchList entry.pfx
  else
    let rib := if nexthopChanged || bestpathChanged then
        let rib := if entry.weightedNexthops.isNone || bestpathChanged && entry.bestpath.isNone then
          rib.withdrawEntry entry else rib
        rib.addToFibBatchList entry.pfx
      else rib
    if entry.getAllPathsCnt == 0 && entry.hasFibOutState then rib.addToFibBatchList entry.pfx else rib

def prepareEntry (rib : RibBase F) (pfx : CIDRNetwork) : RibBase F :=
  match rib.ribEntries.find pfx with
  | none => rib
  | some old =>
    if !fullSync && !old.needPathSelection then rib
    else
      let (bestpathChanged, nexthopChanged, entry, rib) := rib.runBestPathSelection config old
      rib.enqueueEntry fullSync bestpathChanged nexthopChanged entry

/-- In a full sync the batch list is filled anew. -/
def clearForFullSync : RibBase F :=
  if fullSync then { rib with fibBatchList := [] } else rib

/-- Ask for FIB programming if there is anything to program. -/
def triggerFibProgramming : RibBase F :=
  if rib.fibBatchList.isEmpty && !fullSync then rib else { rib with toFibMessageQ := rib.toFibMessageQ ++ [fullSync] }

/-- A selection pass over the entries that need it, or over all of them in a full sync. The entries are visited in
the given order. -/
def prepareFibProgramming (rib : RibBase F) (fullSync : Bool) (order : List CIDRNetwork) : RibBase F :=
  let passed := order.foldl (prepareEntry config fullSync) (rib.clearForFullSync fullSync)
  { passed with ribOut := passed.ribOut.flushWithdrawals }.triggerFibProgramming fullSync

def runInitialPathComputation (rib : RibBase F) (order : List CIDRNetwork) : RibBase F :=
  { rib with ribEoRReceived := true }.prepareFibProgramming config true order

def processResumeBestPathAndFibProgramming (rib : RibBase F) (fullSync : Bool)
    (order : List CIDRNetwork) : RibBase F :=
  let rib := rib.requirePathSelection fun _ => true
  if rib.ribEoRReceived then rib.prepareFibProgramming config fullSync order else rib

def fibBatch : List FibProgrammedPfx :=
  rib.fibBatchList.filterMap fun pfx => (rib.ribEntries.find pfx).map fun entry => (pfx, entry.weightedNexthops)

def takeFibBatch : RibBase F :=
  { { rib with
      ribEntries := rib.ribEntries.modify (RibEntry.markFibOutStatePresentIf rib.fibBatchList)
        (RibEntry.pfx_markFibOutStatePresentIf rib.fibBatchList)
      fibBatchList := [] }.deleteUnusedNexthopInfos with
    programming := if fullSync || !rib.fibBatch.isEmpty then some ⟨rib.fibBatch, fullSync⟩ else none }

/-- One turn of the loop that programs the FIB: the requests so far become one batch. Without a connection, or
before the first full sync, they are dropped and the batch list is kept. -/
def processFibProgramming (isConnected isFullSynced : Bool) : RibBase F :=
  let fullSync := rib.toFibMessageQ.any id
  let drained := { rib with toFibMessageQ := [] }
  if !isConnected || !isFullSynced && !fullSync then drained else drained.takeFibBatch fullSync

/-- The FIB has programmed the batch; it answers with the prefixes in groups. -/
def programSucceeded (groups : List (List FibProgrammedPfx)) : RibBase F :=
  { rib with
    programming := none
    fromFibMessageQ := rib.fromFibMessageQ ++ (rib.programming.map fun batch => ⟨groups, batch.isSync⟩).toList }

/-- The FIB could not program the batch, which is lost. -/
def programFailed : RibBase F := { rib with programming := none }

def announcementOf (path : RouteInfo F) (pathIdToSend : Nat) (newlyInstalledInLocalRib : Bool)
    (ribVersion : Nat) : RibOutAnnouncementEntry F where
  pfx := entry.pfx
  pathIdToSend := pathIdToSend
  peer := path.peer
  attrs := path.attrs
  multiPathSize := entry.multipaths.length
  aggregateReceivedUcmpWeight := entry.aggregateReceivedUcmpWeight
  aggregateLocalUcmpWeight := entry.aggregateLocalUcmpWeight
  ribPolicyUcmpWeight := entry.ribPolicyUcmpWeight
  newlyInstalledInLocalRib := newlyInstalledInLocalRib
  ribVersion := ribVersion
  isPartialDrain := entry.isPartialDrain

/-- The nexthops that are advertised no more. -/
def goneNexthops (old new : Option (SharedPtr WeightedNexthopMap)) : List IPAddress :=
  match old, new with
  | some old, some new =>
    (old.val.filter fun x => !new.val.any fun y => y.1 == x.1).map Prod.fst
  | _, _ => []

variable (sendWithEoR : Bool)

/-- Announce the selected paths of an entry, and withdraw those whose nexthops are gone. -/
def advertiseMultipaths (entry : RibEntry F) (newlyInstalledInLocalRib : Bool)
    (gone : List IPAddress) (out : RibOut F) : RibOut F :=
  let out := entry.advertisedMultipaths.foldl (fun out x =>
    out.announceAddPath sendWithEoR (announcementOf entry x.2 x.1 newlyInstalledInLocalRib)) out
  gone.foldl (RibOut.withdrawAddPath entry.pfx) out

def advertiseBestpath (entry : RibEntry F) (newlyInstalledInLocalRib : Bool) (out : RibOut F) : RibOut F :=
  match entry.advertisedBestpath with
  | some bestpath =>
    let out := out.flushFullAnnouncement sendWithEoR
    { out with announcement := out.announcement ++
        [announcementOf entry bestpath kDefaultPathID newlyInstalledInLocalRib out.ribVersion] }
  | none => out

/-- Advertise what is selected for a prefix that the FIB has programmed. -/
def advertiseEntry (rib : RibBase F) (entry : RibEntry F) : RibBase F :=
  let newlyInstalledInLocalRib := entry.advertisedBestpath.isNone
  let (_, withNexthops) := entry.commitMultipathNexthops
  let gone := goneNexthops entry.advertisedWeightedNexthops withNexthops.advertisedWeightedNexthops
  let (multipathsChanged, withMultipaths) := withNexthops.commitMultipaths
  let out := rib.ribOut.incrementRibVersion
  let out := if multipathsChanged && withMultipaths.bestpath.isSome then
      advertiseMultipaths sendWithEoR withMultipaths newlyInstalledInLocalRib gone out
    else out
  let (bestpathChanged, committed) := { withMultipaths with ribVersion := out.ribVersion }.commitBestpath
  let out := if bestpathChanged then advertiseBestpath sendWithEoR committed newlyInstalledInLocalRib out else out
  { rib.setEntry committed with ribOut := out }

/-- One programmed prefix. A deleted one is erased if no path came meanwhile; for another one, the nexthops
that are selected now must be those that were programmed. -/
def handleFibProgrammedPfx (rib : RibBase F) (programmed : FibProgrammedPfx) : RibBase F :=
  match rib.ribEntries.find programmed.1 with
  | none => rib
  | some entry =>
    match programmed.2 with
    | none =>
      if entry.getAllPathsCnt == 0 && !rib.fibBatchList.contains programmed.1 then rib.eraseEntry entry else rib
    | some nexthops =>
      if RibEntry.nexthopsDiffer entry.weightedNexthops (some nexthops) then rib
      else rib.advertiseEntry sendWithEoR entry

/-- The prefixes of a group, local routes first. -/
def fibProgrammedPrefixes (group : List FibProgrammedPfx) : List FibProgrammedPfx :=
  (rib.localRoutes.items.filterMap fun localRoute => group.find? fun x => x.1 == localRoute.pfx) ++
    group.filter fun x => (rib.localRoutes.find x.1).isNone

/-- The first full sync that is acknowledged starts the initial dump to the peers. -/
def startInitialDump : RibBase F :=
  if sendWithEoR then { rib with initialEorSent := true, ribOut := rib.ribOut.push .initialAnnouncementStart } else rib

def handleFibProgrammedMessage (message : FibProgrammedMessage) : RibBase F :=
  let sendWithEoR := message.isSync && !rib.initialEorSent
  let handled := (message.fibProgrammedPfxs.flatMap rib.fibProgrammedPrefixes).foldl
    (handleFibProgrammedPfx sendWithEoR) (rib.startInitialDump sendWithEoR)
  { handled with ribOut := handled.ribOut.flushProgrammedWithdrawals.flushAnnouncements sendWithEoR }

def processFibMessage : RibBase F :=
  match rib.fromFibMessageQ with
  | [] => rib
  | message :: messages => { rib with fromFibMessageQ := messages }.handleFibProgrammedMessage message

end RibBase

/-- What can happen to a RIB. The cache, the order in which entries are visited and what becomes of a batch are
the environment's. -/
inductive RibAction (F : Type)
  | announcement (cache : NexthopCache) (peer : TinyPeerInfo F) (attrs : BgpPathPtr F)
      (pfxPathIds : List (CIDRNetwork × Nat))
  | withdrawal (cache : NexthopCache) (peer : TinyPeerInfo F) (pfxPathIds : List (CIDRNetwork × Nat))
  | nexthopUpdate (cache : NexthopCache) (nexthopStatuses : List (IPAddress × Nat))
  | initialPathComputation (order : List CIDRNetwork)
  | prepareFibProgramming (fullSync : Bool) (order : List CIDRNetwork)
  | resume (fullSync : Bool) (order : List CIDRNetwork)
  | fibProgramming (isConnected isFullSynced : Bool)
  | programSucceeded (groups : List (List FibProgrammedPfx))
  | programFailed
  | fibMessage

namespace RibBase

variable [Zero F] [DecidableEq F]

def exec (config : SelectionConfig F) (rib : RibBase F) : RibAction F → RibBase F
  | .announcement cache peer attrs pfxPathIds => rib.processRibInAnnouncement config cache peer attrs pfxPathIds
  | .withdrawal cache peer pfxPathIds => rib.processRibInWithdrawal config cache peer pfxPathIds
  | .nexthopUpdate cache nexthopStatuses => rib.processRibInNexthopUpdate config cache nexthopStatuses
  | .initialPathComputation order => rib.runInitialPathComputation config order
  | .prepareFibProgramming fullSync order => rib.prepareFibProgramming config fullSync order
  | .resume fullSync order => rib.processResumeBestPathAndFibProgramming config fullSync order
  | .fibProgramming isConnected isFullSynced => rib.processFibProgramming isConnected isFullSynced
  | .programSucceeded groups => rib.programSucceeded groups
  | .programFailed => rib.programFailed
  | .fibMessage => rib.processFibMessage

variable (rib : RibBase F)

def IsOrder (order : List CIDRNetwork) : Prop := order.Perm (rib.ribEntries.items.map RibEntry.pfx)

def Enabled : RibAction F → Prop
  | .announcement _ _ _ _ => True
  | .withdrawal _ _ _ => True
  | .nexthopUpdate _ _ => True
  | .initialPathComputation order => rib.ribEoRReceived = false ∧ rib.IsOrder order
  | .prepareFibProgramming _ order => rib.ribEoRReceived = true ∧ rib.IsOrder order
  | .resume _ order => rib.IsOrder order
  | .fibProgramming _ _ => rib.programming.isNone ∧ rib.toFibMessageQ ≠ []
  | .programSucceeded groups => ∃ batch, rib.programming = some batch ∧ groups.flatten.Perm batch.pfxs
  | .programFailed => rib.programming.isSome
  | .fibMessage => rib.fromFibMessageQ ≠ []

omit [DecidableEq F] in
theorem enabled_programSucceeded_iff (groups : List (List FibProgrammedPfx)) : rib.Enabled (.programSucceeded groups) ↔
    (rib.programming.map fun batch => decide (groups.flatten.Perm batch.pfxs)) = some true := by
  rw [Option.map_eq_some_iff]
  exact exists_congr fun batch => and_congr_right fun _ => decide_eq_true_iff.symm

instance (rib : RibBase F) (action : RibAction F) : Decidable (rib.Enabled action) := by
  cases action with
  | programSucceeded groups => exact decidable_of_iff' _ (rib.enabled_programSucceeded_iff groups)
  | _ => dsimp only [Enabled, IsOrder]; infer_instance

end RibBase

/-- A RIB with its configured networks, from its start on. -/
def ribSystem [Zero F] [DecidableEq F] (config : SelectionConfig F) (localRoutes : Keyed (LocalRoute.pfx (F := F))) :
    Transition.System (RibBase F) (RibAction F) where
  init := { localRoutes := localRoutes.modify (fun localRoute => { localRoute with supportPfxCnt := 0 }) fun _ => rfl }
  enabled := RibBase.Enabled
  exec := RibBase.exec config

instance [Zero F] [DecidableEq F] (config : SelectionConfig F) (localRoutes : Keyed (LocalRoute.pfx (F := F)))
    (rib : RibBase F) (action : RibAction F) : Decidable ((ribSystem config localRoutes).enabled rib action) :=
  inferInstanceAs (Decidable (rib.Enabled action))

end FbossBgp.Rib
