import FbossBgp.AdjRib.AdjRibIn
import FbossBgp.BgpLib.MessageSerializer

/-! The egress side of an AdjRib without update groups: the routes advertised to one peer, the updates held
back by an out-delay, and the packing list from which UPDATEs are built. Of the path attributes the nexthop
is modelled; the others are an arbitrary type `R`. -/

namespace FbossBgp.AdjRib

open BgpLib (IPAddress)
open Rib (CIDRNetwork BgpSessionType kDefaultPathID)

/-- All bits are zero, as in an address without family. -/
def isZero (addr : IPAddress) : Bool := addr.bytes.all (· = 0)

def isLoopback : IPAddress → Bool
  | .empty => false
  | .v4 octets _ => octets.headD 0 = 127
  | .v6 octets _ =>
    octets = List.replicate 15 0 ++ [1] ∨
      octets.take 12 = List.replicate 10 0 ++ [255, 255] ∧ (octets.drop 12).headD 0 = 127

abbrev IPAddressV4 := { addr : IPAddress // addr.isV4 = true }

abbrev IPAddressV6 := { addr : IPAddress // addr.isV6 = true }

/-- The v6 address that maps a v4 one. -/
def createIPv6 : IPAddressV4 → IPAddress
  | ⟨.v4 octets h, _⟩ => .v6 (List.replicate 10 0 ++ [255, 255] ++ octets) (by simp [h])

structure BgpPath (R : Type) where
  nexthop : IPAddress
  rest : R
  deriving DecidableEq

/-- The peer a route was learnt from. -/
structure TinyPeerInfo where
  addr : IPAddress
  sessionType : BgpSessionType
  isRrClient : Bool := false
  deriving DecidableEq

structure RibOutAnnouncementEntry (R : Type) where
  pfx : CIDRNetwork
  peer : TinyPeerInfo
  attrs : BgpPath R
  newlyInstalledInLocalRib : Bool := false
  installTimeStamp : Nat := 0
  deriving DecidableEq

def RibOutAnnouncementEntry.isLocalRoute {R : Type} (update : RibOutAnnouncementEntry R) : Bool := isZero update.peer.addr

structure RibOutWithdrawalEntry where
  pfx : CIDRNetwork
  nh : Option IPAddress
  deriving DecidableEq

structure RibOutAnnouncement (R : Type) where
  entries : List (RibOutAnnouncementEntry R) := []
  addPathEntries : List (RibOutAnnouncementEntry R) := []
  initialDump : Bool := false
  sendWithEoR : Bool := false
  routeRefreshAfi : Option BgpUpdateAfi := none

structure RibOutWithdrawal where
  entries : List RibOutWithdrawalEntry := []
  addPathEntries : List RibOutWithdrawalEntry := []

inductive ShadowRibRouteFlags where
  | inUpdate
  | inWithdraw
  | unchanged
  deriving DecidableEq, Repr

structure ShadowRibRoute (R : Type) where
  peer : TinyPeerInfo
  attrs : BgpPath R
  flags : ShadowRibRouteFlags

structure ShadowRibEntry (R : Type) where
  pfx : CIDRNetwork
  bestpath : Option (ShadowRibRoute R)
  multipaths : List (ShadowRibRoute R)
  newlyInstalledInLocalRib : Bool := false
  installTimeStamp : Nat := 0

/-- What egress policy makes of a route: the attributes it permits, and what it set. -/
structure PolicyResult (R : Type) where
  policyCachedAttrs : Option (BgpPath R)
  isNexthopSetByPolicy : Bool
  isMedSetByPolicy : Bool := false

/-- The egress policy and configuration of a peer. Results of the policy are cached under the attributes in
its mask, so that announcements with the same key share one; the attributes that are sent are the
announcement's own, overridden where the mask says so. -/
structure EgressPolicy (R : Type) where
  applyPolicy : RibOutAnnouncementEntry R → PolicyResult R
  nexthopMask : Bool
  sameCacheKey : RibOutAnnouncementEntry R → RibOutAnnouncementEntry R → Bool
  updateRestOut : RibOutAnnouncementEntry R → PolicyResult R → R
  blockedByEgressRouteFilter : RibOutAnnouncementEntry R → Bool
  /-- A policy that sets nexthops has them in its mask. -/
  nexthop_applyPolicy {update : RibOutAnnouncementEntry R} {attrs : BgpPath R} : nexthopMask = false →
    (applyPolicy update).policyCachedAttrs = some attrs → attrs.nexthop = update.attrs.nexthop
  /-- The mask has all that the policy reads or sets. -/
  applyPolicy_of_sameCacheKey {update update' : RibOutAnnouncementEntry R} : sameCacheKey update update' = true →
    (applyPolicy update).isNexthopSetByPolicy = (applyPolicy update').isNexthopSetByPolicy ∧
      (applyPolicy update).policyCachedAttrs.isSome = (applyPolicy update').policyCachedAttrs.isSome ∧
      (∀ entry, updateRestOut entry (applyPolicy update) = updateRestOut entry (applyPolicy update')) ∧
      (nexthopMask = true → (applyPolicy update).policyCachedAttrs.map BgpPath.nexthop =
        (applyPolicy update').policyCachedAttrs.map BgpPath.nexthop)

/-- What handling an announcement reads beyond it: the count of all peers' paths against the limit, and the
announcement from which the cached result of the policy stems. -/
structure EgressChecks (R : Type) where
  willExceedEgressSwitchLimit : RibOutAnnouncementEntry R → Bool
  cached : RibOutAnnouncementEntry R → RibOutAnnouncementEntry R

/-- What the session negotiates and the peering parameters. Only a peer without multiprotocol extensions
gets classic NLRI; for it both flags of the v6 nexthops stem from the same capability. -/
structure EgressSession (R : Type) where
  isAfiIpv4Negotiated : Bool
  isAfiIpv6Negotiated : Bool
  isV4OverV6NexthopNegotiated : Bool
  sendAddPath : Bool
  peerAddr : IPAddress
  allowLoopbackReflection : Bool
  sessionType : BgpSessionType
  isRrClient : Bool
  nextHopSelf : Bool
  nexthopV4 : IPAddressV4
  nexthopV6 : IPAddressV6
  localBgpId : IPAddressV4
  legacyV4NlriEncoding : Bool
  extNhEncodingCapable : Bool
  outDelay : Nat
  /-- False for every path unless `sender_suppress_as_loop_` is set. -/
  suppressLoopedAdvertisements : BgpPath R → Bool
  /-- False for every path unless the filter is enabled. -/
  applyWellKnownCommunityFilter : BgpPath R → Bool
  extNh_of_legacy : legacyV4NlriEncoding = true → extNhEncodingCapable = isV4OverV6NexthopNegotiated

/-- An advertised or withheld route. An entry whose pre-policy attributes are cleared is deleted at once. -/
structure AdjRibOutEntry (R : Type) where
  pfx : CIDRNetwork
  pathId : Nat
  preOut : BgpPath R
  postAttr : Option (BgpPath R) := none
  isNexthopSetByPolicy : Bool := false
  deriving DecidableEq

def AdjRibOutEntry.key {R : Type} (entry : AdjRibOutEntry R) : PrefixPathId := (entry.pfx, entry.pathId)

/-- A bucket of the packing list; without attributes it holds withdrawals. -/
structure BgpPathWithAfi (R : Type) where
  attrs : Option (BgpPath R)
  afi : BgpUpdateAfi
  isNexthopSetByPolicy : Bool
  deriving DecidableEq

structure PackingBucket (R : Type) where
  path : BgpPathWithAfi R
  prefixes : Finset PrefixPathId
  deriving DecidableEq

abbrev AttrToPrefixMap (R : Type) := Keyed (PackingBucket.path (R := R))

inductive V4EncodingDecision where
  | ClassicNlri
  | Drop
  | MpReach
  deriving DecidableEq, Repr

/-- An UPDATE: announced prefixes with their attributes, the nexthop they are sent with and the encoding,
or withdrawn prefixes. -/
inductive BgpUpdate2 (R : Type) where
  | announced (attrs : BgpPath R) (nexthop : IPAddress) (encoding : V4EncodingDecision) (prefixes : List RiggedIPPrefix)
  | withdrawn (afi : BgpUpdateAfi) (prefixes : List RiggedIPPrefix)
  deriving DecidableEq

/-- The path ids issued so far, by nexthop, for each prefix: the id is the position. The 32-bit counter of the source
is the position while a prefix has fewer than 2 ^ 32 nexthops. -/
abbrev PathIdCache := Keyed (Prod.fst : CIDRNetwork × List IPAddress → CIDRNetwork)

structure AdjRibOut (R : Type) where
  session : EgressSession R
  policy : EgressPolicy R
  pathIdCache : PathIdCache := .empty
  adjRibOut : Keyed (AdjRibOutEntry.key (R := R)) := .empty
  attrToPrefixMap : AttrToPrefixMap R := .empty
  deferredUpdates : Keyed (RibOutAnnouncementEntry.pfx (R := R)) := .empty
  newDeferredPrefixes : List CIDRNetwork := []
  outDelayPQ : List (Nat × List CIDRNetwork) := []
  rrDumpInProgress : Bool := false
  egressEoRPendingV4 : Bool := false
  egressEoRPendingV6 : Bool := false
  egressEoRsSent : Bool := false
  adjRibOutQueue : List (BgpUpdate2 R) := []

def kMsgBatchSizeToYield : Nat := 10

def kApproxSerializedAttrLen : Nat := 300

def kMaxSerializedChainLen : Nat := 10

variable (pfx : CIDRNetwork)

/-- The family that the code tells by `isV4` of the address. -/
def afiOf : BgpUpdateAfi := if pfx.addr.isV4 then .AFI_IPv4 else .AFI_IPv6

/-- The number of prefixes that one message takes. -/
def prefixLimit (approximateSerializedAttrLen : Nat) (sendAddPath isV4 : Bool) : Nat :=
  (BgpLib.kMaxBgpMsgLen - BgpLib.kBgpMsgHeaderLen - approximateSerializedAttrLen) * kMaxSerializedChainLen /
    BgpLib.getMaxPrefixLen sendAddPath isV4

namespace PathIdCache

def nexthops (cache : PathIdCache) (pfx : CIDRNetwork) : List IPAddress := ((cache.find pfx).map Prod.snd).getD []

variable (sendAddPath : Bool) (cache : PathIdCache)

def findPathId (pfx : CIDRNetwork) (nexthop : IPAddress) : Option Nat :=
  if sendAddPath then (cache.nexthops pfx).idxOf? nexthop else some kDefaultPathID

/-- The path id of a nexthop, issued now if it is new. -/
def getPathId (pfx : CIDRNetwork) (nexthop : IPAddress) :
    Nat × PathIdCache :=
  match cache.findPathId sendAddPath pfx nexthop with
  | some pathId => (pathId, cache)
  | none => ((cache.nexthops pfx).length, cache.put (pfx, cache.nexthops pfx ++ [nexthop]))

end PathIdCache

namespace EgressSession

variable {R : Type} (session : EgressSession R) (pfx : CIDRNetwork)

def isAfiNegotiated : Bool :=
  pfx.addr.isV4 && session.isAfiIpv4Negotiated || pfx.addr.isV6 && session.isAfiIpv6Negotiated

def isNexthopSupported (nexthop : IPAddress) : Bool :=
  pfx.addr.isV4 && nexthop.isV4 || pfx.addr.isV6 && nexthop.isV6 ||
    session.isV4OverV6NexthopNegotiated && pfx.addr.isV4 && nexthop.isV6

def shouldApplyNexthopSelf (postOutAttrs : BgpPath R) (isNexthopSetByPolicy : Bool) : Bool :=
  if isZero postOutAttrs.nexthop then true
  else if isNexthopSetByPolicy then false
  else session.sessionType = .ebgp || session.nextHopSelf

def getNewNexthopFromAttributesOut (isV4Prefix : Bool)
    (postOutAttrs : BgpPath R) (isNexthopSetByPolicy : Bool) : IPAddress :=
  if session.shouldApplyNexthopSelf postOutAttrs isNexthopSetByPolicy then
    if !session.isV4OverV6NexthopNegotiated && isV4Prefix then
      if isZero session.nexthopV4 then session.localBgpId else session.nexthopV4
    else if isZero session.nexthopV6 then createIPv6 session.localBgpId
    else session.nexthopV6
  else postOutAttrs.nexthop

def v4EncodingDecision (isV4 : Bool) (newNexthop : IPAddress) : V4EncodingDecision :=
  if !isV4 || !session.legacyV4NlriEncoding || session.extNhEncodingCapable then .MpReach
  else if newNexthop.isV6 then .Drop
  else .ClassicNlri

variable (update : RibOutAnnouncementEntry R)

def canAnnounce : Bool :=
  if update.peer.addr = session.peerAddr ∧ (!isLoopback session.peerAddr ∨ !session.allowLoopbackReflection) then false
  else if session.sessionType = .ibgp then
    session.isRrClient ||
      (update.peer.sessionType ≠ .ibgp || isZero update.peer.addr || update.peer.isRrClient)
  else true

def canAnnounceEntry : Bool :=
  session.canAnnounce update && !session.suppressLoopedAdvertisements update.attrs &&
    !session.applyWellKnownCommunityFilter update.attrs

end EgressSession

namespace EgressPolicy

variable {R : Type} (policy : EgressPolicy R)

/-- The result for an announcement whose cache key finds the result for `cached`. -/
def getPostOutPolicyAttributesAndInfo (cached update : RibOutAnnouncementEntry R) :
    PolicyResult R :=
  let result := policy.applyPolicy cached
  if result.policyCachedAttrs.isSome && policy.blockedByEgressRouteFilter update then
    { result with policyCachedAttrs := none }
  else result

/-- The attributes of an announcement that policy permits, with the nexthop as the mask has it. -/
def postOutAttrs (update : RibOutAnnouncementEntry R) (result : PolicyResult R)
    (policyCachedAttrs : BgpPath R) : BgpPath R where
  nexthop := if policy.nexthopMask then policyCachedAttrs.nexthop else update.attrs.nexthop
  rest := policy.updateRestOut update result

end EgressPolicy

section

variable {R : Type} [DecidableEq R]

namespace AttrToPrefixMap

variable (map : AttrToPrefixMap R) (key : PrefixPathId)

/-- Takes a key out of one bucket, and the bucket out of the list if nothing is left in it. -/
def cleanupPrefixAssociationInPackingList (path : BgpPathWithAfi R) : AttrToPrefixMap R :=
  match map.find path with
  | none => map
  | some bucket =>
    if bucket.prefixes.erase key = ∅ then map.erase path
    else map.put { bucket with prefixes := bucket.prefixes.erase key }

def insert (path : BgpPathWithAfi R) : AttrToPrefixMap R :=
  match map.find path with
  | none => map.put ⟨path, {key}⟩
  | some bucket => map.put { bucket with prefixes := Insert.insert key bucket.prefixes }

def tryUpdateAttrToPrefixMap (oldPath newPath : Option (BgpPath R))
    (isNexthopSetByPolicy : Bool) : AttrToPrefixMap R :=
  let map := map.cleanupPrefixAssociationInPackingList key ⟨oldPath, afiOf key.1, true⟩
  let map := map.cleanupPrefixAssociationInPackingList key ⟨oldPath, afiOf key.1, false⟩
  map.insert key ⟨newPath, afiOf key.1, isNexthopSetByPolicy⟩

end AttrToPrefixMap

namespace AdjRibOut

variable (s : AdjRibOut R) (pfx : CIDRNetwork)

def getPathId (nexthop : IPAddress) : Nat × PathIdCache :=
  s.pathIdCache.getPathId s.session.sendAddPath pfx nexthop

def tryInsertWithdrawal (entry : AdjRibOutEntry R) : AdjRibOut R :=
  match entry.postAttr with
  | none => s
  | some oldPostAttr =>
    { s with
      adjRibOut := s.adjRibOut.put { entry with postAttr := none }
      attrToPrefixMap := s.attrToPrefixMap.tryUpdateAttrToPrefixMap entry.key (some oldPostAttr) none false }

variable (checks : EgressChecks R)

/-- The entry of an announcement, added if it is new and the limit on all paths lets it in. -/
def tryInsertRibOutEntry (update : RibOutAnnouncementEntry R) : Option (AdjRibOutEntry R × PathIdCache) :=
  let resolved := s.pathIdCache.findPathId s.session.sendAddPath update.pfx update.attrs.nexthop
  match resolved.bind fun pathId => s.adjRibOut.find (update.pfx, pathId) with
  | some entry => some ({ entry with preOut := update.attrs }, s.pathIdCache)
  | none =>
    if checks.willExceedEgressSwitchLimit update && !update.isLocalRoute then none
    else
      let issued := s.getPathId update.pfx update.attrs.nexthop
      some ({ pfx := update.pfx, pathId := issued.1, preOut := update.attrs }, issued.2)

/-- Advertises the attributes that policy permits, unless the entry has them already. -/
def announceEntry (entry : AdjRibOutEntry R) (wasNexthopSetByPolicy : Bool)
    (postOutAttrsNew : BgpPath R) : AdjRibOut R :=
  if entry.postAttr = some postOutAttrsNew ∧ s.rrDumpInProgress = false ∧
      wasNexthopSetByPolicy = entry.isNexthopSetByPolicy then s
  else
    { s with
      adjRibOut := s.adjRibOut.put { entry with postAttr := some postOutAttrsNew }
      attrToPrefixMap := s.attrToPrefixMap.tryUpdateAttrToPrefixMap entry.key entry.postAttr (some postOutAttrsNew)
        entry.isNexthopSetByPolicy }

def processRibAnnouncedEntry (s : AdjRibOut R) (update : RibOutAnnouncementEntry R) : AdjRibOut R :=
  match s.tryInsertRibOutEntry checks update with
  | none => s
  | some (adjRibEntry, pathIdCache) =>
    let result := s.policy.getPostOutPolicyAttributesAndInfo (checks.cached update) update
    let entry := { adjRibEntry with isNexthopSetByPolicy := result.isNexthopSetByPolicy }
    let s := { s with pathIdCache := pathIdCache, adjRibOut := s.adjRibOut.put entry }
    match result.policyCachedAttrs with
    | none => s.tryInsertWithdrawal entry
    | some policyCachedAttrs =>
      let newNexthop := s.session.getNewNexthopFromAttributesOut update.pfx.addr.isV4 policyCachedAttrs
        result.isNexthopSetByPolicy
      -- an entry advertised before keeps its attributes here
      if newNexthop ≠ .empty ∧ s.session.isNexthopSupported update.pfx newNexthop = false then s
      else
        s.announceEntry entry adjRibEntry.isNexthopSetByPolicy (s.policy.postOutAttrs update result policyCachedAttrs)

def processRibWithdraw (pathId : Nat) : AdjRibOut R :=
  if s.session.isAfiNegotiated pfx = false then s
  else
    let s := { s with deferredUpdates := s.deferredUpdates.erase pfx }
    match s.adjRibOut.find (pfx, pathId) with
    | none => s
    | some entry =>
      let s := s.tryInsertWithdrawal entry
      { s with adjRibOut := s.adjRibOut.erase (pfx, pathId) }

/-- A withdrawal of a path named by its nexthop, for which a path id is issued if there is none. -/
def withdrawPath (nexthop : IPAddress) : AdjRibOut R :=
  let issued := s.getPathId pfx nexthop
  { s with pathIdCache := issued.2 }.processRibWithdraw pfx issued.1

def handleImplicitWithdrawal (nextHop : IPAddress) : AdjRibOut R :=
  s.withdrawPath pfx nextHop

variable (now : Nat)

/-- Whether the update is deferred and, if it is, whether its prefix was not before. -/
def processOutDelay (update : RibOutAnnouncementEntry R) : AdjRibOut R × Bool × Bool :=
  let deferred := { s with deferredUpdates := s.deferredUpdates.put update }
  if s.session.outDelay = 0 then (s, false, false)
  else if (s.deferredUpdates.find update.pfx).isSome then (deferred, true, false)
  else if now ≤ update.installTimeStamp + s.session.outDelay ∨ update.newlyInstalledInLocalRib then
    (deferred, true, true)
  else (s, false, false)

def handleRibAnnouncedEntry (initialDump : Bool) (s : AdjRibOut R)
    (entry : RibOutAnnouncementEntry R) : AdjRibOut R :=
  if s.session.isAfiNegotiated entry.pfx = false then s
  else if s.session.canAnnounceEntry entry = false then s.handleImplicitWithdrawal entry.pfx entry.attrs.nexthop
  else
    let (s, outDelay, newEntryDeferred) := if initialDump then (s, false, false) else s.processOutDelay now entry
    if outDelay = false then s.processRibAnnouncedEntry checks entry
    else if newEntryDeferred then { s with newDeferredPrefixes := s.newDeferredPrefixes ++ [entry.pfx] }
    else s

omit [DecidableEq R] in
def scheduleOutDelayTimer : AdjRibOut R :=
  if s.newDeferredPrefixes = [] then s
  else
    { s with
      outDelayPQ := s.outDelayPQ.orderedInsert (·.1 ≤ ·.1) (now + s.session.outDelay, s.newDeferredPrefixes)
      newDeferredPrefixes := [] }

def processDeferred (s : AdjRibOut R) (pfx : CIDRNetwork) : AdjRibOut R :=
  match s.deferredUpdates.find pfx with
  | none => s
  | some update =>
    let s := s.processRibAnnouncedEntry checks update
    { s with deferredUpdates := s.deferredUpdates.erase pfx }

/-- The batches that have expired by `now`, at most `batches` of them in one callback of the timer. -/
def programOutDelayTimer (checks : EgressChecks R) (now : Nat) : Nat → AdjRibOut R → AdjRibOut R
  | 0, s => s
  | batches + 1, s =>
    match s.outDelayPQ with
    | [] => s
    | (expiryTimeStamp, deferredPrefixes) :: rest =>
      if expiryTimeStamp > now then s
      else
        programOutDelayTimer checks now batches
          { deferredPrefixes.foldl (processDeferred checks) s with outDelayPQ := rest }

variable (announcement : RibOutAnnouncement R)

omit [DecidableEq R] in
def maybeBeginRrDump : AdjRibOut R :=
  if announcement.routeRefreshAfi.isSome then { s with rrDumpInProgress := true } else s

omit [DecidableEq R] in
def maybeEndRrDump : AdjRibOut R :=
  if announcement.routeRefreshAfi.isSome && announcement.sendWithEoR then { s with rrDumpInProgress := false } else s

omit [DecidableEq R] in
def markEgressEoRsPendingFor : AdjRibOut R :=
  if announcement.sendWithEoR = false then s
  else match announcement.routeRefreshAfi with
    | some .AFI_IPv4 => { s with egressEoRPendingV4 := s.session.isAfiIpv4Negotiated }
    | some .AFI_IPv6 => { s with egressEoRPendingV6 := s.session.isAfiIpv6Negotiated }
    | _ =>
      { s with
        egressEoRPendingV4 := s.session.isAfiIpv4Negotiated, egressEoRPendingV6 := s.session.isAfiIpv6Negotiated }

def processRibOutAnnouncement (s : AdjRibOut R) (announcement : RibOutAnnouncement R) : AdjRibOut R :=
  if s.egressEoRsSent = false ∧ announcement.initialDump = false then s
  else
    let entries := if s.session.sendAddPath then announcement.addPathEntries else announcement.entries
    let s := entries.foldl (handleRibAnnouncedEntry checks now announcement.initialDump) (s.maybeBeginRrDump announcement)
    ((s.scheduleOutDelayTimer now).markEgressEoRsPendingFor announcement).maybeEndRrDump announcement

def processRibOutWithdrawal (withdrawal : RibOutWithdrawal) : AdjRibOut R :=
  if s.egressEoRsSent = false then s
  else
    let entries := if s.session.sendAddPath then withdrawal.addPathEntries else withdrawal.entries
    entries.foldl (fun s entry => s.withdrawPath entry.pfx (entry.nh.getD .empty)) s

variable (srEntry : ShadowRibEntry R)

omit [DecidableEq R] in
def announcementOf (route : ShadowRibRoute R) : RibOutAnnouncementEntry R where
  pfx := srEntry.pfx
  peer := route.peer
  attrs := route.attrs
  newlyInstalledInLocalRib := srEntry.newlyInstalledInLocalRib
  installTimeStamp := srEntry.installTimeStamp

def processShadowRibRoute (s : AdjRibOut R) (route : ShadowRibRoute R) : AdjRibOut R :=
  match route.flags with
  | .inUpdate => s.handleRibAnnouncedEntry checks now false (announcementOf srEntry route)
  | .inWithdraw => s.withdrawPath srEntry.pfx route.attrs.nexthop
  | .unchanged => s

def processShadowRibEntryChange (s : AdjRibOut R) (srEntry : ShadowRibEntry R) : AdjRibOut R :=
  if s.egressEoRsSent = false then s
  else
    let routes := if s.session.sendAddPath then srEntry.multipaths else srEntry.bestpath.toList
    routes.foldl (processShadowRibRoute checks now srEntry) s

omit [DecidableEq R] in
def rig (key : PrefixPathId) : RiggedIPPrefix :=
  ⟨key.1, if s.session.sendAddPath then some key.2 else none⟩

variable (path : BgpPathWithAfi R) (packed : List PrefixPathId)

/-- The message for some prefixes of a bucket. It is not built where the route cannot be encoded. -/
def buildUpdate : Option (BgpUpdate2 R) :=
  match path.attrs with
  | none => some (.withdrawn path.afi (packed.map s.rig))
  | some attrs =>
    let isV4 := path.afi = .AFI_IPv4
    let newNexthop := s.session.getNewNexthopFromAttributesOut isV4 attrs path.isNexthopSetByPolicy
    match s.session.v4EncodingDecision isV4 newNexthop with
    | .Drop => none
    | encoding => some (.announced attrs newNexthop encoding (packed.map s.rig))

def bucketLimit : Nat :=
  prefixLimit (if path.attrs.isSome then kApproxSerializedAttrLen else 0) s.session.sendAddPath (path.afi = .AFI_IPv4)

/-- One turn of the loop of `sendBgpUpdates`: a message with the packed prefixes of a bucket, or the whole
bucket cleared where none can be built. -/
def sendBgpUpdate : AdjRibOut R :=
  match s.attrToPrefixMap.find path with
  | none => s
  | some bucket =>
    match s.buildUpdate path packed with
    | none => { s with attrToPrefixMap := s.attrToPrefixMap.erase path }
    | some update =>
      let left := bucket.prefixes \ packed.toFinset
      { s with
        adjRibOutQueue := s.adjRibOutQueue ++ [update]
        attrToPrefixMap :=
          if left = ∅ then s.attrToPrefixMap.erase path else s.attrToPrefixMap.put { bucket with prefixes := left } }

omit [DecidableEq R] in
def sendPendingEoRs : AdjRibOut R :=
  { s with egressEoRPendingV4 := false, egressEoRPendingV6 := false, egressEoRsSent := true }

end AdjRibOut

inductive AdjRibOutAction (R : Type) where
  | processRibOutAnnouncement (checks : EgressChecks R) (now : Nat) (announcement : RibOutAnnouncement R)
  | processRibOutWithdrawal (withdrawal : RibOutWithdrawal)
  | processShadowRibEntryChange (checks : EgressChecks R) (now : Nat) (srEntry : ShadowRibEntry R)
  | scheduleOutDelayTimer (now : Nat)
  | programOutDelayTimer (checks : EgressChecks R) (now : Nat)
  | setEgressPolicy (policy : EgressPolicy R)
  | sendBgpUpdate (path : BgpPathWithAfi R) (packed : List PrefixPathId)
  | sendPendingEoRs

namespace AdjRibOut

variable (s : AdjRibOut R)

/-- A result of the policy cache belongs to the key under which it is found, and a message is packed from
one bucket up to the limit. -/
def Enabled : AdjRibOutAction R → Prop
  | .processRibOutAnnouncement checks _ announcement =>
    ∀ update ∈ announcement.entries ++ announcement.addPathEntries,
      s.policy.sameCacheKey update (checks.cached update) = true
  | .processShadowRibEntryChange checks _ srEntry =>
    ∀ route ∈ srEntry.bestpath.toList ++ srEntry.multipaths,
      s.policy.sameCacheKey (announcementOf srEntry route) (checks.cached (announcementOf srEntry route)) = true
  | .programOutDelayTimer checks _ =>
    ∀ update ∈ s.deferredUpdates.items, s.policy.sameCacheKey update (checks.cached update) = true
  | .sendBgpUpdate path packed =>
    ∃ bucket ∈ s.attrToPrefixMap.find path, packed.Nodup ∧ packed.toFinset ⊆ bucket.prefixes ∧
      packed.length = min (s.bucketLimit path) bucket.prefixes.card
  | .sendPendingEoRs => (s.egressEoRPendingV4 || s.egressEoRPendingV6) = true ∧ s.attrToPrefixMap.items = []
  | .processRibOutWithdrawal _ | .scheduleOutDelayTimer _ | .setEgressPolicy _ => True

instance (s : AdjRibOut R) (action : AdjRibOutAction R) : Decidable (s.Enabled action) := by
  cases action <;> dsimp only [Enabled] <;> infer_instance

def exec : AdjRibOutAction R → AdjRibOut R
  | .processRibOutAnnouncement checks now announcement => s.processRibOutAnnouncement checks now announcement
  | .processRibOutWithdrawal withdrawal => s.processRibOutWithdrawal withdrawal
  | .processShadowRibEntryChange checks now srEntry => s.processShadowRibEntryChange checks now srEntry
  | .scheduleOutDelayTimer now => s.scheduleOutDelayTimer now
  | .programOutDelayTimer checks now => s.programOutDelayTimer checks now kMsgBatchSizeToYield
  | .setEgressPolicy policy => { s with policy := policy }
  | .sendBgpUpdate path packed => s.sendBgpUpdate path packed
  | .sendPendingEoRs => s.sendPendingEoRs

/-- The attributes under which a key is advertised. -/
def advertised (key : PrefixPathId) : Option (BgpPath R) :=
  (s.adjRibOut.find key).bind AdjRibOutEntry.postAttr

end AdjRibOut

/-- An established session, from the empty RIB-OUT on. -/
def adjRibOutSystem (session : EgressSession R) (policy : EgressPolicy R) :
    Transition.System (AdjRibOut R) (AdjRibOutAction R) where
  init := { session := session, policy := policy }
  enabled := AdjRibOut.Enabled
  exec := AdjRibOut.exec

end

/-- A policy that permits every route as it is. Its mask has nothing, so all routes share a cached result. -/
def permitAll : EgressPolicy Unit where
  applyPolicy update := ⟨some update.attrs, false, false⟩
  nexthopMask := false
  sameCacheKey _ _ := true
  updateRestOut _ _ := ()
  blockedByEgressRouteFilter _ := false
  nexthop_applyPolicy _ h := by cases h; rfl
  applyPolicy_of_sameCacheKey _ := ⟨rfl, rfl, fun _ => rfl, nofun⟩

/-- An IPv4 session with an IBGP peer that has no multiprotocol extensions. -/
def classicSession : EgressSession Unit where
  isAfiIpv4Negotiated := true
  isAfiIpv6Negotiated := false
  isV4OverV6NexthopNegotiated := false
  sendAddPath := false
  peerAddr := .ofOctets 10 0 0 1
  allowLoopbackReflection := false
  sessionType := .ibgp
  isRrClient := false
  nextHopSelf := false
  nexthopV4 := ⟨.ofOctets 10 0 0 254, rfl⟩
  nexthopV6 := ⟨.v6 [32, 1, 13, 184, 0, 0, 0, 0, 0, 0, 0, 0, 0, 0, 0, 254] rfl, rfl⟩
  localBgpId := ⟨.ofOctets 10 0 0 254, rfl⟩
  legacyV4NlriEncoding := true
  extNhEncodingCapable := false
  outDelay := 0
  suppressLoopedAdvertisements _ := false
  applyWellKnownCommunityFilter _ := false
  extNh_of_legacy _ := rfl

/-- A route learnt from an EBGP peer. -/
def sampleUpdate (nexthop : IPAddress) : RibOutAnnouncementEntry Unit where
  pfx := pfx
  peer := { addr := .ofOctets 192 0 2 9, sessionType := .ebgp }
  attrs := ⟨nexthop, ()⟩

def sampleV4Nexthop : IPAddress := .ofOctets 192 0 2 9

def sampleV6Nexthop : IPAddress := .v6 [32, 1, 13, 184, 0, 0, 0, 0, 0, 0, 0, 0, 0, 0, 0, 9] rfl

def uncached : EgressChecks Unit := ⟨fun _ => false, id⟩

end FbossBgp.AdjRib
