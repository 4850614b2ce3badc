import FbossBgp.AdjRib.AdjRibOut

/-! An update group and the shadow RIB of the peer manager that it consumes. The shadow RIB holds for each prefix
the best path and the multipaths that the RIB has sent, and the consumers of the change list that have not yet
processed its last change: `none` is the consumer of the group and `some peer` that of a peer which has been
detached from it. The tree of the group holds its entries, which the in-sync peers share, and private entries of
detached peers. A detached peer shares the group's entries up to the version at which it was detached, until one
of them is changed: the entry is then cloned for it. -/

namespace FbossBgp.AdjRib

open BgpLib (IPAddress)
open Rib (CIDRNetwork kDefaultPathID BgpSessionType)

/-- An announcement of the RIB, with the path id it is sent under and its version. -/
structure PathAnnouncement (R : Type) extends RibOutAnnouncementEntry R where
  pathIdToSend : Nat
  ribVersion : Nat := 0

structure ShadowRibRouteInfo (R : Type) where
  peer : TinyPeerInfo
  attrs : BgpPath R
  pathIdToSend : Nat
  flags : ShadowRibRouteFlags := .unchanged
  deriving DecidableEq

/-- The key of a path: `getPathId` of an announcement. -/
def ShadowRibRouteInfo.nexthop {R : Type} (route : ShadowRibRouteInfo R) : IPAddress := route.attrs.nexthop

structure TrackedRibEntry (R C : Type) where
  pfx : CIDRNetwork
  bestpath : Option (ShadowRibRouteInfo R) := none
  multipaths : Keyed (ShadowRibRouteInfo.nexthop (R := R)) := .empty
  ribVersion : Nat
  pending : C → Bool

structure ShadowRib (R C : Type) where
  entries : Keyed (TrackedRibEntry.pfx (R := R) (C := C)) := .empty
  maxRibVersion : Nat := 0
  /-- The consumers registered with the change tracker. -/
  consumers : C → Bool := fun _ => false

section

variable {R C : Type} (sendAddPath : Bool)

namespace TrackedRibEntry

variable (srEntry : TrackedRibEntry R C)

/-- The paths that a consumer sees: the multipaths with add-path, and the best path otherwise. -/
def routes : List (ShadowRibRouteInfo R) :=
  if sendAddPath then srEntry.multipaths.items else srEntry.bestpath.toList

variable (route : ShadowRibRouteInfo R)

def announcementOf : PathAnnouncement R where
  pfx := srEntry.pfx
  peer := route.peer
  attrs := route.attrs
  pathIdToSend := if sendAddPath then route.pathIdToSend else kDefaultPathID
  ribVersion := srEntry.ribVersion

/-- `processChangeItemCompleteCallback` on one path: a withdrawn path goes, another one is now unchanged. -/
def settle : Option (ShadowRibRouteInfo R) :=
  if route.flags = .inWithdraw then none else some { route with flags := .unchanged }

/-- The entry after every consumer has processed it. -/
def complete : TrackedRibEntry R C :=
  { srEntry with
    bestpath := srEntry.bestpath.bind settle
    multipaths := (srEntry.multipaths.filter fun route => route.flags ≠ .inWithdraw).modify
      (fun route => { route with flags := .unchanged }) fun _ => rfl }

end TrackedRibEntry

namespace ShadowRib

variable (s : ShadowRib R C) (isBestpathChange : Bool) (srEntry : TrackedRibEntry R C)

/-- The entry of a prefix, new if there is none. -/
def entryOf (pfx : CIDRNetwork) : TrackedRibEntry R C :=
  (s.entries.find pfx).getD { pfx := pfx, ribVersion := s.maxRibVersion, pending := fun _ => false }

/-- A change is published to the consumers that send what has changed. -/
def publishChange : TrackedRibEntry R C :=
  if isBestpathChange = sendAddPath then srEntry
  else { srEntry with pending := fun consumer => srEntry.pending consumer || s.consumers consumer }

/-- The changed entry, with the version of the change. -/
def update : ShadowRib R C :=
  { s with
    entries := s.entries.put
      (s.publishChange sendAddPath isBestpathChange { srEntry with ribVersion := s.maxRibVersion }) }

def announceBestpath (entry : PathAnnouncement R) : ShadowRib R C :=
  s.update sendAddPath true
    { s.entryOf entry.pfx with bestpath := some ⟨entry.peer, entry.attrs, kDefaultPathID, .inUpdate⟩ }

def announceMultipath (entry : PathAnnouncement R) : ShadowRib R C :=
  let srEntry := s.entryOf entry.pfx
  s.update sendAddPath false
    { srEntry with multipaths := srEntry.multipaths.put ⟨entry.peer, entry.attrs, entry.pathIdToSend, .inUpdate⟩ }

variable (entry : RibOutWithdrawalEntry)

def withdrawBestpath : ShadowRib R C :=
  match s.entries.find entry.pfx with
  | none => s
  | some srEntry =>
    s.update sendAddPath true
      { srEntry with bestpath := srEntry.bestpath.map fun route => { route with flags := .inWithdraw } }

def withdrawMultipath : ShadowRib R C :=
  match s.entries.find entry.pfx with
  | none => s
  | some srEntry =>
    match entry.nh.bind srEntry.multipaths.find with
    | none => s
    | some route =>
      s.update sendAddPath false
        { srEntry with multipaths := srEntry.multipaths.put { route with flags := .inWithdraw } }

/-- The entries of a message in turn. The version is increased for each run of entries of one prefix. -/
def handleEntries {E : Type} (pfxOf : E → CIDRNetwork) (handle : ShadowRib R C → E → ShadowRib R C) :
    Option CIDRNetwork → List E → ShadowRib R C → ShadowRib R C
  | _, [], s => s
  | chunkPrefix, entry :: entries, s =>
    let s := if chunkPrefix = some (pfxOf entry) then s else { s with maxRibVersion := s.maxRibVersion + 1 }
    handleEntries pfxOf handle (some (pfxOf entry)) entries (handle s entry)

def handleShadowRibEntryAnnouncement (entries addPathEntries : List (PathAnnouncement R)) : ShadowRib R C :=
  let s := handleEntries (fun entry : PathAnnouncement R => entry.pfx) (announceBestpath sendAddPath) none entries s
  handleEntries (fun entry : PathAnnouncement R => entry.pfx) (announceMultipath sendAddPath) none addPathEntries s

def handleShadowRibEntryWithdrawal (withdrawal : RibOutWithdrawal) : ShadowRib R C :=
  let s := handleEntries RibOutWithdrawalEntry.pfx (withdrawBestpath sendAddPath) none withdrawal.entries s
  handleEntries RibOutWithdrawalEntry.pfx (withdrawMultipath sendAddPath) none withdrawal.addPathEntries s

/-- The consumer has processed the change of a prefix. -/
def markConsumed [DecidableEq C] (consumer : C) (pfx : CIDRNetwork) : ShadowRib R C :=
  match s.entries.find pfx with
  | none => s
  | some srEntry =>
    { s with entries := s.entries.put { srEntry with pending := Function.update srEntry.pending consumer false } }

/-- `processChangeItemCompleteCallback`. -/
def completeChange (pfx : CIDRNetwork) : ShadowRib R C :=
  match s.entries.find pfx with
  | none => s
  | some srEntry =>
    if srEntry.complete.multipaths.items = [] ∧ srEntry.complete.bestpath = none then
      { s with entries := s.entries.erase pfx }
    else { s with entries := s.entries.put srEntry.complete }

end ShadowRib

end

structure UpdateGroupKey where
  sessionType : BgpSessionType := .ebgp
  isRrClient : Bool := false
  afiIpv4Negotiated : Bool := true
  afiIpv6Negotiated : Bool := true
  sendAddPath : Bool := false
  as4ByteCapable : Bool := true
  extNhEncodingCapable : Bool := false
  legacyV4NlriEncoding : Bool := false

/-- A route of the tree; its key is the prefix and the path id. An entry whose pre-policy attributes are cleared
is deleted at once. -/
structure AdjRibEntry (R : Type) where
  preOut : BgpPath R
  postAttr : Option (BgpPath R) := none
  isNexthopSetByPolicy : Bool := false
  ribVersion : Nat := 0
  deriving DecidableEq

/-- What egress policy and the updates of attributes make of an announcement. -/
structure PolicyOutcome (R : Type) where
  postOutAttrs : Option (BgpPath R)
  isNexthopSetByPolicy : Bool := false
  deriving DecidableEq

structure GroupConfig (R : Type) where
  key : UpdateGroupKey
  /-- False for every path unless the filter is enabled. -/
  applyWellKnownCommunityFilter : BgpPath R → Bool

structure GroupRibOut (R P : Type) where
  groupEntries : PrefixPathId → Option (AdjRibEntry R) := fun _ => none
  peerEntries : P → PrefixPathId → Option (AdjRibEntry R) := fun _ _ => none
  /-- The version at which each detached peer was detached. -/
  detachedRibVersion : P → Option Nat := fun _ => none
  numInSyncPeers : Nat := 0
  attrToPrefixMap : AttrToPrefixMap R := .empty

def isEntryShared (peerHasOwnEntry : Bool) (peerDetachedRibVersion groupEntryRibVersion : Nat) : Bool :=
  !peerHasOwnEntry && groupEntryRibVersion ≤ peerDetachedRibVersion

namespace GroupConfig

variable {R : Type} (config : GroupConfig R)

def isAfiNegotiated (pfx : CIDRNetwork) : Bool :=
  pfx.addr.isV4 && config.key.afiIpv4Negotiated || pfx.addr.isV6 && config.key.afiIpv6Negotiated

def canAnnounceForGroup (entry : PathAnnouncement R) : Bool :=
  if config.applyWellKnownCommunityFilter entry.attrs then false
  else if config.key.sessionType = .ibgp then
    config.key.isRrClient ||
      (entry.peer.sessionType ≠ .ibgp || isZero entry.peer.addr || entry.peer.isRrClient)
  else true

end GroupConfig

namespace GroupRibOut

variable {R P : Type} [DecidableEq R] (config : GroupConfig R) (s : GroupRibOut R P)

omit [DecidableEq R] in
/-- The entry visible to a peer: `resolveLiteEntryForPeer`, and `resolvePathEntriesForPeer` for each path id. -/
def resolveEntryForPeer (peer : P) (sharingVersion : Nat) (key : PrefixPathId) : Option (AdjRibEntry R) :=
  match s.peerEntries peer key with
  | some entry => some entry
  | none => (s.groupEntries key).filter fun entry => isEntryShared false sharingVersion entry.ribVersion

variable (key : PrefixPathId)

omit [DecidableEq R] in
/-- `lazyCloneLiteForDetachedPeers` and `lazyClonePathForDetachedPeers`. -/
def lazyCloneForDetachedPeers (groupEntry : AdjRibEntry R) : GroupRibOut R P :=
  { s with
    peerEntries := fun peer =>
      match s.detachedRibVersion peer with
      | none => s.peerEntries peer
      | some version =>
        if isEntryShared (s.peerEntries peer key).isSome version groupEntry.ribVersion then
          Function.update (s.peerEntries peer) key (some groupEntry)
        else s.peerEntries peer }

/-- The packing list is for the in-sync peers. -/
def tryUpdateAttrToPrefixMapForGroup (oldPath newPath : Option (BgpPath R))
    (isNexthopSetByPolicy : Bool) : GroupRibOut R P :=
  if s.numInSyncPeers = 0 then s
  else
    { s with
      attrToPrefixMap := s.attrToPrefixMap.tryUpdateAttrToPrefixMap key oldPath newPath isNexthopSetByPolicy }

omit [DecidableEq R] in
def setGroupEntry (entry : Option (AdjRibEntry R)) : GroupRibOut R P :=
  { s with groupEntries := Function.update s.groupEntries key entry }

/-- The entry of an announcement, cloned for the peers that share it, or a new one. -/
def tryInsertRibOutEntry (attrs : BgpPath R) : GroupRibOut R P × AdjRibEntry R :=
  match s.groupEntries key with
  | none => (s, { preOut := attrs })
  | some groupEntry => (s.lazyCloneForDetachedPeers key groupEntry, groupEntry)

def tryInsertWithdrawal (adjRibEntry : AdjRibEntry R) : GroupRibOut R P :=
  match adjRibEntry.postAttr with
  | none => s
  | some oldPostAttr =>
    (s.setGroupEntry key (some { adjRibEntry with postAttr := none })).tryUpdateAttrToPrefixMapForGroup key
      (some oldPostAttr) none false

def processGroupRibWithdraw (pfx : CIDRNetwork) (pathId : Nat) : GroupRibOut R P :=
  if config.isAfiNegotiated pfx = false then s
  else
    match s.groupEntries (pfx, pathId) with
    | none => s
    | some adjRibEntry =>
      let s := s.lazyCloneForDetachedPeers (pfx, pathId) adjRibEntry
      let s := match adjRibEntry.postAttr with
        | none => s
        | some oldPostAttr => s.tryUpdateAttrToPrefixMapForGroup (pfx, pathId) (some oldPostAttr) none false
      s.setGroupEntry (pfx, pathId) none

def processRibAnnouncedEntryForGroup (entry : PathAnnouncement R) (outcome : PolicyOutcome R) : GroupRibOut R P :=
  if config.isAfiNegotiated entry.pfx = false then s
  else if config.canAnnounceForGroup entry = false then
    s.processGroupRibWithdraw config entry.pfx entry.pathIdToSend
  else
    let key := (entry.pfx, entry.pathIdToSend)
    let inserted := s.tryInsertRibOutEntry key entry.attrs
    let adjRibEntry := { inserted.2 with
        preOut := entry.attrs
        ribVersion := entry.ribVersion
        isNexthopSetByPolicy := outcome.isNexthopSetByPolicy }
    let s := inserted.1.setGroupEntry key (some adjRibEntry)
    match outcome.postOutAttrs with
    | none => s.tryInsertWithdrawal key adjRibEntry
    | some postOutAttrsNew =>
      if adjRibEntry.postAttr = some postOutAttrsNew ∧
          inserted.2.isNexthopSetByPolicy = adjRibEntry.isNexthopSetByPolicy then s
      else
        (s.setGroupEntry key (some { adjRibEntry with postAttr := some postOutAttrsNew })).tryUpdateAttrToPrefixMapForGroup
          key adjRibEntry.postAttr (some postOutAttrsNew) outcome.isNexthopSetByPolicy

variable {C : Type} (outcome : PathAnnouncement R → PolicyOutcome R)

def processShadowRibRoute
    (srEntry : TrackedRibEntry R C) (s : GroupRibOut R P) (route : ShadowRibRouteInfo R) : GroupRibOut R P :=
  let entry := srEntry.announcementOf config.key.sendAddPath route
  match route.flags with
  | .inUpdate => s.processRibAnnouncedEntryForGroup config entry (outcome entry)
  | .inWithdraw => s.processGroupRibWithdraw config srEntry.pfx entry.pathIdToSend
  | .unchanged => s

/-- The paths are visited in the order of the hash table. -/
def processShadowRibEntryChange
    (s : GroupRibOut R P) (srEntry : TrackedRibEntry R C) (routes : List (ShadowRibRouteInfo R)) : GroupRibOut R P :=
  routes.foldl (processShadowRibRoute config outcome srEntry) s

/-- One entry in the walk of the shadow RIB: all its paths that are not being withdrawn. -/
def walkEntry (s : GroupRibOut R P) (srEntry : TrackedRibEntry R C) : GroupRibOut R P :=
  ((srEntry.routes config.key.sendAddPath).filter fun route => route.flags ≠ .inWithdraw).foldl
    (fun s route =>
      let entry := srEntry.announcementOf config.key.sendAddPath route
      s.processRibAnnouncedEntryForGroup config entry (outcome entry)) s

/-- The walk leaves out the entries that are pending on the group's own consumer. -/
def walkAndProcessShadowRib
    (s : GroupRibOut R P) (isPending : TrackedRibEntry R C → Bool) (srEntries : List (TrackedRibEntry R C)) :
    GroupRibOut R P :=
  (srEntries.filter fun srEntry => !isPending srEntry).foldl (walkEntry config outcome) s

end GroupRibOut

structure UpdateGroup (R P : Type) where
  shadowRib : ShadowRib R (Option P) := {}
  ribOut : GroupRibOut R P := {}
  lastSeenRibVersion : Nat := 0

abbrev Outcomes (R : Type) := PathAnnouncement R → PolicyOutcome R

/-- The changed prefixes in the order of the change list, each with its paths in the order of the hash table. -/
abbrev ChangeItems (R : Type) := List (CIDRNetwork × List (ShadowRibRouteInfo R))

inductive GroupAction (R P : Type) where
  | ribAnnouncement (entries addPathEntries : List (PathAnnouncement R))
  | ribWithdrawal (withdrawal : RibOutWithdrawal)
  | initialDump (outcome : Outcomes R)
  | iterateChangesToEnd (outcome : Outcomes R) (changes : ChangeItems R)
  | changeItemComplete (pfx : CIDRNetwork)
  | detachPeer (peer : P)
  /-- The detached peer has processed the change of a prefix. -/
  | peerProcessed (peer : P) (pfx : CIDRNetwork)
  | reEvaluateEgressPolicy (outcome : Outcomes R) (changes : ChangeItems R)

section

variable {R C : Type}

namespace ShadowRib

variable (s : ShadowRib R C)

/-- The multipaths of a prefix, those being withdrawn included. -/
def multipathsOf (pfx : CIDRNetwork) : List (ShadowRibRouteInfo R) :=
  match s.entries.find pfx with
  | none => []
  | some srEntry => srEntry.multipaths.items

variable (consumer : C)

/-- `isConsumerSetOnTrackableObject`. -/
def isPending (pfx : CIDRNetwork) : Bool :=
  match s.entries.find pfx with
  | none => false
  | some srEntry => srEntry.pending consumer

def pendingPrefixes : List CIDRNetwork :=
  (s.entries.items.filter fun srEntry => srEntry.pending consumer).map TrackedRibEntry.pfx

/-- A new consumer starts after the last change. -/
def register [DecidableEq C] : ShadowRib R C :=
  { s with consumers := Function.update s.consumers consumer true }

/-- A new consumer starts at the position of another one. -/
def registerAt [DecidableEq C] (consumer position : C) : ShadowRib R C :=
  { s.register consumer with
    entries := s.entries.modify
      (fun srEntry => { srEntry with pending := Function.update srEntry.pending consumer (srEntry.pending position) })
      fun _ => rfl }

end ShadowRib

end

namespace UpdateGroup

variable {R P : Type} [DecidableEq R] [DecidableEq P] (config : GroupConfig R) (outcome : Outcomes R)
  (s : UpdateGroup R P) (changes : ChangeItems R)

def consumeChange (change : CIDRNetwork × List (ShadowRibRouteInfo R)) : UpdateGroup R P :=
  match s.shadowRib.entries.find change.1 with
  | none => s
  | some srEntry =>
    { s with
      ribOut := s.ribOut.processShadowRibEntryChange config outcome srEntry change.2
      shadowRib := s.shadowRib.markConsumed none change.1 }

def tryIterateChangesToEnd : UpdateGroup R P :=
  { changes.foldl (consumeChange config outcome) s with lastSeenRibVersion := s.shadowRib.maxRibVersion }

omit [DecidableEq P] in
/-- The version is that of the shadow RIB if the walk has left out no entry. -/
def walk : UpdateGroup R P :=
  { s with
    ribOut := s.ribOut.walkAndProcessShadowRib config outcome (fun srEntry => srEntry.pending none)
      s.shadowRib.entries.items
    lastSeenRibVersion :=
      if s.shadowRib.pendingPrefixes none = [] then s.shadowRib.maxRibVersion else s.lastSeenRibVersion }

omit [DecidableEq R] in
def registerGroupConsumer : UpdateGroup R P :=
  { s with shadowRib := s.shadowRib.register none }

def reEvaluateSyncPeersEgressPolicy : UpdateGroup R P :=
  let s := s.walk config outcome
  if s.shadowRib.consumers none then s.tryIterateChangesToEnd config outcome changes else s.registerGroupConsumer

omit [DecidableEq R] in
def detachPeer (peer : P) : UpdateGroup R P :=
  { s with
    ribOut := { s.ribOut with
        detachedRibVersion := Function.update s.ribOut.detachedRibVersion peer (some s.lastSeenRibVersion)
        numInSyncPeers := s.ribOut.numInSyncPeers - 1 }
    shadowRib := s.shadowRib.registerAt (some peer) none }

def exec : GroupAction R P → UpdateGroup R P
  | .ribAnnouncement entries addPathEntries =>
    { s with
      shadowRib := s.shadowRib.handleShadowRibEntryAnnouncement config.key.sendAddPath entries addPathEntries }
  | .ribWithdrawal withdrawal =>
    { s with shadowRib := s.shadowRib.handleShadowRibEntryWithdrawal config.key.sendAddPath withdrawal }
  | .initialDump outcome => (s.walk config outcome).registerGroupConsumer
  | .iterateChangesToEnd outcome changes => s.tryIterateChangesToEnd config outcome changes
  | .changeItemComplete pfx => { s with shadowRib := s.shadowRib.completeChange pfx }
  | .detachPeer peer => s.detachPeer peer
  | .peerProcessed peer pfx => { s with shadowRib := s.shadowRib.markConsumed (some peer) pfx }
  | .reEvaluateEgressPolicy outcome changes => s.reEvaluateSyncPeersEgressPolicy config outcome changes

omit [DecidableEq R] [DecidableEq P] in
def Consumes (sendAddPath : Bool) (s : UpdateGroup R P) (changes : ChangeItems R) : Prop :=
  (changes.map Prod.fst).Perm (s.shadowRib.pendingPrefixes none) ∧
    ∀ change ∈ changes, ∀ srEntry ∈ s.shadowRib.entries.find change.1, change.2.Perm (srEntry.routes sendAddPath)

omit [DecidableEq P] in
instance decidableConsumes (sendAddPath : Bool) (s : UpdateGroup R P) (changes : ChangeItems R) :
    Decidable (s.Consumes sendAddPath changes) :=
  inferInstanceAs (Decidable (_ ∧ ∀ change ∈ changes, ∀ srEntry ∈ s.shadowRib.entries.find change.1, _))

omit [DecidableEq R] [DecidableEq P] in
/-- When the event loop can take an action. `accepts` are the policy results that the policy can give. -/
def Enabled (accepts : Outcomes R → Prop) (s : UpdateGroup R P) : GroupAction R P → Prop
  | .ribAnnouncement .. | .ribWithdrawal .. | .peerProcessed .. => True
  | .initialDump outcome => accepts outcome ∧ s.shadowRib.consumers none = false
  | .iterateChangesToEnd outcome changes =>
    accepts outcome ∧ s.shadowRib.consumers none = true ∧ s.Consumes config.key.sendAddPath changes
  | .changeItemComplete pfx => ∀ consumer, s.shadowRib.isPending consumer pfx = false
  | .detachPeer peer =>
    s.shadowRib.consumers none = true ∧ s.ribOut.detachedRibVersion peer = none ∧ 0 < s.ribOut.numInSyncPeers
  | .reEvaluateEgressPolicy outcome changes => accepts outcome ∧ s.Consumes config.key.sendAddPath changes

end UpdateGroup

def groupSystem {R P : Type} [DecidableEq R] [DecidableEq P] (config : GroupConfig R) (accepts : Outcomes R → Prop)
    (numInSyncPeers : Nat) : Transition.System (UpdateGroup R P) (GroupAction R P) where
  init := { ribOut := { numInSyncPeers := numInSyncPeers } }
  enabled := UpdateGroup.Enabled config accepts
  exec := UpdateGroup.exec config

end FbossBgp.AdjRib
