import FbossBgp.AdjRib.AdjRibOut
import FbossBgp.ChangeTracker.Run

/-! The shadow RIB of the peer manager over the change tracker. Each entry is a trackable object under its
prefix; a change is published to the consumers without add-path if it is one of the best path, and to those
with add-path if it is one of a multipath. An operation of the tracker calls the callback of the peer manager
for each object that it completes. -/

namespace FbossBgp.Peer

open BgpLib (IPAddress)
open Rib (CIDRNetwork kDefaultPathID)
open AdjRib (BgpPath TinyPeerInfo RibOutWithdrawalEntry RibOutWithdrawal ShadowRibRouteFlags)
open ChangeTracker (Operation)

/-- A path as the RIB announces it. -/
structure PathInfo (R : Type) where
  peer : TinyPeerInfo
  attrs : Option (BgpPath R)
  pathIdToSend : Nat
  isPartialDrain : Bool := false
  deriving DecidableEq

/-- `common` are the attributes of the whole entry: the UCMP weights, the number of paths, the switch id and
the time of installation. -/
structure RibOutAnnouncementEntry (R A : Type) extends PathInfo R where
  pfx : CIDRNetwork
  common : A

structure ShadowRibRouteInfo (R : Type) extends PathInfo R where
  flags : ShadowRibRouteFlags

/-- An item of the map of multipaths. -/
structure Multipath (R : Type) where
  pathId : IPAddress
  route : ShadowRibRouteInfo R

structure ShadowRibEntry (R A : Type) where
  pfx : CIDRNetwork
  bestpath : Option (ShadowRibRouteInfo R)
  multipaths : Keyed (Multipath.pathId (R := R))
  common : A
  ribVersion : Nat

/-- One entry of a message of the RIB, by the list that it stands in. -/
inductive RibOutEntry (R A : Type) where
  | bestpath (entry : RibOutAnnouncementEntry R A)
  | multipath (entry : RibOutAnnouncementEntry R A)
  | bestpathWithdrawal (entry : RibOutWithdrawalEntry)
  | multipathWithdrawal (entry : RibOutWithdrawalEntry)

def RibOutEntry.pfx {R A : Type} : RibOutEntry R A → CIDRNetwork
  | .bestpath entry => entry.pfx
  | .multipath entry => entry.pfx
  | .bestpathWithdrawal entry => entry.pfx
  | .multipathWithdrawal entry => entry.pfx

inductive RibOutMessage (R A : Type) where
  | announcement (entries addPathEntries : List (RibOutAnnouncementEntry R A))
  | withdrawal (message : RibOutWithdrawal)

def RibOutMessage.handledEntries {R A : Type} : RibOutMessage R A → List (RibOutEntry R A)
  | .announcement entries addPathEntries => entries.map .bestpath ++ addPathEntries.map .multipath
  | .withdrawal message =>
    message.entries.map .bestpathWithdrawal ++ message.addPathEntries.map .multipathWithdrawal

/-- An entry that was handled, with the version it was handled at and whether it found what it is about. -/
structure Handled (R A : Type) where
  entry : RibOutEntry R A
  version : Nat
  touches : Bool

/-- Where a new change item is placed: at an address that is not in use. -/
structure Allocator (C I : Type) where
  allocate : ChangeTracker C CIDRNetwork I → I
  fresh : ∀ tracker, ChangeTracker.Listed tracker → tracker.items (allocate tracker) = none

/-- `handled` records the entries of all messages so far. -/
structure PeerManager (R A C I : Type) where
  tracker : ChangeTracker C CIDRNetwork I
  shadowRibEntries : Keyed (ShadowRibEntry.pfx (R := R) (A := A)) := .empty
  maxRibVersion : Nat := 0
  addPathConsumerBitmap : ConsumerBitmap := []
  nonAddPathConsumerBitmap : ConsumerBitmap := []
  handled : List (Handled R A) := []

variable {R A C I : Type}

namespace ShadowRibRouteInfo

variable (route : ShadowRibRouteInfo R)

def isInWithdraw : Bool := route.flags = .inWithdraw

/-- The path, if it is not being withdrawn. -/
def live : Option (PathInfo R) :=
  if route.isInWithdraw then none else some route.toPathInfo

/-- A withdrawn path goes, and another one is no longer in update. -/
def settle : Option (ShadowRibRouteInfo R) :=
  if route.isInWithdraw then none else some { route with flags := .unchanged }

end ShadowRibRouteInfo

namespace ShadowRibEntry

variable (srEntry : ShadowRibEntry R A)

/-- The entry once every consumer has processed its change. -/
def complete : ShadowRibEntry R A :=
  { srEntry with
    bestpath := srEntry.bestpath.bind ShadowRibRouteInfo.settle
    multipaths := (srEntry.multipaths.filter fun path => !path.route.isInWithdraw).modify
      (fun path => { path with route := { path.route with flags := .unchanged } }) fun _ => rfl }

def isEmpty : Bool := srEntry.multipaths.items.isEmpty && srEntry.bestpath.isNone

end ShadowRibEntry

namespace PeerManager

section

variable (s : PeerManager R A C I)

def processChangeItemCompleteCallback (trackedObject : CIDRNetwork) : PeerManager R A C I :=
  match s.shadowRibEntries.find trackedObject with
  | none => s
  | some srEntry =>
    { s with
      shadowRibEntries := if srEntry.complete.isEmpty then s.shadowRibEntries.erase trackedObject
        else s.shadowRibEntries.put srEntry.complete }

variable [DecidableEq C] [DecidableEq I]

/-- An operation of the tracker, with the callbacks that it makes. -/
def track (op : Operation C CIDRNetwork I) : PeerManager R A C I :=
  let tracker := s.tracker.perform op
  ((tracker.processed.drop s.tracker.processed.length).map Prod.fst).foldl processChangeItemCompleteCallback
    { s with tracker := tracker }

end

section

variable [DecidableEq C] [DecidableEq I] (allocator : Allocator C I) (s : PeerManager R A C I) (isBestpathChange : Bool)

def getConsumerBitmapForChange : ConsumerBitmap :=
  if isBestpathChange then s.nonAddPathConsumerBitmap else s.addPathConsumerBitmap

def publishChange (trackedObject : CIDRNetwork) (isBestpathChange : Bool) : PeerManager R A C I :=
  s.track (.publish (allocator.allocate s.tracker) (some trackedObject) (s.getConsumerBitmapForChange isBestpathChange))

/-- The entry is stored with the current version, and its change is published. -/
def update (srEntry : ShadowRibEntry R A) : PeerManager R A C I :=
  { s with shadowRibEntries := s.shadowRibEntries.put { srEntry with ribVersion := s.maxRibVersion } }.publishChange
    allocator srEntry.pfx isBestpathChange

variable (entry : RibOutAnnouncementEntry R A)

/-- The entry of an announcement, new if there is none, with the attributes that all its paths share. -/
def announcedEntry : ShadowRibEntry R A :=
  match s.shadowRibEntries.find entry.pfx with
  | none => ⟨entry.pfx, none, .empty, entry.common, s.maxRibVersion⟩
  | some srEntry => { srEntry with common := entry.common }

def announceBestpath : PeerManager R A C I :=
  s.update allocator true
    { s.announcedEntry entry with
      bestpath := some { entry.toPathInfo with pathIdToSend := kDefaultPathID, flags := .inUpdate } }

def announceMultipath : PeerManager R A C I :=
  match entry.attrs with
  | none => s
  | some attrs =>
    let srEntry := s.announcedEntry entry
    s.update allocator false
      { srEntry with
        multipaths := srEntry.multipaths.put ⟨attrs.nexthop, { entry.toPathInfo with flags := .inUpdate }⟩ }

def withdrawBestpath (entry : RibOutWithdrawalEntry) : PeerManager R A C I :=
  match s.shadowRibEntries.find entry.pfx with
  | none => s
  | some srEntry =>
    s.update allocator true
      { srEntry with bestpath := srEntry.bestpath.map fun route => { route with flags := .inWithdraw } }

def withdrawMultipath (entry : RibOutWithdrawalEntry) : PeerManager R A C I :=
  match s.shadowRibEntries.find entry.pfx with
  | none => s
  | some srEntry =>
    match entry.nh.bind srEntry.multipaths.find with
    | none => s
    | some path =>
      s.update allocator false
        { srEntry with
          multipaths := srEntry.multipaths.put { path with route := { path.route with flags := .inWithdraw } } }

/-- A withdrawal finds the entry of its prefix, and with add-path also the path of its nexthop. An announcement
makes what it does not find; one of a multipath needs attributes. -/
def touches : RibOutEntry R A → Bool
  | .bestpath _ => true
  | .multipath entry => entry.attrs.isSome
  | .bestpathWithdrawal entry => (s.shadowRibEntries.find entry.pfx).isSome
  | .multipathWithdrawal entry =>
    (s.shadowRibEntries.find entry.pfx).any fun srEntry => (entry.nh.bind srEntry.multipaths.find).isSome

def handleEntry (entry : RibOutEntry R A) : PeerManager R A C I :=
  let recorded := { s with handled := s.handled ++ [Handled.mk entry s.maxRibVersion (s.touches entry)] }
  match entry with
  | .bestpath entry => recorded.announceBestpath allocator entry
  | .multipath entry => recorded.announceMultipath allocator entry
  | .bestpathWithdrawal entry => recorded.withdrawBestpath allocator entry
  | .multipathWithdrawal entry => recorded.withdrawMultipath allocator entry

def incrementMaxRibVersion : PeerManager R A C I :=
  { s with maxRibVersion := s.maxRibVersion + 1 }

/-- The loop over one list of a message. The version is increased for each run of entries of one prefix. -/
def handleEntries : Option CIDRNetwork → List (RibOutEntry R A) → PeerManager R A C I → PeerManager R A C I
  | _, [], s => s
  | chunkPrefix, entry :: entries, s =>
    let s := if chunkPrefix = some entry.pfx then s else s.incrementMaxRibVersion
    handleEntries (some entry.pfx) entries (s.handleEntry allocator entry)

def handleShadowRibEntryAnnouncement
    (entries addPathEntries : List (RibOutAnnouncementEntry R A)) : PeerManager R A C I :=
  let s := handleEntries allocator none (entries.map .bestpath) s
  handleEntries allocator none (addPathEntries.map .multipath) s

def handleShadowRibEntryWithdrawal (withdrawal : RibOutWithdrawal) : PeerManager R A C I :=
  let s := handleEntries allocator none (withdrawal.entries.map .bestpathWithdrawal) s
  handleEntries allocator none (withdrawal.addPathEntries.map .multipathWithdrawal) s

def handleMessage : RibOutMessage R A → PeerManager R A C I
  | .announcement entries addPathEntries => s.handleShadowRibEntryAnnouncement allocator entries addPathEntries
  | .withdrawal withdrawal => s.handleShadowRibEntryWithdrawal allocator withdrawal

end

section

variable [DecidableEq C] [DecidableEq I] (s : PeerManager R A C I) (consumer : C) (sendAddPath : Bool)

def setBitmap : PeerManager R A C I :=
  if sendAddPath then
    { s with
      addPathConsumerBitmap := BitmapUtils.setBit s.addPathConsumerBitmap (s.tracker.bitPosition consumer) }
  else
    { s with
      nonAddPathConsumerBitmap := BitmapUtils.setBit s.nonAddPathConsumerBitmap (s.tracker.bitPosition consumer) }

def resetBitmap : PeerManager R A C I :=
  { s with
    addPathConsumerBitmap := BitmapUtils.clearBit s.addPathConsumerBitmap (s.tracker.bitPosition consumer)
    nonAddPathConsumerBitmap := BitmapUtils.clearBit s.nonAddPathConsumerBitmap (s.tracker.bitPosition consumer) }

/-- A consumer that gets no bit throws before its bitmap is set. -/
def registerConsumer : PeerManager R A C I :=
  match s.tracker.registerWithTracker consumer with
  | .error _ => s
  | .ok _ => (s.track (.register consumer)).setBitmap consumer sendAddPath

def deregisterConsumer : PeerManager R A C I :=
  (s.resetBitmap consumer).track (.deregister consumer)

end

/-- `rehash` stands for another order of the ready consumers, a hash set. -/
inductive Action (R A C I : Type) where
  | ribOut (message : RibOutMessage R A)
  | registerConsumer (consumer : C) (sendAddPath : Bool)
  | deregisterConsumer (consumer : C)
  | iterate (consumer : C) (untilMarker : Option I) (callback : I → ProcessResult)
  | join (existingConsumer newConsumer : C)
  | rehash (order : List C)

section

variable [DecidableEq C] [DecidableEq I] (allocator : Allocator C I) (s : PeerManager R A C I)

def exec : Action R A C I → PeerManager R A C I
  | .ribOut message => s.handleMessage allocator message
  | .registerConsumer consumer sendAddPath => s.registerConsumer consumer sendAddPath
  | .deregisterConsumer consumer => s.deregisterConsumer consumer
  | .iterate consumer untilMarker callback => s.track (.iterate consumer untilMarker callback)
  | .join existingConsumer newConsumer => s.track (.join existingConsumer newConsumer)
  | .rehash order => s.track (.rehash order)

def Enabled : Action R A C I → Prop
  | .rehash order => order.Perm s.tracker.readyConsumers
  | _ => True

def peerManagerSystem (R A : Type) : Transition.System (PeerManager R A C I) (Action R A C I) where
  init := { tracker := .empty }
  enabled := Enabled
  exec := exec allocator

end

end PeerManager

end FbossBgp.Peer
