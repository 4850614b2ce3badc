import FbossBgp.Lib.Replay
import FbossBgp.Lib.Transition
import FbossBgp.Rib.RibEntry

/-! The ingress side of an AdjRib: the routes learnt from one peer, what is kept of them while the peer
restarts, and the announcements and withdrawals pushed to the RIB. Attributes are an arbitrary type `A`;
the limits on the number of routes, which count over all peers, are parameters of an UPDATE. -/

namespace FbossBgp.AdjRib

open Rib (CIDRNetwork kDefaultPathID)

abbrev PrefixPathId := CIDRNetwork × Nat

inductive BgpUpdateAfi where
  | AFI_IPv4
  | AFI_IPv6
  deriving DecidableEq, Repr

/-- A prefix of an UPDATE and its path id, where it carries one. -/
structure RiggedIPPrefix where
  pfx : CIDRNetwork
  pathId : Option Nat
  deriving DecidableEq

/-- A learnt route. An entry whose pre-policy attributes are cleared is deleted at once. -/
structure AdjRibInEntry (A : Type) where
  pfx : CIDRNetwork
  pathId : Nat
  preIn : A
  postAttr : Option A
  isStale : Bool := false
  deriving DecidableEq

def AdjRibInEntry.key {A : Type} (entry : AdjRibInEntry A) : PrefixPathId := (entry.pfx, entry.pathId)

abbrev AdjRibInTree (A : Type) := Keyed (AdjRibInEntry.key (A := A))

/-- The peer's configuration and the policies under which its routes are evaluated. -/
structure IngressPolicy (A : Type) where
  validateAttributesIn : A → Bool
  updateAttributesIn : A → A
  blockedByIngressRouteFilter : CIDRNetwork → Bool
  getPostInPolicyAttributes : CIDRNetwork → A → Option A

def IngressPolicy.getPostInRouteFilterAndPolicyAttributes {A : Type} (policy : IngressPolicy A) (pfx : CIDRNetwork)
    (postConfigInAttrs : A) : Option A :=
  if policy.blockedByIngressRouteFilter pfx then none else policy.getPostInPolicyAttributes pfx postConfigInAttrs

/-- What evaluating a route reads beyond the route: which new ones the limits on received and on accepted
routes let in, and where policy returns the very object that the entry holds. -/
structure RouteChecks where
  canAddRibInEntry : PrefixPathId → Bool
  capRoutesPerPeer : PrefixPathId → Bool
  samePostAttrPointer : PrefixPathId → Bool

/-- The changes of one message before they are pushed. -/
structure RibInUpdates (A : Type) where
  withdrawnPfxPathIds : List PrefixPathId := []
  announcedPrefixes : List (PrefixPathId × A) := []

/-- An UPDATE; the multiprotocol prefixes have a nexthop, and so attributes, of their own. -/
structure PeerUpdate (A : Type) where
  v4Withdrawn : List RiggedIPPrefix := []
  mpWithdrawn : List RiggedIPPrefix := []
  v4Announced : List RiggedIPPrefix := []
  mpAnnounced : List RiggedIPPrefix := []
  v4Attrs : A
  mpAttrs : A

structure Session where
  isAfiIpv4Negotiated : Bool
  isAfiIpv6Negotiated : Bool
  recAddPath : Bool
  remoteGrRestartTime : Nat
  deriving DecidableEq, Repr

def Session.negotiatedAfis (session : Session) : Finset BgpUpdateAfi :=
  (if session.isAfiIpv4Negotiated then {.AFI_IPv4} else ∅) ∪
    (if session.isAfiIpv6Negotiated then {.AFI_IPv6} else ∅)

structure AdjRibIn (A : Type) where
  policy : IngressPolicy A
  /-- `adjRibInPathTree_` under `true` and `adjRibInLiteTree_` under `false`. -/
  adjRibInTree : Bool → AdjRibInTree A := fun _ => .empty
  adjRibInStale : AdjRibInTree A := .empty
  staleEntryCount : Nat := 0
  recAddPath : Bool := false
  isSessionEstablished : Bool := false
  pendingIngressEoRAfis : Finset BgpUpdateAfi := ∅
  remoteGrRestartTime : Nat := 0
  remoteGrRestartTimer : Bool := false
  stalePathTimer : Bool := false
  /-- What has been pushed to the RIB, a withdrawal as `none`. -/
  pushed : List (PrefixPathId × Option A) := []
  /-- Withdrawals of timer callbacks whose push has not gone through yet. -/
  pendingRibInPushes : List (List PrefixPathId) := []

def kPolicyReEvaluationBatchSize : Nat := 1000

section

variable {A : Type} (updates : RibInUpdates A) (key : PrefixPathId)

def RibInUpdates.events : List (PrefixPathId × Option A) :=
  updates.withdrawnPfxPathIds.map (·, none) ++
    updates.announcedPrefixes.map fun announced => (announced.1, some announced.2)

def RibInUpdates.withdraw : RibInUpdates A :=
  { updates with withdrawnPfxPathIds := updates.withdrawnPfxPathIds ++ [key] }

def RibInUpdates.announce (attrs : A) : RibInUpdates A :=
  { updates with announcedPrefixes := updates.announcedPrefixes ++ [(key, attrs)] }

variable [DecidableEq A] (policy : IngressPolicy A) (checks : RouteChecks)

def maybeAnnouncePrefix (postInAttrs : Option A) (entry : AdjRibInEntry A)
    (updates : RibInUpdates A) : AdjRibInEntry A × RibInUpdates A :=
  match postInAttrs with
  | none =>
    if entry.postAttr.isNone then (entry, updates)
    else ({ entry with postAttr := none }, updates.withdraw entry.key)
  | some attrs =>
    if entry.postAttr = some attrs ∧ !checks.samePostAttrPointer entry.key then (entry, updates)
    else if entry.postAttr.isNone && checks.capRoutesPerPeer entry.key then (entry, updates)
    else ({ entry with postAttr := some attrs }, updates.announce entry.key attrs)

def processPrefixWithPolicy (entry : AdjRibInEntry A)
    (updates : RibInUpdates A) : AdjRibInEntry A × RibInUpdates A :=
  maybeAnnouncePrefix checks
    (policy.getPostInRouteFilterAndPolicyAttributes entry.pfx (policy.updateAttributesIn entry.preIn)) entry updates

namespace AdjRibIn

variable (s : AdjRibIn A)

/-- The tree of the session's add-path capability. -/
def tree : AdjRibInTree A := s.adjRibInTree s.recAddPath

def setTree (tree : AdjRibInTree A) : AdjRibIn A :=
  { s with adjRibInTree := Function.update s.adjRibInTree s.recAddPath tree }

omit [DecidableEq A] in
@[simp] theorem tree_setTree (tree : AdjRibInTree A) : (s.setTree tree).tree = tree := Function.update_self ..

variable (key : PrefixPathId)

def getRibEntry : Option (AdjRibInEntry A) := s.tree.find key

def push (events : List (PrefixPathId × Option A)) : AdjRibIn A :=
  { s with pushed := s.pushed ++ events }

def sendRibInWithdrawal (pfxPathIds : List PrefixPathId) : AdjRibIn A :=
  s.push (pfxPathIds.map (·, none))

def keyOf (rigPrefix : RiggedIPPrefix) : PrefixPathId :=
  (rigPrefix.pfx, if s.recAddPath then rigPrefix.pathId.getD kDefaultPathID else kDefaultPathID)

/-- The lite tree keeps an entry that is there already, the path tree takes the stale one. -/
def promoteStaleRibInEntryIfExists : AdjRibIn A :=
  match s.adjRibInStale.find key with
  | none => s
  | some entry =>
    let promoted := if !s.recAddPath && (s.getRibEntry key).isSome then s.tree else s.tree.put entry
    { s.setTree promoted with adjRibInStale := s.adjRibInStale.erase key }

def promoteStaleRibInEntryIfExistsInPlace : AdjRibIn A :=
  match s.getRibEntry key with
  | none => s
  | some entry =>
    if entry.isStale then
      { s.setTree (s.tree.put { entry with isStale := false }) with staleEntryCount := s.staleEntryCount - 1 }
    else s

variable (enableOptimizedGR : Bool)

def promote (s : AdjRibIn A) (key : PrefixPathId) : AdjRibIn A :=
  if enableOptimizedGR then s.promoteStaleRibInEntryIfExistsInPlace key else s.promoteStaleRibInEntryIfExists key

variable (checks : RouteChecks) (attrs : A)

/-- The entry with its new attributes goes through policy and into the tree. -/
def learn (entry : AdjRibInEntry A) (s : AdjRibIn A) (updates : RibInUpdates A) : AdjRibIn A × RibInUpdates A :=
  let processed := processPrefixWithPolicy s.policy checks entry updates
  (s.setTree (s.tree.put processed.1), processed.2)

/-- One turn of the loop of `processPeerAnnounced`. -/
def announcePrefix
    (state : AdjRibIn A × RibInUpdates A) (rigPrefix : RiggedIPPrefix) : AdjRibIn A × RibInUpdates A :=
  let key := state.1.keyOf rigPrefix
  let s := promote enableOptimizedGR state.1 key
  match s.getRibEntry key with
  | none =>
    if checks.canAddRibInEntry key then s.learn checks ⟨key.1, key.2, attrs, none, false⟩ state.2
    else (s, state.2)
  | some entry => if entry.preIn = attrs then (s, state.2) else s.learn checks { entry with preIn := attrs } state.2

def processPeerAnnounced (s : AdjRibIn A) (prefixes : List RiggedIPPrefix) : AdjRibIn A :=
  let processed := prefixes.foldl (announcePrefix enableOptimizedGR checks attrs) (s, {})
  processed.1.push processed.2.events

variable (state : AdjRibIn A × List PrefixPathId)

/-- The route is dropped; the RIB hears of it only if policy had let it in. -/
def processWithdrawnPrefixRibInEntry (key : PrefixPathId) :
    AdjRibIn A × List PrefixPathId :=
  match state.1.getRibEntry key with
  | none => state
  | some entry =>
    (state.1.setTree (state.1.tree.erase key), if entry.postAttr.isSome then state.2 ++ [key] else state.2)

/-- One turn of the loop of `processPeerWithdrawn`. -/
def withdrawPrefix (rigPrefix : RiggedIPPrefix) :
    AdjRibIn A × List PrefixPathId :=
  let key := state.1.keyOf rigPrefix
  processWithdrawnPrefixRibInEntry (promote enableOptimizedGR state.1 key, state.2) key

def processPeerWithdrawn (s : AdjRibIn A) (prefixes : List RiggedIPPrefix) : AdjRibIn A :=
  let processed := prefixes.foldl (withdrawPrefix enableOptimizedGR) (s, [])
  processed.1.sendRibInWithdrawal processed.2

/-- Announced prefixes with invalid attributes are withdrawn. -/
def processAnnouncedPrefixes (attrs : A) (s : AdjRibIn A) (prefixes : List RiggedIPPrefix) : AdjRibIn A :=
  if s.policy.validateAttributesIn attrs then s.processPeerAnnounced enableOptimizedGR checks attrs prefixes
  else s.processPeerWithdrawn enableOptimizedGR prefixes

def processPeerUpdate (s : AdjRibIn A) (update : PeerUpdate A) : AdjRibIn A :=
  let s := s.processPeerWithdrawn enableOptimizedGR update.v4Withdrawn
  let s := s.processPeerWithdrawn enableOptimizedGR update.mpWithdrawn
  let s := s.processAnnouncedPrefixes enableOptimizedGR checks update.v4Attrs update.v4Announced
  s.processAnnouncedPrefixes enableOptimizedGR checks update.mpAttrs update.mpAnnounced

def staleKeys : List PrefixPathId := s.adjRibInStale.items.map AdjRibInEntry.key

def clearStale : AdjRibIn A := { s with adjRibInStale := .empty }

def cleanupStaleRoutes : AdjRibIn A := s.clearStale.sendRibInWithdrawal s.staleKeys

/-- The purge of a timer callback, whose push is only scheduled. -/
def purgeStaleOnTimer : AdjRibIn A :=
  if s.staleKeys.isEmpty then s
  else { s.clearStale with pendingRibInPushes := s.pendingRibInPushes ++ [s.staleKeys] }

def pushStaleWithdrawal : AdjRibIn A :=
  match s.pendingRibInPushes with
  | [] => s
  | withdrawal :: rest => { s with pendingRibInPushes := rest }.sendRibInWithdrawal withdrawal

def markLearntRoutesStale : AdjRibIn A := { s.setTree .empty with adjRibInStale := s.tree }

def markLearntRoutesStaleInPlace : AdjRibIn A :=
  { s.setTree (s.tree.modify (fun entry => { entry with isStale := true }) fun _ => rfl) with
    staleEntryCount := s.tree.items.countP fun entry => !entry.isStale }

def processPeerEoR (afi : BgpUpdateAfi) : AdjRibIn A :=
  let erased := { s with pendingIngressEoRAfis := s.pendingIngressEoRAfis.erase afi }
  if afi ∈ s.pendingIngressEoRAfis ∧ erased.pendingIngressEoRAfis = ∅ then
    { erased with stalePathTimer := false }.cleanupStaleRoutes
  else erased

def sessionEstablished (session : Session) : AdjRibIn A :=
  { s with
    remoteGrRestartTimer := false
    stalePathTimer := s.stalePathTimer || s.remoteGrRestartTimer
    remoteGrRestartTime := session.remoteGrRestartTime
    recAddPath := session.recAddPath
    pendingIngressEoRAfis := s.pendingIngressEoRAfis ∪ session.negotiatedAfis
    isSessionEstablished := true }

/-- A second failure before the stale path timer expires purges the paths of the first. -/
def stopStalePathTimer : AdjRibIn A :=
  if s.stalePathTimer then { s.cleanupStaleRoutes with stalePathTimer := false } else s

def markStale (s : AdjRibIn A) : AdjRibIn A :=
  if enableOptimizedGR then s.markLearntRoutesStaleInPlace else s.markLearntRoutesStale

def sessionTerminated (s : AdjRibIn A) (gracefulRestart : Bool) : AdjRibIn A :=
  let marked := { markStale enableOptimizedGR s.stopStalePathTimer with isSessionEstablished := false }
  if !gracefulRestart || s.remoteGrRestartTime == 0 then marked.cleanupStaleRoutes
  else { marked with remoteGrRestartTimer := true }

def stalePathTimerExpired : AdjRibIn A := { s.purgeStaleOnTimer with stalePathTimer := false }

def remoteGrRestartTimerExpired : AdjRibIn A :=
  { s.purgeStaleOnTimer with remoteGrRestartTimer := false }

end AdjRibIn

/-- A tree under re-evaluation: the changes not pushed yet and those that are. -/
structure ReEvaluation (A : Type) where
  tree : AdjRibInTree A
  updates : RibInUpdates A := {}
  sent : List (PrefixPathId × Option A) := []

omit [DecidableEq A] in
/-- A full batch is pushed. -/
def ReEvaluation.flush (state : ReEvaluation A) : ReEvaluation A :=
  { state with updates := {}, sent := state.sent ++ state.updates.events }

def ReEvaluation.entry (policy : IngressPolicy A) (checks : RouteChecks) (state : ReEvaluation A)
    (entry : AdjRibInEntry A) : ReEvaluation A :=
  let processed := processPrefixWithPolicy policy checks entry state.updates
  let next := { state with tree := state.tree.put processed.1, updates := processed.2 }
  let pending := next.updates.withdrawnPfxPathIds.length + next.updates.announcedPrefixes.length
  if pending ≥ kPolicyReEvaluationBatchSize then next.flush else next

/-- The re-evaluated tree and what is pushed on the way. -/
def reEvaluateAdjRibEntriesWithUpdatedPolicy (tree : AdjRibInTree A) :
    ReEvaluation A :=
  (tree.items.foldl (ReEvaluation.entry policy checks) { tree := tree }).flush

namespace AdjRibIn

/-- Active entries first, then stale ones. -/
def processAdjRibReEvaluationForPolicyChange (checks : RouteChecks) (s : AdjRibIn A) : AdjRibIn A :=
  let active := reEvaluateAdjRibEntriesWithUpdatedPolicy s.policy checks s.tree
  let stale := reEvaluateAdjRibEntriesWithUpdatedPolicy s.policy checks s.adjRibInStale
  { (s.setTree active.tree).push (active.sent ++ stale.sent) with adjRibInStale := stale.tree }

end AdjRibIn

inductive AdjRibInAction (A : Type) where
  | sessionEstablished (session : Session)
  | processPeerUpdate (checks : RouteChecks) (update : PeerUpdate A)
  | processPeerEoR (afi : BgpUpdateAfi)
  | sessionTerminated (gracefulRestart : Bool)
  | stalePathTimerExpired
  | remoteGrRestartTimerExpired
  | pushStaleWithdrawal
  | setPolicy (policy : IngressPolicy A)
  | processAdjRibReEvaluationForPolicyChange (checks : RouteChecks)

namespace AdjRibIn

omit [DecidableEq A] in
def Enabled (s : AdjRibIn A) : AdjRibInAction A → Prop
  | .sessionEstablished _ => s.isSessionEstablished = false
  | .processPeerUpdate _ _ | .processPeerEoR _ | .sessionTerminated _ => s.isSessionEstablished = true
  | .stalePathTimerExpired => s.stalePathTimer = true
  | .remoteGrRestartTimerExpired => s.remoteGrRestartTimer = true
  | .pushStaleWithdrawal => s.pendingRibInPushes ≠ []
  | .setPolicy _ | .processAdjRibReEvaluationForPolicyChange _ => True

def exec (enableOptimizedGR : Bool) (s : AdjRibIn A) : AdjRibInAction A → AdjRibIn A
  | .sessionEstablished session => s.sessionEstablished session
  | .processPeerUpdate checks update => s.processPeerUpdate enableOptimizedGR checks update
  | .processPeerEoR afi => s.processPeerEoR afi
  | .sessionTerminated gracefulRestart => s.sessionTerminated enableOptimizedGR gracefulRestart
  | .stalePathTimerExpired => s.stalePathTimerExpired
  | .remoteGrRestartTimerExpired => s.remoteGrRestartTimerExpired
  | .pushStaleWithdrawal => s.pushStaleWithdrawal
  | .setPolicy policy => { s with policy := policy }
  | .processAdjRibReEvaluationForPolicyChange checks => s.processAdjRibReEvaluationForPolicyChange checks

end AdjRibIn

def adjRibInSystem (enableOptimizedGR : Bool) (policy : IngressPolicy A) :
    Transition.System (AdjRibIn A) (AdjRibInAction A) where
  init := { policy := policy }
  enabled := AdjRibIn.Enabled
  exec := AdjRibIn.exec enableOptimizedGR

end

/-- Policies that let every route in as it is. -/
def acceptAll : IngressPolicy Nat := ⟨fun _ => true, id, fun _ => false, fun _ attrs => some attrs⟩

def unlimited : RouteChecks := ⟨fun _ => true, fun _ => false, fun _ => false⟩

def samplePeerPrefix : CIDRNetwork := ⟨.ofOctets 192 0 2 0, 24⟩

end FbossBgp.AdjRib
