import FbossBgp.NexthopTracker.NexthopCache
import FbossBgp.Peer.NeighborWatcher

/-! The neighbor watcher and the FIB watcher, which report to one cache of nexthops. A neighbor is reported when it is
resolved and never when it is gone, which is left to the teardown of its session; the FIB watcher reports what has
changed in the host routes of the nexthops that it has subscribed to. -/

namespace FbossBgp.NexthopTracker

open BgpLib (IPAddress)
open Peer (InterfaceMap NeighborTable LinkLocal)
open Peer.FsdbNeighborWatcher NexthopCache List

/-- A route of the FIB: the costs of the nexthops that are forwarded to, and of the nexthops of each client. -/
structure RouteFields (K : Type) where
  fwd : List (Option Int)
  client2NextHopEntry : K → Option (List (Option Int))

variable {S K : Type}

def lookupIgpCostFromRoute (igpCostClientId : Option K) (route : RouteFields K) : Option Nat :=
  let minCost (nexthops : List (Option Int)) : Option Nat :=
    ((nexthops.filterMap id).map fun cost => (cost % 2 ^ 32).toNat).min?
  match igpCostClientId with
  | none => minCost route.fwd
  | some clientId => (route.client2NextHopEntry clientId).bind minCost

/-- The host routes of each switch, by the nexthops that they are to. -/
abbrev FibData (S K : Type) := S → IPAddress → Option (RouteFields K)

structure FsdbFibWatcher (S K : Type) where
  switchIds : List S
  igpCostClientId : Option K
  nexthopCache : NexthopCache IPAddress := fun _ => none
  subscribedPrefixes : List IPAddress := []
  reachableNexthops : IPAddress → Bool := fun _ => false
  needsReconcile : Bool := false

/-- A token of an updated path is the host prefix of a nexthop or something else. -/
inductive WatcherEvent (S K : Type)
  | interfaceMaps (snapshot : List InterfaceMap)
  | fibUpdate (data : FibData S K) (updatedPaths : List (List (Option IPAddress)))
  | reconnect
  | addNexthopPaths (newNexthops : List IPAddress)

def collectResolvedIpsFromTable [LinkLocal] (nbrTable : NeighborTable) : List IPAddress :=
  (nbrTable.items.filter fun nbrFields => isNeighborResolved nbrFields &&
    !LinkLocal.isLinkLocal nbrFields.ipaddress).map (·.ipaddress)

def forwardResolvedNeighborIps [LinkLocal] (interfaceMap : List InterfaceMap) : List IPAddress :=
  interfaceMap.flatMap fun innerMap => innerMap.items.flatMap fun intfFields =>
    collectResolvedIpsFromTable intfFields.arpTable ++ collectResolvedIpsFromTable intfFields.ndpTable

namespace FsdbFibWatcher

variable (w : FsdbFibWatcher S K) (data : FibData S K) (updatedPaths : List (List (Option IPAddress)))

def routeExistsInCowTree (peerAddr : IPAddress) : Option (Option Nat) :=
  (w.switchIds.findSome? fun switchId => data switchId peerAddr).map (lookupIgpCostFromRoute w.igpCostClientId)

def emitReachabilityUpdate (route : Option (Option Nat)) : NexthopStatus :=
  { isReachable := route.isSome, igpCost := route.join, excludeNexthopWithoutCost := false }

def updatedPeers : List IPAddress :=
  updatedPaths.filterMap fun pathTokens =>
    pathTokens.findSome? fun token => token.filter (· ∈ w.subscribedPrefixes)

def reportedPeers : List IPAddress :=
  if w.needsReconcile then w.subscribedPrefixes.filter fun peerAddr =>
    (w.routeExistsInCowTree data peerAddr).isSome || w.reachableNexthops peerAddr
  else w.updatedPeers updatedPaths

/-- The set of reachable nexthops is built anew when the watcher reconciles. -/
def coProcessFibUpdate : FsdbFibWatcher S K :=
  let route := w.routeExistsInCowTree data
  let peers := w.reportedPeers data updatedPaths
  { w with
    nexthopCache := (addOrUpdateNextHopStatus w.nexthopCache
      (peers.map fun peerAddr => (peerAddr, emitReachabilityUpdate (route peerAddr)))).1
    reachableNexthops := fun peerAddr =>
      if peerAddr ∈ peers then (route peerAddr).isSome else !w.needsReconcile && w.reachableNexthops peerAddr
    needsReconcile := false }

def learnConnectedNeighbors (resolvedIps : List IPAddress) : FsdbFibWatcher S K :=
  { w with nexthopCache :=
      (addOrUpdateNextHopStatus w.nexthopCache (resolvedIps.map fun ip => (ip, reachableAt 1 true))).1 }

/-- Who has the say about a nexthop, its neighbor or its route. -/
def authorityOf (isConnected : Bool) (route : Option (Option Nat)) : Authority :=
  if isConnected then ⟨true, some (reachableAt 1 true)⟩ else ⟨false, some (emitReachabilityUpdate route)⟩

section

variable {ip : IPAddress} {entry : Option (NexthopStatus × Bool)} {isConnected : Bool} {route : Option (Option Nat)}
  (h : Agrees entry (authorityOf isConnected route))
include h

theorem agrees_fibReport (newRoute : Option (Option Nat)) :
    Agrees (some (addOrUpdate (emitReachabilityUpdate newRoute) entry).1) (authorityOf isConnected newRoute) := by
  cases isConnected with
  | false => exact h.addOrUpdate nofun
  | true => exact h.addOrUpdate nofun

theorem agrees_neighborReport (hnew : route = some (some 1) → isConnected) :
    Agrees (some (addOrUpdate (reachableAt 1 true) entry).1) (authorityOf true route) := by
  obtain ⟨hstatus, hconn⟩ := id h
  cases isConnected with
  | true => exact h.addOrUpdate fun _ e he hne => absurd (hconn.mpr rfl) (by simp_all)
  | false =>
    refine h.addOrUpdate fun _ e he _ => ?_
    by_contra hsame
    rw [Option.mem_def] at he
    simp only [isNexthopStatusChanged, Bool.not_eq_true, Bool.or_eq_false_iff, bne_eq_false_iff_eq] at hsame
    cases route with
    | none => simp_all [statusOf, authorityOf, emitReachabilityUpdate, reachableAt]
    | some cost => simp_all [statusOf, authorityOf, emitReachabilityUpdate, reachableAt]

end

/-- One report for each of some nexthops takes those that agree with `before` to `after`. -/
theorem agrees_reports {ip : IPAddress} {before after : Authority} (report : IPAddress → NexthopStatus)
    {peers : List IPAddress} {cache : NexthopCache IPAddress} (h : Agrees (cache ip) before)
    (hbefore : ip ∈ peers → ∀ entry, Agrees entry before → Agrees (some (addOrUpdate (report ip) entry).1) after)
    (hafter : ∀ entry, Agrees entry after → Agrees (some (addOrUpdate (report ip) entry).1) after) :
    Agrees ((addOrUpdateNextHopStatus cache (peers.map fun peerAddr => (peerAddr, report peerAddr))).1 ip)
      (if ip ∈ peers then after else before) := by
  have hfold : (addOrUpdateNextHopStatus cache (peers.map fun peerAddr => (peerAddr, report peerAddr))).1 =
      peers.foldl (fun cache peerAddr =>
        Function.update cache peerAddr (some (addOrUpdate (report peerAddr) (cache peerAddr)).1)) cache := by
    rw [addOrUpdateNextHopStatus, foldl_map]
    exact (foldl_hom Prod.fst fun _ _ => rfl).symm
  rw [hfold]
  clear hfold
  induction peers generalizing cache before with
  | nil => exact h
  | cons peerAddr peers ih =>
    rw [foldl_cons]
    by_cases heq : ip = peerAddr
    · subst heq
      rw [if_pos mem_cons_self]
      have hrest := @ih after (Function.update cache ip _)
        (by rw [Function.update_self]; exact hbefore mem_cons_self _ h) fun _ => hafter
      rwa [ite_self] at hrest
    · rw [if_congr (mem_cons.trans (or_iff_right heq)) rfl rfl]
      exact ih (by rwa [Function.update_of_ne heq]) fun hmem => hbefore (mem_cons_of_mem _ hmem)

section

variable [LinkLocal]

def exec : WatcherEvent S K → FsdbFibWatcher S K
  | .interfaceMaps snapshot => w.learnConnectedNeighbors (forwardResolvedNeighborIps snapshot)
  | .fibUpdate data updatedPaths => w.coProcessFibUpdate data updatedPaths
  | .reconnect => { w with needsReconcile := true }
  | .addNexthopPaths newNexthops => { w with subscribedPrefixes := newNexthops ∪ w.subscribedPrefixes }

/-- Some table of the snapshot has the neighbor, on a port and reachable. -/
def isResolvedNeighbor (snapshot : List InterfaceMap) (ip : IPAddress) : Bool :=
  snapshot.any fun innerMap => innerMap.items.any fun intfFields =>
    (intfFields.arpTable.items ++ intfFields.ndpTable.items).any fun nbrFields =>
      nbrFields.ipaddress = ip && nbrFields.portId != 0 && nbrFields.isReachable && !LinkLocal.isLinkLocal ip

/-- What has been seen of the events so far, apart from the watchers: the nexthops subscribed to, those that some
snapshot resolved, and the routes that the latest update of the FIB had for those subscribed to by then. -/
structure Seen where
  subscribed : List IPAddress := []
  resolved : IPAddress → Bool := fun _ => false
  fib : IPAddress → Option (Option Nat) := fun _ => none

section

variable (switchIds : List S) (igpCostClientId : Option K)

def Seen.step (seen : Seen) : WatcherEvent S K → Seen
  | .interfaceMaps snapshot => { seen with resolved := fun ip => seen.resolved ip || isResolvedNeighbor snapshot ip }
  | .fibUpdate data _ => { seen with fib := fun ip => if ip ∈ seen.subscribed then
      (switchIds.findSome? fun switchId => data switchId ip).map (lookupIgpCostFromRoute igpCostClientId) else none }
  | .reconnect => seen
  | .addNexthopPaths newNexthops => { seen with subscribed := newNexthops ∪ seen.subscribed }

/-- An update lists every subscribed nexthop whose route has changed since the one before, and no nexthop is resolved
for the first time while the FIB gives it cost 1. -/
def Seen.Admissible (seen : Seen) : WatcherEvent S K → Prop
  | .interfaceMaps snapshot => ∀ ip ∈ seen.subscribed,
    isResolvedNeighbor snapshot ip → seen.fib ip = some (some 1) → seen.resolved ip
  | .fibUpdate data updatedPaths => ∀ ip ∈ seen.subscribed,
    (seen.step switchIds igpCostClientId (.fibUpdate data updatedPaths)).fib ip ≠ seen.fib ip →
      ∃ tokens ∈ updatedPaths, (tokens.findSome? fun token => token.filter (· ∈ seen.subscribed)) = some ip
  | _ => True

def events : Transition.System Seen (WatcherEvent S K) :=
  ⟨{}, Seen.Admissible switchIds igpCostClientId, Seen.step switchIds igpCostClientId⟩

instance (seen : Seen) (event : WatcherEvent S K) :
    Decidable ((events switchIds igpCostClientId).enabled seen event) := by
  cases event <;> (dsimp only [events, Seen.Admissible]; infer_instance)

/-- What the cache stores of a nexthop after some events. -/
def statusAfter (run : List (WatcherEvent S K)) (ip : IPAddress) : Bool × Option Nat :=
  let watcher : FsdbFibWatcher S K := run.foldl (fun w => w.exec) { switchIds, igpCostClientId }
  statusOf ((watcher.nexthopCache ip).map Prod.fst)

end

theorem mem_forwardResolvedNeighborIps {snapshot : List InterfaceMap} {ip : IPAddress} :
    ip ∈ forwardResolvedNeighborIps snapshot ↔ isResolvedNeighbor snapshot ip := by
  simp only [forwardResolvedNeighborIps, collectResolvedIpsFromTable, isResolvedNeighbor, isNeighborResolved, mem_flatMap,
    ← map_append, ← filter_append, mem_map, mem_filter, any_eq_true, Bool.and_eq_true, decide_eq_true_eq]
  grind

/-- The cache stores cost 1 for the nexthops that were resolved, and for the others what the FIB says. -/
structure Follows (seen : Seen) : Prop where
  agrees : ∀ ip, Agrees (w.nexthopCache ip) (authorityOf (seen.resolved ip) (seen.fib ip))
  reachable : ∀ ip, w.reachableNexthops ip = (seen.fib ip).isSome
  subscribed : w.subscribedPrefixes = seen.subscribed
  unsubscribed : ∀ ip, ip ∉ seen.subscribed → seen.fib ip = none

variable {w data updatedPaths} {seen : Seen}

/-- The nexthops that an update does not report have the route that they had, and none if it is a reconcile. -/
theorem Follows.fib_eq (h : w.Follows seen)
    (hlists : seen.Admissible w.switchIds w.igpCostClientId (.fibUpdate data updatedPaths)) (ip : IPAddress) :
    (seen.step w.switchIds w.igpCostClientId (.fibUpdate data updatedPaths)).fib ip =
        (if ip ∈ w.reportedPeers data updatedPaths then w.routeExistsInCowTree data ip else seen.fib ip) ∧
      (w.needsReconcile → ip ∉ w.reportedPeers data updatedPaths → seen.fib ip = none) := by
  have hreach := h.reachable ip
  have hunsub := h.unsubscribed ip
  have hlisted := hlists ip
  rw [reportedPeers, h.subscribed]
  cases hreconcile : w.needsReconcile with
  | true =>
    by_cases hsub : ip ∈ seen.subscribed <;> simp_all [Seen.step, routeExistsInCowTree]
  | false =>
    refine ⟨?_, nofun⟩
    rw [if_neg Bool.false_ne_true, updatedPeers, h.subscribed]
    by_cases hsub : ip ∈ seen.subscribed
    · split_ifs with hip
      · exact if_pos hsub
      · exact not_not.mp fun hne => hip (mem_filterMap.mpr (hlisted hsub hne))
    · have hip : ip ∉ updatedPaths.filterMap fun pathTokens =>
          pathTokens.findSome? fun token => token.filter (· ∈ seen.subscribed) := by
        intro hip
        obtain ⟨tokens, -, htoken⟩ := mem_filterMap.mp hip
        obtain ⟨token, -, hfilter⟩ := exists_of_findSome?_eq_some htoken
        exact hsub (by simpa using (Option.filter_eq_some_iff.mp hfilter).2)
      rw [if_neg hip, hunsub hsub]
      exact if_neg hsub

theorem Follows.exec (h : w.Follows seen) {event : WatcherEvent S K}
    (hadm : seen.Admissible w.switchIds w.igpCostClientId event) :
    (w.exec event).Follows (seen.step w.switchIds w.igpCostClientId event) := by
  cases event with
  | interfaceMaps snapshot =>
    refine ⟨fun ip => ?_, h.reachable, h.subscribed, h.unsubscribed⟩
    have hreports := agrees_reports (fun _ => reachableAt 1 true) (h.agrees ip)
      (fun hip _ hbefore => agrees_neighborReport hbefore fun hroute => by
        have hsub : ip ∈ seen.subscribed := by
          by_contra hsub
          simp [h.unsubscribed ip hsub] at hroute
        exact hadm ip hsub (mem_forwardResolvedNeighborIps.mp hip) hroute)
      fun _ hafter => agrees_neighborReport hafter fun _ => rfl
    simp only [FsdbFibWatcher.exec, learnConnectedNeighbors, Seen.step]
    cases hip : isResolvedNeighbor snapshot ip with
    | false => simpa [mem_forwardResolvedNeighborIps, hip] using hreports
    | true => simpa [mem_forwardResolvedNeighborIps, hip] using hreports
  | fibUpdate data updatedPaths =>
    have hfib := h.fib_eq hadm
    refine ⟨fun ip => ?_, fun ip => ?_, h.subscribed, fun ip hip => if_neg hip⟩
    · rw [(hfib ip).1, apply_ite (authorityOf _)]
      exact agrees_reports _ (h.agrees ip) (fun _ _ hbefore => agrees_fibReport hbefore _)
        fun _ hafter => agrees_fibReport hafter _
    · have hreach := h.reachable ip
      rw [(hfib ip).1, FsdbFibWatcher.exec, coProcessFibUpdate, apply_ite Option.isSome]
      dsimp only
      split_ifs with hip
      · rfl
      · cases hreconcile : w.needsReconcile with
        | true => rw [(hfib ip).2 hreconcile hip]; rfl
        | false => exact hreach
  | reconnect => exact ⟨h.agrees, h.reachable, h.subscribed, h.unsubscribed⟩
  | addNexthopPaths newNexthops =>
    exact ⟨h.agrees, h.reachable, congrArg (newNexthops ∪ ·) h.subscribed,
      fun ip hip => h.unsubscribed ip fun hsub => hip (mem_union_right _ hsub)⟩

theorem Follows.run (h : w.Follows seen) {switchIds : List S} {igpCostClientId : Option K}
    (hids : w.switchIds = switchIds) (hclient : w.igpCostClientId = igpCostClientId) {run : List (WatcherEvent S K)}
    (hadm : Transition.Admits (events switchIds igpCostClientId) seen run) :
    (run.foldl (fun w => w.exec) w).Follows (Transition.run (events switchIds igpCostClientId) seen run) := by
  induction run generalizing w seen with
  | nil => exact h
  | cons event run ih =>
    subst hids hclient
    exact ih (h.exec hadm.1) (by cases event <;> rfl) (by cases event <;> rfl) hadm.2

/-- Every nexthop that some snapshot resolved stays reachable at cost 1, and every other one is reachable exactly if
the latest update of the FIB has a route to it, at the cost of the route. -/
theorem statusOf_watchers {switchIds : List S} {igpCostClientId : Option K} {run : List (WatcherEvent S K)}
    (hadm : Transition.Admits (events switchIds igpCostClientId) {} run) (ip : IPAddress) :
    let seen := Transition.run (events switchIds igpCostClientId) {} run
    statusAfter switchIds igpCostClientId run ip =
      if seen.resolved ip then (true, some 1) else ((seen.fib ip).isSome, (seen.fib ip).join) := by
  intro seen
  have hinit : ({ switchIds, igpCostClientId } : FsdbFibWatcher S K).Follows {} :=
    ⟨fun ip => ⟨rfl, by simp [authorityOf]⟩, fun _ => rfl, rfl, fun _ _ => rfl⟩
  rw [statusAfter, ((hinit.run rfl rfl hadm).agrees ip).status, authorityOf]
  change statusOf (if seen.resolved ip then _ else _ : Authority).last = _
  split_ifs with hip
  · rfl
  · rfl

end

/-- The FIB of one switch has one host route. -/
def fibOf (ip : IPAddress) (cost : Int) : FibData Unit Unit :=
  fun _ peerAddr => if peerAddr = ip then some ⟨[none, some cost], fun _ => none⟩ else none

def otherAddr : IPAddress := .ofOctets 192 0 2 2

/-- A nexthop is a neighbor in the first snapshot only, after the FIB had a route to it; the route to the other one
changes while the watcher is not connected. -/
def reconnectedRun : List (WatcherEvent Unit Unit) :=
  [.addNexthopPaths [nexthopAddr, otherAddr], .fibUpdate (fibOf nexthopAddr 10) [[none, some nexthopAddr]],
    .interfaceMaps [neighborOn 1], .interfaceMaps [.empty], .reconnect,
    .fibUpdate (fibOf otherAddr 20) [[some nexthopAddr], [some otherAddr]]]

theorem statusOf_reconnectedRun : Transition.Admits (events [()] none) {} reconnectedRun ∧
    statusAfter [()] none reconnectedRun nexthopAddr = (true, some 1) ∧
      statusAfter [()] none reconnectedRun otherAddr = (true, some 20) := by
  have hadm : Transition.Admits (events [()] none) {} reconnectedRun := by decide
  exact ⟨hadm, (statusOf_watchers hadm nexthopAddr).trans (by decide),
    (statusOf_watchers hadm otherAddr).trans (by decide)⟩

/-- The nexthop was added, and is a neighbor in the first snapshot but not in the second one. -/
def goneRun : List (WatcherEvent Unit Unit) :=
  [.addNexthopPaths [nexthopAddr], .interfaceMaps [neighborOn 1], .interfaceMaps [.empty]]

/-- The nexthop is no neighbor any more and has no route, but is stored as reachable. -/
theorem reachable_of_neighbor_gone : Transition.Admits (events [()] none) {} goneRun ∧
    nexthopAddr ∈ (Transition.run (events [()] none) {} goneRun).subscribed ∧
      isResolvedNeighbor [.empty] nexthopAddr = false ∧
      (Transition.run (events [()] none) {} goneRun).fib nexthopAddr = none ∧
      statusAfter [()] none goneRun nexthopAddr = (true, some 1) :=
  ⟨by decide, by decide, rfl, rfl, rfl⟩

end FsdbFibWatcher

end FbossBgp.NexthopTracker
