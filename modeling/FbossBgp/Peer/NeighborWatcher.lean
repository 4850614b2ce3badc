import FbossBgp.Rib.RibEntry

/-! The neighbor watcher and the local routes that need a resolved nexthop. Each map of interfaces from FSDB is
compared with the one before it, table by table; the peer manager is told which neighbors disappeared, the RIB
which addresses were resolved on some interface and which are so no longer. -/

namespace FbossBgp.Peer

open BgpLib (IPAddress)

open Rib (CIDRNetwork)

open Keyed List

/-- An entry of a neighbor table under the address that is its key. -/
structure NeighborEntryFields where
  ipaddress : IPAddress
  portId : Int
  isReachable : Bool

abbrev NeighborTable := Keyed NeighborEntryFields.ipaddress

structure InterfaceFields where
  interfaceId : Int
  arpTable : NeighborTable
  ndpTable : NeighborTable

abbrev InterfaceMap := Keyed InterfaceFields.interfaceId

/-- The local routes that need their nexthop resolved, with the nexthop. -/
abbrev ConditionalRoutes := Keyed (Prod.fst : CIDRNetwork × IPAddress → CIDRNetwork)

/-- The watcher's cached map, which is null at first and is treated like an empty one, the routes that the RIB
originates, and the neighbors that the last snapshot reported down. -/
structure FsdbNeighborWatcher where
  interfaceMap : InterfaceMap := .empty
  originated : CIDRNetwork → Bool := fun _ => false
  neighborsDown : List IPAddress := []

/-- The test of the address library. -/
class LinkLocal where
  isLinkLocal : IPAddress → Bool

open LinkLocal (isLinkLocal)

namespace FsdbNeighborWatcher

def isNeighborResolved (nbrFields : NeighborEntryFields) : Bool := nbrFields.portId != 0 && nbrFields.isReachable

/-- One of the two tables of an interface, empty where the interface is missing. -/
def tableOf (ndp : Bool) : Option InterfaceFields → NeighborTable
  | none => .empty
  | some interface => if ndp then interface.ndpTable else interface.arpTable

variable (routes : ConditionalRoutes)

def conditionalLocalRoutes (nexthop : IPAddress) : List CIDRNetwork :=
  (routes.items.filter fun route => route.2 = nexthop).map Prod.fst

def processConditionalRoutesForNexthops (announce : Bool) (nexthopIps : List IPAddress)
    (originated : CIDRNetwork → Bool) : CIDRNetwork → Bool :=
  (nexthopIps.flatMap (conditionalLocalRoutes routes)).foldl (fun originated pfx =>
    Function.update originated pfx announce) originated

/-- Each route that needs one of these nexthops is announced or withdrawn. -/
theorem processConditionalRoutesForNexthops_apply {routes : ConditionalRoutes} {route : CIDRNetwork × IPAddress}
    (hroute : route ∈ routes.items) (announce : Bool) (nexthopIps : List IPAddress) (originated : CIDRNetwork → Bool) :
    processConditionalRoutesForNexthops routes announce nexthopIps originated route.1 =
      if route.2 ∈ nexthopIps then announce else originated route.1 := by
  have hmem : route.1 ∈ nexthopIps.flatMap (conditionalLocalRoutes routes) ↔ route.2 ∈ nexthopIps := by
    simp only [mem_flatMap, conditionalLocalRoutes, mem_map, List.mem_filter, decide_eq_true_eq]
    constructor
    · rintro ⟨nexthop, hnh, other, ⟨hother, rfl⟩, hpfx⟩
      rwa [← routes.eq_of_key_eq hother hroute hpfx]
    · exact fun hnh => ⟨route.2, hnh, route, ⟨hroute, rfl⟩, rfl⟩
  rw [← if_congr hmem rfl rfl, processConditionalRoutesForNexthops]
  generalize nexthopIps.flatMap (conditionalLocalRoutes routes) = prefixes
  induction prefixes generalizing originated with
  | nil => rfl
  | cons pfx prefixes ih =>
    rw [foldl_cons, ih]
    by_cases hpfx : route.1 = pfx <;> simp [hpfx]

section

variable [LinkLocal]

def findMissingOrNonResolvableAddr (sourceEntry targetEntry : NeighborTable) : List IPAddress :=
  (sourceEntry.items.filter fun nbrFields => !isLinkLocal nbrFields.ipaddress && isNeighborResolved nbrFields &&
    !(targetEntry.find nbrFields.ipaddress).any isNeighborResolved).map NeighborEntryFields.ipaddress

/-- `getNbrEntryChanges` on both tables of an interface, with the old and the new one in this order for the deleted
addresses and in the other one for the added ones. -/
def missingAddrs (source target : Option InterfaceFields) : List IPAddress :=
  findMissingOrNonResolvableAddr (tableOf false source) (tableOf false target) ++
    findMissingOrNonResolvableAddr (tableOf true source) (tableOf true target)

variable (old new : InterfaceMap) (s : FsdbNeighborWatcher) (snapshot : List InterfaceMap)

def deletedAddrs : List IPAddress :=
  old.items.flatMap fun interface => missingAddrs (some interface) (new.find interface.interfaceId)

/-- The loop over the old map, then the one over the new map for the interfaces that the old one lacks. -/
def addedAddrs : List IPAddress :=
  (old.items.flatMap fun interface => missingAddrs (new.find interface.interfaceId) (some interface)) ++
    new.items.flatMap fun interface => if (old.find interface.interfaceId).isSome then []
      else missingAddrs (some interface) none

/-- The resolved addresses come first. -/
def processNexthopResolutionUpdate (resolved unresolved : List IPAddress) (originated : CIDRNetwork → Bool) :
    CIDRNetwork → Bool :=
  processConditionalRoutesForNexthops routes false unresolved
    (processConditionalRoutesForNexthops routes true resolved originated)

def processInterfaceMapChanges (newInterfaceMap : InterfaceMap) : FsdbNeighborWatcher where
  interfaceMap := newInterfaceMap
  originated := processNexthopResolutionUpdate routes (addedAddrs s.interfaceMap newInterfaceMap)
    (deletedAddrs s.interfaceMap newInterfaceMap) s.originated
  neighborsDown := s.neighborsDown ++ deletedAddrs s.interfaceMap newInterfaceMap

/-- A snapshot has one map for each list of switch ids. -/
def handleCowUpdate : FsdbNeighborWatcher :=
  snapshot.foldl (processInterfaceMapChanges routes) { s with neighborsDown := [] }

def resolves (interface : Option InterfaceFields) (ndp : Bool) (ip : IPAddress) : Bool :=
  ((tableOf ndp interface).find ip).any isNeighborResolved

/-- A neighbor of some interface of the snapshot. -/
def ResolvedIn (ip : IPAddress) : Prop :=
  isLinkLocal ip = false ∧ ∃ map ∈ snapshot, ∃ id ndp, resolves (map.find id) ndp ip = true

/-- The routes and the reports are those that the two snapshots call for. -/
structure Exact (previous snapshot : List InterfaceMap) (s : FsdbNeighborWatcher) : Prop where
  originated : ∀ route ∈ routes.items, s.originated route.1 = true ↔ ResolvedIn snapshot route.2
  neighborsDown : ∀ ip, ip ∈ s.neighborsDown ↔ ResolvedIn previous ip ∧ ¬ResolvedIn snapshot ip

/-- They are so after every snapshot. -/
def Follows (s : FsdbNeighborWatcher) (previous : List InterfaceMap) : List (List InterfaceMap) → Prop
  | [] => True
  | snapshot :: snapshots =>
    Exact routes previous snapshot (handleCowUpdate routes s snapshot) ∧
      Follows (handleCowUpdate routes s snapshot) snapshot snapshots

/-- The address is resolved in a table of the first interface and not in that of the second. -/
def LostAt (first second : Option InterfaceFields) (ip : IPAddress) : Prop :=
  isLinkLocal ip = false ∧ ∃ ndp, resolves first ndp ip = true ∧ resolves second ndp ip = false

/-- An address that some table has lost is resolved in none of the new map. -/
def NoneMoves (old new : InterfaceMap) : Prop :=
  ∀ ip id, LostAt (old.find id) (new.find id) ip → ¬ResolvedIn [new] ip

variable {old new routes} {ip : IPAddress} {target : Option InterfaceFields} {id : Int}

theorem mem_findMissingOrNonResolvableAddr {source target : NeighborTable} :
    ip ∈ findMissingOrNonResolvableAddr source target ↔ isLinkLocal ip = false ∧
      (source.find ip).any isNeighborResolved = true ∧ (target.find ip).any isNeighborResolved = false := by
  simp only [findMissingOrNonResolvableAddr, mem_map, List.mem_filter, Bool.and_eq_true, Bool.not_eq_true',
    Option.any_eq_true]
  constructor
  · rintro ⟨fields, ⟨hmem, ⟨hlocal, hresolved⟩, htarget⟩, rfl⟩
    exact ⟨hlocal, ⟨fields, find_key hmem, hresolved⟩, htarget⟩
  · rintro ⟨hlocal, ⟨fields, hfind, hresolved⟩, htarget⟩
    obtain ⟨hmem, rfl⟩ := find_eq_some_iff.mp hfind
    exact ⟨fields, ⟨hmem, ⟨hlocal, hresolved⟩, htarget⟩, rfl⟩

theorem mem_missingAddrs {source : Option InterfaceFields} :
    ip ∈ missingAddrs source target ↔ LostAt source target ip := by
  simp only [missingAddrs, mem_append, mem_findMissingOrNonResolvableAddr, LostAt, resolves, Bool.exists_bool,
    and_or_left]

theorem LostAt.exists_mem {map : InterfaceMap} (h : LostAt (map.find id) target ip) :
    ∃ interface ∈ map.items, interface.interfaceId = id ∧ LostAt (some interface) target ip := by
  cases hfind : map.find id with
  | none =>
    obtain ⟨-, ndp, hres, -⟩ := h
    rw [hfind] at hres
    exact nomatch hres
  | some interface =>
    obtain ⟨hmem, hid⟩ := find_eq_some_iff.mp hfind
    exact ⟨interface, hmem, hid, hfind ▸ h⟩

theorem mem_deletedAddrs : ip ∈ deletedAddrs old new ↔ ∃ id, LostAt (old.find id) (new.find id) ip := by
  simp only [deletedAddrs, mem_flatMap, mem_missingAddrs]
  constructor
  · rintro ⟨interface, hmem, hlost⟩
    exact ⟨interface.interfaceId, by rwa [find_key hmem]⟩
  · rintro ⟨id, hlost⟩
    obtain ⟨interface, hmem, rfl, hlost⟩ := hlost.exists_mem
    exact ⟨interface, hmem, hlost⟩

theorem mem_addedAddrs : ip ∈ addedAddrs old new ↔ ∃ id, LostAt (new.find id) (old.find id) ip := by
  simp only [addedAddrs, mem_append, mem_flatMap]
  constructor
  · rintro (⟨interface, hmem, hlost⟩ | ⟨interface, hmem, hlost⟩)
    · exact ⟨interface.interfaceId, by rwa [find_key hmem, ← mem_missingAddrs]⟩
    · split at hlost
      · cases hlost
      · next hmiss =>
        rw [Option.not_isSome_iff_eq_none] at hmiss
        exact ⟨interface.interfaceId, by rwa [find_key hmem, hmiss, ← mem_missingAddrs]⟩
  · rintro ⟨id, hlost⟩
    cases hfind : old.find id with
    | some interface =>
      obtain ⟨hmem, rfl⟩ := find_eq_some_iff.mp hfind
      exact .inl ⟨interface, hmem, mem_missingAddrs.mpr (hfind ▸ hlost)⟩
    | none =>
      obtain ⟨interface, hmem, rfl, hlost⟩ := hlost.exists_mem
      refine .inr ⟨interface, hmem, ?_⟩
      rw [hfind] at hlost ⊢
      exact mem_missingAddrs.mpr hlost

theorem LostAt.resolvedIn (h : LostAt (old.find id) target ip) : ResolvedIn [old] ip := by
  obtain ⟨hlocal, ndp, hres, -⟩ := h
  exact ⟨hlocal, old, mem_singleton_self _, id, ndp, hres⟩

theorem resolvedIn_of_not_lost
    (h : ¬∃ id, LostAt (old.find id) (new.find id) ip) (hold : ResolvedIn [old] ip) :
    ResolvedIn [new] ip := by
  obtain ⟨hlocal, map, hmap, id, ndp, hres⟩ := hold
  obtain rfl := mem_singleton.mp hmap
  refine ⟨hlocal, new, mem_singleton_self _, id, ndp, ?_⟩
  by_contra hnew
  exact h ⟨id, hlocal, ndp, hres, Bool.eq_false_of_not_eq_true hnew⟩

/-- A snapshot with one map is handled as it should be exactly if no address moves. -/
theorem exact_iff_noneMoves {s : FsdbNeighborWatcher} (h : ∀ route ∈ routes.items,
      s.originated route.1 = true ↔ ResolvedIn [s.interfaceMap] route.2) :
    Exact routes [s.interfaceMap] [new] (handleCowUpdate routes s [new]) ↔ NoneMoves s.interfaceMap new := by
  constructor
  · intro hexact ip id hlost
    exact ((hexact.neighborsDown ip).mp (mem_deletedAddrs.mpr ⟨id, hlost⟩)).2
  refine fun hmoves => ⟨fun route hroute => ?_, fun ip => ?_⟩
  · show processNexthopResolutionUpdate routes (addedAddrs s.interfaceMap new) (deletedAddrs s.interfaceMap new) _ _ =
      true ↔ _
    rw [processNexthopResolutionUpdate, processConditionalRoutesForNexthops_apply hroute,
      processConditionalRoutesForNexthops_apply hroute]
    split_ifs with hlost hgained
    · obtain ⟨id, hlost⟩ := mem_deletedAddrs.mp hlost
      exact iff_of_false not_false (hmoves _ id hlost)
    · obtain ⟨id, hgained⟩ := mem_addedAddrs.mp hgained
      exact iff_of_true rfl hgained.resolvedIn
    · rw [h route hroute]
      exact ⟨resolvedIn_of_not_lost (mt mem_deletedAddrs.mpr hlost),
        resolvedIn_of_not_lost (mt mem_addedAddrs.mpr hgained)⟩
  · show ip ∈ [] ++ deletedAddrs s.interfaceMap new ↔ _
    rw [nil_append, mem_deletedAddrs]
    constructor
    · rintro ⟨id, hlost⟩
      exact ⟨hlost.resolvedIn, hmoves ip id hlost⟩
    · rintro ⟨hold, hnew⟩
      by_contra hlost
      exact hnew (resolvedIn_of_not_lost hlost hold)

theorem follows_iff_isChain (maps : List InterfaceMap) {s : FsdbNeighborWatcher} (h : ∀ route ∈ routes.items,
      s.originated route.1 = true ↔ ResolvedIn [s.interfaceMap] route.2) :
    Follows routes s [s.interfaceMap] (maps.map fun map => [map]) ↔ (s.interfaceMap :: maps).IsChain NoneMoves := by
  induction maps generalizing s with
  | nil => exact iff_of_true trivial (.singleton _)
  | cons map maps ih =>
    rw [map_cons, isChain_cons_cons, ← exact_iff_noneMoves h]
    exact and_congr_right fun hexact => ih (s := handleCowUpdate routes s [map]) hexact.originated

/-- In a run of snapshots with one map each, every snapshot is handled as it should be exactly if in none of them an
address that some table has lost is resolved in another one. -/
theorem handleCowUpdate_follows_iff (routes : ConditionalRoutes) (maps : List InterfaceMap) :
    Follows routes {} [.empty] (maps.map fun map => [map]) ↔ (.empty :: maps).IsChain NoneMoves := by
  refine follows_iff_isChain (s := {}) maps fun route _ => iff_of_false Bool.false_ne_true ?_
  rintro ⟨-, map, hmap, id, ndp, hres⟩
  obtain rfl := mem_singleton.mp hmap
  exact nomatch hres

end

instance : LinkLocal := ⟨fun _ => false⟩

def nexthopAddr : IPAddress := .ofOctets 192 0 2 1

def neighborOn (interfaceId : Int) : InterfaceMap :=
  ⟨[⟨interfaceId, ⟨[⟨nexthopAddr, 1, true⟩], nodup_singleton _⟩, .empty⟩], nodup_singleton _⟩

def nexthopRoute : ConditionalRoutes := ⟨[(⟨.empty, 0⟩, nexthopAddr)], nodup_singleton _⟩

/-- The neighbor moves to another interface, or is on an interface of the first of two maps: its route is withdrawn. -/
theorem not_follows_moved : ¬Follows nexthopRoute {} [.empty] [[neighborOn 1], [neighborOn 2]] ∧
      ¬Follows nexthopRoute {} [.empty] [[neighborOn 1, .empty]] := by
  constructor
  · rintro ⟨-, hexact, -⟩
    exact nomatch (hexact.originated _ (mem_singleton_self _)).mpr
      ⟨rfl, _, mem_singleton_self _, 2, false, by decide⟩
  · rintro ⟨hexact, -⟩
    exact nomatch (hexact.originated _ (mem_singleton_self _)).mpr ⟨rfl, _, mem_cons_self, 1, false, by decide⟩

end FsdbNeighborWatcher

end FbossBgp.Peer
