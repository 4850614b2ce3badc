import FbossBgp.AdjRib.AdjRibOut

/-! What the operations of the egress side do to the RIB-OUT: each handles one key, whose change is staged in
the packing list. -/

namespace FbossBgp.AdjRib

open Keyed Option

open BgpLib (IPAddress)
open Rib (CIDRNetwork kDefaultPathID)

variable {R : Type} [DecidableEq R]

namespace AttrToPrefixMap

/-- The keys that are staged for a path. -/
def prefixesAt (map : AttrToPrefixMap R) (path : BgpPathWithAfi R) : Finset PrefixPathId :=
  ((map.find path).map PackingBucket.prefixes).getD ∅

variable {map : AttrToPrefixMap R} {path : BgpPathWithAfi R} {key k : PrefixPathId}

theorem prefixesAt_of_find {bucket : PackingBucket R}
    (h : map.find path = some bucket) : map.prefixesAt path = bucket.prefixes := by
  rw [prefixesAt, h, map_some, getD_some]

theorem prefixesAt_of_none (h : map.find path = none) : map.prefixesAt path = ∅ := by
  rw [prefixesAt, h, map_none, getD_none]

theorem prefixesAt_put (map : AttrToPrefixMap R) (bucket : PackingBucket R) (path : BgpPathWithAfi R) :
    AttrToPrefixMap.prefixesAt (map.put bucket) path =
      if path = bucket.path then bucket.prefixes else map.prefixesAt path := by
  split
  next h => exact prefixesAt_of_find (h ▸ find_put_self ..)
  next h => rw [prefixesAt, find_put_of_ne h, prefixesAt]

variable (map path key) (path' : BgpPathWithAfi R)

theorem prefixesAt_erase :
    AttrToPrefixMap.prefixesAt (map.erase path) path' = if path' = path then ∅ else map.prefixesAt path' := by
  split
  next h => exact prefixesAt_of_none (h ▸ find_erase_self ..)
  next h => rw [prefixesAt, find_erase_of_ne h, prefixesAt]

theorem prefixesAt_cleanup :
    AttrToPrefixMap.prefixesAt (map.cleanupPrefixAssociationInPackingList key path) path' =
      if path' = path then (map.prefixesAt path).erase key else map.prefixesAt path' := by
  unfold cleanupPrefixAssociationInPackingList
  split
  next hnone =>
    split
    next h => rw [h, prefixesAt_of_none hnone, Finset.erase_empty]
    · rfl
  next bucket hbucket =>
    have hpath : bucket.path = path := (find_eq_some_iff.mp hbucket).2
    rw [prefixesAt_of_find hbucket]
    split
    next hempty => rw [prefixesAt_erase, hempty]
    · rw [prefixesAt_put, hpath]

theorem prefixesAt_insert :
    AttrToPrefixMap.prefixesAt (map.insert key path) path' =
      if path' = path then Insert.insert key (map.prefixesAt path) else map.prefixesAt path' := by
  unfold AttrToPrefixMap.insert
  split
  next hnone =>
    rw [prefixesAt_put, prefixesAt_of_none hnone]
    rfl
  next bucket hbucket =>
    rw [prefixesAt_put, prefixesAt_of_find hbucket, (find_eq_some_iff.mp hbucket).2]

variable {map path key}

theorem mem_prefixesAt_cleanup_of_ne (hk : k ≠ key) (path path' : BgpPathWithAfi R) :
    k ∈ AttrToPrefixMap.prefixesAt (map.cleanupPrefixAssociationInPackingList key path) path' ↔
      k ∈ map.prefixesAt path' := by
  rw [prefixesAt_cleanup]
  split
  next h => rw [h, Finset.mem_erase, and_iff_right hk]
  · exact Iff.rfl

theorem mem_prefixesAt_tryUpdate_of_ne (hk : k ≠ key)
    (oldPath newPath : Option (BgpPath R)) (isNexthopSetByPolicy : Bool) (path : BgpPathWithAfi R) :
    k ∈ AttrToPrefixMap.prefixesAt (map.tryUpdateAttrToPrefixMap key oldPath newPath isNexthopSetByPolicy) path ↔
      k ∈ map.prefixesAt path := by
  have hcleaned : k ∈ AttrToPrefixMap.prefixesAt ((map.cleanupPrefixAssociationInPackingList key
      ⟨oldPath, afiOf key.1, true⟩).cleanupPrefixAssociationInPackingList key ⟨oldPath, afiOf key.1, false⟩) path ↔
      k ∈ map.prefixesAt path :=
    (mem_prefixesAt_cleanup_of_ne hk ..).trans (mem_prefixesAt_cleanup_of_ne hk ..)
  rw [tryUpdateAttrToPrefixMap, ← hcleaned, prefixesAt_insert]
  split
  next h => rw [h, Finset.mem_insert, or_iff_right hk]
  · exact Iff.rfl

/-- A key that is staged at most under its old attributes is then staged under the new ones only. -/
theorem mem_prefixesAt_tryUpdate_self {oldPath : Option (BgpPath R)}
    (hold : ∀ path, key ∈ map.prefixesAt path → path.attrs = oldPath ∧ path.afi = afiOf key.1)
    (newPath : Option (BgpPath R)) (isNexthopSetByPolicy : Bool) (path : BgpPathWithAfi R) :
    key ∈ AttrToPrefixMap.prefixesAt (map.tryUpdateAttrToPrefixMap key oldPath newPath isNexthopSetByPolicy) path ↔
      path = ⟨newPath, afiOf key.1, isNexthopSetByPolicy⟩ := by
  have hclean : key ∉ AttrToPrefixMap.prefixesAt ((map.cleanupPrefixAssociationInPackingList key
      ⟨oldPath, afiOf key.1, true⟩).cleanupPrefixAssociationInPackingList key ⟨oldPath, afiOf key.1, false⟩) path := by
    rw [prefixesAt_cleanup, prefixesAt_cleanup, prefixesAt_cleanup]
    intro hmem
    split_ifs at hmem with hfalse htrue
    · exact Finset.notMem_erase _ _ hmem
    · exact Finset.notMem_erase _ _ hmem
    · exact Finset.notMem_erase _ _ hmem
    · -- the two buckets of the old attributes are the only ones it could be in
      obtain ⟨hattrs, hafi⟩ := hold path hmem
      obtain ⟨attrs, afi, flag⟩ := path
      cases hattrs
      cases hafi
      cases flag
      · exact hfalse rfl
      · contradiction
  rw [tryUpdateAttrToPrefixMap, prefixesAt_insert]
  split
  next h => simp only [h, Finset.mem_insert_self]
  next h => simp only [hclean, h]

end AttrToPrefixMap

namespace PathIdCache

variable (sendAddPath : Bool) (issued : List IPAddress) (nexthop : IPAddress)

/-- The path id of a nexthop among those issued for its prefix, and the nexthops with an id afterwards. -/
def issue : Nat × List IPAddress :=
  if sendAddPath then
    match issued.idxOf? nexthop with
    | some pathId => (pathId, issued)
    | none => (issued.length, issued ++ [nexthop])
  else (kDefaultPathID, issued)

variable (cache : PathIdCache) (pfx pfx' : CIDRNetwork)

theorem nexthops_put (issued : List IPAddress) :
    PathIdCache.nexthops (cache.put (pfx, issued)) pfx' = if pfx' = pfx then issued else cache.nexthops pfx' := by
  split
  next h =>
    rw [nexthops, h, find_put_self cache (pfx, issued)]
    rfl
  next h => rw [nexthops, find_put_of_ne h, nexthops]

theorem getPathId_fst (pfx : CIDRNetwork) (nexthop : IPAddress) :
    (cache.getPathId sendAddPath pfx nexthop).1 = (issue sendAddPath (cache.nexthops pfx) nexthop).1 := by
  unfold getPathId findPathId issue
  cases sendAddPath
  · rfl
  · cases (cache.nexthops pfx).idxOf? nexthop <;> rfl

theorem nexthops_getPathId (nexthop : IPAddress) :
    PathIdCache.nexthops (cache.getPathId sendAddPath pfx nexthop).2 pfx' =
      if pfx' = pfx then (issue sendAddPath (cache.nexthops pfx) nexthop).2 else cache.nexthops pfx' := by
  have hsame : cache.nexthops pfx' = if pfx' = pfx then cache.nexthops pfx else cache.nexthops pfx' := by
    split
    next h => rw [h]
    · rfl
  unfold getPathId findPathId issue
  cases sendAddPath
  · exact hsame
  · cases (cache.nexthops pfx).idxOf? nexthop with
    | some pathId => exact hsame
    | none => exact nexthops_put ..

theorem issue_issue :
    issue sendAddPath (issue sendAddPath issued nexthop).2 nexthop = issue sendAddPath issued nexthop := by
  unfold issue
  cases sendAddPath
  · rfl
  · cases h : issued.idxOf? nexthop with
    | some pathId => simp only [if_true, h]
    | none =>
      have hnew : (issued ++ [nexthop]).idxOf? nexthop = some issued.length := by
        rw [List.idxOf?, List.findIdx?_append, ← List.idxOf?, h]
        simp
      simp only [if_true, hnew]

theorem issue_fst_lt : (issue true issued nexthop).1 < (issue true issued nexthop).2.length := by
  rw [issue]
  cases h : issued.idxOf? nexthop with
  | some pathId => exact (List.idxOf?_eq_some_iff.mp h).1
  | none => simp

theorem length_le_issue : issued.length ≤ (issue sendAddPath issued nexthop).2.length := by
  unfold issue
  split
  · split
    · exact le_rfl
    · simp
  · exact le_rfl

end PathIdCache

namespace AdjRibOut

def keyOf (s : AdjRibOut R) (pfx : CIDRNetwork) (nexthop : IPAddress) : PrefixPathId := (pfx, (s.getPathId pfx nexthop).1)

/-- Entries have path ids that were issued and families that the session negotiated; an announcement that
may not go out is not deferred. -/
structure Layout (s : AdjRibOut R) : Prop where
  issued : ∀ key, s.adjRibOut.find key ≠ none →
    if s.session.sendAddPath then key.2 < (s.pathIdCache.nexthops key.1).length else key.2 = kDefaultPathID
  negotiated : ∀ key, s.adjRibOut.find key ≠ none → s.session.isAfiNegotiated key.1 = true
  deferred : ∀ update ∈ s.deferredUpdates.items,
    s.session.isAfiNegotiated update.pfx = true ∧ s.session.canAnnounceEntry update = true

/-- All but the routes, the packing list and the deferred updates stays. -/
structure Kept (s s' : AdjRibOut R) : Prop where
  session : s'.session = s.session
  policy : s'.policy = s.policy
  rrDumpInProgress : s'.rrDumpInProgress = s.rrDumpInProgress
  egressEoRsSent : s'.egressEoRsSent = s.egressEoRsSent
  adjRibOutQueue : s'.adjRibOutQueue = s.adjRibOutQueue

/-- A key gets a new value, which is staged for the peer under a path with property `P`. -/
structure Staged (P : BgpPathWithAfi R → Prop) (key : PrefixPathId) (value : Option (BgpPath R)) (s s' : AdjRibOut R) :
    Prop where
  advertised : ∀ k, s'.advertised k = if k = key then value else s.advertised k
  packing : value = s.advertised key ∧ s'.attrToPrefixMap = s.attrToPrefixMap ∨ ∃ flag, P ⟨value, afiOf key.1, flag⟩ ∧
      s'.attrToPrefixMap = s.attrToPrefixMap.tryUpdateAttrToPrefixMap key (s.advertised key) value flag

variable {P : BgpPathWithAfi R → Prop} {s s' : AdjRibOut R} {pfx : CIDRNetwork} {checks : EgressChecks R}
  {update : RibOutAnnouncementEntry R} {entry : AdjRibOutEntry R} {nexthop : IPAddress} {key : PrefixPathId}

theorem advertised_put (entry : AdjRibOutEntry R) (h : s'.adjRibOut = s.adjRibOut.put entry)
    (k : PrefixPathId) : s'.advertised k = if k = entry.key then entry.postAttr else s.advertised k := by
  split
  next hk =>
    rw [advertised, h, hk, find_put_self]
    rfl
  next hk => rw [advertised, h, find_put_of_ne hk, advertised]

/-- The key is all that is touched. -/
structure Written (P : BgpPathWithAfi R → Prop) (key : PrefixPathId) (value : Option (BgpPath R)) (s s' : AdjRibOut R) :
    Prop extends Staged P key value s s' where
  shape : ∃ rib map, s' = { s with adjRibOut := rib, attrToPrefixMap := map } ∧
    ∀ k, k ≠ key → rib.find k = s.adjRibOut.find k

namespace Written

variable {value : Option (BgpPath R)}

theorem refl (h : s.advertised key = value) : Written P key value s s := by
  refine ⟨⟨fun k => ?_, .inl ⟨h.symm, rfl⟩⟩, _, _, rfl, fun _ _ => rfl⟩
  split
  next hk => rw [hk, h]
  · rfl

theorem put {flag : Bool} (hP : P ⟨value, afiOf entry.pfx, flag⟩) (hentry : entry.postAttr = s.advertised entry.key) :
    Written P entry.key value s
      { s with
        adjRibOut := s.adjRibOut.put { entry with postAttr := value }
        attrToPrefixMap := s.attrToPrefixMap.tryUpdateAttrToPrefixMap entry.key entry.postAttr value flag } :=
  ⟨⟨fun k => advertised_put { entry with postAttr := value } rfl k, .inr ⟨flag, hP, by rw [hentry]⟩⟩,
    _, _, rfl, fun _ hk => find_put_of_ne hk⟩

theorem erase (h : Written P key none s s') :
    Written P key none s { s' with adjRibOut := s'.adjRibOut.erase key } := by
  obtain ⟨rib, map, rfl, hfind⟩ := h.shape
  refine ⟨⟨fun k => ?_, h.packing⟩, _, _, rfl, fun k hk => (find_erase_of_ne hk).trans (hfind k hk)⟩
  show ((rib.erase key).find k).bind _ = _
  split
  next hk =>
    rw [hk, find_erase_self]
    rfl
  next hk =>
    rw [find_erase_of_ne hk]
    exact (h.advertised k).trans (if_neg hk)

end Written

theorem tryInsertWithdrawal_written (hnone : ∀ afi, P ⟨none, afi, false⟩)
    (hentry : entry.postAttr = s.advertised entry.key) :
    Written P entry.key none s (s.tryInsertWithdrawal entry) := by
  unfold tryInsertWithdrawal
  split
  next hpost => exact .refl (hentry.symm.trans hpost)
  next oldPostAttr hpost => exact hpost ▸ .put (hnone _) hentry

theorem announceEntry_written
    {postOutAttrsNew : BgpPath R} (hP : P ⟨some postOutAttrsNew, afiOf entry.pfx, entry.isNexthopSetByPolicy⟩)
    (hentry : entry.postAttr = s.advertised entry.key) (wasNexthopSetByPolicy : Bool) :
    Written P entry.key (some postOutAttrsNew) s (s.announceEntry entry wasNexthopSetByPolicy postOutAttrsNew) := by
  unfold announceEntry
  split
  next hsame => exact .refl (hentry.symm.trans hsame.1)
  · exact .put hP hentry

theorem find_keyOf_of_findPathId_none (h : Layout s)
    (hnew : s.pathIdCache.findPathId s.session.sendAddPath pfx nexthop = none) :
    s.adjRibOut.find (s.keyOf pfx nexthop) = none := by
  have hkey : s.keyOf pfx nexthop = (pfx, (s.pathIdCache.nexthops pfx).length) := by
    rw [keyOf, getPathId, PathIdCache.getPathId, hnew]
  by_contra hsome
  have hissued := h.issued _ hsome
  rw [hkey] at hissued
  unfold PathIdCache.findPathId at hnew
  split at hnew
  next hadd =>
    rw [if_pos hadd] at hissued
    exact lt_irrefl _ hissued
  · cases hnew

theorem keyOf_of_findPathId {pathId : Nat}
    (h : s.pathIdCache.findPathId s.session.sendAddPath pfx nexthop = some pathId) :
    s.getPathId pfx nexthop = (pathId, s.pathIdCache) := by
  rw [getPathId, PathIdCache.getPathId, h]

/-- The entry that an announcement is for. -/
theorem resolved_eq (h : Layout s) (pfx : CIDRNetwork) (nexthop : IPAddress) :
    ((s.pathIdCache.findPathId s.session.sendAddPath pfx nexthop).bind fun pathId => s.adjRibOut.find (pfx, pathId)) =
      s.adjRibOut.find (s.keyOf pfx nexthop) := by
  cases hfind : s.pathIdCache.findPathId s.session.sendAddPath pfx nexthop with
  | none =>
    rw [find_keyOf_of_findPathId_none h hfind]
    rfl
  | some pathId =>
    rw [keyOf, keyOf_of_findPathId hfind]
    rfl

/-- The limit on all paths lets no new entry in, except for a local route. -/
def Refused (s : AdjRibOut R) (checks : EgressChecks R) (update : RibOutAnnouncementEntry R) : Prop :=
  s.adjRibOut.find (s.keyOf update.pfx update.attrs.nexthop) = none ∧
    (checks.willExceedEgressSwitchLimit update && !update.isLocalRoute) = true
  deriving Decidable

theorem tryInsertRibOutEntry_eq_none_iff (h : Layout s) :
    s.tryInsertRibOutEntry checks update = none ↔ s.Refused checks update := by
  simp only [tryInsertRibOutEntry, resolved_eq h, Refused]
  cases s.adjRibOut.find (s.keyOf update.pfx update.attrs.nexthop) with
  | some entry => simp
  | none => simp

theorem tryInsertRibOutEntry_eq_some (h : Layout s) {pathIdCache : PathIdCache}
    (hins : s.tryInsertRibOutEntry checks update = some (entry, pathIdCache)) :
    entry.key = s.keyOf update.pfx update.attrs.nexthop ∧ entry.postAttr = s.advertised entry.key ∧
      pathIdCache = (s.getPathId update.pfx update.attrs.nexthop).2 := by
  have hcache : ∀ found, s.adjRibOut.find (s.keyOf update.pfx update.attrs.nexthop) = some found →
      (s.getPathId update.pfx update.attrs.nexthop).2 = s.pathIdCache := by
    intro found hfound
    cases hfind : s.pathIdCache.findPathId s.session.sendAddPath update.pfx update.attrs.nexthop with
    | none =>
      rw [find_keyOf_of_findPathId_none h hfind] at hfound
      cases hfound
    | some pathId => rw [keyOf_of_findPathId hfind]
  simp only [tryInsertRibOutEntry, resolved_eq h] at hins
  split at hins
  next found hfound =>
    cases hins
    have hkey : found.key = s.keyOf update.pfx update.attrs.nexthop := (find_eq_some_iff.mp hfound).2
    refine ⟨hkey, ?_, (hcache found hfound).symm⟩
    show found.postAttr = s.advertised found.key
    rw [advertised, hkey, hfound]
    rfl
  next hnone =>
    split at hins
    · cases hins
    · cases hins
      refine ⟨rfl, ?_, rfl⟩
      show none = s.advertised (s.keyOf update.pfx update.attrs.nexthop)
      rw [advertised, hnone]
      rfl

theorem length_nexthops_le_getPathId (s : AdjRibOut R) (pfx pfx' : CIDRNetwork) (nexthop : IPAddress) :
    (s.pathIdCache.nexthops pfx').length ≤ (PathIdCache.nexthops (s.getPathId pfx nexthop).2 pfx').length := by
  rw [getPathId, PathIdCache.nexthops_getPathId]
  split
  next h => exact h ▸ PathIdCache.length_le_issue ..
  · exact le_rfl

theorem issued_keyOf (s : AdjRibOut R) (pfx : CIDRNetwork) (nexthop : IPAddress) : if s.session.sendAddPath then
      (s.keyOf pfx nexthop).2 < (PathIdCache.nexthops (s.getPathId pfx nexthop).2 (s.keyOf pfx nexthop).1).length
    else (s.keyOf pfx nexthop).2 = kDefaultPathID := by
  unfold keyOf getPathId
  rw [PathIdCache.nexthops_getPathId, if_pos rfl, PathIdCache.getPathId_fst]
  split
  next h => exact h ▸ PathIdCache.issue_fst_lt ..
  next h =>
    rw [PathIdCache.issue, if_neg h]

/-- Entries come only under the key of the path at hand, whose id is issued then. -/
theorem Layout.of_keyOf (h : Layout s) (hkept : Kept s s')
    (hneg : s'.adjRibOut.find (s.keyOf pfx nexthop) ≠ none → s.session.isAfiNegotiated pfx = true)
    (hcache : s'.pathIdCache = (s.getPathId pfx nexthop).2)
    (hdef : ∀ update ∈ s'.deferredUpdates.items, update ∈ s.deferredUpdates.items)
    (hfind : ∀ k, k ≠ s.keyOf pfx nexthop → s'.adjRibOut.find k ≠ none → s.adjRibOut.find k ≠ none) : Layout s' where
  issued k hk := by
    rw [hkept.session, hcache]
    by_cases hkey : k = s.keyOf pfx nexthop
    · rw [hkey]
      exact issued_keyOf s pfx nexthop
    · have hissued := h.issued k (hfind k hkey hk)
      split at hissued
      next hadd =>
        rw [if_pos hadd]
        exact lt_of_lt_of_le hissued (length_nexthops_le_getPathId ..)
      next hadd => rwa [if_neg hadd]
  negotiated k hk := by
    rw [hkept.session]
    by_cases hkey : k = s.keyOf pfx nexthop
    · rw [hkey] at hk ⊢
      exact hneg hk
    · exact h.negotiated k (hfind k hkey hk)
  deferred update hupd := by
    rw [hkept.session]
    exact h.deferred update (hdef update hupd)

/-- The deferred updates and their timers stay. -/
structure SameDeferrals (s s' : AdjRibOut R) : Prop where
  deferredUpdates : s'.deferredUpdates = s.deferredUpdates
  newDeferredPrefixes : s'.newDeferredPrefixes = s.newDeferredPrefixes
  outDelayPQ : s'.outDelayPQ = s.outDelayPQ

variable (P s checks update)

def policyResult : PolicyResult R :=
  s.policy.getPostOutPolicyAttributesAndInfo (checks.cached update) update

/-- The attributes with which an announcement goes out, if policy permits it. -/
def outcome : Option (BgpPath R) :=
  (s.policyResult checks update).policyCachedAttrs.map
    (s.policy.postOutAttrs update (s.policyResult checks update))

/-- The nexthop of the policy's result can be encoded for the peer. -/
def Supported : Prop :=
  ∀ attrs ∈ (s.policyResult checks update).policyCachedAttrs,
    let newNexthop := s.session.getNewNexthopFromAttributesOut update.pfx.addr.isV4 attrs
      (s.policyResult checks update).isNexthopSetByPolicy
    newNexthop = .empty ∨ s.session.isNexthopSupported update.pfx newNexthop = true
  deriving Decidable

/-- What an announcement would be advertised with has property `P`. -/
def Sends : Prop :=
  s.Supported checks update → ∀ attrs ∈ s.outcome checks update,
    P ⟨some attrs, afiOf update.pfx, (s.policyResult checks update).isNexthopSetByPolicy⟩

variable {P s checks update}

/-- What a path of one prefix does: its path id is issued and its key gets a value. -/
structure Handled (P : BgpPathWithAfi R → Prop) (pfx : CIDRNetwork) (nexthop : IPAddress) (value : Option (BgpPath R))
    (s s' : AdjRibOut R) : Prop where
  kept : Kept s s'
  layout : Layout s'
  pathIdCache : s'.pathIdCache = (s.getPathId pfx nexthop).2
  staged : Staged P (s.keyOf pfx nexthop) value s s'

/-- The path id is issued and the deferred update possibly cancelled before the key is written. -/
theorem Layout.handled (h : Layout s) {rib : Keyed (AdjRibOutEntry.key (R := R))}
    {deferred : Keyed (RibOutAnnouncementEntry.pfx (R := R))} {value : Option (BgpPath R)}
    (hrib : ∀ k, k ≠ s.keyOf pfx nexthop → rib.find k = s.adjRibOut.find k)
    (hadv : ∀ k, (rib.find k).bind AdjRibOutEntry.postAttr = s.advertised k)
    (hdef : ∀ update ∈ deferred.items, update ∈ s.deferredUpdates.items)
    (hneg : s'.adjRibOut.find (s.keyOf pfx nexthop) ≠ none → s.session.isAfiNegotiated pfx = true)
    (hw : Written P (s.keyOf pfx nexthop) value { s with
      pathIdCache := (s.getPathId pfx nexthop).2, deferredUpdates := deferred, adjRibOut := rib } s') :
    Handled P pfx nexthop value s s' := by
  obtain ⟨rib', map, rfl, hfind⟩ := hw.shape
  refine ⟨⟨rfl, rfl, rfl, rfl, rfl⟩, ?_, rfl, fun k => ?_, ?_⟩
  · exact h.of_keyOf ⟨rfl, rfl, rfl, rfl, rfl⟩ hneg rfl hdef fun k hk => ((hfind k hk).trans (hrib k hk)) ▸ id
  · exact (hw.advertised k).trans (by rw [← hadv k]; rfl)
  · rw [← hadv]
    exact hw.packing

theorem processRibAnnouncedEntry_of_refused (h : Layout s) (hrefused : s.Refused checks update) :
    s.processRibAnnouncedEntry checks update = s := by
  rw [processRibAnnouncedEntry, (tryInsertRibOutEntry_eq_none_iff h).mpr hrefused]

theorem processRibAnnouncedEntry_handled (hnone : ∀ afi, P ⟨none, afi, false⟩) (h : Layout s)
    (hneg : s.session.isAfiNegotiated update.pfx = true) (hrefused : ¬s.Refused checks update)
    (hsends : Sends P s checks update) :
    SameDeferrals s (s.processRibAnnouncedEntry checks update) ∧
      ∃ value, (s.Supported checks update → value = s.outcome checks update) ∧
        (¬s.Supported checks update → value = s.advertised (s.keyOf update.pfx update.attrs.nexthop)) ∧
        Handled P update.pfx update.attrs.nexthop value s (s.processRibAnnouncedEntry checks update) := by
  rw [← tryInsertRibOutEntry_eq_none_iff h] at hrefused
  obtain ⟨⟨adjRibEntry, pathIdCache⟩, hins⟩ := ne_none_iff_exists'.mp hrefused
  obtain ⟨hkey, hpost, hcache⟩ := tryInsertRibOutEntry_eq_some h hins
  -- the entry with the flag of the policy, put before the policy's attributes are looked at
  let entry : AdjRibOutEntry R :=
    { adjRibEntry with isNexthopSetByPolicy := (s.policyResult checks update).isNexthopSetByPolicy }
  let s₁ : AdjRibOut R := { s with pathIdCache := pathIdCache, adjRibOut := s.adjRibOut.put entry }
  have hadv : ∀ k, s₁.advertised k = s.advertised k := by
    intro k
    rw [advertised_put entry (rfl : s₁.adjRibOut = s.adjRibOut.put entry)]
    split
    next hk => exact hpost.trans (congrArg s.advertised hk.symm)
    · rfl
  have hentry : entry.postAttr = s₁.advertised entry.key := hpost.trans (hadv entry.key).symm
  have hfinish : ∀ {s' : AdjRibOut R} {value : Option (BgpPath R)}, Written P entry.key value s₁ s' →
      SameDeferrals s s' ∧ Handled P update.pfx update.attrs.nexthop value s s' := by
    intro s' value hw
    refine ⟨?_, h.handled (fun k hk => find_put_of_ne (hkey ▸ hk)) hadv (fun _ => id) (fun _ => hneg) ?_⟩
    · obtain ⟨_, _, rfl, -⟩ := hw.shape
      exact ⟨rfl, rfl, rfl⟩
    · rw [← hcache, ← hkey]
      exact hw
  rw [processRibAnnouncedEntry, hins]
  dsimp only
  rw [show s.policy.getPostOutPolicyAttributesAndInfo (checks.cached update) update = s.policyResult checks update from rfl]
  cases hattrs : (s.policyResult checks update).policyCachedAttrs with
  | none =>
    obtain ⟨hdefs', hdone⟩ := hfinish (tryInsertWithdrawal_written hnone hentry)
    refine ⟨hdefs', none, fun _ => ?_, fun hunsup => ?_, hdone⟩
    · rw [outcome, hattrs, map_none]
    · exact (hunsup fun attrs hmem => absurd (hattrs ▸ hmem) (not_mem_none attrs)).elim
  | some policyCachedAttrs =>
    have hout : s.outcome checks update =
        some (s.policy.postOutAttrs update (s.policyResult checks update) policyCachedAttrs) := by
      rw [outcome, hattrs, map_some]
    dsimp only
    split
    next hunsup =>
      obtain ⟨hdefs', hdone⟩ := hfinish (.refl rfl)
      refine ⟨hdefs', _, fun hsup => ?_, fun _ => (hadv _).trans (congrArg s.advertised hkey), hdone⟩
      rcases hsup policyCachedAttrs hattrs with hempty | hyes
      · exact (hunsup.1 hempty).elim
      · cases hunsup.2.symm.trans hyes
    next hsup =>
      have hsupported : s.Supported checks update := by
        intro attrs hmem
        cases hattrs.symm.trans hmem
        exact (not_and_or.mp hsup).imp not_not.mp Bool.eq_true_of_not_eq_false
      have hP := hsends hsupported _ hout
      rw [show update.pfx = entry.pfx from (congrArg Prod.fst hkey).symm] at hP
      obtain ⟨hdefs', hdone⟩ := hfinish (announceEntry_written hP hentry adjRibEntry.isNexthopSetByPolicy)
      exact ⟨hdefs', _, fun _ => hout.symm, fun hunsup => (hunsup hsupported).elim, hdone⟩

theorem find_of_not_negotiated (h : Layout s)
    (hneg : s.session.isAfiNegotiated key.1 = false) : s.adjRibOut.find key = none := by
  by_contra hfind
  rw [h.negotiated key hfind] at hneg
  cases hneg

/-- A withdrawal cancels the deferred update of its prefix, whichever path that is for. -/
structure Withdrawn (pfx : CIDRNetwork) (s s' : AdjRibOut R) : Prop where
  deferredUpdates : ∀ k, s'.deferredUpdates.find k = if k = pfx then none else s.deferredUpdates.find k
  newDeferredPrefixes : s'.newDeferredPrefixes = s.newDeferredPrefixes
  outDelayPQ : s'.outDelayPQ = s.outDelayPQ

theorem find_deferred_of_not_negotiated (h : Layout s)
    (hneg : s.session.isAfiNegotiated pfx = false) : s.deferredUpdates.find pfx = none := by
  rw [find_eq_none_iff]
  intro update hupd hpfx
  have hneg' := (h.deferred update hupd).1
  rw [hpfx, hneg] at hneg'
  cases hneg'

theorem withdrawPath_handled (hnone : ∀ afi, P ⟨none, afi, false⟩)
    (h : Layout s) (pfx : CIDRNetwork) (nexthop : IPAddress) :
    Withdrawn pfx s (s.withdrawPath pfx nexthop) ∧ Handled P pfx nexthop none s (s.withdrawPath pfx nexthop) := by
  have herase : ∀ k, (s.deferredUpdates.erase pfx).find k = if k = pfx then none else s.deferredUpdates.find k := by
    intro k
    split
    next hk => rw [hk, find_erase_self]
    next hk => exact find_erase_of_ne hk
  have hsub : ∀ u ∈ (s.deferredUpdates.erase pfx).items, u ∈ s.deferredUpdates.items :=
    fun u hu => (mem_erase.mp hu).1
  -- without an entry only the path id is issued
  have hmiss : ∀ {deferred}, (∀ u ∈ deferred.items, u ∈ s.deferredUpdates.items) →
      s.adjRibOut.find (s.keyOf pfx nexthop) = none → Handled P pfx nexthop none s
        { s with pathIdCache := (s.getPathId pfx nexthop).2, deferredUpdates := deferred } := fun hdef hfind =>
    h.handled (fun _ _ => rfl) (fun _ => rfl) hdef (fun hsome => (hsome hfind).elim)
      (.refl (congrArg (·.bind AdjRibOutEntry.postAttr) hfind))
  unfold withdrawPath processRibWithdraw
  dsimp only
  split
  next hneg =>
    refine ⟨⟨fun k => ?_, rfl, rfl⟩, hmiss (fun _ => id) (find_of_not_negotiated h hneg)⟩
    split
    next hk => rw [hk]; exact find_deferred_of_not_negotiated (s := s) h hneg
    · rfl
  next hneg =>
    split
    next hfind => exact ⟨⟨herase, rfl, rfl⟩, hmiss hsub hfind⟩
    next entry hentry =>
      have hkey : entry.key = s.keyOf pfx nexthop := (find_eq_some_iff.mp hentry).2
      let s₁ : AdjRibOut R :=
        { s with pathIdCache := (s.getPathId pfx nexthop).2, deferredUpdates := s.deferredUpdates.erase pfx }
      have hpost : entry.postAttr = s₁.advertised entry.key := by
        rw [advertised, hkey, show s₁.adjRibOut.find (s.keyOf pfx nexthop) = some entry from hentry]
        rfl
      have hw := (hkey ▸ tryInsertWithdrawal_written hnone hpost).erase
      refine ⟨?_, h.handled (fun _ _ => rfl) (fun _ => rfl) hsub (fun hsome => (hsome (find_erase_self ..)).elim) hw⟩
      obtain ⟨_, _, heq, -⟩ := hw.shape
      exact heq ▸ ⟨herase, rfl, rfl⟩

theorem Sends.of_eq (h : Sends P s checks update) (hses : s'.session = s.session)
    (hpolicy : s'.policy = s.policy) : Sends P s' checks update := by
  unfold Sends Supported outcome policyResult at ⊢
  rw [hses, hpolicy]
  exact h

/-- The routes, the packing list and the messages stay. -/
structure Quiet (s s' : AdjRibOut R) : Prop where
  session : s'.session = s.session
  pathIdCache : s'.pathIdCache = s.pathIdCache
  adjRibOut : s'.adjRibOut = s.adjRibOut
  attrToPrefixMap : s'.attrToPrefixMap = s.attrToPrefixMap
  adjRibOutQueue : s'.adjRibOutQueue = s.adjRibOutQueue
  deferred : ∀ update ∈ s'.deferredUpdates.items,
    s.session.isAfiNegotiated update.pfx = true ∧ s.session.canAnnounceEntry update = true

theorem Quiet.layout (h : Quiet s s') (hlay : Layout s) : Layout s' where
  issued key hkey := by
    rw [h.session, h.pathIdCache]
    exact hlay.issued key (h.adjRibOut ▸ hkey)
  negotiated key hkey := h.session ▸ hlay.negotiated key (h.adjRibOut ▸ hkey)
  deferred update hupd := h.session ▸ h.deferred update hupd

/-- A property that single paths keep when what they stage has property `P`, and that bookkeeping keeps. -/
structure Closed (P : BgpPathWithAfi R → Prop) (I : AdjRibOut R → Prop) : Prop where
  withdrawn : ∀ afi, P ⟨none, afi, false⟩
  layout : ∀ {s}, I s → Layout s
  quiet : ∀ {s s'}, I s → Quiet s s' → I s'
  handled : ∀ {s s' pfx nexthop value}, I s → Handled P pfx nexthop value s s' → I s'

/-- An operation keeps the property, and the parameters of the ones that follow. -/
structure Keeps (I : AdjRibOut R → Prop) (s s' : AdjRibOut R) : Prop where
  holds : I s'
  session : s'.session = s.session
  policy : s'.policy = s.policy

section

variable {I : AdjRibOut R → Prop}

theorem Closed.processRibAnnouncedEntry (hI : Closed P I) (h : I s)
    (hneg : s.session.isAfiNegotiated update.pfx = true)
    (hsends : Sends P s checks update) : Keeps I s (s.processRibAnnouncedEntry checks update) ∧
      SameDeferrals s (s.processRibAnnouncedEntry checks update) := by
  by_cases hrefused : s.Refused checks update
  · rw [processRibAnnouncedEntry_of_refused (hI.layout h) hrefused]
    exact ⟨⟨h, rfl, rfl⟩, rfl, rfl, rfl⟩
  · obtain ⟨hdefs, value, -, -, hdone⟩ :=
      processRibAnnouncedEntry_handled hI.withdrawn (hI.layout h) hneg hrefused hsends
    exact ⟨⟨hI.handled h hdone, hdone.kept.session, hdone.kept.policy⟩, hdefs⟩

theorem Closed.withdrawPath (hI : Closed P I) (h : I s) (pfx : CIDRNetwork) (nexthop : IPAddress) :
    Keeps I s (s.withdrawPath pfx nexthop) := by
  obtain ⟨-, hdone⟩ := withdrawPath_handled hI.withdrawn (hI.layout h) pfx nexthop
  exact ⟨hI.handled h hdone, hdone.kept.session, hdone.kept.policy⟩

end

inductive Handling (checks : EgressChecks R) (initialDump : Bool) (s : AdjRibOut R) (entry : RibOutAnnouncementEntry R) :
    AdjRibOut R → Prop where
  | ignored (hnegotiated : s.session.isAfiNegotiated entry.pfx = false) : Handling checks initialDump s entry s
  | withdrawn (hnegotiated : s.session.isAfiNegotiated entry.pfx = true) (hcan : s.session.canAnnounceEntry entry = false) :
      Handling checks initialDump s entry (s.withdrawPath entry.pfx entry.attrs.nexthop)
  | deferred (hnegotiated : s.session.isAfiNegotiated entry.pfx = true) (hcan : s.session.canAnnounceEntry entry = true)
      (hdump : initialDump = false) (hdelay : s.session.outDelay ≠ 0) :
      Handling checks initialDump s entry
        { s with
          deferredUpdates := s.deferredUpdates.put entry
          newDeferredPrefixes := if (s.deferredUpdates.find entry.pfx).isSome then s.newDeferredPrefixes
            else s.newDeferredPrefixes ++ [entry.pfx] }
  | processed (hnegotiated : s.session.isAfiNegotiated entry.pfx = true) (hcan : s.session.canAnnounceEntry entry = true)
      (hnow : initialDump = false → s.session.outDelay = 0 ∨ s.deferredUpdates.find entry.pfx = none) :
      Handling checks initialDump s entry (s.processRibAnnouncedEntry checks entry)

theorem handleRibAnnouncedEntry_handling (checks : EgressChecks R) (now : Nat) (initialDump : Bool) (s : AdjRibOut R)
    (entry : RibOutAnnouncementEntry R) :
    Handling checks initialDump s entry (s.handleRibAnnouncedEntry checks now initialDump entry) := by
  unfold handleRibAnnouncedEntry
  split
  next hneg => exact .ignored hneg
  next hneg =>
    have hneg := Bool.eq_true_of_not_eq_false hneg
    split
    next hcan => exact .withdrawn hneg hcan
    next hcan =>
      have hcan := Bool.eq_true_of_not_eq_false hcan
      cases initialDump with
      | true => exact .processed hneg hcan nofun
      | false =>
        have hput := @Handling.deferred R _ checks false s entry hneg hcan rfl
        have hproc := @Handling.processed R _ checks false s entry hneg hcan
        simp only [processOutDelay]
        by_cases hzero : s.session.outDelay = 0
        · simpa [hzero] using hproc fun _ => .inl hzero
        · by_cases hdef : (s.deferredUpdates.find entry.pfx).isSome
          · simpa [hzero, hdef] using hput hzero
          · by_cases htime : now ≤ entry.installTimeStamp + s.session.outDelay ∨ entry.newlyInstalledInLocalRib
            · simpa [hzero, hdef, htime] using hput hzero
            · simpa [hdef, htime] using
                hproc fun _ => .inr (not_isSome_iff_eq_none.mp hdef)

section

variable {I : AdjRibOut R → Prop}

theorem Keeps.refl (h : I s) : Keeps I s s := ⟨h, rfl, rfl⟩

theorem Closed.handleRibAnnouncedEntry (hI : Closed P I) (h : I s) (now : Nat)
    (initialDump : Bool) {entry : RibOutAnnouncementEntry R} (hsends : Sends P s checks entry) :
    Keeps I s (s.handleRibAnnouncedEntry checks now initialDump entry) := by
  have hhdl := handleRibAnnouncedEntry_handling checks now initialDump s entry
  generalize s.handleRibAnnouncedEntry checks now initialDump entry = s' at hhdl
  cases hhdl with
  | ignored => exact .refl h
  | withdrawn => exact hI.withdrawPath h ..
  | deferred hneg hcan =>
    refine ⟨hI.quiet h ⟨rfl, rfl, rfl, rfl, rfl, fun update hupd => ?_⟩, rfl, rfl⟩
    obtain rfl | ⟨hupd, -⟩ := mem_put.mp hupd
    · exact ⟨hneg, hcan⟩
    · exact (hI.layout h).deferred update hupd
  | processed hneg => exact (hI.processRibAnnouncedEntry h hneg hsends).1

theorem Keeps.trans {s'' : AdjRibOut R} (h : Keeps I s s') (h' : Keeps I s' s'') : Keeps I s s'' :=
  ⟨h'.holds, h'.session.trans h.session, h'.policy.trans h.policy⟩

theorem Keeps.foldl {α : Type} {f : AdjRibOut R → α → AdjRibOut R} (h : I s) (xs : List α)
    (hf : ∀ s', Keeps I s s' → ∀ x ∈ xs, Keeps I s' (f s' x)) : Keeps I s (xs.foldl f s) := by
  induction xs generalizing s with
  | nil => exact .refl h
  | cons x xs ih =>
    have hstep := hf s (.refl h) x List.mem_cons_self
    exact hstep.trans (ih hstep.holds fun s' hs' y hy => hf s' (hstep.trans hs') y (List.mem_cons_of_mem x hy))

section

variable (hI : Closed P I) (h : I s)
include hI h

theorem Closed.maybeBeginRrDump (announcement : RibOutAnnouncement R) :
    Keeps I s (s.maybeBeginRrDump announcement) := by
  unfold AdjRibOut.maybeBeginRrDump
  split
  · exact ⟨hI.quiet h ⟨rfl, rfl, rfl, rfl, rfl, (hI.layout h).deferred⟩, rfl, rfl⟩
  · exact .refl h

theorem Closed.maybeEndRrDump (announcement : RibOutAnnouncement R) : I (s.maybeEndRrDump announcement) := by
  unfold AdjRibOut.maybeEndRrDump
  split
  · exact hI.quiet h ⟨rfl, rfl, rfl, rfl, rfl, (hI.layout h).deferred⟩
  · exact h

theorem Closed.markEgressEoRsPendingFor (announcement : RibOutAnnouncement R) :
    I (s.markEgressEoRsPendingFor announcement) := by
  unfold AdjRibOut.markEgressEoRsPendingFor
  split
  · exact h
  · split <;> exact hI.quiet h ⟨rfl, rfl, rfl, rfl, rfl, (hI.layout h).deferred⟩

theorem Closed.scheduleOutDelayTimer (now : Nat) : I (s.scheduleOutDelayTimer now) := by
  unfold AdjRibOut.scheduleOutDelayTimer
  split
  · exact h
  · exact hI.quiet h ⟨rfl, rfl, rfl, rfl, rfl, (hI.layout h).deferred⟩

theorem Closed.processRibOutAnnouncement (now : Nat) {announcement : RibOutAnnouncement R}
    (hsends : ∀ update ∈ announcement.entries ++ announcement.addPathEntries, Sends P s checks update) :
    I (s.processRibOutAnnouncement checks now announcement) := by
  unfold AdjRibOut.processRibOutAnnouncement
  split
  · exact h
  · have hbegin := hI.maybeBeginRrDump h announcement
    have hents : Keeps I (s.maybeBeginRrDump announcement)
        ((if s.session.sendAddPath then announcement.addPathEntries else announcement.entries).foldl
          (AdjRibOut.handleRibAnnouncedEntry checks now announcement.initialDump) (s.maybeBeginRrDump announcement)) := by
      refine Keeps.foldl hbegin.holds _ fun s' hs' update hupd => ?_
      have hmem : update ∈ announcement.entries ++ announcement.addPathEntries := by
        split at hupd
        · exact List.mem_append_right _ hupd
        · exact List.mem_append_left _ hupd
      exact hI.handleRibAnnouncedEntry hs'.holds now _
        ((hsends update hmem).of_eq (hs'.session.trans hbegin.session) (hs'.policy.trans hbegin.policy))
    exact hI.maybeEndRrDump
      (hI.markEgressEoRsPendingFor (hI.scheduleOutDelayTimer hents.holds now) announcement) announcement

theorem Closed.processRibOutWithdrawal (withdrawal : RibOutWithdrawal) :
    I (s.processRibOutWithdrawal withdrawal) := by
  unfold AdjRibOut.processRibOutWithdrawal
  split
  · exact h
  · exact (Keeps.foldl h _ fun s' hs' entry _ => hI.withdrawPath hs'.holds ..).holds

theorem Closed.processShadowRibEntryChange (now : Nat) {srEntry : ShadowRibEntry R}
    (hsends : ∀ route ∈ srEntry.bestpath.toList ++ srEntry.multipaths, Sends P s checks (announcementOf srEntry route)) :
    I (s.processShadowRibEntryChange checks now srEntry) := by
  unfold AdjRibOut.processShadowRibEntryChange
  split
  · exact h
  · refine (Keeps.foldl h _ fun s' hs' route hroute => ?_).holds
    have hmem : route ∈ srEntry.bestpath.toList ++ srEntry.multipaths := by
      split at hroute
      · exact List.mem_append_right _ hroute
      · exact List.mem_append_left _ hroute
    unfold processShadowRibRoute
    split
    · exact hI.handleRibAnnouncedEntry hs'.holds now _ ((hsends route hmem).of_eq hs'.session hs'.policy)
    · exact hI.withdrawPath hs'.holds ..
    · exact .refl hs'.holds

end

/-- The property together with what the deferred updates may stage. -/
structure DeferredSends (P : BgpPathWithAfi R → Prop) (I : AdjRibOut R → Prop) (checks : EgressChecks R)
    (s : AdjRibOut R) : Prop where
  holds : I s
  sends : ∀ update ∈ s.deferredUpdates.items, Sends P s checks update

theorem Closed.processDeferred (hI : Closed P I) (h : DeferredSends P I checks s) (pfx : CIDRNetwork) :
    DeferredSends P I checks (s.processDeferred checks pfx) := by
  unfold AdjRibOut.processDeferred
  split
  · exact h
  next update hupd =>
    have hmem := (find_eq_some_iff.mp hupd).1
    obtain ⟨hkeeps, hdefs⟩ := hI.processRibAnnouncedEntry h.holds
      ((hI.layout h.holds).deferred update hmem).1 (h.sends update hmem)
    have hsub : ∀ u ∈ ((s.processRibAnnouncedEntry checks update).deferredUpdates.erase pfx).items,
        u ∈ s.deferredUpdates.items := by
      intro u hu
      rw [← hdefs.deferredUpdates]
      exact (mem_erase.mp hu).1
    refine ⟨hI.quiet hkeeps.holds ⟨rfl, rfl, rfl, rfl, rfl, fun u hu => ?_⟩, fun u hu => ?_⟩
    · rw [hkeeps.session]
      exact (hI.layout h.holds).deferred u (hsub u hu)
    · exact (h.sends u (hsub u hu)).of_eq hkeeps.session hkeeps.policy

theorem Closed.programOutDelayTimer (hI : Closed P I) (now : Nat) (batches : Nat)
    (h : DeferredSends P I checks s) : I (s.programOutDelayTimer checks now batches) := by
  induction batches generalizing s with
  | zero => exact h.holds
  | succ batches ih =>
    rw [AdjRibOut.programOutDelayTimer]
    split
    · exact h.holds
    next expiryTimeStamp deferredPrefixes rest _ =>
      split
      · exact h.holds
      · have hbatch : DeferredSends P I checks (deferredPrefixes.foldl (AdjRibOut.processDeferred checks) s) :=
          List.foldlRecOn deferredPrefixes _ h fun _ hs pfx _ => hI.processDeferred hs pfx
        exact ih ⟨hI.quiet hbatch.holds ⟨rfl, rfl, rfl, rfl, rfl, (hI.layout hbatch.holds).deferred⟩, fun u hu =>
          (hbatch.sends u hu).of_eq rfl rfl⟩

def ActionSends (P : BgpPathWithAfi R → Prop) (s : AdjRibOut R) : AdjRibOutAction R → Prop
  | .processRibOutAnnouncement checks _ announcement =>
    ∀ update ∈ announcement.entries ++ announcement.addPathEntries, Sends P s checks update
  | .processShadowRibEntryChange checks _ srEntry =>
    ∀ route ∈ srEntry.bestpath.toList ++ srEntry.multipaths, Sends P s checks (announcementOf srEntry route)
  | .programOutDelayTimer checks _ => ∀ update ∈ s.deferredUpdates.items, Sends P s checks update
  | _ => True

/-- One rule for all actions: only sending a message is left to show. -/
theorem Closed.exec (hI : Closed P I) (h : I s) {action : AdjRibOutAction R} (hsends : ActionSends P s action)
    (hsend : ∀ path packed, action = .sendBgpUpdate path packed → I (s.sendBgpUpdate path packed)) :
    I (s.exec action) := by
  cases action with
  | processRibOutAnnouncement checks now announcement => exact hI.processRibOutAnnouncement h now hsends
  | processRibOutWithdrawal withdrawal => exact hI.processRibOutWithdrawal h withdrawal
  | processShadowRibEntryChange checks now srEntry => exact hI.processShadowRibEntryChange h now hsends
  | scheduleOutDelayTimer now => exact hI.scheduleOutDelayTimer h now
  | programOutDelayTimer checks now => exact hI.programOutDelayTimer now _ ⟨h, hsends⟩
  | setEgressPolicy policy => exact hI.quiet h ⟨rfl, rfl, rfl, rfl, rfl, (hI.layout h).deferred⟩
  | sendBgpUpdate path packed => exact hsend path packed rfl
  | sendPendingEoRs => exact hI.quiet h ⟨rfl, rfl, rfl, rfl, rfl, (hI.layout h).deferred⟩

end

end AdjRibOut

end FbossBgp.AdjRib
