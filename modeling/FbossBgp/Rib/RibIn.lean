import FbossBgp.Rib.RibBase
import FbossBgp.Rib.SelectionSpec

/-! What the two kinds of steps of the RIB can do. A selection pass selects an entry anew, and withdraws it from the
peers if nothing is selected any more. A RIB-in message adds entries, updates paths of entries, and erases entries
that lost their last path before the FIB heard of them: a property that these keep is kept by every message. -/

namespace FbossBgp.Rib

open BgpLib

variable {F : Type} [Zero F] [DecidableEq F]

namespace RibEntry

omit [Zero F] [DecidableEq F] in
/-- The entry once the best path is the advertised one. -/
def committed (entry : RibEntry F) (ribVersion : Nat) : RibEntry F :=
  { entry with
    ribVersion
    advertisedAggregateReceivedUcmpWeight := entry.aggregateReceivedUcmpWeight
    advertisedAggregateLocalUcmpWeight := entry.aggregateLocalUcmpWeight
    advertisedRibPolicyUcmpWeight := entry.ribPolicyUcmpWeight
    advertisedIsPartialDrain := entry.isPartialDrain
    advertisedBestpath := entry.bestpath }

theorem commitBestpath_snd (entry : RibEntry F) : entry.commitBestpath.2 = entry.committed entry.ribVersion := by
  unfold commitBestpath committed
  dsimp only
  split
  next hnone =>
    rw [Bool.and_eq_true, Option.isNone_iff_eq_none, Option.isNone_iff_eq_none] at hnone
    rw [hnone.1, hnone.2]
  · rfl

/-- Where no new advertisement is needed the best path is the advertised one. -/
theorem object_eq_of_commitBestpath {entry : RibEntry F} (h : entry.commitBestpath.1 = false) :
    entry.advertisedBestpath.map (·.object) = entry.bestpath.map (·.object) := by
  unfold commitBestpath at h
  dsimp only at h
  split at h
  next hnone =>
    rw [Bool.and_eq_true, Option.isNone_iff_eq_none, Option.isNone_iff_eq_none] at hnone
    rw [hnone.1, hnone.2]
  · simp only [Bool.or_eq_false_iff, pathDiffers, bne_eq_false_iff_eq] at h
    exact h.1.1.1.1

end RibEntry

namespace RibBase

variable (rib : RibBase F) (old entry : RibEntry F)

omit [DecidableEq F] in
theorem exists_addToFibBatchList_eq (pfx : CIDRNetwork) :
    ∃ list, rib.addToFibBatchList pfx = { rib with fibBatchList := list } ∧
      ∀ p, p ∈ list ↔ p ∈ rib.fibBatchList ∨ p = pfx := by
  unfold addToFibBatchList
  split
  next hmem =>
    refine ⟨rib.fibBatchList, rfl, fun p => ⟨.inl, ?_⟩⟩
    rintro (hp | rfl)
    · exact hp
    · exact List.contains_iff_mem.mp hmem
  · exact ⟨_, rfl, fun p => by rw [List.mem_append, List.mem_singleton]⟩

/-- Whether a selection leaves an entry that peers have to be told is gone. -/
def needsWithdrawal (bestpathChanged nexthopChanged : Bool) (entry : RibEntry F) : Bool :=
  (nexthopChanged || bestpathChanged) && (entry.weightedNexthops.isNone || bestpathChanged && entry.bestpath.isNone)

/-- Whether a pass puts an entry on the batch list. -/
def needsFib (fullSync bestpathChanged nexthopChanged : Bool) (entry : RibEntry F) : Bool :=
  fullSync || bestpathChanged || nexthopChanged || entry.multipathChanged ||
    entry.getAllPathsCnt == 0 && entry.hasFibOutState

/-- The RIB without an entry that peers have to be told is gone. -/
def withdrawIf (withdrawal : Bool) (entry : RibEntry F) : RibBase F :=
  if withdrawal then rib.withdrawEntry entry else rib

omit [DecidableEq F] in
theorem exists_addIf_eq (list : List CIDRNetwork) (pfx : CIDRNetwork) (condition : Bool) :
    ∃ list', (if condition then { rib with fibBatchList := list }.addToFibBatchList pfx
        else { rib with fibBatchList := list }) = { rib with fibBatchList := list' } ∧
      ∀ p, p ∈ list' ↔ p ∈ list ∨ p = pfx ∧ condition := by
  cases condition with
  | true =>
    obtain ⟨list', heq, hmem⟩ := exists_addToFibBatchList_eq { rib with fibBatchList := list } pfx
    exact ⟨list', heq, by simpa using hmem⟩
  | false => exact ⟨list, rfl, by simp⟩

theorem withdrawIf_fibBatchList (list : List CIDRNetwork) (withdrawal : Bool) (entry : RibEntry F) :
    { rib with fibBatchList := list }.withdrawIf withdrawal entry =
      { rib.withdrawIf withdrawal entry with fibBatchList := list } := by
  cases withdrawal <;> rfl

/-- The batch list apart, an entry that was selected anew is withdrawn or left as it is. -/
theorem exists_enqueueEntry_eq (fullSync : Bool) (rib : RibBase F) (bestChanged nhChanged : Bool)
    (entry : RibEntry F) : ∃ list, rib.enqueueEntry fullSync bestChanged nhChanged entry =
        { rib.withdrawIf (needsWithdrawal bestChanged nhChanged entry) entry with fibBatchList := list } ∧
      ∀ p, p ∈ list ↔ p ∈ rib.fibBatchList ∨ p = entry.pfx ∧ needsFib fullSync bestChanged nhChanged entry := by
  obtain ⟨synced, hsynced, hsyncedmem⟩ : ∃ list,
      (if fullSync then { rib with fibBatchList := rib.fibBatchList ++ [entry.pfx] } else rib) =
        { rib with fibBatchList := list } ∧ ∀ p, p ∈ list ↔ p ∈ rib.fibBatchList ∨ p = entry.pfx ∧ fullSync := by
    cases fullSync with
    | true => exact ⟨_, rfl, by simp⟩
    | false => exact ⟨_, rfl, by simp⟩
  unfold enqueueEntry
  rw [hsynced]
  dsimp only
  cases hch : (nhChanged || bestChanged) with
  | true =>
    -- a change of the best path or of the nexthops: the entry goes to the FIB, and may be withdrawn
    have hgo : (!bestChanged && !nhChanged && entry.multipathChanged) = false := by
      cases bestChanged <;> cases nhChanged <;> simp_all
    have hfib : needsFib fullSync bestChanged nhChanged entry = true := by
      cases bestChanged <;> cases nhChanged <;> simp_all [needsFib]
    let withdrawn := rib.withdrawIf (needsWithdrawal bestChanged nhChanged entry) entry
    have hwd : (if entry.weightedNexthops.isNone || bestChanged && entry.bestpath.isNone then
        { rib with fibBatchList := synced }.withdrawEntry entry else { rib with fibBatchList := synced }) =
          { withdrawn with fibBatchList := synced } := by
      rw [← withdrawIf_fibBatchList, needsWithdrawal, hch, Bool.true_and, withdrawIf]
    obtain ⟨added, hadded, haddedmem⟩ := exists_addToFibBatchList_eq { withdrawn with fibBatchList := synced } entry.pfx
    obtain ⟨list, hlist, hlistmem⟩ := exists_addIf_eq withdrawn added entry.pfx
      (entry.getAllPathsCnt == 0 && entry.hasFibOutState)
    refine ⟨list, ?_, fun p => ?_⟩
    · rw [hgo, hwd, hadded]
      exact hlist
    · grind
  | false =>
    obtain ⟨rfl, rfl⟩ : nhChanged = false ∧ bestChanged = false := by simpa using hch
    cases hmp : entry.multipathChanged with
    | true =>
      obtain ⟨list, hlist, hlistmem⟩ := exists_addToFibBatchList_eq { rib with fibBatchList := synced } entry.pfx
      refine ⟨list, hlist, fun p => ?_⟩
      rw [hlistmem, needsFib]
      grind
    | false =>
      obtain ⟨list, hlist, hlistmem⟩ := exists_addIf_eq rib synced entry.pfx
        (entry.getAllPathsCnt == 0 && entry.hasFibOutState)
      refine ⟨list, hlist, fun p => ?_⟩
      rw [hlistmem, needsFib]
      grind

def reselected : RibBase F :=
  { rib.setEntry entry with
    nextObject := rib.nextObject + 1
    ribCounters := (rib.ribCounters.onBestpathSourceChanged entry.pfx.addr.isV4 (bestpathSource old.bestpath)
        (bestpathSource entry.bestpath)).onInactivePathsDelta entry.pfx.addr.isV4
          ((entry.inactivePathCount : Int) - old.inactivePathCount) }

/-- An entry that is selected anew and withdrawn takes the place of the one of before. -/
theorem exists_ribEntries_withdrawEntry :
    ∃ ribVersion, ((rib.reselected old entry).withdrawEntry entry).ribEntries =
      rib.ribEntries.put (entry.committed ribVersion) := by
  unfold withdrawEntry
  rw [RibEntry.commitBestpath_snd]
  exact ⟨_, Keyed.put_put rfl⟩

/-- A pass skips an entry, or selects it anew, withdraws it if need be and puts it on the batch list if anything
changed. -/
theorem prepareEntry_spec (config : SelectionConfig F) (fullSync : Bool) (rib : RibBase F) (pfx : CIDRNetwork) :
    (rib.prepareEntry config fullSync pfx = rib ∧
      ∀ old, rib.ribEntries.find pfx = some old → fullSync = false ∧ old.needPathSelection = false) ∨
    ∃ old bestChanged nexthopChanged entry list, rib.ribEntries.find pfx = some old ∧
      old.selectBestPath config rib.nexthopInfoMap rib.nextObject = (bestChanged, nexthopChanged, entry) ∧
      RibEntry.Selected rib.nextObject old entry bestChanged nexthopChanged ∧ entry.pfx = pfx ∧
      rib.prepareEntry config fullSync pfx =
        { (rib.reselected old entry).withdrawIf (needsWithdrawal bestChanged nexthopChanged entry) entry with
          fibBatchList := list } ∧
      (∀ p, p ∈ list ↔ p ∈ rib.fibBatchList ∨ p = entry.pfx ∧ needsFib fullSync bestChanged nexthopChanged entry) ∧
      (fullSync = true ∨ old.needPathSelection = true) := by
  unfold prepareEntry
  split
  next hfind => exact .inl ⟨rfl, fun old hold => nomatch hfind.symm.trans hold⟩
  next old hfind =>
    split
    next hskip =>
      simp only [Bool.and_eq_true, Bool.not_eq_true'] at hskip
      refine .inl ⟨rfl, fun old' hold' => ?_⟩
      rw [Option.some.inj (hold'.symm.trans hfind)]
      exact hskip
    · next hvisit =>
      have hvis : fullSync = true ∨ old.needPathSelection = true := by
        cases fullSync <;> simp_all
      obtain ⟨list, hlist, hmem⟩ := exists_enqueueEntry_eq fullSync
        (rib.reselected old (old.selectBestPath config rib.nexthopInfoMap rib.nextObject).2.2)
        (old.selectBestPath config rib.nexthopInfoMap rib.nextObject).1
        (old.selectBestPath config rib.nexthopInfoMap rib.nextObject).2.1
        (old.selectBestPath config rib.nexthopInfoMap rib.nextObject).2.2
      have hsel := RibEntry.selected_selectBestPath config rib.nexthopInfoMap rib.nextObject old
      have hpfx := (congrArg EntryFrame.pfx hsel.frame).trans (Keyed.find_eq_some_iff.mp hfind).2
      exact .inr ⟨old, _, _, _, list, hfind, rfl, hsel, hpfx, hlist, hmem, hvis⟩

end RibBase

variable {infos : RouteInfos F} (entry : RibEntry F) (object : Nat) (peer : TinyPeerInfo F)

theorem RibEntry.exists_updatePath_eq
    (attrs : Option (BgpPathPtr F)) (install : Bool) (pathId : Nat) :
    ∃ infos needPathSelection, (entry.updatePath object peer attrs install pathId).1 =
      { entry with routeInfos := infos, needPathSelection } := by
  unfold RibEntry.updatePath
  split
  · exact ⟨_, _, rfl⟩
  · exact ⟨entry.routeInfos, entry.needPathSelection, rfl⟩

theorem RouteInfos.allPathsCount_put_of_none {path : RouteInfo F}
    (h : infos.find path.key = none) : (infos.put path).allPathsCount = infos.allPathsCount + 1 :=
  if_neg (by rw [h]; exact Bool.false_ne_true)

theorem RouteInfos.allPathsCount_put_of_some {path old : RouteInfo F}
    (h : infos.find path.key = some old) : (infos.put path).allPathsCount = infos.allPathsCount :=
  if_pos (by rw [h]; rfl)

/-- An announcement takes no path away and leaves at least its own. -/
theorem RibEntry.getAllPathsCnt_updatePath_some
    (attrs : BgpPathPtr F) (install : Bool) (pathId : Nat) :
    entry.getAllPathsCnt ≤ (entry.updatePath object peer (some attrs) install pathId).1.getAllPathsCnt ∧
      0 < (entry.updatePath object peer (some attrs) install pathId).1.getAllPathsCnt := by
  have hpos : ∀ {infos : RouteInfos F} {key : BgpPeerId × Nat} {r : RouteInfo F}, infos.find key = some r →
      0 < infos.allPathsCount := by
    intro infos key r hr
    rw [infos.count_eq]
    exact List.length_pos_of_mem (Keyed.find_eq_some_iff.mp hr).1
  unfold RibEntry.updatePath RouteInfos.updatePath
  dsimp only
  cases hold : entry.routeInfos.find (peer.peerId, pathId) with
  | none =>
    exact ⟨(Nat.le_succ _).trans_eq (RouteInfos.allPathsCount_put_of_none hold).symm,
      (Nat.succ_pos _).trans_eq (RouteInfos.allPathsCount_put_of_none hold).symm⟩
  | some old =>
    by_cases hsame : (Option.any (fun old => old.attrs.object == attrs.object && old.peer == peer) (some old)) = true
    · rw [if_pos hsame]
      exact ⟨le_rfl, hpos hold⟩
    · rw [if_neg hsame]
      exact ⟨(RouteInfos.allPathsCount_put_of_some hold).ge,
        (hpos hold).trans_eq (RouteInfos.allPathsCount_put_of_some hold).symm⟩

namespace RibBase

def pathUpdated (rib : RibBase F) (old entry : RibEntry F) (nexthops : NexthopInfoMap) : RibBase F :=
  { rib.setEntry entry with
    nexthopInfoMap := nexthops
    nextObject := rib.nextObject + 1
    ribCounters := rib.ribCounters.onPathsDelta old.pfx.addr.isV4 ((entry.getAllPathsCnt : Int) - old.getAllPathsCnt) }

variable (config : SelectionConfig F) (cache : NexthopCache)

variable (rib : RibBase F)

theorem exists_trackNexthop_eq (attrs : Option (BgpPathPtr F)) :
    ∃ nexthops, rib.trackNexthop config cache attrs = { rib with nexthopInfoMap := nexthops } := by
  unfold trackNexthop getNexthopInfo
  split
  · split
    · split
      · exact ⟨rib.nexthopInfoMap, rfl⟩
      · exact ⟨_, rfl⟩
    · exact ⟨rib.nexthopInfoMap, rfl⟩
  · exact ⟨rib.nexthopInfoMap, rfl⟩

theorem exists_cleanupNexthop_eq (replaced : Option (RouteInfo F)) :
    ∃ nexthops, rib.cleanupNexthop replaced = { rib with nexthopInfoMap := nexthops } := by
  unfold cleanupNexthop checkAndDeleteNexthopInfo
  split
  · split
    · exact ⟨rib.nexthopInfoMap, rfl⟩
    · exact ⟨_, rfl⟩
  · exact ⟨rib.nexthopInfoMap, rfl⟩

theorem exists_updateEntryPath_eq (entry : RibEntry F) (peer : TinyPeerInfo F) (attrs : Option (BgpPathPtr F))
    (install : Bool) (pathId : Nat) :
    ∃ nexthops, rib.updateEntryPath config cache entry peer attrs install pathId =
      ((entry.updatePath rib.nextObject peer attrs install pathId).1,
        rib.pathUpdated entry (entry.updatePath rib.nextObject peer attrs install pathId).1 nexthops) := by
  let updated := entry.updatePath rib.nextObject peer attrs install pathId
  let replaced := if updated.2 then entry.routeInfos.find (peer.peerId, pathId) else none
  obtain ⟨tracked, htrk⟩ := exists_trackNexthop_eq config cache rib attrs
  obtain ⟨nexthops, hclean⟩ :=
    exists_cleanupNexthop_eq ((rib.trackNexthop config cache attrs).setEntry updated.1) replaced
  refine ⟨nexthops, ?_⟩
  have heq : rib.updateEntryPath config cache entry peer attrs install pathId = (updated.1,
      ({ ((rib.trackNexthop config cache attrs).setEntry updated.1).cleanupNexthop replaced with
        nextObject := rib.nextObject + 1
        ribCounters := (((rib.trackNexthop config cache attrs).setEntry updated.1).cleanupNexthop
          replaced).ribCounters.onPathsDelta entry.pfx.addr.isV4
            ((updated.1.getAllPathsCnt : Int) - entry.getAllPathsCnt) } : RibBase F)) := rfl
  rw [heq, hclean, htrk]
  rfl

/-- A property that whatever a RIB-in announcement does to the RIB keeps. -/
structure AnnounceClosed (P : RibBase F → Prop) : Prop where
  localRoutes : ∀ rib localRoutes, P rib → P { rib with localRoutes }
  emplaced : ∀ rib pfx, rib.ribEntries.find pfx = none → P rib → P (rib.emplaceEntry pfx).2
  updated : ∀ rib entry peer attrs installToFib receivedPathId nexthops, rib.ribEntries.find entry.pfx = some entry →
    P rib → P (rib.pathUpdated entry (entry.updatePath rib.nextObject peer attrs installToFib receivedPathId).1 nexthops)

/-- A property that whatever a RIB-in message does to the RIB keeps: a withdrawal may also erase an entry, of a prefix
of the message or of an aggregate that contains it. -/
structure RibInClosed (withdrawn : CIDRNetwork → Prop) (P : RibBase F → Prop) : Prop extends AnnounceClosed P where
  erased : ∀ rib entry, withdrawn entry.pfx → rib.ribEntries.find entry.pfx = some entry →
    entry.hasFibOutState = false → entry.routeInfos.paths = [] → P rib → P (rib.eraseEntry entry)

theorem find_emplaceEntry (pfx : CIDRNetwork) :
    (rib.emplaceEntry pfx).2.ribEntries.find pfx = some (rib.emplaceEntry pfx).1 ∧ (rib.emplaceEntry pfx).1.pfx = pfx := by
  unfold emplaceEntry
  split
  next entry hentry => exact ⟨hentry, (Keyed.find_eq_some_iff.mp hentry).2⟩
  · exact ⟨Keyed.find_put_self _ ({ pfx } : RibEntry F), rfl⟩

variable {withdrawn : CIDRNetwork → Prop} {P : RibBase F → Prop}

variable {rib : RibBase F} {agg : CIDRNetwork × Option (BgpPathPtr F)} {pfx : CIDRNetwork}

theorem AnnounceClosed.aggregatePathChange (h : AnnounceClosed P) (hrib : P rib) (pfx : CIDRNetwork)
    (oldAllPathCnt newAllPathCnt : Nat) : P (rib.aggregatePathChange pfx oldAllPathCnt newAllPathCnt).2 := by
  unfold RibBase.aggregatePathChange
  dsimp only
  split
  · exact h.localRoutes rib _ hrib
  · exact hrib

theorem AnnounceClosed.emplaceEntry (h : AnnounceClosed P) (hrib : P rib) (pfx : CIDRNetwork) :
    P (rib.emplaceEntry pfx).2 := by
  cases hfind : rib.ribEntries.find pfx with
  | none => exact h.emplaced rib pfx hfind hrib
  | some entry =>
    have heq : (rib.emplaceEntry pfx).2 = rib := by rw [RibBase.emplaceEntry, hfind]
    rw [heq]
    exact hrib

theorem RibInClosed.checkWithdrawal (h : RibInClosed withdrawn P) {entry : RibEntry F} (hrib : P rib)
    (hpfx : withdrawn entry.pfx) (hfind : rib.ribEntries.find entry.pfx = some entry) :
    P (rib.checkWithdrawalBeforeRouteProgrammed entry) := by
  unfold RibBase.checkWithdrawalBeforeRouteProgrammed
  split
  next herase =>
    simp only [Bool.and_eq_true, Bool.not_eq_true', List.isEmpty_iff] at herase
    exact h.erased rib entry hpfx hfind herase.1 herase.2 hrib
  · exact hrib

/-- Only an update without attributes may erase its entry. -/
theorem AnnounceClosed.processSingleRibInUpdate (h : AnnounceClosed P) (config : SelectionConfig F)
    (cache : NexthopCache) (hrib : P rib) (peer : TinyPeerInfo F)
    (attrs : Option (BgpPathPtr F)) (pfx : CIDRNetwork)
    (herase : attrs.isNone → RibInClosed withdrawn P ∧ withdrawn pfx) (pathId : Nat) :
    P (rib.processSingleRibInUpdate config cache peer attrs pfx pathId).2 := by
  unfold RibBase.processSingleRibInUpdate
  split
  · exact hrib
  · obtain ⟨hfind, hpfx⟩ := find_emplaceEntry rib pfx
    have hemp := h.emplaceEntry hrib pfx
    generalize rib.emplaceEntry pfx = emplaced at hfind hpfx hemp
    obtain ⟨entry, rib⟩ := emplaced
    dsimp only at ⊢
    generalize (Option.map _ (rib.ownLocalRoute peer pfx)).getD _ = install
    obtain ⟨nexthops, hupd⟩ := exists_updateEntryPath_eq config cache rib entry peer attrs install pathId
    have hupdated := h.updated rib entry peer attrs install pathId nexthops (hpfx ▸ hfind) hemp
    rw [hupd]
    have hchk : P (if attrs.isNone then
        (rib.pathUpdated entry (entry.updatePath rib.nextObject peer attrs install pathId).1
          nexthops).checkWithdrawalBeforeRouteProgrammed
            (entry.updatePath rib.nextObject peer attrs install pathId).1
        else rib.pathUpdated entry (entry.updatePath rib.nextObject peer attrs install pathId).1
          nexthops) := by
      split
      next hnone =>
        obtain ⟨hclosed, hwithdrawn⟩ := herase hnone
        have hsame : (entry.updatePath rib.nextObject peer attrs install pathId).1.pfx = pfx := by
          obtain ⟨infos, needPathSelection, heq⟩ := entry.exists_updatePath_eq rib.nextObject peer attrs install pathId
          rw [heq, hpfx]
        exact hclosed.checkWithdrawal hupdated (hsame ▸ hwithdrawn) (Keyed.find_put_self _ _)
      · exact hupdated
    split
    · exact hchk
    · exact h.aggregatePathChange hchk _ _ _

/-- The aggregates that come or go contain the prefix; where no path goes, none goes. -/
theorem of_mem_aggregatePathChange {oldAllPathCnt newAllPathCnt : Nat}
    (hagg : agg ∈ (rib.aggregatePathChange pfx oldAllPathCnt newAllPathCnt).1) :
    isSubnet pfx agg.1 ∧ (oldAllPathCnt ≤ newAllPathCnt → 0 < newAllPathCnt → agg.2.isSome) := by
  unfold RibBase.aggregatePathChange at hagg
  dsimp only at hagg
  split at hagg
  next hchange =>
    obtain ⟨localRoute, -, hlocal⟩ := List.mem_filterMap.mp hagg
    unfold aggregateLocalRoute at hlocal
    refine ⟨by grind, fun hle hpos => ?_⟩
    have hwd : ∀ sameAsLocalRoute, supportingRouteWithdrawn sameAsLocalRoute oldAllPathCnt newAllPathCnt = false := by
      intro sameAsLocalRoute
      unfold supportingRouteWithdrawn
      grind
    grind
  · exact nomatch hagg

/-- An announcement brings aggregates and takes none away. -/
theorem of_mem_processSingleRibInUpdate {config : SelectionConfig F} {cache : NexthopCache}
    {peer : TinyPeerInfo F} {attrs : Option (BgpPathPtr F)} {pathId : Nat}
    (hagg : agg ∈ (rib.processSingleRibInUpdate config cache peer attrs pfx pathId).1) :
    isSubnet pfx agg.1 ∧ (attrs.isSome → agg.2.isSome) := by
  unfold RibBase.processSingleRibInUpdate at hagg
  split at hagg
  · exact nomatch hagg
  generalize rib.emplaceEntry pfx = emplaced at hagg
  obtain ⟨entry, rib⟩ := emplaced
  dsimp only at hagg
  generalize (Option.map _ (rib.ownLocalRoute peer pfx)).getD _ = install at hagg
  split at hagg
  · exact nomatch hagg
  · obtain ⟨hsub, hsome⟩ := of_mem_aggregatePathChange hagg
    refine ⟨hsub, fun hattrs => ?_⟩
    obtain ⟨attrs, rfl⟩ := Option.isSome_iff_exists.mp hattrs
    obtain ⟨hle, hpos⟩ := entry.getAllPathsCnt_updatePath_some rib.nextObject peer attrs install pathId
    exact hsome hle hpos

/-- What one path of a RIB-in message keeps, if the aggregates that go with it and the path itself may be erased. -/
theorem AnnounceClosed.processRibInPath (h : AnnounceClosed P) (withdrawn : CIDRNetwork → Prop)
    (config : SelectionConfig F) (cache : NexthopCache) (peer : TinyPeerInfo F)
    (attrs : Option (BgpPathPtr F)) (hrib : P rib) (pfxPathId : CIDRNetwork × Nat)
    (herase : attrs.isNone → RibInClosed withdrawn P ∧ ∀ parent, isSubnet pfxPathId.1 parent → withdrawn parent) :
    P (RibBase.processRibInPath config cache peer attrs rib pfxPathId) := by
  refine List.foldlRecOn _ _ (h.processSingleRibInUpdate config cache hrib peer attrs pfxPathId.1
      (fun hnone => (herase hnone).imp_right fun hparent => hparent _ (by simp [isSubnet])) pfxPathId.2)
    fun _ hrib agg hagg => ?_
  obtain ⟨hsub, hsome⟩ := of_mem_processSingleRibInUpdate hagg
  have hgone : agg.2.isNone → RibInClosed withdrawn P ∧ withdrawn agg.1 := by
    intro hnone
    cases attrs with
    | none => exact (herase rfl).imp_right fun hparent => hparent agg.1 hsub
    | some attrs =>
      rw [Option.isNone_iff_eq_none.mp hnone] at hsome
      exact nomatch hsome rfl
  exact h.processSingleRibInUpdate config cache hrib _ _ agg.1 hgone _

theorem AnnounceClosed.processRibInAnnouncement (h : AnnounceClosed P) (config : SelectionConfig F)
    (cache : NexthopCache) (hrib : P rib) (peer : TinyPeerInfo F) (attrs : BgpPathPtr F)
    (pfxPathIds : List (CIDRNetwork × Nat)) : P (rib.processRibInAnnouncement config cache peer attrs pfxPathIds) :=
  List.foldlRecOn pfxPathIds _ hrib fun _ hrib pfxPathId _ =>
    h.processRibInPath (fun _ => True) config cache peer (some attrs) hrib pfxPathId fun hnone => nomatch hnone

theorem RibInClosed.processRibInWithdrawal (h : RibInClosed withdrawn P) (config : SelectionConfig F)
    (cache : NexthopCache) (hrib : P rib) (peer : TinyPeerInfo F) (pfxPathIds : List (CIDRNetwork × Nat))
    (hwithdrawn : ∀ x ∈ pfxPathIds, ∀ parent, isSubnet x.1 parent → withdrawn parent) :
    P (rib.processRibInWithdrawal config cache peer pfxPathIds) :=
  List.foldlRecOn pfxPathIds _ hrib fun _ hrib pfxPathId hmem =>
    h.toAnnounceClosed.processRibInPath withdrawn config cache peer none hrib pfxPathId fun _ =>
      ⟨h, hwithdrawn pfxPathId hmem⟩

/-- Updates of nexthops replace their infos and ask for path selection. -/
theorem processRibInNexthopUpdate_closed
    (hnhs : ∀ (rib : RibBase F) nexthops, P rib → P { rib with nexthopInfoMap := nexthops })
    (hrequired : ∀ (rib : RibBase F) condition, P rib → P (rib.requirePathSelection condition)) (hrib : P rib)
    (config : SelectionConfig F) (cache : NexthopCache) (nexthopStatuses : List (IPAddress × Nat)) :
    P (rib.processRibInNexthopUpdate config cache nexthopStatuses) := by
  have hstatus : ∀ (rib : RibBase F) queued, P rib → P (rib.processNexthopStatus cache queued) := by
    intro rib queued hrib
    unfold processNexthopStatus
    split
    · split
      · exact hrib
      · split
        · exact hrequired _ _ (hnhs _ _ hrib)
        · exact hnhs _ _ hrib
    · exact hrib
  unfold RibBase.processRibInNexthopUpdate
  split
  · exact List.foldlRecOn _ _ hrib fun rib hrib queued _ => hstatus rib queued hrib
  · exact hrib

end RibBase

end FbossBgp.Rib
