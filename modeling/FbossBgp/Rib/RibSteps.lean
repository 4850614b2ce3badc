import FbossBgp.Rib.BestpathReplay

/-! What the steps of the RIB other than RIB-in messages do to its entries: they mark entries, select anew, commit
what was selected and erase entries without paths. A property that these keep is kept by every such step. The
counters agree with a recount of the entries as long as no entry is erased while it has a best path: the bucket of
that best path's source is not reduced by the removal of a prefix. -/

namespace FbossBgp.Rib

open BgpLib Transition

variable {F : Type}

section

variable [Zero F]

/-- A property of the entries, the local routes and the counters that selection passes and the FIB's
acknowledgements keep. An entry may be erased if it has no path and satisfies `E`. -/
structure StepClosed (E : RibEntry F → Prop) (P : RibBase F → Prop) : Prop where
  congr : ∀ {rib rib' : RibBase F}, P rib → rib'.ribEntries = rib.ribEntries → rib'.localRoutes = rib.localRoutes →
    rib'.ribCounters = rib.ribCounters → P rib'
  required : ∀ (rib : RibBase F) condition, P rib → P (rib.requirePathSelection condition)
  marked : ∀ (rib : RibBase F) fibBatchList, P rib → P { rib with
    ribEntries := rib.ribEntries.modify (RibEntry.markFibOutStatePresentIf fibBatchList)
      (RibEntry.pfx_markFibOutStatePresentIf fibBatchList) }
  reselected : ∀ (rib : RibBase F) object old entry bestpathChanged nexthopChanged,
    rib.ribEntries.find entry.pfx = some old → RibEntry.Selected object old entry bestpathChanged nexthopChanged →
    P rib → P (rib.reselected old entry)
  committed : ∀ (rib : RibBase F) entry committed, rib.ribEntries.find entry.pfx = some entry →
    committed.pfx = entry.pfx → committed.routeInfos = entry.routeInfos →
    committed.inactivePathCount = entry.inactivePathCount → committed.bestpath = entry.bestpath →
    P rib → P (rib.setEntry committed)
  erased : ∀ (rib : RibBase F) entry, rib.ribEntries.find entry.pfx = some entry → entry.getAllPathsCnt = 0 → E entry →
    P rib → P (rib.eraseEntry entry)
  erasable : ∀ entry committed : RibEntry F, committed.bestpath = entry.bestpath → E entry → E committed

namespace StepClosed

open RibBase

variable {E : RibEntry F → Prop} {P : RibBase F → Prop}

variable {rib : RibBase F} {programmed : FibProgrammedPfx}

theorem processFibProgramming (h : StepClosed E P) (hrib : P rib) (isConnected isFullSynced : Bool) :
    P (rib.processFibProgramming isConnected isFullSynced) := by
  unfold RibBase.processFibProgramming
  dsimp only
  split
  · exact h.congr hrib rfl rfl rfl
  · exact h.congr (h.marked rib rib.fibBatchList hrib) rfl rfl rfl

/-- A prefix whose deletion the FIB acknowledges may be erased. -/
def Erasable (E : RibEntry F → Prop) (programmed : FibProgrammedPfx) (rib : RibBase F) : Prop :=
  ∀ entry, programmed.2 = none → rib.ribEntries.find programmed.1 = some entry → entry.getAllPathsCnt = 0 →
    programmed.1 ∉ rib.fibBatchList → E entry

theorem erasable_eraseEntry (hprog : Erasable E programmed rib)
    (erased : RibEntry F) : Erasable E programmed (rib.eraseEntry erased) := by
  intro entry hdel hfind hpaths hlist
  have hne : programmed.1 ≠ erased.pfx := by
    intro heq
    rw [RibBase.eraseEntry, heq, Keyed.find_erase_self] at hfind
    exact nomatch hfind
  refine hprog entry hdel ((Keyed.find_erase_of_ne hne).symm.trans hfind) hpaths fun hmem => hlist ?_
  exact List.mem_filter.mpr ⟨hmem, decide_eq_true hne⟩

variable [DecidableEq F]

theorem prepareEntry (h : StepClosed E P) (hrib : P rib) (config : SelectionConfig F) (fullSync : Bool)
    (pfx : CIDRNetwork) : P (rib.prepareEntry config fullSync pfx) := by
  rcases prepareEntry_spec config fullSync rib pfx with ⟨heq, -⟩ | ⟨old, bestpathChanged, nexthopChanged, entry, list,
    hfind, -, hsel, rfl, heq, -⟩
  · exact heq.symm ▸ hrib
  · have hreselected := h.reselected rib _ old entry _ _ hfind hsel hrib
    have hkept : P ((rib.reselected old entry).withdrawIf (needsWithdrawal bestpathChanged nexthopChanged entry) entry) := by
      unfold withdrawIf
      split
      · have hcom : ∀ ribVersion, P ((rib.reselected old entry).setEntry { entry.commitBestpath.2 with ribVersion }) := by
          intro ribVersion
          rw [RibEntry.commitBestpath_snd]
          exact h.committed _ entry _ (Keyed.find_put_self _ _) rfl rfl rfl rfl hreselected
        exact h.congr (hcom _) rfl rfl rfl
      · exact hreselected
    rw [heq]
    exact h.congr hkept rfl rfl rfl

theorem prepareFibProgramming (h : StepClosed E P) (hrib : P rib) (config : SelectionConfig F)
    (fullSync : Bool) (order : List CIDRNetwork) : P (rib.prepareFibProgramming config fullSync order) := by
  have hclear : P (rib.clearForFullSync fullSync) := by
    unfold clearForFullSync
    split
    · exact h.congr hrib rfl rfl rfl
    · exact hrib
  have hpassed : P (order.foldl (RibBase.prepareEntry config fullSync) (rib.clearForFullSync fullSync)) :=
    List.foldlRecOn order _ hclear fun _ hrib pfx _ => h.prepareEntry hrib config fullSync pfx
  unfold RibBase.prepareFibProgramming triggerFibProgramming
  dsimp only
  split
  · exact h.congr hpassed rfl rfl rfl
  · exact h.congr hpassed rfl rfl rfl

theorem processResumeBestPathAndFibProgramming (h : StepClosed E P) (hrib : P rib)
    (config : SelectionConfig F) (fullSync : Bool) (order : List CIDRNetwork) :
    P (rib.processResumeBestPathAndFibProgramming config fullSync order) := by
  unfold RibBase.processResumeBestPathAndFibProgramming
  dsimp only
  split
  · exact h.prepareFibProgramming (h.required rib _ hrib) config fullSync order
  · exact h.required rib _ hrib

/-- Advertising an entry changes neither its paths nor its best path. -/
theorem exists_advertiseEntry_eq (eor : Bool) (rib : RibBase F) (entry : RibEntry F) : ∃ ribVersion out,
    rib.advertiseEntry eor entry = { rib.setEntry (entry.advertised ribVersion) with ribOut := out } := by
  obtain ⟨ribVersion, out, -, -, heq | ⟨heq, -⟩⟩ := advertiseEntry_spec eor rib entry
  · exact ⟨ribVersion, _, heq⟩
  · exact ⟨ribVersion, out, heq⟩

section

variable (h : StepClosed E P)
include h

theorem erasable_advertiseEntry (hprog : Erasable E programmed rib) {advertised : RibEntry F}
    (hadv : rib.ribEntries.find advertised.pfx = some advertised) (eor : Bool) :
    Erasable E programmed (rib.advertiseEntry eor advertised) := by
  obtain ⟨ribVersion, out, hrib⟩ := exists_advertiseEntry_eq eor rib advertised
  rw [hrib]
  intro entry hdel hfind hpaths hmem
  by_cases heq : programmed.1 = advertised.pfx
  · have hself : (rib.ribEntries.put (advertised.advertised ribVersion)).find advertised.pfx =
        some (advertised.advertised ribVersion) := Keyed.find_put_self _ _
    cases hself.symm.trans (heq ▸ hfind)
    exact h.erasable advertised _ rfl (hprog advertised hdel (heq ▸ hadv) hpaths hmem)
  · have hne : programmed.1 ≠ (advertised.advertised ribVersion).pfx := heq
    exact hprog entry hdel ((Keyed.find_put_of_ne hne).symm.trans hfind) hpaths hmem

theorem handleFibProgrammedPfx (hrib : P rib) (hprog : Erasable E programmed rib) (eor : Bool) :
    P (rib.handleFibProgrammedPfx eor programmed) := by
  unfold RibBase.handleFibProgrammedPfx
  split
  · exact hrib
  next entry hfind =>
    have hpfx := (Keyed.find_eq_some_iff.mp hfind).2
    split
    next hdel =>
      split
      next herase =>
        simp only [Bool.and_eq_true, beq_iff_eq, Bool.not_eq_true', List.contains_eq_mem,
          decide_eq_false_iff_not] at herase
        exact h.erased rib entry (hpfx ▸ hfind) herase.1 (hprog entry hdel hfind herase.1 herase.2) hrib
      · exact hrib
    · split
      · exact hrib
      · obtain ⟨ribVersion, out, heq⟩ := exists_advertiseEntry_eq eor rib entry
        rw [heq]
        exact h.congr (h.committed rib entry (entry.advertised ribVersion) (hpfx ▸ hfind) rfl rfl rfl rfl hrib) rfl rfl rfl

theorem erasable_handleFibProgrammedPfx
    (hprog : Erasable E programmed rib) (handled : FibProgrammedPfx) (eor : Bool) :
    Erasable E programmed (rib.handleFibProgrammedPfx eor handled) := by
  unfold RibBase.handleFibProgrammedPfx
  split
  · exact hprog
  next entry hfind =>
    split
    · split
      · exact erasable_eraseEntry hprog entry
      · exact hprog
    · split
      · exact hprog
      · have hpfx := (Keyed.find_eq_some_iff.mp hfind).2
        exact h.erasable_advertiseEntry hprog (hpfx ▸ hfind) eor

theorem foldl_handleFibProgrammedPfx (hrib : P rib)
    {pfxs : List FibProgrammedPfx} (hpfxs : ∀ x ∈ pfxs, Erasable E x rib) (eor : Bool) :
    P (pfxs.foldl (RibBase.handleFibProgrammedPfx eor) rib) := by
  induction pfxs generalizing rib with
  | nil => exact hrib
  | cons x pfxs ih =>
    refine ih (h.handleFibProgrammedPfx hrib (hpfxs x List.mem_cons_self) eor) fun y hy => ?_
    exact h.erasable_handleFibProgrammedPfx (hpfxs y (List.mem_cons_of_mem _ hy)) x eor

theorem processFibMessage (hrib : P rib)
    (hpfxs : ∀ message ∈ rib.fromFibMessageQ.head?, ∀ x ∈ message.fibProgrammedPfxs.flatten, Erasable E x rib) :
    P rib.processFibMessage := by
  unfold RibBase.processFibMessage
  split
  · exact hrib
  next message messages hqueue =>
    rw [hqueue] at hpfxs
    have hstart : ∀ eor, ∃ out initialEorSent, { rib with fromFibMessageQ := messages }.startInitialDump eor =
          { rib with fromFibMessageQ := messages, ribOut := out, initialEorSent := initialEorSent } := by
      intro eor
      unfold startInitialDump
      split
      · exact ⟨_, _, rfl⟩
      · exact ⟨rib.ribOut, rib.initialEorSent, rfl⟩
    unfold handleFibProgrammedMessage
    dsimp only
    obtain ⟨out, initialEorSent, heq⟩ := hstart (message.isSync && !rib.initialEorSent)
    rw [heq]
    have hkept : P { rib with fromFibMessageQ := messages, ribOut := out, initialEorSent := initialEorSent } :=
      h.congr hrib rfl rfl rfl
    refine h.congr (h.foldl_handleFibProgrammedPfx hkept (fun x hx => ?_) _) rfl rfl rfl
    exact hpfxs message rfl x (mem_flatten_of_mem_fibProgrammedPrefixes hx)

end

end StepClosed

/-- What every action keeps: RIB-in messages are given apart. -/
theorem StepClosed.exec [DecidableEq F] {E : RibEntry F → Prop} {P : RibBase F → Prop} (h : StepClosed E P)
    {rib : RibBase F} (hrib : P rib) (config : SelectionConfig F) {action : RibAction F}
    (hann : ∀ cache peer attrs pfxPathIds, action = .announcement cache peer attrs pfxPathIds →
      P (rib.processRibInAnnouncement config cache peer attrs pfxPathIds))
    (hwithdrawal : ∀ cache peer pfxPathIds, action = .withdrawal cache peer pfxPathIds →
      P (rib.processRibInWithdrawal config cache peer pfxPathIds))
    (hmsg : action = .fibMessage → ∀ message ∈ rib.fromFibMessageQ.head?,
      ∀ x ∈ message.fibProgrammedPfxs.flatten, Erasable E x rib) :
    P (rib.exec config action) := by
  cases action with
  | announcement cache peer attrs pfxPathIds => exact hann cache peer attrs pfxPathIds rfl
  | withdrawal cache peer pfxPathIds => exact hwithdrawal cache peer pfxPathIds rfl
  | nexthopUpdate cache nexthopStatuses =>
    exact RibBase.processRibInNexthopUpdate_closed (fun _ _ hrib => h.congr hrib rfl rfl rfl) h.required hrib config
      cache nexthopStatuses
  | initialPathComputation order =>
    have hrec : P { rib with ribEoRReceived := true } := h.congr hrib rfl rfl rfl
    exact h.prepareFibProgramming hrec config true order
  | prepareFibProgramming fullSync order => exact h.prepareFibProgramming hrib config fullSync order
  | resume fullSync order => exact h.processResumeBestPathAndFibProgramming hrib config fullSync order
  | fibProgramming isConnected isFullSynced => exact h.processFibProgramming hrib isConnected isFullSynced
  | programSucceeded groups => exact h.congr hrib rfl rfl rfl
  | programFailed => exact h.congr hrib rfl rfl rfl
  | fibMessage => exact h.processFibMessage hrib (hmsg rfl)

end

namespace RibCounters

variable (counters : RibCounters) (isV4 : Bool)

theorem adjust_apply (gauge : Gauge) (delta : Int) (v : Bool) (g : Gauge) :
    counters.adjust isV4 gauge delta v g = counters v g + if v = isV4 ∧ g = gauge then delta else 0 := by
  unfold adjust
  split
  · rfl
  · rw [add_zero]

variable (delta : Int) (v : Bool) (g : Gauge)

theorem onPathsDelta_apply :
    counters.onPathsDelta isV4 delta v g = counters v g + if v = isV4 ∧ g = .totalPaths then delta else 0 := by
  unfold onPathsDelta
  split
  next hzero => rw [hzero, ite_self, add_zero]
  · rw [adjust_apply]

theorem onInactivePathsDelta_apply :
    counters.onInactivePathsDelta isV4 delta v g = counters v g + if v = isV4 ∧ g = .inactivePaths then delta else 0 := by
  unfold onInactivePathsDelta
  split
  next hzero => rw [hzero, ite_self, add_zero]
  · rw [adjust_apply]

variable (source : Option BgpRouteType)

/-- What the source of a best path adds to a value. -/
def sourceCount (v : Bool) (g : Gauge) : Int :=
  if v = isV4 ∧ source.map Gauge.source = some g then 1 else 0

theorem adjustSource_apply (v : Bool)
    (g : Gauge) : counters.adjustSource isV4 source delta v g = counters v g + delta * sourceCount isV4 source v g := by
  unfold sourceCount
  cases source with
  | none => simp [adjustSource]
  | some type =>
    have hcomm : Gauge.source type = g ↔ g = Gauge.source type := eq_comm
    simp [adjustSource, adjust_apply, hcomm]

theorem onBestpathSourceChanged_apply (oldSource newSource : Option BgpRouteType)
    (v : Bool) (g : Gauge) : counters.onBestpathSourceChanged isV4 oldSource newSource v g =
      counters v g - sourceCount isV4 oldSource v g + sourceCount isV4 newSource v g := by
  unfold onBestpathSourceChanged
  split
  next hsame => rw [hsame, sub_add_cancel]
  · calc (((counters.adjustSource isV4 oldSource (-1)).adjustSource isV4 newSource 1) v g)
          = counters v g + -1 * sourceCount isV4 oldSource v g + 1 * sourceCount isV4 newSource v g := by
            rw [adjustSource_apply, adjustSource_apply]
      _ = counters v g - sourceCount isV4 oldSource v g + sourceCount isV4 newSource v g := by ring

end RibCounters

namespace RibEntry

variable [Zero F]

/-- The count of an entry, by the values that its life changes. -/
theorem count_eq (entry : RibEntry F) (v : Bool) (g : Gauge) : entry.count v g =
    (if v = entry.pfx.addr.isV4 ∧ g = .totalPrefixes then 1 else 0) +
      (if v = entry.pfx.addr.isV4 ∧ g = .prefixLenCounts (RibCounters.bucket entry.pfx.len) then 1 else 0) +
      (if v = entry.pfx.addr.isV4 ∧ g = .totalPaths then (entry.getAllPathsCnt : Int) else 0) +
      (if v = entry.pfx.addr.isV4 ∧ g = .inactivePaths then (entry.inactivePathCount : Int) else 0) +
      RibCounters.sourceCount entry.pfx.addr.isV4 (bestpathSource entry.bestpath) v g := by
  unfold count RibCounters.sourceCount
  by_cases hv : v = entry.pfx.addr.isV4
  · subst hv
    cases g with
    | totalPrefixes => simp
    | totalPaths => simp
    | inactivePaths => simp
    | prefixLenCounts len => simp [eq_comm]
    | source type => simp
  · have hv' : entry.pfx.addr.isV4 ≠ v := fun h => hv h.symm
    simp [hv, hv']

end RibEntry

namespace RibBase

variable [Zero F] {old entry : RibEntry F}

/-- Every counter has the value of a recount over the entries. -/
def Balanced (rib : RibBase F) : Prop :=
  ∀ isV4 gauge, rib.ribCounters isV4 gauge = rib.ribEntries.sum fun entry => entry.count isV4 gauge

section

variable {rib rib' : RibBase F} (h : rib.Balanced)
include h

/-- An entry is replaced, and the counters change by what the new one counts more. -/
theorem Balanced.put (hfind : rib.ribEntries.find entry.pfx = some old)
    (hents : rib'.ribEntries = rib.ribEntries.put entry)
    (hcnt : ∀ v g, rib'.ribCounters v g + old.count v g = rib.ribCounters v g + entry.count v g) :
    rib'.Balanced := by
  intro v g
  have hsum := Keyed.sum_put_of_some hfind fun entry => entry.count v g
  have hdelta := hcnt v g
  rw [h v g] at hdelta
  rw [hents]
  exact add_right_cancel (hdelta.trans hsum.symm)

theorem Balanced.put_same (hfind : rib.ribEntries.find entry.pfx = some old)
    (hents : rib'.ribEntries = rib.ribEntries.put entry)
    (hcnt : rib'.ribCounters = rib.ribCounters) (hcount : ∀ v g, entry.count v g = old.count v g) :
    rib'.Balanced :=
  h.put hfind hents fun v g => by rw [hcnt, hcount]

theorem Balanced.modify {f : RibEntry F → RibEntry F}
    (hf : ∀ entry, (f entry).pfx = entry.pfx) (hents : rib'.ribEntries = rib.ribEntries.modify f hf)
    (hcnt : rib'.ribCounters = rib.ribCounters) (hcount : ∀ entry v g, (f entry).count v g = entry.count v g) :
    rib'.Balanced := by
  intro v g
  rw [hcnt, h v g, hents]
  show (rib.ribEntries.items.map _).sum = ((rib.ribEntries.items.map f).map _).sum
  rw [List.map_map]
  exact congrArg List.sum (List.map_congr_left fun entry _ => (hcount entry v g).symm)

theorem Balanced.emplaceEntry {pfx : CIDRNetwork} (hfind : rib.ribEntries.find pfx = none) :
    (rib.emplaceEntry pfx).2.Balanced := by
  intro v g
  rw [RibBase.emplaceEntry, hfind]
  have hsum := Keyed.sum_put_of_none (t := rib.ribEntries) (x := ({ pfx } : RibEntry F)) hfind fun entry => entry.count v g
  refine Eq.trans ?_ hsum.symm
  show rib.ribCounters.onPrefixAdded pfx.addr.isV4 pfx.len v g = _
  rw [RibCounters.onPrefixAdded, RibCounters.adjust_apply, RibCounters.adjust_apply, h v g, RibEntry.count_eq]
  show _ = _ + _ + (if _ then ((0 : Nat) : Int) else 0) + (if _ then ((0 : Nat) : Int) else 0) + _ + _
  simp only [Nat.cast_zero, ite_self, RibCounters.sourceCount, bestpathSource, Option.map_none, reduceCtorEq, and_false,
    if_false]
  ring

/-- An entry without a path and without a best path takes along all that it counted. -/
theorem Balanced.eraseEntry (hfind : rib.ribEntries.find entry.pfx = some entry) (hpaths : entry.getAllPathsCnt = 0)
    (hbest : entry.bestpath = none) : (rib.eraseEntry entry).Balanced := by
  intro v g
  have hsum := Keyed.sum_erase_of_some hfind fun entry => entry.count v g
  refine Eq.trans ?_ (eq_sub_of_add_eq hsum).symm
  show rib.ribCounters.onPrefixRemoved entry.pfx.addr.isV4 entry.pfx.len entry.inactivePathCount v g = _
  rw [RibCounters.onPrefixRemoved, RibCounters.onInactivePathsDelta_apply, RibCounters.adjust_apply,
    RibCounters.adjust_apply, h v g, RibEntry.count_eq]
  simp only [RibCounters.sourceCount, bestpathSource]
  grind

theorem Balanced.pathUpdated {updated : RibEntry F}
    (hfind : rib.ribEntries.find entry.pfx = some entry) {infos : RouteInfos F} {needPathSelection : Bool}
    (heq : updated = { entry with routeInfos := infos, needPathSelection }) (nexthops : NexthopInfoMap) :
    (rib.pathUpdated entry updated nexthops).Balanced := by
  have hpfx : updated.pfx = entry.pfx := heq ▸ rfl
  have hinact : updated.inactivePathCount = entry.inactivePathCount := heq ▸ rfl
  have hbest : updated.bestpath = entry.bestpath := heq ▸ rfl
  refine h.put (hpfx ▸ hfind) rfl fun v g => ?_
  show rib.ribCounters.onPathsDelta entry.pfx.addr.isV4 ((updated.getAllPathsCnt : Int) - entry.getAllPathsCnt) v g + _ = _
  rw [RibCounters.onPathsDelta_apply, RibEntry.count_eq, RibEntry.count_eq, hpfx, hinact, hbest]
  split
  · ring
  · ring

end

variable {rib : RibBase F} [DecidableEq F]

theorem announceClosed_balanced : AnnounceClosed (Balanced (F := F)) where
  localRoutes _ _ h := h
  emplaced _ _ hfind h := h.emplaceEntry hfind
  updated rib entry peer attrs install pathId nexthops hfind h := by
    obtain ⟨infos, needPathSelection, heq⟩ := entry.exists_updatePath_eq rib.nextObject peer attrs install pathId
    exact h.pathUpdated hfind heq nexthops

/-- The FIB has heard of every entry that has a best path, of some of the prefixes. -/
def Programmed (withdrawn : CIDRNetwork → Prop) (rib : RibBase F) : Prop :=
  ∀ entry ∈ rib.ribEntries.items, withdrawn entry.pfx → entry.bestpath.isSome → entry.hasFibOutState

theorem ribInClosed_balanced (withdrawn : CIDRNetwork → Prop) :
    RibInClosed withdrawn fun rib : RibBase F => rib.Balanced ∧ rib.Programmed withdrawn where
  localRoutes _ _ h := h
  emplaced rib pfx hfind h := by
    refine ⟨h.1.emplaceEntry hfind, fun entry hentry hpfx hbest => ?_⟩
    rw [RibBase.emplaceEntry, hfind] at hentry
    rcases Keyed.mem_put.mp hentry with rfl | ⟨hentry, -⟩
    · cases hbest
    · exact h.2 entry hentry hpfx hbest
  updated rib entry peer attrs install pathId nexthops hfind h := by
    obtain ⟨infos, needPathSelection, heq⟩ := entry.exists_updatePath_eq rib.nextObject peer attrs install pathId
    refine ⟨h.1.pathUpdated hfind heq nexthops, fun found hfound hpfx hbest => ?_⟩
    rcases Keyed.mem_put.mp hfound with rfl | ⟨hfound, -⟩
    · rw [heq] at hpfx hbest ⊢
      exact h.2 entry (Keyed.find_eq_some_iff.mp hfind).1 hpfx hbest
    · exact h.2 found hfound hpfx hbest
  erased rib entry hpfx hfind hfib hpaths h := by
    have hbest : entry.bestpath = none := by
      by_contra hsome
      have hprog := h.2 entry (Keyed.find_eq_some_iff.mp hfind).1 hpfx (Option.isSome_iff_ne_none.mpr hsome)
      cases hfib.symm.trans hprog
    have hcount : entry.getAllPathsCnt = 0 := entry.routeInfos.count_eq.trans (List.length_eq_zero_iff.mpr hpaths)
    exact ⟨h.1.eraseEntry hfind hcount hbest, fun found hfound => h.2 found (Keyed.mem_erase.mp hfound).1⟩

omit [DecidableEq F] in
/-- A selection moves the prefix to the bucket of its new best path and counts its inactive paths anew. -/
theorem Balanced.reselected (h : rib.Balanced) {object : Nat}
    {bestChanged nhChanged : Bool} (hfind : rib.ribEntries.find entry.pfx = some old)
    (hsel : RibEntry.Selected object old entry bestChanged nhChanged) :
    (rib.reselected old entry).Balanced := by
  have hpfx : entry.pfx = old.pfx := congrArg EntryFrame.pfx hsel.frame
  have hpaths : entry.getAllPathsCnt = old.getAllPathsCnt := by
    rw [RibEntry.getAllPathsCnt_eq, RibEntry.getAllPathsCnt_eq, hsel.routes]
  refine h.put hfind rfl fun v g => ?_
  show ((rib.ribCounters.onBestpathSourceChanged entry.pfx.addr.isV4 (bestpathSource old.bestpath)
    (bestpathSource entry.bestpath)).onInactivePathsDelta entry.pfx.addr.isV4
      ((entry.inactivePathCount : Int) - old.inactivePathCount)) v g + _ = _
  rw [RibCounters.onInactivePathsDelta_apply, RibCounters.onBestpathSourceChanged_apply, RibEntry.count_eq,
    RibEntry.count_eq, hpfx, hpaths]
  split
  · ring
  · ring

omit [DecidableEq F] in
/-- Neither marking, committing nor erasing an entry without a best path puts the counters out of balance. -/
theorem stepClosed_balanced : StepClosed (fun entry : RibEntry F => entry.bestpath = none) Balanced where
  congr h hents _ hcnt v g := by
    rw [hcnt, hents]
    exact h v g
  required rib condition h := by
    refine h.modify (RibEntry.pfx_requirePathSelectionIf condition) rfl rfl fun entry v g => ?_
    unfold RibEntry.requirePathSelectionIf
    split <;> rfl
  marked rib fibBatchList h := by
    refine h.modify (RibEntry.pfx_markFibOutStatePresentIf fibBatchList) rfl rfl fun entry v g => ?_
    unfold RibEntry.markFibOutStatePresentIf
    split <;> rfl
  reselected _ _ _ _ _ _ hfind hsel h := h.reselected hfind hsel
  committed rib entry committed hfind hpfx hinfos hinact hbest h := by
    refine h.put_same (hpfx ▸ hfind) rfl rfl fun v g => ?_
    have hpaths : committed.getAllPathsCnt = entry.getAllPathsCnt := congrArg RouteInfos.allPathsCount hinfos
    unfold RibEntry.count
    rw [hpfx, hpaths, hinact, hbest]
  erased _ _ hfind hpaths hbest h := h.eraseEntry hfind hpaths hbest
  erasable _ _ hcom hbest := hcom.trans hbest

/-- The action erases no entry that has a best path: a withdrawal finds those of its prefixes, and of the prefixes that
contain them, programmed, and a prefix whose deletion the FIB acknowledges has been selected anew since its last path
went. -/
def ErasesDeselected (rib : RibBase F) : RibAction F → Prop
  | .withdrawal _ _ pfxPathIds => rib.Programmed fun pfx => ∃ x ∈ pfxPathIds, isSubnet x.1 pfx
  | .fibMessage => ∀ message ∈ rib.fromFibMessageQ.head?, ∀ x ∈ message.fibProgrammedPfxs.flatten,
      StepClosed.Erasable (fun entry => entry.bestpath = none) x rib
  | _ => True

theorem Balanced.exec (h : rib.Balanced) (config : SelectionConfig F) {action : RibAction F}
    (herases : rib.ErasesDeselected action) : (rib.exec config action).Balanced := by
  refine stepClosed_balanced.exec h config (fun cache peer attrs pfxPathIds _ => ?_)
    (fun cache peer pfxPathIds hwithdrawal => ?_) fun hmsg => ?_
  · exact announceClosed_balanced.processRibInAnnouncement config cache h peer attrs pfxPathIds
  · subst hwithdrawal
    have hclosed := ribInClosed_balanced (F := F) fun pfx => ∃ x ∈ pfxPathIds, isSubnet x.1 pfx
    exact (hclosed.processRibInWithdrawal config cache ⟨h, herases⟩ peer pfxPathIds fun x hx _ hsub => ⟨x, hx, hsub⟩).1
  · subst hmsg
    exact herases

end RibBase

/-- The runs of a RIB in which no entry is erased while it has a best path. -/
def deselectingSystem [Zero F] [DecidableEq F] (config : SelectionConfig F)
    (localRoutes : Keyed (LocalRoute.pfx (F := F))) : System (RibBase F) (RibAction F) where
  init := (ribSystem config localRoutes).init
  enabled rib action := rib.Enabled action ∧ rib.ErasesDeselected action
  exec := RibBase.exec config

namespace RibBase

/-- While no entry is erased that has a best path, every counter is what a recount over the entries gives. -/
theorem balanced_of_reachable [Zero F] [DecidableEq F] (config : SelectionConfig F)
    (localRoutes : Keyed (LocalRoute.pfx (F := F))) (rib : RibBase F)
    (h : Reachable (deselectingSystem config localRoutes) rib) : rib.Balanced := by
  induction h with
  | init => exact fun _ _ => rfl
  | step _ hen ih => exact ih.exec config hen.2

/-- A path that the FIB has programmed was withdrawn. -/
def withdrawnRib : RibBase Nat :=
  sampleSystem.exec programmedRib (.withdrawal (fun _ => none) (ebgpPeer 1) [(samplePrefix, 0)])

theorem balanced_withdrawnRib : withdrawnRib.Balanced := by
  let sys := deselectingSystem plainConfig (.empty : Keyed (LocalRoute.pfx (F := Nat)))
  have hann : Reachable sys announcedRib := .step .init ⟨trivial, trivial⟩
  have hsel : Reachable sys selectedRib := .step hann ⟨enabled_announcedRib, trivial⟩
  have hprg : Reachable sys programmingRib := .step hsel ⟨enabled_selectedRib, trivial⟩
  have hprog : Reachable sys programmedRib := .step hprg ⟨enabled_programmingRib, trivial⟩
  have hall : (programmedRib.ribEntries.items.all fun entry => entry.hasFibOutState) = true := by decide +kernel
  exact balanced_of_reachable plainConfig .empty withdrawnRib
    (.step hprog ⟨trivial, fun entry hentry _ _ => List.all_eq_true.mp hall entry hentry⟩)

/-- A path that is withdrawn between its selection and its programming stays counted as the source of a best path. -/
theorem exists_unbalanced : ∃ rib, Reachable sampleSystem rib ∧ ¬rib.Balanced := by
  let action : RibAction Nat := .withdrawal (fun _ => none) (ebgpPeer 1) [(samplePrefix, 0)]
  refine ⟨sampleSystem.exec selectedRib action, .step reachable_selectedRib trivial, fun h => ?_⟩
  have hleft : (sampleSystem.exec selectedRib action).ribCounters true (.source .ebgp) ≠
      (sampleSystem.exec selectedRib action).ribEntries.sum fun entry => entry.count true (.source .ebgp) := by
    decide +kernel
  exact hleft (h true (.source .ebgp))

end RibBase

end FbossBgp.Rib
