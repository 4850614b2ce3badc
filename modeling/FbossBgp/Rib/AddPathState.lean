import FbossBgp.Rib.AddPathEntry

/-! What the RIB has pushed to the peers that take more than the best path, against what its entries have advertised
and what they still wait to advertise: received updates, selection passes and the FIB's batches. -/

namespace FbossBgp.Rib

open BgpLib Replay List Keyed

variable {F : Type} [Zero F]

namespace RibBase

def Told (entry : Option (RibEntry F)) (nexthop : IPAddress) (attrs : BgpPath F) : Prop :=
  ∃ e, entry = some e ∧ e.advertisedBestpath.isSome ∧ Carries e.advertisedMultipaths nexthop attrs

/-- Peers know what the entries have advertised, and an entry that has something else to advertise waits for it. -/
structure AddPathSound (waits : FibProgrammedPfx → Prop) (rib : RibBase F) : Prop where
  entries : ∀ entry ∈ rib.ribEntries.items, entry.AddPathConsistent
  said : ∀ pfx nexthop attrs, (rib.ribOut.addPathTable (pfx, nexthop)).map SharedPtr.val = some attrs ↔
    Told (rib.ribEntries.find pfx) nexthop attrs
  waiting : ∀ entry ∈ rib.ribEntries.items, entry.bestpath ≠ none → entry.multipathChanged = true →
    waits (entry.pfx, entry.weightedNexthops)

variable {rib rib' : RibBase F} {waits waits' : FibProgrammedPfx → Prop} {entry old : RibEntry F}

theorem told_some {nexthop : IPAddress} {attrs : BgpPath F} : Told (some entry) nexthop attrs ↔
    entry.advertisedBestpath.isSome ∧ Carries entry.advertisedMultipaths nexthop attrs := by
  constructor
  · rintro ⟨e, heq, htold⟩
    exact Option.some.inj heq ▸ htold
  · exact fun htold => ⟨entry, rfl, htold⟩

theorem not_told_none {nexthop : IPAddress} {attrs : BgpPath F} : ¬Told (F := F) none nexthop attrs := by
  rintro ⟨e, heq, -⟩
  exact nomatch heq

section

variable (h : rib.AddPathSound waits)
include h

theorem AddPathSound.put (hents : rib'.ribEntries = rib.ribEntries.put entry) (hentry : entry.AddPathConsistent)
    (hsaid : ∀ nexthop attrs, (rib'.ribOut.addPathTable (entry.pfx, nexthop)).map SharedPtr.val = some attrs ↔
      entry.advertisedBestpath.isSome ∧ Carries entry.advertisedMultipaths nexthop attrs)
    (hothers : ∀ pfx nexthop, pfx ≠ entry.pfx →
      rib'.ribOut.addPathTable (pfx, nexthop) = rib.ribOut.addPathTable (pfx, nexthop))
    (hwaits : ∀ x, x.1 ≠ entry.pfx → waits x → waits' x)
    (hwaiting : entry.bestpath ≠ none → entry.multipathChanged = true → waits' (entry.pfx, entry.weightedNexthops)) :
    rib'.AddPathSound waits' := by
  refine ⟨fun other hother => ?_, fun pfx nexthop attrs => ?_, fun other hother hbest hch => ?_⟩
  · rw [hents] at hother
    rcases mem_put.mp hother with rfl | ⟨hother, -⟩
    · exact hentry
    · exact h.entries other hother
  · rw [hents]
    by_cases hpfx : pfx = entry.pfx
    · rw [hpfx, find_put_self, told_some]
      exact hsaid nexthop attrs
    · rw [hothers pfx nexthop hpfx, find_put_of_ne hpfx]
      exact h.said pfx nexthop attrs
  · rw [hents] at hother
    rcases mem_put.mp hother with rfl | ⟨hother, hne⟩
    · exact hwaiting hbest hch
    · exact hwaits _ hne (h.waiting other hother hbest hch)

theorem AddPathSound.put_same (hfind : rib.ribEntries.find entry.pfx = some old)
    (hents : rib'.ribEntries = rib.ribEntries.put entry) (hout : rib'.ribOut = rib.ribOut)
    (hentry : entry.AddPathConsistent) (hbest : entry.advertisedBestpath = old.advertisedBestpath)
    (hmps : entry.advertisedMultipaths = old.advertisedMultipaths)
    (hwaits : ∀ x, x.1 ≠ entry.pfx → waits x → waits' x)
    (hwaiting : entry.bestpath ≠ none → entry.multipathChanged = true → waits' (entry.pfx, entry.weightedNexthops)) :
    rib'.AddPathSound waits' := by
  refine h.put hents hentry (fun nexthop attrs => ?_) (fun pfx nexthop _ => by rw [hout]) hwaits hwaiting
  rw [hout, h.said, hfind, told_some, hbest, hmps]

theorem AddPathSound.erase (hfind : rib.ribEntries.find entry.pfx = some entry)
    (hadv : entry.advertisedBestpath = none) (hwaits : ∀ x, x.1 ≠ entry.pfx → waits x → waits' x) :
    (rib.eraseEntry entry).AddPathSound waits' := by
  refine ⟨fun other hother => h.entries other (mem_erase.mp hother).1, fun pfx nexthop attrs => ?_,
    fun other hother hbest hch => ?_⟩
  · show (rib.ribOut.addPathTable (pfx, nexthop)).map _ = some attrs ↔
      Told ((rib.ribEntries.erase entry.pfx).find pfx) nexthop attrs
    by_cases hpfx : pfx = entry.pfx
    · rw [hpfx, find_erase_self, h.said, hfind, told_some, hadv]
      exact iff_of_false (fun htold => nomatch htold.1) not_told_none
    · rw [find_erase_of_ne hpfx]
      exact h.said pfx nexthop attrs
  · obtain ⟨hother, hne⟩ := mem_erase.mp hother
    exact hwaits _ hne (h.waiting other hother hbest hch)

theorem AddPathSound.modify {f : RibEntry F → RibEntry F}
    (hf : ∀ entry, (f entry).pfx = entry.pfx) (hents : rib'.ribEntries = rib.ribEntries.modify f hf)
    (hout : rib'.ribOut = rib.ribOut) (hsame : ∀ entry, ∃ needPathSelection hasFibOutState,
      f entry = { entry with needPathSelection, hasFibOutState })
    (hwaits : ∀ entry ∈ rib.ribEntries.items, waits (entry.pfx, entry.weightedNexthops) →
      waits' (entry.pfx, entry.weightedNexthops)) : rib'.AddPathSound waits' := by
  refine ⟨fun entry hentry => ?_, fun pfx nexthop attrs => ?_, fun entry hentry hbest hch => ?_⟩
  · rw [hents] at hentry
    obtain ⟨kept, hkept, rfl⟩ := mem_map.mp hentry
    obtain ⟨needPathSelection, hasFibOutState, heq⟩ := hsame kept
    have hcons := h.entries kept hkept
    rw [heq]
    exact ⟨⟨hcons.ready.keys, hcons.ready.coherent, hcons.ready.multipaths_ne_nil⟩,
      hcons.advertised.keys, hcons.advertised.stale⟩
  · rw [hout, h.said, hents, find_modify]
    cases rib.ribEntries.find pfx with
    | none => exact Iff.rfl
    | some kept =>
      obtain ⟨needPathSelection, hasFibOutState, heq⟩ := hsame kept
      rw [Option.map_some, told_some, told_some, heq]
  · rw [hents] at hentry
    obtain ⟨kept, hkept, rfl⟩ := mem_map.mp hentry
    obtain ⟨needPathSelection, hasFibOutState, heq⟩ := hsame kept
    rw [heq] at hbest hch ⊢
    exact hwaits kept hkept (h.waiting kept hkept hbest hch)

theorem AddPathSound.mono (hwaits : ∀ entry ∈ rib.ribEntries.items, waits (entry.pfx, entry.weightedNexthops) →
    waits' (entry.pfx, entry.weightedNexthops)) : rib.AddPathSound waits' :=
  ⟨h.entries, h.said, fun entry hentry hbest hch => hwaits entry hentry (h.waiting entry hentry hbest hch)⟩

end

/-- A prefix waits on the batch list or for an answer about the nexthops that are selected. -/
def Waits (rib : RibBase F) (programmed : FibProgrammedPfx) : Prop :=
  programmed.1 ∈ rib.fibBatchList ∨ Acked rib.pendingAcks programmed

/-- A batch has one entry for a prefix, or several that are alike. -/
def Functional (acks : Acks) : Prop :=
  ∀ batch ∈ acks, ∀ pfx nexthops nexthops', (pfx, nexthops) ∈ batch → (pfx, nexthops') ∈ batch → nexthops = nexthops'

/-- What holds between two actions. -/
structure AddPathState (rib : RibBase F) : Prop where
  sound : rib.Sound
  addPath : rib.AddPathSound rib.Waits
  functional : Functional rib.pendingAcks

variable [DecidableEq F]

theorem ribInClosed_addPathState : RibInClosed (fun _ => True) (AddPathState (F := F)) where
  localRoutes rib localRoutes h :=
    ⟨ribInClosed_sound.localRoutes rib localRoutes h.1, ⟨h.2.entries, h.2.said, h.2.waiting⟩, h.functional⟩
  emplaced rib pfx hfind h := by
    have hsound := ribInClosed_sound.emplaced rib pfx hfind h.1
    rw [emplaceEntry, hfind] at hsound ⊢
    refine ⟨hsound, ?_, h.functional⟩
    have hnew := RibEntry.addPathConsistent_new (F := F) pfx
    refine AddPathSound.put h.2 rfl hnew (fun nexthop attrs => ?_) (fun _ _ _ => rfl) (fun _ _ hwaits => hwaits)
      fun hbest => absurd rfl hbest
    refine (h.2.said pfx nexthop attrs).trans ?_
    rw [hfind]
    exact iff_of_false not_told_none fun htold => by cases htold.1
  updated rib entry peer attrs install pathId nexthops hfind h := by
    refine ⟨ribInClosed_sound.updated rib entry peer attrs install pathId nexthops hfind h.1, ?_, h.functional⟩
    have hmem := (find_eq_some_iff.mp hfind).1
    have hentry := (h.2.entries entry hmem).updatePath (h.1.consistent.entries entry hmem).wellNumbered peer attrs
      install pathId
    have hwaiting := h.2.waiting entry hmem
    obtain ⟨infos, needPathSelection, heq⟩ := entry.exists_updatePath_eq rib.nextObject peer attrs install pathId
    generalize (entry.updatePath rib.nextObject peer attrs install pathId).1 = updated at hentry heq
    have hpfx : updated.pfx = entry.pfx := heq ▸ rfl
    refine h.2.put_same (hpfx ▸ hfind) rfl rfl hentry (heq ▸ rfl) (heq ▸ rfl) (fun _ _ hwaits => hwaits) fun hbest hch => ?_
    rw [heq] at hbest hch ⊢
    exact hwaiting hbest hch
  erased rib entry hpfx hfind hfib hpaths h := by
    refine ⟨ribInClosed_sound.erased rib entry hpfx hfind hfib hpaths h.1, ?_, h.functional⟩
    have hentry := h.1.consistent.entries entry (find_eq_some_iff.mp hfind).1
    refine h.2.erase hfind (hentry.advertised_of_fibOut hfib) fun x hne hwaits => ?_
    exact hwaits.imp_left fun hmem => mem_filter.mpr ⟨hmem, decide_eq_true hne⟩

theorem addPathTable_withdrawEntry (rib : RibBase F) (h : rib.ribOut.announcementAddPath = []) (entry : RibEntry F)
    (key : PathKey) : (rib.withdrawEntry entry).ribOut.addPathTable key =
      if key.1 = entry.pfx ∧ key.2 ∈ weightedKeys entry.advertisedWeightedNexthops then none
      else rib.ribOut.addPathTable key := by
  let start := rib.ribOut.flushFullWithdrawal.incrementRibVersion
  have hstart : rib.ribOut.SameAddPaths start :=
    (RibOut.sameAddPaths_flushFullWithdrawal _).trans (RibOut.sameAddPaths_incrementRibVersion _)
  have hnone : start.announcedAddPaths = [] := by
    rw [RibOut.announcedAddPaths, hstart.announcementAddPath, h, map_nil]
  have hwds : RibOut.Says ((weightedKeys entry.advertisedWeightedNexthops).map fun nexthop => ((entry.pfx, nexthop), none))
      start (handleFullAddPathWithdrawal entry start) := by
    have hapart : start.Apart := fun _ _ => hnone ▸ not_mem_nil
    unfold handleFullAddPathWithdrawal weightedKeys
    cases entry.advertisedWeightedNexthops with
    | none => exact .refl hapart
    | some nexthops =>
      dsimp only [Option.map_some]
      rw [← foldl_map (f := Prod.fst)]
      exact RibOut.says_foldl_withdrawAddPath hapart fun nexthop _ => hnone ▸ not_mem_nil
  split
  next hkey =>
    obtain ⟨said, hevent, hval⟩ := hwds.exists_table_eq (k := key)
      (by rw [List.map_map]; exact mem_map.mpr ⟨key.2, hkey.2, Prod.ext hkey.1.symm rfl⟩)
    obtain ⟨nexthop, -, heq⟩ := mem_map.mp hevent
    exact hval.trans (congrArg Prod.snd heq).symm
  next hkey =>
    rw [← hstart.addPathTable]
    refine hwds.table_of_not_mem fun hmem => hkey ?_
    rw [List.map_map] at hmem
    obtain ⟨nexthop, hnh, rfl⟩ := mem_map.mp hmem
    exact ⟨rfl, hnh⟩

/-- A pass that has still to visit some entries. In a full sync these wait on no list yet. -/
structure AddPathPassing (config : SelectionConfig F) (fullSync : Bool) (acks : Acks) (nexthops : NexthopInfoMap)
    (todo : List CIDRNetwork) (rib : RibBase F) : Prop where
  passing : rib.Passing acks
  addPath : rib.AddPathSound fun x => x.1 ∈ rib.fibBatchList ∨ Acked acks x ∨ fullSync = true ∧ x.1 ∈ todo
  nexthopInfoMap : rib.nexthopInfoMap = nexthops
  selectsWell : ∀ pfx ∈ todo, ∀ entry, rib.ribEntries.find pfx = some entry →
    fullSync = true ∨ entry.needPathSelection = true → entry.SelectsWell config nexthops

variable {rib : RibBase F} {config : SelectionConfig F} {fullSync : Bool} {order : List CIDRNetwork}
  {nexthops : NexthopInfoMap} {acks : Acks}

/-- What the selection of one entry does to what peers know of its paths. -/
theorem AddPathSound.reselected (h : rib.AddPathSound waits)
    (hout : rib.ribOut.announcementAddPath = []) {object : Nat} {bestChanged nhChanged : Bool}
    (hfind : rib.ribEntries.find entry.pfx = some old)
    (hsel : RibEntry.Selected object old entry bestChanged nhChanged) (hready : entry.AddPathReady)
    (hgone : entry.bestpath = none → old.advertisedBestpath.isSome → ∀ x ∈ old.advertisedMultipaths, ∀ r ∈ old.routes,
      r.object ≠ x.2.object) (hwaits : ∀ x, x.1 ≠ entry.pfx → waits x → waits' x)
    (hwaiting : entry.multipathChanged = true → waits' (entry.pfx, entry.weightedNexthops)) :
    ((rib.reselected old entry).withdrawIf (needsWithdrawal bestChanged nhChanged entry) entry).AddPathSound
      waits' := by
  have hentry := (h.entries old (find_eq_some_iff.mp hfind).1).selected hsel hready
  have hbest : entry.advertisedBestpath = old.advertisedBestpath := congrArg EntryFrame.advertisedBestpath hsel.frame
  have hmps : entry.advertisedMultipaths = old.advertisedMultipaths :=
    congrArg EntryFrame.advertisedMultipaths hsel.frame
  cases hneeds : needsWithdrawal bestChanged nhChanged entry with
  | false => exact h.put_same hfind rfl rfl hentry hbest hmps hwaits fun _ => hwaiting
  | true =>
    have hnone := bestpath_of_needsWithdrawal hsel hneeds
    obtain ⟨ribVersion, hents⟩ := exists_ribEntries_withdrawEntry rib old entry
    have hwd := hentry.withdrawn hnone (hsel.bestpath_eq_none_iff.mp hnone) (by
      rw [hbest, hmps, hsel.routes]
      exact hgone hnone) ribVersion
    have htable := addPathTable_withdrawEntry (rib.reselected old entry) hout entry
    refine h.put hents hwd (fun nexthop attrs => ?_) (fun pfx nexthop hne => ?_)
      hwaits fun hne => absurd hnone hne
    · -- each path that peers know has one of the nexthops that are withdrawn
      refine iff_of_false (fun hknown => ?_) fun htold => by cases htold.1.symm.trans (congrArg Option.isSome hnone)
      rw [withdrawIf, if_pos rfl, htable] at hknown
      split at hknown
      · cases hknown
      next hkept =>
        have htold := (h.said entry.pfx nexthop attrs).mp hknown
        rw [hfind, told_some] at htold
        obtain ⟨x, hx, hnh, -⟩ := htold.2
        refine hkept ⟨rfl, ?_⟩
        rw [hentry.advertised.keys (hbest ▸ htold.1), hmps]
        exact hnh ▸ mem_map_of_mem hx
    · rw [withdrawIf, if_pos rfl, htable, if_neg fun hkey => hne hkey.1]
      rfl

/-- The selection of one entry leaves the nexthops and the other entries alone. -/
theorem withdrawIf_others (rib : RibBase F) (old entry : RibEntry F) (withdrawal : Bool) :
    ((rib.reselected old entry).withdrawIf withdrawal entry).nexthopInfoMap = rib.nexthopInfoMap ∧
      ∀ pfx ≠ entry.pfx, ((rib.reselected old entry).withdrawIf withdrawal entry).ribEntries.find pfx =
        rib.ribEntries.find pfx := by
  cases withdrawal with
  | false => exact ⟨rfl, fun pfx hne => find_put_of_ne hne⟩
  | true =>
    refine ⟨rfl, fun pfx hne => ?_⟩
    obtain ⟨ribVersion, hents⟩ := exists_ribEntries_withdrawEntry rib old entry
    rw [withdrawIf, if_pos rfl, hents]
    exact find_put_of_ne hne

theorem AddPathPassing.prepareEntry
    {pfx : CIDRNetwork} {todo : List CIDRNetwork}
    (h : rib.AddPathPassing config fullSync acks nexthops (pfx :: todo)) (hfresh : pfx ∉ todo) :
    (rib.prepareEntry config fullSync pfx).AddPathPassing config fullSync acks nexthops todo := by
  have hpass := h.passing.prepareEntry config fullSync pfx
  rcases prepareEntry_spec config fullSync rib pfx with ⟨heq, hskip⟩ | ⟨old, bestpathChanged, nexthopChanged, entry,
    list, hfind, hselect, hsel, rfl, heq, hlist, hvis⟩
  · rw [heq] at hpass ⊢
    refine ⟨hpass, h.addPath.mono fun entry hentry hwaits => ?_, h.nexthopInfoMap, fun p hp =>
      h.selectsWell p (mem_cons_of_mem _ hp)⟩
    refine hwaits.imp_right (.imp_right fun ⟨hfull, hmem⟩ => ⟨hfull, (mem_cons.mp hmem).resolve_left ?_⟩)
    rintro rfl
    exact nomatch hfull.symm.trans (hskip entry (find_key hentry)).1
  · have hwell := h.selectsWell _ mem_cons_self old hfind hvis
    have hready : (old.selectBestPath config rib.nexthopInfoMap rib.nextObject).2.2.AddPathReady :=
      (h.nexthopInfoMap ▸ hwell).addPathReady rib.nextObject
    have helig : entry.bestpath = none → old.eligible config nexthops = [] := by
      intro hnone
      rw [← h.nexthopInfoMap]
      have hbest : (old.selectBestPath config rib.nexthopInfoMap rib.nextObject).2.2.bestpath = none := hselect ▸ hnone
      exact RibEntry.eligible_eq_nil_of_bestpath hbest
    rw [hselect] at hready
    have hsound : ((rib.reselected old entry).withdrawIf (needsWithdrawal bestpathChanged nexthopChanged entry)
        entry).AddPathSound fun x => x.1 ∈ list ∨ Acked acks x ∨ fullSync = true ∧ x.1 ∈ todo := by
      refine h.addPath.reselected h.passing.announcementAddPath hfind hsel hready
        (fun hnone => hwell.gone (helig hnone)) (fun x hne hwaits => ?_) fun hch => ?_
      · exact hwaits.imp (fun hmem => (hlist x.1).mpr (.inl hmem)) (.imp_right fun ⟨hfull, hmem⟩ =>
          ⟨hfull, (mem_cons.mp hmem).resolve_left hne⟩)
      · refine .inl ((hlist entry.pfx).mpr (.inr ⟨rfl, ?_⟩))
        simp [needsFib, hch]
    obtain ⟨hmap, hothers⟩ := withdrawIf_others rib old entry (needsWithdrawal bestpathChanged nexthopChanged entry)
    rw [heq] at hpass ⊢
    refine ⟨hpass, ⟨hsound.entries, hsound.said, hsound.waiting⟩, hmap.trans h.nexthopInfoMap, fun p hp e he => ?_⟩
    have hne : p ≠ entry.pfx := fun heq => hfresh (heq ▸ hp)
    exact h.selectsWell p (mem_cons_of_mem _ hp) e ((hothers p hne).symm.trans he)

theorem AddPathPassing.foldl
    (h : rib.AddPathPassing config fullSync acks nexthops order) (hnodup : order.Nodup) :
    (order.foldl (RibBase.prepareEntry config fullSync) rib).AddPathPassing config fullSync acks nexthops [] := by
  induction order generalizing rib with
  | nil => exact h
  | cons pfx order ih =>
    obtain ⟨hfresh, hnodup⟩ := nodup_cons.mp hnodup
    exact ih (h.prepareEntry hfresh) hnodup

def PassSelectsWell (config : SelectionConfig F) (fullSync : Bool) (rib : RibBase F) : Prop :=
  ∀ entry ∈ rib.ribEntries.items, fullSync = true ∨ entry.needPathSelection = true →
    entry.SelectsWell config rib.nexthopInfoMap

section

variable (h : rib.AddPathState)
include h

theorem AddPathState.clearForFullSync
    (hwell : rib.PassSelectsWell config fullSync) (horder : rib.IsOrder order) :
    (rib.clearForFullSync fullSync).AddPathPassing config fullSync rib.pendingAcks rib.nexthopInfoMap order := by
  have hpass := h.sound.clearForFullSync fullSync
  have hvisits : ∀ pfx ∈ order, ∀ entry, rib.ribEntries.find pfx = some entry →
      fullSync = true ∨ entry.needPathSelection = true → entry.SelectsWell config rib.nexthopInfoMap :=
    fun pfx _ entry hfind => hwell entry (find_eq_some_iff.mp hfind).1
  cases fullSync with
  | false =>
    refine ⟨hpass, h.addPath.mono fun entry _ hwaits => ?_, rfl, hvisits⟩
    exact hwaits.imp_right .inl
  | true =>
    refine ⟨hpass, ⟨h.addPath.entries, h.addPath.said, fun entry hentry _ _ => .inr (.inr ⟨rfl, ?_⟩)⟩, rfl, hvisits⟩
    exact horder.mem_iff.mpr (mem_map_of_mem hentry)

theorem AddPathState.prepareFibProgramming (hwell : rib.PassSelectsWell config fullSync)
    (horder : rib.IsOrder order) : (rib.prepareFibProgramming config fullSync order).AddPathState := by
  have hsound := h.sound.prepareFibProgramming config fullSync order
  have hnodup : order.Nodup := horder.nodup_iff.mpr rib.ribEntries.keys_nodup
  have hpassed := (h.clearForFullSync hwell horder).foldl hnodup
  unfold RibBase.prepareFibProgramming at hsound ⊢
  generalize order.foldl (RibBase.prepareEntry config fullSync) (rib.clearForFullSync fullSync) = passed at hsound hpassed
  have htable := RibOut.addPathTable_flushWithdrawals hpassed.passing.announcementAddPath
  have hpend := hpassed.passing.pendingAcks
  have hadd : AddPathSound (fun x => x.1 ∈ passed.fibBatchList ∨ Acked rib.pendingAcks x)
      { passed with ribOut := passed.ribOut.flushWithdrawals } := by
    refine ⟨hpassed.addPath.entries, fun pfx nexthop attrs => ?_, fun entry hentry hbest hch => ?_⟩
    · rw [htable]
      exact hpassed.addPath.said pfx nexthop attrs
    · exact (hpassed.addPath.waiting entry hentry hbest hch).imp_right fun hwaits =>
        hwaits.resolve_right fun htodo => not_mem_nil htodo.2
  unfold RibBase.triggerFibProgramming at hsound ⊢
  dsimp only at hsound
  rw [← hpend] at hadd
  split at hsound
  next hidle =>
    rw [if_pos hidle]
    exact ⟨hsound, hadd, fun batch hbatch => h.functional batch (hpend ▸ hbatch)⟩
  next hidle =>
    rw [if_neg hidle]
    exact ⟨hsound, ⟨hadd.entries, hadd.said, hadd.waiting⟩, fun batch hbatch => h.functional batch (hpend ▸ hbatch)⟩

theorem AddPathState.requirePathSelection (condition : RibEntry F → Bool) :
    (rib.requirePathSelection condition).AddPathState := by
  refine ⟨h.sound.requirePathSelection condition, ?_, h.functional⟩
  refine h.addPath.modify (RibEntry.pfx_requirePathSelectionIf condition) rfl rfl (fun entry => ?_) fun _ _ hwaits => hwaits
  unfold RibEntry.requirePathSelectionIf
  split
  · exact ⟨true, entry.hasFibOutState, rfl⟩
  · exact ⟨entry.needPathSelection, entry.hasFibOutState, rfl⟩

theorem AddPathState.nexthopInfoMap (nexthops : NexthopInfoMap) :
    { rib with nexthopInfoMap := nexthops }.AddPathState :=
  ⟨h.sound.nexthopInfoMap nexthops, ⟨h.addPath.entries, h.addPath.said, h.addPath.waiting⟩, h.functional⟩

end

theorem acked_takeFibBatch (hfree : rib.programming = none) (fullSync : Bool) {x : FibProgrammedPfx} :
    Acked (rib.takeFibBatch fullSync).pendingAcks x ↔ Acked rib.pendingAcks x ∨ x ∈ rib.fibBatch := by
  rw [pendingAcks_takeFibBatch rib hfree]
  split
  · exact acked_append_singleton
  next hempty =>
    simp only [Bool.or_eq_true, Bool.not_eq_true', not_or, Bool.not_eq_false, List.isEmpty_iff] at hempty
    rw [hempty.2, or_iff_left List.not_mem_nil, List.append_nil]

/-- The batch that is taken has the entries that were on the list. -/
theorem AddPathState.processFibProgramming (h : rib.AddPathState) (hfree : rib.programming = none)
    (isConnected isFullSynced : Bool) : (rib.processFibProgramming isConnected isFullSynced).AddPathState := by
  have hsound := h.sound.processFibProgramming hfree isConnected isFullSynced
  unfold RibBase.processFibProgramming at hsound ⊢
  dsimp only at hsound
  split at hsound
  next hidle =>
    rw [if_pos hidle]
    exact ⟨hsound, ⟨h.addPath.entries, h.addPath.said, h.addPath.waiting⟩, h.functional⟩
  next hidle =>
    rw [if_neg hidle]
    let drained : RibBase F := { rib with toFibMessageQ := [] }
    have hpend : (drained.takeFibBatch (rib.toFibMessageQ.any id)).pendingAcks = rib.pendingAcks ++ _ :=
      pendingAcks_takeFibBatch drained hfree _
    refine ⟨hsound, ?_, fun batch hbatch => ?_⟩
    · refine h.addPath.modify (RibEntry.pfx_markFibOutStatePresentIf rib.fibBatchList) rfl rfl (fun entry => ?_)
        fun entry hentry hwaits => .inr ?_
      · unfold RibEntry.markFibOutStatePresentIf
        split
        · exact ⟨entry.needPathSelection, true, rfl⟩
        · exact ⟨entry.needPathSelection, entry.hasFibOutState, rfl⟩
      · have hacked : Acked (drained.takeFibBatch (rib.toFibMessageQ.any id)).pendingAcks
            (entry.pfx, entry.weightedNexthops) ↔ _ := acked_takeFibBatch hfree _
        refine hacked.mpr (hwaits.symm.imp_right fun hlist => ?_)
        exact mem_fibBatch.mpr ⟨hlist, entry, find_key hentry, rfl⟩
    · rcases mem_append.mp (hpend ▸ hbatch) with hold | hnew
      · exact h.functional batch hold
      · rw [mem_singleton.mp (List.mem_ite_nil_right.mp hnew).2]
        intro pfx nexthops nexthops' hmem hmem'
        obtain ⟨-, entry, hfind, heq⟩ := mem_fibBatch.mp hmem
        obtain ⟨-, entry', hfind', heq'⟩ := mem_fibBatch.mp hmem'
        dsimp only at heq heq'
        rw [← heq, ← heq', Option.some.inj (hfind.symm.trans hfind')]

theorem AddPathState.programSucceeded (h : rib.AddPathState) {batch : FibBatch}
    {groups : List (List FibProgrammedPfx)} (hprg : rib.programming = some batch)
    (hperm : groups.flatten.Perm batch.pfxs) : (rib.programSucceeded groups).AddPathState := by
  have hacks := pendingAcks_programSucceeded hprg hperm
  refine ⟨h.sound.programSucceeded hprg hperm, ⟨h.addPath.entries, h.addPath.said, ?_⟩, hacks ▸ h.functional⟩
  intro entry hentry hbest hch
  exact (h.addPath.waiting entry hentry hbest hch).imp_right (hacks ▸ ·)

end RibBase

end FbossBgp.Rib
