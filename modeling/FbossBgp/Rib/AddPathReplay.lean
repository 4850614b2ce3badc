import FbossBgp.Rib.AddPathState

/-! The paths that the RIB has pushed to the peers that take more than the best one are the selected ones of its
entries once nothing waits for the FIB. This rests on what selections find: a prefix that is withdrawn while paths stay
is not advertised again when the same paths are selected once more. -/

namespace FbossBgp.Rib

open BgpLib Replay List Transition Keyed Option

variable {F : Type} [Zero F]

namespace RibBase

variable [DecidableEq F] {entry : RibEntry F}

theorem mem_goneNexthops {before after : Option (SharedPtr WeightedNexthopMap)} (hafter : after ≠ none)
    {nexthop : IPAddress} :
    nexthop ∈ goneNexthops before after ↔ nexthop ∈ weightedKeys before ∧ nexthop ∉ weightedKeys after := by
  obtain ⟨new, rfl⟩ := ne_none_iff_exists'.mp hafter
  cases before with
  | none => exact iff_of_false not_mem_nil fun h => not_mem_nil h.1
  | some old =>
    show nexthop ∈ (old.val.filter _).map Prod.fst ↔ nexthop ∈ old.val.map Prod.fst ∧ nexthop ∉ new.val.map Prod.fst
    simp only [List.mem_map, List.mem_filter, Bool.not_eq_true', List.any_eq_false, beq_iff_eq]
    constructor
    · rintro ⟨x, ⟨hx, hnone⟩, rfl⟩
      exact ⟨⟨x, hx, rfl⟩, fun ⟨y, hy, heq⟩ => hnone y hy heq⟩
    · rintro ⟨⟨x, hx, rfl⟩, hnone⟩
      exact ⟨x, ⟨hx, fun y hy heq => hnone ⟨y, hy, heq⟩⟩, rfl⟩

/-- The paths of which some chunk will say something. -/
def pendingKeys (out : RibOut F) : List PathKey :=
  out.withdrawnAddPaths.map Prod.fst ++ out.announcedAddPaths.map Prod.fst

/-- What advertising the paths of an entry does to what peers know. -/
structure AddPathsAdvertised (entry : RibEntry F) (out out' : RibOut F) : Prop where
  self : ∀ nexthop attrs, (out'.addPathTable (entry.pfx, nexthop)).map SharedPtr.val = some attrs ↔
    Carries entry.multipaths nexthop attrs
  other : ∀ pfx nexthop, pfx ≠ entry.pfx → out'.addPathTable (pfx, nexthop) = out.addPathTable (pfx, nexthop)
  apart : out'.Apart
  pending : ∀ key ∈ pendingKeys out', key ∈ pendingKeys out ∨ key.1 = entry.pfx

/-- The selected paths are announced, and those that were advertised before and are not selected any more withdrawn. -/
theorem addPathsAdvertised_of_changed (h : entry.AddPathConsistent)
    (hnhs : entry.weightedNexthops ≠ none) {out : RibOut F} (hapart : out.Apart)
    (hfresh : ∀ key ∈ pendingKeys out, key.1 ≠ entry.pfx)
    (hknown : ∀ nexthop attrs, (out.addPathTable (entry.pfx, nexthop)).map SharedPtr.val = some attrs →
      entry.advertisedBestpath.isSome ∧ Carries entry.advertisedMultipaths nexthop attrs)
    (eor installed : Bool) :
    AddPathsAdvertised entry out (advertiseMultipaths eor
      { entry with advertisedWeightedNexthops := entry.weightedNexthops, advertisedMultipaths := entry.multipaths }
      installed (goneNexthops entry.advertisedWeightedNexthops entry.weightedNexthops) out) := by
  let committed : RibEntry F :=
    { entry with advertisedWeightedNexthops := entry.weightedNexthops, advertisedMultipaths := entry.multipaths }
  let gone := goneNexthops entry.advertisedWeightedNexthops entry.weightedNexthops
  -- an announced path has a nexthop that is not gone
  have hgone : ∀ nexthop, nexthop ∈ gone ↔
      nexthop ∈ weightedKeys entry.advertisedWeightedNexthops ∧ nexthop ∉ nexthopsOf entry.multipaths := fun nexthop =>
    (mem_goneNexthops hnhs).trans (and_congr_right fun _ => not_congr (h.ready.keys nexthop))
  have hanns : RibOut.Says (entry.multipaths.map fun x => ((entry.pfx, x.2.nexthop), some x.2.attrs)) out
      (entry.multipaths.foldl (fun out x => out.announceAddPath eor (announcementOf committed x.2 x.1 installed)) out) := by
    refine RibOut.says_foldl_announceAddPath ?_ hapart ?_ eor
    · exact fun _ _ => ⟨rfl, rfl⟩
    · exact fun x _ hmem => hfresh _ (mem_append_left _ hmem) rfl
  have hwds : RibOut.Says (gone.map fun nexthop => ((entry.pfx, nexthop), none)) _ _ :=
    RibOut.says_foldl_withdrawAddPath hanns.apart fun nexthop hmem hann => by
      rcases hanns.announced _ hann with hold | ⟨attrs, hnew⟩
      · exact hfresh _ (mem_append_right _ hold) rfl
      · obtain ⟨x, hx, heq⟩ := List.mem_map.mp hnew
        have hnh : x.2.nexthop = nexthop := congrArg (fun event => event.1.2) heq
        exact ((hgone nexthop).mp hmem).2 (hnh ▸ mem_map_of_mem hx)
  have hsaid := hanns.trans hwds
  generalize hevents : entry.multipaths.map (fun x => ((entry.pfx, x.2.nexthop), some x.2.attrs)) ++
    gone.map (fun nexthop => ((entry.pfx, nexthop), none)) = events at hsaid
  have hmem : ∀ key said, (key, said) ∈ events ↔ key.1 = entry.pfx ∧
      ((∃ x ∈ entry.multipaths, x.2.nexthop = key.2 ∧ said = some x.2.attrs) ∨ key.2 ∈ gone ∧ said = none) := by
    intro key said
    rw [← hevents, mem_append, List.mem_map, List.mem_map]
    constructor
    · rintro (⟨x, hx, heq⟩ | ⟨nexthop, hnexthop, heq⟩) <;> cases heq
      · exact ⟨rfl, .inl ⟨x, hx, rfl, rfl⟩⟩
      · exact ⟨rfl, .inr ⟨hnexthop, rfl⟩⟩
    · obtain ⟨pfx, nexthop⟩ := key
      rintro ⟨rfl, ⟨x, hx, rfl, rfl⟩ | ⟨hgn, rfl⟩⟩
      · exact .inl ⟨x, hx, rfl⟩
      · exact .inr ⟨nexthop, hgn, rfl⟩
  refine ⟨fun nexthop attrs => ?_, fun pfx nexthop hne => hsaid.table_of_not_mem fun hkey => ?_, hsaid.apart,
    fun key hkey => ?_⟩
  · by_cases hkey : (entry.pfx, nexthop) ∈ events.map Prod.fst
    · obtain ⟨said, hevent, hval⟩ := hsaid.exists_table_eq hkey
      refine (congrArg (fun said => Option.map SharedPtr.val said = some attrs) hval).to_iff.trans ?_
      rcases ((hmem _ _).mp hevent).2 with ⟨x, hx, hnh, rfl⟩ | ⟨hgn, rfl⟩
      · rw [map_some, Option.some.injEq]
        constructor
        · exact fun hattrs => ⟨x, hx, hnh, hattrs⟩
        · rintro ⟨y, hy, hynexthop, rfl⟩
          exact h.ready.coherent x hx y hy (hnh.trans hynexthop.symm)
      · exact iff_of_false (nomatch ·) fun ⟨x, hx, hnh, _⟩ => ((hgone nexthop).mp hgn).2 (hnh ▸ mem_map_of_mem hx)
    · -- nothing is said of a path that is not selected and was not known
      have hnot : nexthop ∉ nexthopsOf entry.multipaths := fun hsel => by
        obtain ⟨x, hx, hnh⟩ := List.mem_map.mp hsel
        exact hkey (mem_map_of_mem (f := Prod.fst) ((hmem (_, nexthop) _).mpr ⟨rfl, .inl ⟨x, hx, hnh, rfl⟩⟩))
      refine iff_of_false (fun hknows => ?_) fun ⟨x, hx, hnh, _⟩ => hnot (hnh ▸ mem_map_of_mem hx)
      obtain ⟨hadv, x, hx, rfl, -⟩ := hknown nexthop attrs (hsaid.table_of_not_mem hkey ▸ hknows)
      have hgn := (hgone _).mpr ⟨(h.advertised.keys hadv _).mpr (mem_map_of_mem hx), hnot⟩
      exact hkey (mem_map_of_mem (f := Prod.fst) ((hmem (_, _) _).mpr ⟨rfl, .inr ⟨hgn, rfl⟩⟩))
  · obtain ⟨⟨key, said⟩, hevent, rfl⟩ := List.mem_map.mp hkey
    exact hne ((hmem _ _).mp hevent).1
  · rcases mem_append.mp hkey with hkey | hkey
    · exact (hsaid.withdrawn key hkey).imp (mem_append_left _) fun hnew => ((hmem _ _).mp hnew).1
    · exact (hsaid.announced key hkey).imp (mem_append_right _) fun ⟨_, hnew⟩ => ((hmem _ _).mp hnew).1

variable {rib : RibBase F} {batch : Set FibProgrammedPfx} {acks : Acks} {todo : List FibProgrammedPfx}
  {programmed : FibProgrammedPfx} {config : SelectionConfig F} (eor : Bool)

/-- Whether or not the paths of an entry changed, peers know those that are selected afterwards. -/
theorem addPathsAdvertised_advertisedAddPaths {next : Nat}
    (h : entry.AddPathConsistent) (hnum : WellNumbered entry.refs next) (hbest : entry.bestpath ≠ none)
    (hnhs : entry.weightedNexthops ≠ none) (hapart : rib.ribOut.Apart)
    (hfresh : entry.multipathChanged = true → ∀ key ∈ pendingKeys rib.ribOut, key.1 ≠ entry.pfx)
    (hknown : ∀ nexthop attrs, (rib.ribOut.addPathTable (entry.pfx, nexthop)).map SharedPtr.val = some attrs ↔
      entry.advertisedBestpath.isSome ∧ Carries entry.advertisedMultipaths nexthop attrs) (eor : Bool) :
    AddPathsAdvertised entry rib.ribOut (advertisedAddPaths eor rib entry) := by
  have hver := rib.ribOut.sameAddPaths_incrementRibVersion
  have hpend : pendingKeys rib.ribOut.incrementRibVersion = pendingKeys rib.ribOut := by
    rw [pendingKeys, hver.withdrawnAddPaths, hver.announcedAddPaths, pendingKeys]
  unfold advertisedAddPaths
  cases hch : entry.multipathChanged with
  | true =>
    rw [Bool.true_and, if_pos (isSome_iff_ne_none.mpr hbest)]
    have hadv := addPathsAdvertised_of_changed h hnhs (hver.apart hapart) (hpend ▸ hfresh hch)
      (fun nexthop attrs hknows => (hknown nexthop attrs).mp (hver.addPathTable ▸ hknows)) eor
      entry.advertisedBestpath.isNone
    exact ⟨hadv.self, fun pfx nexthop hne => (hadv.other pfx nexthop hne).trans
      (congrFun hver.addPathTable _), hadv.apart, hpend ▸ hadv.pending⟩
  | false =>
    have hsome : entry.advertisedBestpath ≠ none := fun hnone => by
      cases hch.symm.trans (h.multipathChanged hbest hnone)
    refine ⟨fun nexthop attrs => ?_, fun _ _ _ => by rw [Bool.false_and, if_neg Bool.false_ne_true, hver.addPathTable],
      hver.apart hapart, fun key hkey => .inl (hpend ▸ hkey)⟩
    rw [Bool.false_and, if_neg Bool.false_ne_true, hver.addPathTable, hknown,
      RibEntry.carries_iff_of_not_multipathChanged hnum hch,
      and_iff_right (isSome_iff_ne_none.mpr hsome)]

/-- While the answer to a batch is handled: what is said of an entry's paths in a chunk is all there is to say. -/
structure AddPathHandling (batch : Set FibProgrammedPfx) (acks : Acks) (todo : List FibProgrammedPfx) (rib : RibBase F) :
    Prop where
  handling : rib.Handling batch acks
  addPath : rib.AddPathSound fun x => x.1 ∈ rib.fibBatchList ∨ Acked acks x ∨ x ∈ todo
  apart : rib.ribOut.Apart
  settled : ∀ key ∈ pendingKeys rib.ribOut, ∀ entry, rib.ribEntries.find key.1 = some entry → entry.multipathChanged = false

theorem multipathChanged_advertised (entry : RibEntry F) (ribVersion : Nat) :
    (entry.advertised ribVersion).multipathChanged = false := by
  rw [RibEntry.multipathChanged, RibEntry.multipathsDiffer, Bool.not_eq_false', decide_eq_true_iff]
  exact List.Perm.refl _

/-- The best path is announced apart from the other paths. -/
theorem sameAddPaths_advertiseBestpath (entry : RibEntry F) (installed : Bool)
    (out : RibOut F) : out.SameAddPaths (advertiseBestpath eor entry installed out) := by
  unfold advertiseBestpath
  split
  · have hflush := out.sameAddPaths_flushFullAnnouncement eor
    exact ⟨hflush.addPathLog, hflush.withdrawalAddPath, hflush.announcementAddPath⟩
  · exact .refl out

theorem exists_advertiseEntry_sameAddPaths (rib : RibBase F) (entry : RibEntry F) :
    ∃ ribVersion out, (advertisedAddPaths eor rib entry).SameAddPaths out ∧
      rib.advertiseEntry eor entry = { rib.setEntry (entry.advertised ribVersion) with ribOut := out } := by
  obtain ⟨ribVersion, out, rfl, -, heq | ⟨heq, -⟩⟩ := advertiseEntry_spec eor rib entry
  · exact ⟨ribVersion, _, sameAddPaths_advertiseBestpath eor _ _ _, heq⟩
  · exact ⟨ribVersion, _, .refl _, heq⟩

section

variable (h : rib.AddPathHandling batch acks (programmed :: todo))
include h

theorem AddPathHandling.advertiseEntry
    (hfind : rib.ribEntries.find entry.pfx = some entry)
    (hpfx : programmed.1 = entry.pfx) (hnhs : entry.weightedNexthops ≠ none) {eor : Bool}
    (hhdl : (rib.advertiseEntry eor entry).Handling batch acks) :
    (rib.advertiseEntry eor entry).AddPathHandling batch acks todo := by
  have hmem := (find_eq_some_iff.mp hfind).1
  have hcons := h.addPath.entries entry hmem
  have htrk := h.handling.consistent.entries entry hmem
  have hbest : entry.bestpath ≠ none := mt htrk.bestpath_eq_none_iff.mp hnhs
  have hadv := addPathsAdvertised_advertisedAddPaths hcons htrk.wellNumbered hbest hnhs h.apart
    (fun hch key hkey heq => nomatch hch.symm.trans (h.settled key hkey entry (heq ▸ hfind)))
    (fun nexthop attrs => (h.addPath.said entry.pfx nexthop attrs).trans (by rw [hfind, told_some])) eor
  obtain ⟨ribVersion, out, hsame, heq⟩ := exists_advertiseEntry_sameAddPaths eor rib entry
  rw [heq] at hhdl ⊢
  have hpend : pendingKeys out = pendingKeys (advertisedAddPaths eor rib entry) := by
    rw [pendingKeys, hsame.withdrawnAddPaths, hsame.announcedAddPaths, pendingKeys]
  refine ⟨hhdl, ?_, hsame.apart hadv.apart, fun key hkey found hfound => ?_⟩
  · refine h.addPath.put rfl (hcons.advertise hbest ribVersion) (fun nexthop attrs => ?_) (fun pfx nexthop hne => ?_)
      (fun x hne => .imp_right (.imp_right fun htodo => (mem_cons.mp htodo).resolve_left fun heq => hne (heq ▸ hpfx)))
      fun _ hch => nomatch hch.symm.trans (multipathChanged_advertised entry ribVersion)
    · show (out.addPathTable (entry.pfx, nexthop)).map _ = _ ↔ entry.bestpath.isSome ∧ Carries entry.multipaths nexthop attrs
      rw [hsame.addPathTable, hadv.self, and_iff_right (isSome_iff_ne_none.mpr hbest)]
    · exact (congrFun hsame.addPathTable _).trans (hadv.other pfx nexthop hne)
  · by_cases hkeypfx : key.1 = entry.pfx
    · have hself : (rib.ribEntries.put (entry.advertised ribVersion)).find entry.pfx = some (entry.advertised ribVersion) :=
        find_put_self _ _
      cases hself.symm.trans (hkeypfx ▸ hfound)
      exact multipathChanged_advertised entry ribVersion
    · have hne : key.1 ≠ (entry.advertised ribVersion).pfx := hkeypfx
      have hold := (hadv.pending key (hpend ▸ hkey)).resolve_right hkeypfx
      exact h.settled key hold found ((find_put_of_ne hne).symm.trans hfound)

theorem AddPathHandling.skip
    (hskip : ∀ entry ∈ rib.ribEntries.items, entry.bestpath ≠ none → (entry.pfx, entry.weightedNexthops) ≠ programmed) :
    rib.AddPathHandling batch acks todo := by
  refine ⟨h.handling, ⟨h.addPath.entries, h.addPath.said, fun entry hentry hbest hch => ?_⟩, h.apart, h.settled⟩
  exact (h.addPath.waiting entry hentry hbest hch).imp_right (.imp_right fun htodo =>
    (mem_cons.mp htodo).resolve_left (hskip entry hentry hbest))

theorem AddPathHandling.handleFibProgrammedPfx
    (hmem : programmed ∈ batch) (eor : Bool) :
    (rib.handleFibProgrammedPfx eor programmed).AddPathHandling batch acks todo := by
  have hhdl := h.handling.handleFibProgrammedPfx hmem eor
  obtain ⟨pfx, nexthops⟩ := programmed
  unfold RibBase.handleFibProgrammedPfx at hhdl ⊢
  cases hfind : rib.ribEntries.find pfx with
  | none =>
    refine h.skip fun entry hentry _ heq => ?_
    have hpfx : entry.pfx = pfx := congrArg Prod.fst heq
    have hfound := find_key hentry
    rw [hpfx, hfind] at hfound
    cases hfound
  | some entry =>
    obtain ⟨hentrymem, rfl⟩ := find_eq_some_iff.mp hfind
    have hentry := h.handling.consistent.entries entry hentrymem
    rw [hfind] at hhdl
    have hunique : ∀ other ∈ rib.ribEntries.items, other.pfx = entry.pfx → other = entry := fun other hother =>
      rib.ribEntries.eq_of_key_eq hother hentrymem
    cases nexthops with
    | none =>
      -- nothing is selected where no nexthops are, so nothing waits for this
      have hskipped := h.skip fun other hother hbest heq => by
        have hsame := hunique other hother (congrArg Prod.fst heq)
        have hnone : other.weightedNexthops = none := congrArg Prod.snd heq
        exact hbest (hsame ▸ hentry.bestpath_eq_none_iff.mpr (hsame ▸ hnone))
      dsimp only at hhdl ⊢
      split at hhdl
      next herase =>
        rw [if_pos herase]
        have hadv := hentry.advertised_of_deleted ⟨batch, mem_cons_self, hmem⟩
        refine ⟨hhdl, ?_, h.apart, fun key hkey found hfound => ?_⟩
        · refine hskipped.addPath.erase hfind hadv fun x hne hwaits => ?_
          exact hwaits.imp_left fun hlist => mem_filter.mpr ⟨hlist, decide_eq_true hne⟩
        · have hfound' : (rib.ribEntries.erase entry.pfx).find key.1 = some found := hfound
          by_cases heq : key.1 = entry.pfx
          · rw [heq, find_erase_self] at hfound'
            cases hfound'
          · exact h.settled key hkey found ((find_erase_of_ne heq).symm.trans hfound')
      next herase =>
        rw [if_neg herase]
        exact hskipped
    | some nexthops =>
      dsimp only at hhdl ⊢
      split at hhdl
      next hdiffers =>
        rw [if_pos hdiffers]
        refine h.skip fun other hother _ heq => ?_
        have hsame := hunique other hother (congrArg Prod.fst heq)
        have hnhs : entry.weightedNexthops = some nexthops := hsame ▸ congrArg Prod.snd heq
        rw [RibEntry.nexthopsDiffer, hnhs, bne_self_eq_false] at hdiffers
        cases hdiffers
      next hsame =>
        rw [if_neg hsame]
        refine h.advertiseEntry hfind rfl (fun hnone => hsame ?_) hhdl
        rw [RibEntry.nexthopsDiffer, hnone]
        rfl

end

theorem AddPathHandling.foldl (h : rib.AddPathHandling batch acks todo) (hmem : ∀ x ∈ todo, x ∈ batch) (eor : Bool) :
    (todo.foldl (RibBase.handleFibProgrammedPfx eor) rib).AddPathHandling batch acks [] := by
  induction todo generalizing rib with
  | nil => exact h
  | cons x todo ih =>
    exact ih (h.handleFibProgrammedPfx (hmem x mem_cons_self) eor) fun y hy =>
      hmem y (mem_cons_of_mem _ hy)

/-- Of a group without contradictions every prefix is handled. -/
theorem mem_fibProgrammedPrefixes {group : List FibProgrammedPfx} {x : FibProgrammedPfx} (hx : x ∈ group)
    (hfun : ∀ y ∈ group, y.1 = x.1 → y = x) : x ∈ rib.fibProgrammedPrefixes group := by
  unfold fibProgrammedPrefixes
  cases hlocal : rib.localRoutes.find x.1 with
  | none => exact mem_append_right _ (mem_filter.mpr ⟨hx, by rw [hlocal]; rfl⟩)
  | some localRoute =>
    obtain ⟨hmem, hpfx⟩ := find_eq_some_iff.mp hlocal
    refine mem_append_left _ (mem_filterMap.mpr ⟨localRoute, hmem, ?_⟩)
    cases hfind : group.find? fun y => y.1 == localRoute.pfx with
    | none =>
      rw [List.find?_eq_none] at hfind
      exact absurd (beq_iff_eq.mpr hpfx.symm) (hfind x hx)
    | some y =>
      have hkey : (y.1 == localRoute.pfx) = true := by simpa using List.find?_some hfind
      have hy : y.1 = x.1 := (beq_iff_eq.mp hkey).trans hpfx
      rw [hfun y (mem_of_find?_eq_some hfind) hy]

theorem AddPathHandling.startInitialDump (h : rib.AddPathHandling batch acks todo) (eor : Bool) :
    (rib.startInitialDump eor).AddPathHandling batch acks todo := by
  have hhdl := h.handling.startInitialDump eor
  unfold RibBase.startInitialDump at hhdl ⊢
  split at hhdl
  next hsend =>
    rw [if_pos hsend]
    have hsame : rib.ribOut.SameAddPaths (rib.ribOut.push .initialAnnouncementStart) := rib.ribOut.sameAddPaths_push rfl
    refine ⟨hhdl, ⟨h.addPath.entries, fun pfx nexthop attrs => ?_, h.addPath.waiting⟩, hsame.apart h.apart, h.settled⟩
    exact (Iff.of_eq (congrArg (fun table => (table (pfx, nexthop)).map SharedPtr.val = some attrs)
      hsame.addPathTable)).trans (h.addPath.said pfx nexthop attrs)
  next hsend =>
    rw [if_neg hsend]
    exact h

/-- The answer to a batch is taken from the queue: what waited for it is handled now. -/
theorem AddPathState.handling (h : rib.AddPathState) {messages : List FibProgrammedMessage}
    (hacks : rib.pendingAcks = batch :: { rib with fromFibMessageQ := messages }.pendingAcks)
    (hall : ∀ x ∈ batch, x ∈ todo) :
    { rib with fromFibMessageQ := messages }.AddPathHandling batch { rib with fromFibMessageQ := messages }.pendingAcks
      todo := by
  have hnone : pendingKeys rib.ribOut = [] := by
    rw [pendingKeys, RibOut.withdrawnAddPaths, RibOut.announcedAddPaths, h.sound.idle.withdrawalAddPath,
      h.sound.idle.announcementAddPath]
    rfl
  have hempty : ∀ key, key ∉ pendingKeys rib.ribOut := fun key hkey => not_mem_nil (hnone ▸ hkey)
  have hcons := h.sound.consistent
  refine ⟨⟨hacks ▸ ⟨hcons.entries, hcons.acks_lt, hcons.said⟩, rfl, h.sound.idle.withdrawal⟩,
    ⟨h.addPath.entries, h.addPath.said, fun entry hentry hbest hch => ?_⟩,
    fun key hkey => (hempty key (mem_append_left _ hkey)).elim, fun key hkey => (hempty key hkey).elim⟩
  rcases h.addPath.waiting entry hentry hbest hch with hlist | ⟨waiting, hwaiting, hmem⟩
  · exact .inl hlist
  · rw [hacks] at hwaiting
    rcases mem_cons.mp hwaiting with rfl | hwaiting
    · exact .inr (.inr (hall _ hmem))
    · exact .inr (.inl ⟨waiting, hwaiting, hmem⟩)

/-- At the end of a message what is left of the chunks is pushed. -/
theorem AddPathHandling.flush (h : rib.AddPathHandling batch acks []) (hfun : Functional acks) (eor : Bool) :
    { rib with ribOut := rib.ribOut.flushProgrammedWithdrawals.flushAnnouncements eor }.AddPathState := by
  obtain ⟨-, hadd⟩ := rib.ribOut.sameBestpaths_flushProgrammedWithdrawals
  have htable := (RibOut.addPathTable_flushAnnouncements hadd eor).trans
    rib.ribOut.addPathTable_flushProgrammedWithdrawals
  have hacks : rib.pendingAcks = acks := h.handling.pendingAcks
  refine ⟨h.handling.flush eor, ⟨h.addPath.entries, fun pfx nexthop attrs => ?_,
    fun entry hentry hbest hch => ?_⟩, hacks ▸ hfun⟩
  · show (RibOut.addPathTable _ _).map _ = _ ↔ _
    rw [htable]
    exact h.addPath.said pfx nexthop attrs
  · exact (h.addPath.waiting entry hentry hbest hch).imp_right fun hwaits =>
      hacks ▸ hwaits.resolve_right not_mem_nil

theorem AddPathState.processFibMessage (h : rib.AddPathState) : rib.processFibMessage.AddPathState := by
  unfold RibBase.processFibMessage
  split
  · exact h
  next message messages hqueue =>
    let batch : Set FibProgrammedPfx := {x | x ∈ message.fibProgrammedPfxs.flatten}
    have hacks : rib.pendingAcks = batch :: { rib with fromFibMessageQ := messages }.pendingAcks := by
      rw [pendingAcks, hqueue]
      rfl
    have hall : ∀ x ∈ batch,
        x ∈ message.fibProgrammedPfxs.flatMap { rib with fromFibMessageQ := messages }.fibProgrammedPrefixes := by
      intro x hx
      obtain ⟨group, hgroup, hxgroup⟩ := mem_flatten.mp hx
      refine mem_flatMap.mpr ⟨group, hgroup, mem_fibProgrammedPrefixes hxgroup fun y hy heq => ?_⟩
      have hy' : (x.1, y.2) ∈ batch := heq ▸ mem_flatten.mpr ⟨group, hgroup, hy⟩
      exact Prod.ext heq (h.functional batch (hacks ▸ mem_cons_self) x.1 y.2 x.2 hy' hx)
    exact AddPathHandling.flush (((h.handling hacks hall).startInitialDump _).foldl
      (fun x => mem_flatten_of_mem_fibProgrammedPrefixes) _)
      (fun other hother => h.functional other (hacks ▸ mem_cons_of_mem _ hother)) _

/-- Whether peers can follow the selections of an action, and the FIB takes what it is given. -/
def FollowedBy (config : SelectionConfig F) (rib : RibBase F) : RibAction F → Prop
  | .initialPathComputation _ => rib.PassSelectsWell config true
  | .prepareFibProgramming fullSync _ => rib.PassSelectsWell config fullSync
  | .resume _ _ => rib.PassSelectsWell config true
  | .programFailed => False
  | _ => True

theorem PassSelectsWell.requirePathSelection
    (h : rib.PassSelectsWell config true) (condition : RibEntry F → Bool) (fullSync : Bool) :
    (rib.requirePathSelection condition).PassSelectsWell config fullSync := by
  intro entry hentry _
  obtain ⟨kept, hkept, rfl⟩ := mem_map.mp hentry
  have hwell := h kept hkept (.inl rfl)
  unfold RibEntry.requirePathSelectionIf
  split
  · exact ⟨hwell.gone, hwell.coherent, hwell.weights⟩
  · exact hwell

/-- Every action whose selections peers can follow keeps what holds between two actions. -/
theorem AddPathState.exec (h : rib.AddPathState) {action : RibAction F}
    (hen : rib.Enabled action) (hfollowed : rib.FollowedBy config action) :
    (rib.exec config action).AddPathState := by
  cases action with
  | announcement cache peer attrs pfxPathIds =>
    exact ribInClosed_addPathState.processRibInAnnouncement config cache h peer attrs pfxPathIds
  | withdrawal cache peer pfxPathIds =>
    exact ribInClosed_addPathState.processRibInWithdrawal config cache h peer pfxPathIds fun _ _ _ _ => trivial
  | nexthopUpdate cache nexthopStatuses =>
    exact processRibInNexthopUpdate_closed (fun _ nexthops h => h.nexthopInfoMap nexthops)
      (fun _ condition h => h.requirePathSelection condition) h config cache nexthopStatuses
  | initialPathComputation order =>
    have hrec : { rib with ribEoRReceived := true }.AddPathState :=
      ⟨⟨⟨h.sound.consistent.entries, h.sound.consistent.acks_lt, h.sound.consistent.said⟩, h.sound.idle⟩,
        ⟨h.addPath.entries, h.addPath.said, h.addPath.waiting⟩, h.functional⟩
    exact hrec.prepareFibProgramming hfollowed hen.2
  | prepareFibProgramming fullSync order => exact h.prepareFibProgramming hfollowed hen.2
  | resume fullSync order =>
    show (RibBase.processResumeBestPathAndFibProgramming config rib fullSync order).AddPathState
    unfold RibBase.processResumeBestPathAndFibProgramming
    dsimp only
    split
    · have horder : (rib.requirePathSelection fun _ => true).IsOrder order := by
        have hpfxs : (rib.requirePathSelection fun _ => true).ribEntries.items.map RibEntry.pfx =
            rib.ribEntries.items.map RibEntry.pfx := by
          show (rib.ribEntries.items.map _).map _ = _
          rw [List.map_map]
          exact List.map_congr_left fun entry _ => RibEntry.pfx_requirePathSelectionIf _ entry
        rw [IsOrder, hpfxs]
        exact hen
      exact (h.requirePathSelection _).prepareFibProgramming (hfollowed.requirePathSelection _ fullSync) horder
    · exact h.requirePathSelection _
  | fibProgramming isConnected isFullSynced =>
    exact h.processFibProgramming (isNone_iff_eq_none.mp hen.1) isConnected isFullSynced
  | programSucceeded groups =>
    obtain ⟨batch, hprg, hperm⟩ := hen
    exact h.programSucceeded hprg hperm
  | programFailed => exact hfollowed.elim
  | fibMessage => exact h.processFibMessage

/-- No prefix waits for the FIB. -/
def AllProgrammed (rib : RibBase F) : Prop := rib.fibBatchList = [] ∧ rib.programming = none ∧ rib.fromFibMessageQ = []

theorem AllProgrammed.not_waits (h : rib.AllProgrammed) (programmed : FibProgrammedPfx) : ¬rib.Waits programmed := by
  obtain ⟨hlist, hprg, hqueue⟩ := h
  rintro (hmem | ⟨batch, hbatch, -⟩)
  · rw [hlist] at hmem
    exact not_mem_nil hmem
  · rw [pendingAcks, hprg, hqueue] at hbatch
    exact not_mem_nil hbatch

/-- Where nothing waits, what the entry of a prefix has advertised is what is selected. -/
theorem AddPathState.told_iff (h : rib.AddPathState) (hprog : rib.AllProgrammed) (pfx : CIDRNetwork)
    (nexthop : IPAddress) (attrs : BgpPath F) : Told (rib.ribEntries.find pfx) nexthop attrs ↔
      ∃ entry, rib.ribEntries.find pfx = some entry ∧ Carries entry.multipaths nexthop attrs := by
  cases hfind : rib.ribEntries.find pfx with
  | none => exact iff_of_false not_told_none (by simp)
  | some entry =>
    obtain ⟨hmem, -⟩ := find_eq_some_iff.mp hfind
    have hentry := h.addPath.entries entry hmem
    have hcons := h.sound.consistent.entries entry hmem
    have hcarries : (∃ e, some entry = some e ∧ Carries e.multipaths nexthop attrs) ↔
        Carries entry.multipaths nexthop attrs := by simp
    rw [told_some, hcarries]
    by_cases hbest : entry.bestpath = none
    · rw [hcons.advertised_of_bestpath hbest, hentry.ready.multipaths_eq_nil (hcons.bestpath_eq_none_iff.mp hbest)]
      exact iff_of_false (by simp) (by simp [Carries])
    · have hsame : entry.multipathChanged = false := by
        rw [← Bool.not_eq_true]
        exact fun hch => hprog.not_waits _ (h.addPath.waiting entry hmem hbest hch)
      have hadv : entry.advertisedBestpath ≠ none := fun hnone => by
        cases hsame.symm.trans (hentry.multipathChanged hbest hnone)
      rw [RibEntry.carries_iff_of_not_multipathChanged hcons.wellNumbered hsame,
        and_iff_right (isSome_iff_ne_none.mpr hadv)]

end RibBase

variable [DecidableEq F]

/-- The runs of a RIB in which peers can follow every selection. -/
def followedSystem (config : SelectionConfig F)
    (localRoutes : Keyed (LocalRoute.pfx (F := F))) : System (RibBase F) (RibAction F) where
  init := (ribSystem config localRoutes).init
  enabled rib action := rib.Enabled action ∧ rib.FollowedBy config action
  exec := RibBase.exec config

namespace RibBase

theorem addPathState_of_reachable {config : SelectionConfig F} {localRoutes : Keyed (LocalRoute.pfx (F := F))}
    {rib : RibBase F} (h : Reachable (followedSystem config localRoutes) rib) : rib.AddPathState := by
  induction h with
  | init =>
    have hinit : Reachable (ribSystem config localRoutes) (ribSystem config localRoutes).init := .init
    refine ⟨sound_of_reachable hinit, ⟨fun _ hentry => (nomatch hentry), fun _ _ _ => ?_, fun _ hentry => (nomatch hentry)⟩,
      fun _ hbatch => (nomatch hbatch)⟩
    exact iff_of_false (fun hknows => nomatch hknows) not_told_none
  | step _ hen ih => exact ih.exec hen.1 hen.2

/-- Once nothing waits for the FIB, replaying the paths that were pushed gives for each prefix the nexthops and the
attributes of the paths that are selected. -/
theorem replay_addPathLog_of_reachable (config : SelectionConfig F) (localRoutes : Keyed (LocalRoute.pfx (F := F)))
    (rib : RibBase F) (h : Reachable (followedSystem config localRoutes) rib) (hprogrammed : rib.AllProgrammed)
    (pfx : CIDRNetwork) (nexthop : IPAddress) (attrs : BgpPath F) :
    (replay rib.ribOut.addPathLog (pfx, nexthop)).map SharedPtr.val = some attrs ↔
      ∃ entry, rib.ribEntries.find pfx = some entry ∧ Carries entry.multipaths nexthop attrs := by
  have hstate := addPathState_of_reachable h
  rw [← hstate.sound.idle.addPathTable, hstate.addPath.said]
  exact hstate.told_iff hprogrammed pfx nexthop attrs

/-- Of the one path that is there, peers can follow the selection. -/
theorem passSelectsWell_announcedRib : announcedRib.PassSelectsWell plainConfig true := by
  have hwell : ∀ entry ∈ announcedRib.ribEntries.items,
      entry.advertisedBestpath.isSome = false ∧ (entry.selection plainConfig announcedRib.nexthopInfoMap).1.length = 1 ∧
        ∀ x ∈ (entry.afterSelection plainConfig announcedRib.nexthopInfoMap).2.multipaths,
          x.2.nexthop ∈ (entry.afterSelection plainConfig announcedRib.nexthopInfoMap).1.map Prod.fst := by
    decide +kernel
  intro entry hentry _
  obtain ⟨hadv, hlen, hweights⟩ := hwell entry hentry
  refine ⟨fun _ hsome => (by cases hadv.symm.trans hsome), fun r hr r' hr' _ => ?_, hweights⟩
  obtain ⟨only, honly⟩ := length_eq_one_iff.mp hlen
  rw [honly, mem_singleton] at hr hr'
  rw [hr, hr']

theorem replay_addPathLog_advertisedRib : advertisedRib.AllProgrammed ∧
      ((replay advertisedRib.ribOut.addPathLog (samplePrefix, (attrsVia 0 1).val.nexthop)).map SharedPtr.val =
          some (attrsVia 0 1).val ↔
        ∃ entry, advertisedRib.ribEntries.find samplePrefix = some entry ∧
          Carries entry.multipaths (attrsVia 0 1).val.nexthop (attrsVia 0 1).val) := by
  let sys := followedSystem plainConfig (.empty : Keyed (LocalRoute.pfx (F := Nat)))
  have hann : Reachable sys announcedRib := .step .init ⟨trivial, trivial⟩
  have hsel : Reachable sys selectedRib := .step hann ⟨enabled_announcedRib, passSelectsWell_announcedRib⟩
  have hprg : Reachable sys programmingRib := .step hsel ⟨enabled_selectedRib, trivial⟩
  have hprogrammedRib : Reachable sys programmedRib := .step hprg ⟨enabled_programmingRib, trivial⟩
  have hreach : Reachable sys advertisedRib := .step hprogrammedRib ⟨enabled_programmedRib, trivial⟩
  have hidle : advertisedRib.fibBatchList = [] ∧ advertisedRib.programming.isNone ∧ advertisedRib.fromFibMessageQ = [] := by
    decide +kernel
  have hprog : advertisedRib.AllProgrammed := ⟨hidle.1, isNone_iff_eq_none.mp hidle.2.1, hidle.2.2⟩
  exact ⟨hprog, replay_addPathLog_of_reachable plainConfig .empty advertisedRib hreach hprog _ _ _⟩

abbrev trackingSystem : System (RibBase Nat) (RibAction Nat) :=
  ribSystem { plainConfig with features := { enableNextHopTracking := true } } .empty

variable (isReachable : Bool)

def cacheOf : NexthopCache := fun _ => some { isReachable, igpCost := some 1 }

/-- The FIB takes the sample prefix, and the RIB its answer. -/
def programActions (isFullSynced : Bool) (nexthops : Option (SharedPtr WeightedNexthopMap)) : List (RibAction Nat) :=
  [.fibProgramming true isFullSynced, .programSucceeded [[(samplePrefix, nexthops)]], .fibMessage]

/-- The nexthop of the sample path goes or comes back. -/
def nexthopActions : List (RibAction Nat) :=
  [.nexthopUpdate (cacheOf isReachable) [((attrsVia 0 1).val.nexthop, 0)], .prepareFibProgramming false [samplePrefix]]

/-- A path is announced and advertised, withdrawn while its nexthop is unreachable, and selected again. -/
def flapActions : List (RibAction Nat) :=
  [.announcement (cacheOf true) (ebgpPeer 1) (attrsVia 0 1) [(samplePrefix, 0)], .initialPathComputation [samplePrefix]] ++
    programActions false (some ⟨1, [((attrsVia 0 1).val.nexthop, 0)]⟩) ++ nexthopActions false ++ programActions true none ++
      nexthopActions true ++ programActions true (some ⟨3, [((attrsVia 0 1).val.nexthop, 0)]⟩)

def flappedRib : RibBase Nat := run trackingSystem trackingSystem.init flapActions

/-- The path that is selected again is programmed, and peers are not told of it. -/
theorem exists_selected_not_replayed : ∃ rib : RibBase Nat, Reachable trackingSystem rib ∧ rib.AllProgrammed ∧
    ¬∀ nexthop attrs, (replay rib.ribOut.addPathLog (samplePrefix, nexthop)).map SharedPtr.val = some attrs ↔
      ∃ entry, rib.ribEntries.find samplePrefix = some entry ∧ Carries entry.multipaths nexthop attrs := by
  have hadm : Admits trackingSystem trackingSystem.init flapActions := by decide +kernel
  have hidle : flappedRib.fibBatchList = [] ∧ flappedRib.programming.isNone ∧ flappedRib.fromFibMessageQ = [] := by
    decide +kernel
  have hmiss : (flappedRib.ribEntries.find samplePrefix).map (fun entry => entry.multipaths.map fun x =>
      (replay flappedRib.ribOut.addPathLog (samplePrefix, x.2.nexthop)).isNone) = some [true] := by decide +kernel
  refine ⟨flappedRib, Reachable.init.run hadm, ⟨hidle.1, isNone_iff_eq_none.mp hidle.2.1, hidle.2.2⟩, fun h => ?_⟩
  obtain ⟨entry, hfind, hmps⟩ := map_eq_some_iff.mp hmiss
  obtain ⟨x, hx, hnone⟩ := map_eq_singleton_iff.mp hmps
  have hcarries : Carries entry.multipaths x.2.nexthop x.2.attrs.val := ⟨x, hx ▸ mem_singleton_self x, rfl, rfl⟩
  have hknows := (h x.2.nexthop x.2.attrs.val).mpr ⟨entry, hfind, hcarries⟩
  rw [isNone_iff_eq_none.mp hnone] at hknows
  exact nomatch hknows

end RibBase

end FbossBgp.Rib
