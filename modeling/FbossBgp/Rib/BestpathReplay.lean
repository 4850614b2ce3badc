import FbossBgp.Rib.RibIn

/-! The best paths that the RIB has pushed to the peer manager are those its entries have as advertised ones,
however RIB-in messages, selection passes and the FIB's answers interleave. -/

namespace FbossBgp.Rib

open Replay List Transition Keyed

variable {F : Type} {nexthops : SharedPtr WeightedNexthopMap} {pfx : CIDRNetwork} {batch : Set FibProgrammedPfx}
  {acks : Acks} {x : FibProgrammedPfx}

/-- The batches that the RIB will hear of, in order; what is in a batch matters, not the order within it. -/
abbrev Acks := List (Set FibProgrammedPfx)

def Acked (acks : Acks) (programmed : FibProgrammedPfx) : Prop := ∃ batch ∈ acks, programmed ∈ batch

/-- The prefix is programmed with the nexthops, and deleted in the same batch or a later one. -/
def DeletedAfter (pfx : CIDRNetwork) (nexthops : SharedPtr WeightedNexthopMap) : Acks → Prop
  | [] => False
  | batch :: acks => (pfx, some nexthops) ∈ batch ∧ Acked (batch :: acks) (pfx, none) ∨ DeletedAfter pfx nexthops acks

theorem Acked.mono {acks' : Acks} (h : Acked acks x) (hsub : acks.Sublist acks') : Acked acks' x := by
  obtain ⟨batch, hbatch, hx⟩ := h
  exact ⟨batch, hsub.subset hbatch, hx⟩

theorem DeletedAfter.mono {acks' : Acks}
    (h : DeletedAfter pfx nexthops acks) (hsub : acks.Sublist acks') : DeletedAfter pfx nexthops acks' := by
  induction hsub with
  | slnil => exact h
  | cons batch _ ih => exact .inr (ih h)
  | cons_cons batch hsub ih =>
    rcases h with ⟨hmem, hdel⟩ | h
    · exact .inl ⟨hmem, hdel.mono (hsub.cons_cons batch)⟩
    · exact .inr (ih h)

theorem DeletedAfter.acked (h : DeletedAfter pfx nexthops acks) : Acked acks (pfx, some nexthops) := by
  induction acks with
  | nil => exact h.elim
  | cons batch acks ih =>
    rcases h with ⟨hmem, -⟩ | h
    · exact ⟨batch, mem_cons_self, hmem⟩
    · exact (ih h).mono (sublist_cons_self batch acks)

theorem acked_append_singleton : Acked (acks ++ [batch]) x ↔ Acked acks x ∨ x ∈ batch := by
  simp only [Acked, mem_append, mem_singleton, or_and_right, exists_or, exists_eq_left]

theorem deletedAfter_append_singleton
    (h : DeletedAfter pfx nexthops (acks ++ [batch])) :
    DeletedAfter pfx nexthops acks ∨ (pfx, none) ∈ batch := by
  induction acks with
  | nil =>
    rcases h with ⟨-, hdel⟩ | h
    · obtain ⟨batch', hmem, hx⟩ := hdel
      exact .inr (mem_singleton.mp hmem ▸ hx)
    · exact h.elim
  | cons first acks ih =>
    rcases h with ⟨hmem, hdel⟩ | h
    · rcases acked_append_singleton.mp (show Acked ((first :: acks) ++ [batch]) (pfx, none) from hdel) with hx | hx
      · exact .inl (.inl ⟨hmem, hx⟩)
      · exact .inr hx
    · exact (ih h).imp_left .inr

/-- An object and the attributes it has. -/
def RouteInfo.ref (r : RouteInfo F) : Nat × BgpPathPtr F := (r.object, r.attrs)

/-- Objects made so far have numbers below `next`, and one object has one value. -/
structure WellNumbered (refs : List (Nat × BgpPathPtr F)) (next : Nat) : Prop where
  lt : ∀ x ∈ refs, x.1 < next
  eq : ∀ x ∈ refs, ∀ y ∈ refs, x.1 = y.1 → x.2 = y.2

theorem WellNumbered.mono {refs refs' : List (Nat × BgpPathPtr F)} {next next' : Nat}
    (h : WellNumbered refs next) (hsub : refs' ⊆ refs) (hnext : next ≤ next') : WellNumbered refs' next' :=
  ⟨fun x hx => (h.lt x (hsub hx)).trans_le hnext, fun x hx y hy => h.eq x (hsub hx) y (hsub hy)⟩

theorem WellNumbered.cons {refs : List (Nat × BgpPathPtr F)} {next : Nat} (h : WellNumbered refs next)
    (attrs : BgpPathPtr F) : WellNumbered ((next, attrs) :: refs) (next + 1) := by
  refine ⟨fun x hx => ?_, fun x hx y hy hxy => ?_⟩
  · rcases mem_cons.mp hx with rfl | hx
    · exact Nat.lt_succ_self next
    · exact (h.lt x hx).trans (Nat.lt_succ_self next)
  · rcases mem_cons.mp hx with rfl | hx <;> rcases mem_cons.mp hy with rfl | hy
    · rfl
    · exact absurd hxy (h.lt y hy).ne'
    · exact absurd hxy (h.lt x hx).ne
    · exact h.eq x hx y hy hxy

variable [Zero F]

namespace RibEntry

def refs (entry : RibEntry F) : List (Nat × BgpPathPtr F) :=
  entry.routes.map RouteInfo.ref ++ entry.multipaths.map (fun x => x.2.ref) ++
    entry.advertisedMultipaths.map (fun x => x.2.ref) ++ entry.bestpath.toList.map RouteInfo.ref ++
    entry.advertisedBestpath.toList.map RouteInfo.ref

/-- What holds of an entry while the FIB's answers are outstanding. A prefix whose deletion is outstanding is not
advertised, and nexthops that are outstanding before a deletion are not the selected ones. -/
structure Tracked (entry : RibEntry F) (acks : Acks) (next : Nat) : Prop where
  wellNumbered : WellNumbered entry.refs next
  nexthops_lt : ∀ nexthops, entry.weightedNexthops = some nexthops → nexthops.object < next
  bestpath_eq_none_iff : entry.bestpath = none ↔ entry.weightedNexthops = none
  advertised_of_fibOut : entry.hasFibOutState = false → entry.advertisedBestpath = none
  fibOut_of_acked : ∀ nexthops programmed, entry.weightedNexthops = some nexthops →
    Acked acks (entry.pfx, some programmed) → programmed.object = nexthops.object → entry.hasFibOutState = true
  advertised_of_deleted : Acked acks (entry.pfx, none) → entry.advertisedBestpath = none
  not_deletedAfter : ∀ nexthops programmed, entry.weightedNexthops = some nexthops →
    DeletedAfter entry.pfx programmed acks → programmed.object ≠ nexthops.object

/-- Outside of a selection pass no path is advertised where none is selected. -/
structure Consistent (entry : RibEntry F) (acks : Acks) (next : Nat) : Prop extends entry.Tracked acks next where
  advertised_of_bestpath : entry.bestpath = none → entry.advertisedBestpath = none

variable {entry : RibEntry F} {acks : Acks} {next : Nat} {batch : Set FibProgrammedPfx}
  {x : Nat × BgpPathPtr F} {bestChanged nhChanged : Bool} {object : Nat}

theorem Tracked.mono {acks' : Acks} {next' : Nat} (h : entry.Tracked acks next)
    (hsub : acks'.Sublist acks) (hnext : next ≤ next') : entry.Tracked acks' next' where
  wellNumbered := h.wellNumbered.mono (List.Subset.refl _) hnext
  nexthops_lt nexthops hnhs := (h.nexthops_lt nexthops hnhs).trans_le hnext
  bestpath_eq_none_iff := h.bestpath_eq_none_iff
  advertised_of_fibOut := h.advertised_of_fibOut
  fibOut_of_acked nexthops programmed hnhs hacked := h.fibOut_of_acked nexthops programmed hnhs (hacked.mono hsub)
  advertised_of_deleted hacked := h.advertised_of_deleted (hacked.mono hsub)
  not_deletedAfter nexthops programmed hnhs hdel := h.not_deletedAfter nexthops programmed hnhs (hdel.mono hsub)

theorem Consistent.mono {acks' : Acks} {next' : Nat} (h : entry.Consistent acks next)
    (hsub : acks'.Sublist acks) (hnext : next ≤ next') : entry.Consistent acks' next' :=
  ⟨h.toTracked.mono hsub hnext, h.advertised_of_bestpath⟩

theorem mem_refs :
    x ∈ entry.refs ↔ (∃ r ∈ entry.routes, r.ref = x) ∨ (∃ y ∈ entry.multipaths, y.2.ref = x) ∨
      (∃ y ∈ entry.advertisedMultipaths, y.2.ref = x) ∨ (∃ r, entry.bestpath = some r ∧ r.ref = x) ∨
      ∃ r, entry.advertisedBestpath = some r ∧ r.ref = x := by
  simp only [refs, mem_append, mem_map, Option.mem_toList, or_assoc]

/-- A selection takes the best path and the other selected ones from the routes. -/
theorem Selected.refs_subset {old : RibEntry F}
    (h : Selected object old entry bestChanged nhChanged) : entry.refs ⊆ old.refs := by
  intro x hx
  rcases mem_refs.mp hx with ⟨r, hr, rfl⟩ | ⟨y, hy, rfl⟩ | ⟨y, hy, rfl⟩ | ⟨r, hr, rfl⟩ | ⟨r, hr, rfl⟩
  · exact mem_refs.mpr (.inl ⟨r, h.routes ▸ hr, rfl⟩)
  · exact mem_refs.mpr (.inl ⟨_, h.multipaths_mem y hy, rfl⟩)
  · have hframe : entry.advertisedMultipaths = old.advertisedMultipaths :=
      congrArg EntryFrame.advertisedMultipaths h.frame
    exact mem_refs.mpr (.inr (.inr (.inl ⟨y, hframe ▸ hy, rfl⟩)))
  · exact mem_refs.mpr (.inl ⟨_, h.bestpath_mem r hr, rfl⟩)
  · have hframe : entry.advertisedBestpath = old.advertisedBestpath := congrArg EntryFrame.advertisedBestpath h.frame
    exact mem_refs.mpr (.inr (.inr (.inr (.inr ⟨r, hframe ▸ hr, rfl⟩))))

/-- After a selection the nexthops are none, those of before or new ones, which no answer is about. -/
theorem Tracked.selected {old : RibEntry F}
    (h : old.Tracked acks object) (hsel : Selected object old entry bestChanged nhChanged)
    (hacks : ∀ programmed, Acked acks (old.pfx, some programmed) → programmed.object < object) :
    entry.Tracked acks (object + 1) := by
  have hpfx : entry.pfx = old.pfx := congrArg EntryFrame.pfx hsel.frame
  have hfib : entry.hasFibOutState = old.hasFibOutState := congrArg EntryFrame.hasFibOutState hsel.frame
  have hadv : entry.advertisedBestpath = old.advertisedBestpath := congrArg EntryFrame.advertisedBestpath hsel.frame
  have hcases : ∀ nexthops, entry.weightedNexthops = some nexthops →
      old.weightedNexthops = some nexthops ∨ nexthops.object = object := by
    intro nexthops hnhs
    rcases hsel.weightedNexthops with hnone | hold | ⟨map, hnew⟩
    · exact absurd (hnhs.symm.trans hnone) nofun
    · exact .inl (hold ▸ hnhs)
    · exact .inr (Option.some.inj (hnhs.symm.trans hnew) ▸ rfl)
  refine ⟨h.wellNumbered.mono hsel.refs_subset (Nat.le_succ _), ?_, hsel.bestpath_eq_none_iff, ?_, ?_, ?_, ?_⟩
  · intro nexthops hnhs
    rcases hcases nexthops hnhs with hold | hnew
    · exact (h.nexthops_lt nexthops hold).trans (Nat.lt_succ_self _)
    · exact hnew ▸ Nat.lt_succ_self _
  · rw [hfib, hadv]
    exact h.advertised_of_fibOut
  · intro nexthops programmed hnhs hacked heq
    rw [hpfx] at hacked
    rcases hcases nexthops hnhs with hold | hnew
    · exact hfib ▸ h.fibOut_of_acked nexthops programmed hold hacked heq
    · exact absurd (heq.trans hnew) (hacks programmed hacked).ne
  · rw [hpfx, hadv]
    exact h.advertised_of_deleted
  · intro nexthops programmed hnhs hdel heq
    rw [hpfx] at hdel
    rcases hcases nexthops hnhs with hold | hnew
    · exact h.not_deletedAfter nexthops programmed hold hdel heq
    · exact absurd (heq.trans hnew) (hacks programmed hdel.acked).ne

/-- The entry once all that is selected has been advertised. -/
def advertised (entry : RibEntry F) (ribVersion : Nat) : RibEntry F :=
  { entry.committed ribVersion with
    advertisedWeightedNexthops := entry.weightedNexthops, advertisedMultipaths := entry.multipaths }

/-- Advertising what is selected, on an answer that is about the selected nexthops. -/
theorem Consistent.advertised
    {programmed : SharedPtr WeightedNexthopMap} (h : entry.Consistent (batch :: acks) next)
    (hnhs : entry.weightedNexthops = some nexthops) (hmem : (entry.pfx, some programmed) ∈ batch)
    (hobj : programmed.object = nexthops.object) (ribVersion : Nat) :
    (entry.advertised ribVersion).Consistent (batch :: acks) next := by
  have hfib : entry.hasFibOutState = true :=
    h.fibOut_of_acked nexthops programmed hnhs ⟨batch, mem_cons_self, hmem⟩ hobj
  refine ⟨⟨h.wellNumbered.mono (fun x hx => ?_) le_rfl, h.nexthops_lt, h.bestpath_eq_none_iff, fun hnone => ?_,
    h.fibOut_of_acked, fun hdel => ?_, h.not_deletedAfter⟩, id⟩
  · simp only [refs, mem_append] at hx ⊢
    tauto
  · exact absurd (hfib.symm.trans hnone) nofun
  · exact absurd hobj (h.not_deletedAfter nexthops programmed hnhs (.inl ⟨hmem, hdel⟩))

/-- A batch has the selected nexthops of the entries it marks. -/
theorem Consistent.batched (h : entry.Consistent acks next) {marked : Bool}
    (hmarked : entry.hasFibOutState = true → marked = true)
    (hbatch : ∀ x, (entry.pfx, x) ∈ batch → x = entry.weightedNexthops ∧ marked = true) :
    { entry with hasFibOutState := marked }.Consistent (acks ++ [batch]) next := by
  refine ⟨⟨h.wellNumbered, h.nexthops_lt, h.bestpath_eq_none_iff, fun hfib => ?_,
    fun nexthops programmed hnhs hacked hobj => ?_, fun hdel => ?_,
    fun nexthops programmed hnhs hdel => ?_⟩, h.advertised_of_bestpath⟩
  · exact h.advertised_of_fibOut (Bool.eq_false_iff.mpr fun hold => Bool.false_ne_true (hfib.symm.trans (hmarked hold)))
  · rcases acked_append_singleton.mp hacked with hacked | hacked
    · exact hmarked (h.fibOut_of_acked nexthops programmed hnhs hacked hobj)
    · exact (hbatch _ hacked).2
  · rcases acked_append_singleton.mp hdel with hdel | hdel
    · exact h.advertised_of_deleted hdel
    · exact h.advertised_of_bestpath (h.bestpath_eq_none_iff.mpr (hbatch none hdel).1.symm)
  · rcases deletedAfter_append_singleton hdel with hdel | hdel
    · exact h.not_deletedAfter nexthops programmed hnhs hdel
    · exact absurd (hnhs.symm.trans (hbatch none hdel).1.symm) nofun

/-- The attributes that peers have been told, or none. -/
def advertisedAttrs (entry : Option (RibEntry F)) : Option (BgpPathPtr F) :=
  (entry.bind (·.advertisedBestpath)).map (·.attrs)

/-- Where the best path is the advertised one peers have its attributes. -/
theorem Tracked.attrs_eq (h : entry.Tracked acks next)
    (hobjs : entry.advertisedBestpath.map (·.object) = entry.bestpath.map (·.object)) :
    entry.advertisedBestpath.map (·.attrs) = entry.bestpath.map (·.attrs) := by
  cases hbest : entry.bestpath with
  | none =>
    rw [hbest, Option.map_none, Option.map_eq_none_iff] at hobjs
    rw [hobjs]
  | some best =>
    rw [hbest, Option.map_some, Option.map_eq_some_iff] at hobjs
    obtain ⟨adv, hadv, hobj⟩ := hobjs
    rw [hadv, Option.map_some, Option.map_some]
    refine congrArg some (h.wellNumbered.eq adv.ref ?_ best.ref ?_ hobj)
    · exact mem_refs.mpr (.inr (.inr (.inr (.inr ⟨adv, hadv, rfl⟩))))
    · exact mem_refs.mpr (.inr (.inr (.inr (.inl ⟨best, hbest, rfl⟩))))

variable [DecidableEq F]

theorem Tracked.withdrawn (h : entry.Tracked acks next) (hbest : entry.bestpath = none) (ribVersion : Nat) :
    (entry.committed ribVersion).Consistent acks next := by
  rw [committed, hbest]
  refine ⟨⟨h.wellNumbered.mono (fun x hx => ?_) le_rfl, h.nexthops_lt, ?_, fun _ => rfl, h.fibOut_of_acked, fun _ => rfl,
    h.not_deletedAfter⟩, fun _ => rfl⟩
  · simp only [refs, mem_append] at hx ⊢
    tauto
  · exact ⟨fun _ => h.bestpath_eq_none_iff.mp hbest, fun _ => rfl⟩

/-- An update adds at most the new path. -/
theorem ref_updatePath_mem {peer : TinyPeerInfo F}
    {attrs : Option (BgpPathPtr F)} {install : Bool} {pathId : Nat}
    (h : x ∈ (entry.updatePath object peer attrs install pathId).1.refs) :
    x ∈ entry.refs ∨ x.1 = object ∧ attrs = some x.2 := by
  unfold updatePath at h
  split at h
  next infos hinfos =>
    rcases mem_refs.mp h with ⟨r, hr, rfl⟩ | hx | hx | hx | hx
    · obtain ⟨q, hq, rfl⟩ := mem_map.mp hr
      rcases RouteInfos.mem_updatePath hinfos hq with hold | hnew
      · exact .inl (mem_refs.mpr (.inl ⟨_, mem_routes hold, rfl⟩))
      · exact .inr hnew.1
    · exact .inl (mem_refs.mpr (.inr (.inl hx)))
    · exact .inl (mem_refs.mpr (.inr (.inr (.inl hx))))
    · exact .inl (mem_refs.mpr (.inr (.inr (.inr (.inl hx)))))
    · exact .inl (mem_refs.mpr (.inr (.inr (.inr (.inr hx)))))
  · exact .inl h

theorem wellNumbered_updatePath (h : WellNumbered entry.refs next)
    (peer : TinyPeerInfo F) (attrs : Option (BgpPathPtr F)) (install : Bool) (pathId : Nat) :
    WellNumbered (entry.updatePath next peer attrs install pathId).1.refs (next + 1) := by
  cases attrs with
  | none =>
    refine h.mono (fun x hx => ?_) (Nat.le_succ _)
    exact (ref_updatePath_mem hx).resolve_right fun hnew => nomatch hnew.2
  | some attrs =>
    refine (h.cons attrs).mono (fun x hx => ?_) le_rfl
    rcases ref_updatePath_mem hx with hx | ⟨hobj, hattrs⟩
    · exact mem_cons_of_mem _ hx
    · exact mem_cons.mpr (.inl (Prod.ext hobj (Option.some.inj hattrs).symm))

theorem Consistent.updatePath (h : entry.Consistent acks next)
    (peer : TinyPeerInfo F) (attrs : Option (BgpPathPtr F)) (install : Bool) (pathId : Nat) :
    (entry.updatePath next peer attrs install pathId).1.Consistent acks (next + 1) := by
  have hnum := wellNumbered_updatePath h.wellNumbered peer attrs install pathId
  have hnext := h.mono (List.Sublist.refl acks) (Nat.le_succ next)
  obtain ⟨infos, needPathSelection, heq⟩ := entry.exists_updatePath_eq next peer attrs install pathId
  rw [heq] at hnum ⊢
  exact ⟨⟨hnum, hnext.nexthops_lt, hnext.bestpath_eq_none_iff, hnext.advertised_of_fibOut, hnext.fibOut_of_acked,
    hnext.advertised_of_deleted, hnext.not_deletedAfter⟩, hnext.advertised_of_bestpath⟩

end RibEntry

namespace RibBase

/-- The RIB is consistent with the answers that are outstanding. -/
structure Consistent (rib : RibBase F) (acks : Acks) : Prop where
  entries : ∀ entry ∈ rib.ribEntries.items, entry.Consistent acks rib.nextObject
  acks_lt : ∀ pfx nexthops, Acked acks (pfx, some nexthops) → nexthops.object < rib.nextObject
  said : ∀ pfx, replay rib.ribOut.bestpathSaid pfx = RibEntry.advertisedAttrs (rib.ribEntries.find pfx)

variable {rib rib' : RibBase F} {acks acks' : Acks} {entry : RibEntry F}

theorem Consistent.mono (h : rib.Consistent acks) (hsub : acks'.Sublist acks) : rib.Consistent acks' where
  entries entry hentry := (h.entries entry hentry).mono hsub le_rfl
  acks_lt pfx nexthops hacked := h.acks_lt pfx nexthops (hacked.mono hsub)
  said := h.said

/-- An entry is put in place of the one of its prefix, and what is said of the prefix is what it has advertised. -/
theorem Consistent.put (h : rib.Consistent acks) (hents : rib'.ribEntries = rib.ribEntries.put entry)
    (hnext : rib.nextObject ≤ rib'.nextObject) (hentry : entry.Consistent acks rib'.nextObject)
    (hsaid : replay rib'.ribOut.bestpathSaid entry.pfx = RibEntry.advertisedAttrs (some entry))
    (hothers : ∀ pfx ≠ entry.pfx, replay rib'.ribOut.bestpathSaid pfx = replay rib.ribOut.bestpathSaid pfx) :
    rib'.Consistent acks where
  entries other hother := by
    rw [hents] at hother
    rcases mem_put.mp hother with rfl | ⟨hother, -⟩
    · exact hentry
    · exact (h.entries other hother).mono (List.Sublist.refl _) hnext
  acks_lt pfx nexthops hacked := (h.acks_lt pfx nexthops hacked).trans_le hnext
  said pfx := by
    rw [hents]
    by_cases hpfx : pfx = entry.pfx
    · rw [hpfx, find_put_self]
      exact hsaid
    · rw [hothers pfx hpfx, h.said pfx, find_put_of_ne hpfx]

theorem Consistent.put_same {old : RibEntry F} (h : rib.Consistent acks) (hfind : rib.ribEntries.find entry.pfx = some old)
    (hadv : entry.advertisedBestpath = old.advertisedBestpath)
    (hents : rib'.ribEntries = rib.ribEntries.put entry) (hout : rib'.ribOut = rib.ribOut)
    (hnext : rib.nextObject ≤ rib'.nextObject) (hentry : entry.Consistent acks rib'.nextObject) :
    rib'.Consistent acks := by
  refine h.put hents hnext hentry ?_ fun pfx _ => by rw [hout]
  rw [hout, h.said, hfind]
  show old.advertisedBestpath.map _ = entry.advertisedBestpath.map _
  rw [hadv]

theorem Consistent.erase (h : rib.Consistent acks) (hfind : rib.ribEntries.find entry.pfx = some entry)
    (hadv : entry.advertisedBestpath = none) : (rib.eraseEntry entry).Consistent acks where
  entries other hother := h.entries other (mem_erase.mp hother).1
  acks_lt := h.acks_lt
  said pfx := by
    show replay rib.ribOut.bestpathSaid pfx = RibEntry.advertisedAttrs ((rib.ribEntries.erase entry.pfx).find pfx)
    by_cases hpfx : pfx = entry.pfx
    · rw [hpfx, find_erase_self, h.said, hfind]
      show entry.advertisedBestpath.map _ = none
      rw [hadv]
      rfl
    · rw [h.said, find_erase_of_ne hpfx]

/-- The answers that are outstanding: those that wait in the queue, and the batch that is being programmed. -/
def pendingAcks (rib : RibBase F) : Acks :=
  rib.fromFibMessageQ.map (fun message => {x | x ∈ message.fibProgrammedPfxs.flatten}) ++
    rib.programming.toList.map fun batch => {x | x ∈ batch.pfxs}

/-- Between two actions the RIB is consistent and no chunk is being filled. -/
structure Sound (rib : RibBase F) : Prop where
  consistent : rib.Consistent rib.pendingAcks
  idle : rib.ribOut.Idle

theorem Consistent.modify (h : rib.Consistent acks) {f : RibEntry F → RibEntry F} (hf : ∀ entry, (f entry).pfx = entry.pfx)
    (hents : rib'.ribEntries = rib.ribEntries.modify f hf) (hout : rib'.ribOut = rib.ribOut)
    (hnext : rib'.nextObject = rib.nextObject)
    (hcons : ∀ entry ∈ rib.ribEntries.items, (f entry).Consistent acks' rib.nextObject)
    (hadv : ∀ entry, (f entry).advertisedBestpath = entry.advertisedBestpath)
    (hacks : ∀ pfx nexthops, Acked acks' (pfx, some nexthops) → nexthops.object < rib.nextObject) :
    rib'.Consistent acks' where
  entries entry hentry := by
    rw [hents] at hentry
    obtain ⟨old, hold, rfl⟩ := mem_map.mp hentry
    exact hnext ▸ hcons old hold
  acks_lt pfx nexthops hacked := hnext ▸ hacks pfx nexthops hacked
  said pfx := by
    rw [hout, h.said, hents, find_modify]
    cases rib.ribEntries.find pfx with
    | none => rfl
    | some entry =>
      show entry.advertisedBestpath.map _ = (f entry).advertisedBestpath.map _
      rw [hadv]

variable [DecidableEq F]

theorem ribInClosed_sound : RibInClosed (fun _ => True) (Sound (F := F)) where
  localRoutes _ _ h := ⟨⟨h.consistent.entries, h.consistent.acks_lt, h.consistent.said⟩, h.idle⟩
  emplaced rib pfx hfind h := by
    rw [emplaceEntry, hfind]
    refine ⟨h.consistent.put rfl le_rfl ⟨⟨⟨fun _ hmem => (by cases hmem), fun _ hmem => (by cases hmem)⟩, by simp,
      ⟨fun _ => rfl, fun _ => rfl⟩, fun _ => rfl, by simp, fun _ => rfl, by simp⟩, fun _ => rfl⟩ ?_ fun _ _ => rfl, h.idle⟩
    exact (h.consistent.said pfx).trans (by rw [hfind]; rfl)
  updated rib entry peer attrs install pathId nexthops hfind h := by
    have hentry := (h.consistent.entries entry (find_eq_some_iff.mp hfind).1).updatePath peer attrs install
      pathId
    obtain ⟨infos, needPathSelection, heq⟩ := entry.exists_updatePath_eq rib.nextObject peer attrs install pathId
    generalize (entry.updatePath rib.nextObject peer attrs install pathId).1 = updated at hentry heq
    have hpfx : updated.pfx = entry.pfx := heq ▸ rfl
    have hadv : updated.advertisedBestpath = entry.advertisedBestpath := heq ▸ rfl
    exact ⟨h.consistent.put_same (hpfx ▸ hfind) hadv rfl rfl (Nat.le_succ _) hentry, h.idle⟩
  erased rib entry _ hfind hfib _ h := by
    have hentry := h.consistent.entries entry (find_eq_some_iff.mp hfind).1
    exact ⟨h.consistent.erase hfind (hentry.advertised_of_fibOut hfib), h.idle⟩

/-- During a selection pass nothing is announced. -/
structure Passing (acks : Acks) (rib : RibBase F) : Prop where
  consistent : rib.Consistent acks
  pendingAcks : rib.pendingAcks = acks
  announcement : rib.ribOut.announcement = []
  announcementAddPath : rib.ribOut.announcementAddPath = []

theorem sameBestpaths_handleFullAddPathWithdrawal (entry : RibEntry F) (out : RibOut F) :
    out.SameBestpaths (handleFullAddPathWithdrawal entry out) ∧
      (handleFullAddPathWithdrawal entry out).announcementAddPath = out.announcementAddPath := by
  unfold handleFullAddPathWithdrawal
  split
  next nexthops _ =>
    generalize nexthops.val = map
    induction map generalizing out with
    | nil => exact ⟨.refl out, rfl⟩
    | cons x map ih =>
      have hfirst := out.sameBestpaths_withdrawAddPath entry.pfx x.1
      have hrest := ih (out.withdrawAddPath entry.pfx x.1)
      exact ⟨hfirst.trans hrest.1, hrest.2.trans (out.announcementAddPath_withdrawAddPath entry.pfx x.1)⟩
  · exact ⟨.refl out, rfl⟩

/-- An entry is withdrawn after all that was said before. -/
theorem bestpathSaid_withdrawEntry (rib : RibBase F) (h : rib.ribOut.announcement = []) (entry : RibEntry F) :
    (rib.withdrawEntry entry).ribOut.bestpathSaid = rib.ribOut.bestpathSaid ++ [(entry.pfx, none)] ∧
      (rib.withdrawEntry entry).ribOut.announcement = [] ∧
      (rib.withdrawEntry entry).ribOut.announcementAddPath = rib.ribOut.announcementAddPath := by
  obtain ⟨hflush, hflushed⟩ := RibOut.bestpathSaid_flushFullWithdrawal h
  have hadd : rib.ribOut.flushFullWithdrawal.announcementAddPath = rib.ribOut.announcementAddPath := by
    unfold RibOut.flushFullWithdrawal
    split <;> rfl
  have hver := rib.ribOut.flushFullWithdrawal.sameBestpaths_incrementRibVersion
  obtain ⟨hfull, hfullAddPath⟩ :=
    sameBestpaths_handleFullAddPathWithdrawal entry rib.ribOut.flushFullWithdrawal.incrementRibVersion
  have hsame := hver.trans hfull
  have hempty := hsame.announcement.trans hflushed
  refine ⟨?_, hempty, hfullAddPath.trans hadd⟩
  exact (RibOut.bestpathSaid_withdraw hempty _).trans (by rw [hsame.bestpathSaid, hflush])

variable {acks : Acks} {rib : RibBase F} {batch : Set FibProgrammedPfx} {groups : List (List FibProgrammedPfx)}
  {programmed : FibProgrammedPfx} {bestChanged nhChanged : Bool} {object : Nat}

/-- A selection that takes the best path away leads to a withdrawal, if peers have been told of one. -/
theorem advertised_of_not_needsWithdrawal {old : RibEntry F}
    (h : old.Consistent acks object) (hsel : RibEntry.Selected object old entry bestChanged nhChanged)
    (hneeds : needsWithdrawal bestChanged nhChanged entry = false) (hbest : entry.bestpath = none) :
    entry.advertisedBestpath = none := by
  have hnhs : entry.weightedNexthops = none := hsel.bestpath_eq_none_iff.mp hbest
  have hunchanged : bestChanged = false := by
    cases bestChanged with
    | false => rfl
    | true => simp [needsWithdrawal, hnhs] at hneeds
  have hold : old.bestpath = none := by
    simpa [hbest] using (hsel.of_bestpathChanged hunchanged).symm
  have hframe : entry.advertisedBestpath = old.advertisedBestpath := congrArg EntryFrame.advertisedBestpath hsel.frame
  exact hframe.trans (h.advertised_of_bestpath hold)

theorem bestpath_of_needsWithdrawal {old : RibEntry F}
    (hsel : RibEntry.Selected object old entry bestChanged nhChanged)
    (hneeds : needsWithdrawal bestChanged nhChanged entry = true) : entry.bestpath = none := by
  simp only [needsWithdrawal, Bool.and_eq_true, Bool.or_eq_true, Option.isNone_iff_eq_none] at hneeds
  rcases hneeds.2 with hnhs | ⟨-, hbest⟩
  · exact hsel.bestpath_eq_none_iff.mpr hnhs
  · exact hbest

theorem Passing.prepareEntry (h : rib.Passing acks) (config : SelectionConfig F)
    (fullSync : Bool) (pfx : CIDRNetwork) : (rib.prepareEntry config fullSync pfx).Passing acks := by
  rcases prepareEntry_spec config fullSync rib pfx with ⟨heq, -⟩ | ⟨old, bestpathChanged, nexthopChanged, entry, list,
    hfind, -, hsel, rfl, heq, -⟩
  · exact heq.symm ▸ h
  · have hold := h.consistent.entries old (find_eq_some_iff.mp hfind).1
    have htrk := hold.toTracked.selected hsel fun programmed => h.consistent.acks_lt old.pfx programmed
    rw [heq]
    cases hneeds : needsWithdrawal bestpathChanged nexthopChanged entry with
    | false =>
      have hcons : entry.Consistent acks (rib.nextObject + 1) :=
        ⟨htrk, advertised_of_not_needsWithdrawal hold hsel hneeds⟩
      have hsame : entry.advertisedBestpath = old.advertisedBestpath :=
        congrArg EntryFrame.advertisedBestpath hsel.frame
      exact ⟨h.consistent.put_same hfind hsame rfl rfl (Nat.le_succ _) hcons, h.pendingAcks, h.announcement,
        h.announcementAddPath⟩
    | true =>
      obtain ⟨hsaid, hann, hadd⟩ := bestpathSaid_withdrawEntry (rib.reselected old entry) h.announcement entry
      obtain ⟨ribVersion, hents⟩ := exists_ribEntries_withdrawEntry rib old entry
      have hbest := bestpath_of_needsWithdrawal hsel hneeds
      refine ⟨h.consistent.put hents (Nat.le_succ _) (htrk.withdrawn hbest ribVersion) ?_ fun p hp => ?_, h.pendingAcks,
        hann, hadd.trans h.announcementAddPath⟩
      · show replay (RibOut.bestpathSaid _) entry.pfx = entry.bestpath.map _
        rw [hbest]
        exact (congrArg (replay · entry.pfx) hsaid).trans (replay_append_self _ _ _)
      · exact (congrArg (replay · p) hsaid).trans (replay_append_of_ne hp)

/-- At the end of a pass what is left of the chunks is pushed. -/
theorem Passing.flushWithdrawals (h : rib.Passing acks) : { rib with ribOut := rib.ribOut.flushWithdrawals }.Sound := by
  obtain ⟨hsaid, hidle⟩ := RibOut.bestpathSaid_flushWithdrawals h.announcement h.announcementAddPath
  refine ⟨⟨fun entry hentry => ?_, fun pfx nexthops hacked => ?_, fun pfx => ?_⟩, hidle⟩
  · exact h.pendingAcks.symm ▸ h.consistent.entries entry hentry
  · exact h.consistent.acks_lt pfx nexthops (h.pendingAcks ▸ hacked)
  · exact (congrArg (replay · pfx) hsaid).trans (h.consistent.said pfx)

theorem Sound.clearForFullSync (h : rib.Sound) (fullSync : Bool) :
    (rib.clearForFullSync fullSync).Passing rib.pendingAcks := by
  unfold RibBase.clearForFullSync
  split
  · exact ⟨⟨h.consistent.entries, h.consistent.acks_lt, h.consistent.said⟩, rfl, h.idle.announcement,
      h.idle.announcementAddPath⟩
  · exact ⟨h.consistent, rfl, h.idle.announcement, h.idle.announcementAddPath⟩

theorem Sound.triggerFibProgramming (h : rib.Sound) (fullSync : Bool) : (rib.triggerFibProgramming fullSync).Sound := by
  unfold RibBase.triggerFibProgramming
  split
  · exact h
  · exact ⟨⟨h.consistent.entries, h.consistent.acks_lt, h.consistent.said⟩, h.idle⟩

theorem Sound.prepareFibProgramming (h : rib.Sound) (config : SelectionConfig F) (fullSync : Bool)
    (order : List CIDRNetwork) : (rib.prepareFibProgramming config fullSync order).Sound :=
  (foldlRecOn order _ (h.clearForFullSync fullSync) fun _ hpass pfx _ =>
    hpass.prepareEntry config fullSync pfx).flushWithdrawals.triggerFibProgramming fullSync

theorem Sound.requirePathSelection (h : rib.Sound) (condition : RibEntry F → Bool) :
    (rib.requirePathSelection condition).Sound := by
  refine ⟨h.consistent.modify (RibEntry.pfx_requirePathSelectionIf condition) rfl rfl rfl (fun entry hentry => ?_)
    (fun entry => ?_) h.consistent.acks_lt, h.idle⟩
  · have hcons := h.consistent.entries entry hentry
    unfold RibEntry.requirePathSelectionIf
    split
    · exact ⟨⟨hcons.wellNumbered, hcons.nexthops_lt, hcons.bestpath_eq_none_iff,
        hcons.advertised_of_fibOut, hcons.fibOut_of_acked, hcons.advertised_of_deleted,
        hcons.not_deletedAfter⟩, hcons.advertised_of_bestpath⟩
    · exact hcons
  · unfold RibEntry.requirePathSelectionIf
    split <;> rfl

theorem Sound.nexthopInfoMap (h : rib.Sound) (nexthops : NexthopInfoMap) :
    { rib with nexthopInfoMap := nexthops }.Sound :=
  ⟨⟨h.consistent.entries, h.consistent.acks_lt, h.consistent.said⟩, h.idle⟩

theorem mem_fibBatch : programmed ∈ rib.fibBatch ↔ programmed.1 ∈ rib.fibBatchList ∧
    ∃ entry, rib.ribEntries.find programmed.1 = some entry ∧ entry.weightedNexthops = programmed.2 := by
  obtain ⟨pfx, nexthops⟩ := programmed
  simp only [fibBatch, mem_filterMap, Option.map_eq_some_iff, Prod.mk.injEq]
  constructor
  · rintro ⟨p, hp, entry, hfind, rfl, hnhs⟩
    exact ⟨hp, entry, hfind, hnhs⟩
  · rintro ⟨hp, entry, hfind, hnhs⟩
    exact ⟨pfx, hp, entry, hfind, rfl, hnhs⟩

/-- The entries of a batch are marked, and their nexthops are outstanding from now on. -/
theorem Consistent.takeFibBatch (h : rib.Consistent acks) (fullSync : Bool) :
    (rib.takeFibBatch fullSync).Consistent (acks ++ [{x | x ∈ rib.fibBatch}]) := by
  refine h.modify (RibEntry.pfx_markFibOutStatePresentIf rib.fibBatchList) rfl rfl rfl (fun entry hentry => ?_)
    (fun entry => ?_) fun pfx nexthops hacked => ?_
  · have hcons := h.entries entry hentry
    unfold RibEntry.markFibOutStatePresentIf
    split
    · refine hcons.batched (fun _ => rfl) fun x hx => ⟨?_, rfl⟩
      obtain ⟨-, found, hfind, hnhs⟩ := mem_fibBatch.mp hx
      rw [find_key hentry] at hfind
      rw [Option.some.inj hfind]
      exact hnhs.symm
    next hlist =>
      exact hcons.batched id fun x hx => absurd (contains_iff_mem.mpr (mem_fibBatch.mp hx).1) hlist
  · unfold RibEntry.markFibOutStatePresentIf
    split <;> rfl
  · rcases acked_append_singleton.mp hacked with hacked | hbatch
    · exact h.acks_lt pfx nexthops hacked
    · obtain ⟨-, entry, hfind, hnhs⟩ := mem_fibBatch.mp hbatch
      exact (h.entries entry (find_eq_some_iff.mp hfind).1).nexthops_lt nexthops hnhs

theorem pendingAcks_takeFibBatch (rib : RibBase F) (hfree : rib.programming = none) (fullSync : Bool) :
    (rib.takeFibBatch fullSync).pendingAcks = rib.pendingAcks ++
      if fullSync || !rib.fibBatch.isEmpty then [{x | x ∈ rib.fibBatch}] else [] := by
  rw [pendingAcks, pendingAcks, hfree, Option.toList_none, map_nil, append_nil]
  show _ ++ List.map _ (if fullSync || !rib.fibBatch.isEmpty then some _ else none).toList = _
  split <;> rfl

theorem Sound.processFibProgramming (h : rib.Sound) (hfree : rib.programming = none)
    (isConnected isFullSynced : Bool) : (rib.processFibProgramming isConnected isFullSynced).Sound := by
  have hdrained : { rib with toFibMessageQ := [] }.Sound :=
    ⟨⟨h.consistent.entries, h.consistent.acks_lt, h.consistent.said⟩, h.idle⟩
  unfold RibBase.processFibProgramming
  dsimp only
  split
  · exact hdrained
  · refine ⟨(hdrained.consistent.takeFibBatch _).mono ?_, hdrained.idle⟩
    rw [pendingAcks_takeFibBatch { rib with toFibMessageQ := [] } hfree]
    split
    · exact List.Sublist.refl _
    · exact (List.Sublist.refl _).append (nil_sublist _)

theorem pendingAcks_programSucceeded {batch : FibBatch}
    (hprg : rib.programming = some batch) (hperm : groups.flatten.Perm batch.pfxs) :
    (rib.programSucceeded groups).pendingAcks = rib.pendingAcks := by
  have hset : {x | x ∈ groups.flatten} = {x | x ∈ batch.pfxs} := Set.ext fun x => hperm.mem_iff
  rw [pendingAcks, pendingAcks, RibBase.programSucceeded, hprg]
  show List.map _ (rib.fromFibMessageQ ++ [⟨groups, batch.isSync⟩]) ++ [] = _ ++ [{x | x ∈ batch.pfxs}]
  rw [append_nil, map_append, ← hset]
  rfl

theorem Sound.programSucceeded (h : rib.Sound) {batch : FibBatch}
    (hprg : rib.programming = some batch) (hperm : groups.flatten.Perm batch.pfxs) :
    (rib.programSucceeded groups).Sound := by
  have hacks := pendingAcks_programSucceeded hprg hperm
  exact ⟨⟨fun entry hentry => hacks ▸ h.consistent.entries entry hentry,
    fun pfx nexthops hacked => h.consistent.acks_lt pfx nexthops (hacks ▸ hacked), h.consistent.said⟩, h.idle⟩

theorem Sound.programFailed (h : rib.Sound) : rib.programFailed.Sound := by
  have hsub : rib.programFailed.pendingAcks.Sublist rib.pendingAcks :=
    List.Sublist.append (List.Sublist.refl _) (nil_sublist _)
  have hcons := h.consistent.mono hsub
  exact ⟨⟨hcons.entries, hcons.acks_lt, hcons.said⟩, h.idle⟩

/-- While the answer to a batch is handled no best path is withdrawn. -/
structure Handling (batch : Set FibProgrammedPfx) (acks : Acks) (rib : RibBase F) : Prop where
  consistent : rib.Consistent (batch :: acks)
  pendingAcks : rib.pendingAcks = acks
  withdrawal : rib.ribOut.withdrawal = []

variable (eor : Bool)

theorem sameBestpaths_advertiseMultipaths (entry : RibEntry F) (installed : Bool)
    (gone : List BgpLib.IPAddress) (out : RibOut F) :
    out.SameBestpaths (advertiseMultipaths eor entry installed gone out) :=
  (RibOut.sameBestpaths_foldl (fun out (x : Nat × RouteInfo F) => out.sameBestpaths_announceAddPath eor
    (announcementOf entry x.2 x.1 installed)) _ _).trans
    (RibOut.sameBestpaths_foldl (RibOut.sameBestpaths_withdrawAddPath entry.pfx) _ _)

/-- The announcement of a best path is said after all that was said before. -/
theorem bestpathSaid_advertiseBestpath (entry : RibEntry F) {bestpath : RouteInfo F}
    (hbest : entry.advertisedBestpath = some bestpath) (eor installed : Bool) {out : RibOut F}
    (hout : out.withdrawal = []) : (advertiseBestpath eor entry installed out).bestpathSaid =
        out.bestpathSaid ++ [(entry.pfx, some bestpath.attrs)] ∧
      (advertiseBestpath eor entry installed out).withdrawal = [] := by
  obtain ⟨hsaid, hwithdrawal⟩ := out.bestpathSaid_flushFullAnnouncement eor hout
  unfold advertiseBestpath
  rw [hbest]
  refine ⟨?_, hwithdrawal⟩
  rw [← hsaid]
  exact RibOut.bestpathSaid_announce _ _

/-- What is pushed of an entry before its best path. -/
def advertisedAddPaths (rib : RibBase F) (entry : RibEntry F) : RibOut F :=
  if entry.multipathChanged && entry.bestpath.isSome then
    advertiseMultipaths eor
      { entry with advertisedWeightedNexthops := entry.weightedNexthops, advertisedMultipaths := entry.multipaths }
      entry.advertisedBestpath.isNone (goneNexthops entry.advertisedWeightedNexthops entry.weightedNexthops)
      rib.ribOut.incrementRibVersion
  else rib.ribOut.incrementRibVersion

/-- Advertising what is selected: the best path is announced if it is not the advertised one. -/
theorem advertiseEntry_spec (rib : RibBase F) (entry : RibEntry F) :
    ∃ ribVersion out, out = advertisedAddPaths eor rib entry ∧ rib.ribOut.SameBestpaths out ∧
      ((rib.advertiseEntry eor entry = { rib.setEntry (entry.advertised ribVersion) with
            ribOut := advertiseBestpath eor (entry.advertised ribVersion) entry.advertisedBestpath.isNone out }) ∨
        rib.advertiseEntry eor entry = { rib.setEntry (entry.advertised ribVersion) with ribOut := out } ∧
          entry.advertisedBestpath.map (·.object) = entry.bestpath.map (·.object)) := by
  let withMultipaths : RibEntry F :=
    { entry with advertisedWeightedNexthops := entry.weightedNexthops, advertisedMultipaths := entry.multipaths }
  let out := advertisedAddPaths eor rib entry
  have hsame : rib.ribOut.SameBestpaths out := by
    have hver := rib.ribOut.sameBestpaths_incrementRibVersion
    show rib.ribOut.SameBestpaths (if _ then _ else _)
    split
    · exact hver.trans (sameBestpaths_advertiseMultipaths _ _ _ _ _)
    · exact hver
  have hcom : { withMultipaths with ribVersion := out.ribVersion }.commitBestpath.2 =
      entry.advertised out.ribVersion := RibEntry.commitBestpath_snd _
  have heq : rib.advertiseEntry eor entry = { rib.setEntry (entry.advertised out.ribVersion) with
        ribOut := if { withMultipaths with ribVersion := out.ribVersion }.commitBestpath.1 then
          advertiseBestpath eor (entry.advertised out.ribVersion) entry.advertisedBestpath.isNone out
          else out } := by
    rw [← hcom]
    rfl
  refine ⟨out.ribVersion, out, rfl, hsame, ?_⟩
  cases hch : { withMultipaths with ribVersion := out.ribVersion }.commitBestpath.1 with
  | true => exact .inl (by rw [heq, hch, if_pos rfl])
  | false =>
    have hobjs := RibEntry.object_eq_of_commitBestpath hch
    exact .inr ⟨by rw [heq, hch]; rfl, hobjs⟩

/-- The entry of an answer about the selected nexthops is advertised. -/
theorem Handling.advertiseEntry
    {programmed : SharedPtr WeightedNexthopMap} (h : rib.Handling batch acks)
    (hfind : rib.ribEntries.find entry.pfx = some entry) (hnhs : entry.weightedNexthops = some nexthops)
    (hmem : (entry.pfx, some programmed) ∈ batch) (hobj : programmed.object = nexthops.object) (eor : Bool) :
    (rib.advertiseEntry eor entry).Handling batch acks := by
  have hentry := h.consistent.entries entry (find_eq_some_iff.mp hfind).1
  obtain ⟨bestpath, hbest⟩ : ∃ bestpath, entry.bestpath = some bestpath := by
    rw [← Option.ne_none_iff_exists']
    exact fun hnone => nomatch (hentry.bestpath_eq_none_iff.mp hnone).symm.trans hnhs
  obtain ⟨ribVersion, out, -, hsame, heq | ⟨heq, hobjs⟩⟩ := advertiseEntry_spec eor rib entry
  · obtain ⟨hsaid, hwithdrawal⟩ := bestpathSaid_advertiseBestpath (entry.advertised ribVersion) hbest eor
      entry.advertisedBestpath.isNone (hsame.withdrawal.trans h.withdrawal)
    rw [hsame.bestpathSaid] at hsaid
    rw [heq]
    refine ⟨h.consistent.put rfl le_rfl (hentry.advertised hnhs hmem hobj ribVersion) ?_ fun p hp => ?_,
      h.pendingAcks, hwithdrawal⟩
    · refine (congrArg (replay · entry.pfx) hsaid).trans ((replay_append_self _ _ _).trans ?_)
      show some bestpath.attrs = entry.bestpath.map _
      rw [hbest]
      rfl
    · exact (congrArg (replay · p) hsaid).trans (replay_append_of_ne hp)
  · rw [heq]
    refine ⟨h.consistent.put rfl le_rfl (hentry.advertised hnhs hmem hobj ribVersion) ?_ fun p hp => ?_,
      h.pendingAcks, hsame.withdrawal.trans h.withdrawal⟩
    · refine (congrArg (replay · entry.pfx) hsame.bestpathSaid).trans ((h.consistent.said _).trans ?_)
      rw [hfind]
      exact hentry.attrs_eq hobjs
    · exact congrArg (replay · p) hsame.bestpathSaid

theorem Handling.handleFibProgrammedPfx
    (h : rib.Handling batch acks) (hmem : programmed ∈ batch) (eor : Bool) :
    (rib.handleFibProgrammedPfx eor programmed).Handling batch acks := by
  obtain ⟨pfx, nexthops⟩ := programmed
  unfold RibBase.handleFibProgrammedPfx
  split
  · exact h
  next entry hfind =>
    obtain ⟨hentrymem, rfl⟩ := find_eq_some_iff.mp hfind
    have hentry := h.consistent.entries entry hentrymem
    cases nexthops with
    | none =>
      dsimp only
      split
      · have hadv := hentry.advertised_of_deleted ⟨batch, mem_cons_self, hmem⟩
        exact ⟨h.consistent.erase hfind hadv, h.pendingAcks, h.withdrawal⟩
      · exact h
    | some nexthops =>
      dsimp only
      split
      · exact h
      next hsame =>
        rw [RibEntry.nexthopsDiffer, bne_iff_ne, ne_eq, not_not] at hsame
        obtain ⟨selected, hsel, hobj⟩ := Option.map_eq_some_iff.mp hsame
        exact h.advertiseEntry hfind hsel hmem hobj.symm eor

theorem mem_flatten_of_mem_fibProgrammedPrefixes
    (h : x ∈ groups.flatMap rib.fibProgrammedPrefixes) : x ∈ groups.flatten := by
  obtain ⟨group, hgroup, hx⟩ := mem_flatMap.mp h
  refine mem_flatten.mpr ⟨group, hgroup, ?_⟩
  rcases mem_append.mp hx with hx | hx
  · obtain ⟨localRoute, -, hfind⟩ := mem_filterMap.mp hx
    exact mem_of_find?_eq_some hfind
  · exact (mem_filter.mp hx).1

theorem Handling.startInitialDump
    (h : rib.Handling batch acks) (eor : Bool) : (rib.startInitialDump eor).Handling batch acks := by
  unfold RibBase.startInitialDump
  split
  · have hsame : rib.ribOut.SameBestpaths (rib.ribOut.push .initialAnnouncementStart) := rib.ribOut.sameBestpaths_push rfl
    refine ⟨⟨h.consistent.entries, h.consistent.acks_lt, fun pfx => ?_⟩, h.pendingAcks, h.withdrawal⟩
    exact (congrArg (replay · pfx) hsame.bestpathSaid).trans (h.consistent.said pfx)
  · exact h

/-- At the end of a message what is left of the chunks is pushed. -/
theorem Handling.flush (h : rib.Handling batch acks) (eor : Bool) :
    { rib with ribOut := rib.ribOut.flushProgrammedWithdrawals.flushAnnouncements eor }.Sound := by
  obtain ⟨hsame, hadd⟩ := rib.ribOut.sameBestpaths_flushProgrammedWithdrawals
  obtain ⟨hsaid, hidle⟩ := RibOut.bestpathSaid_flushAnnouncements eor (hsame.withdrawal.trans h.withdrawal) hadd
  have hacks : rib.Consistent rib.pendingAcks := h.pendingAcks.symm ▸ h.consistent.mono (sublist_cons_self batch acks)
  refine ⟨⟨hacks.entries, hacks.acks_lt, fun pfx => ?_⟩, hidle⟩
  exact (congrArg (replay · pfx) (hsaid.trans hsame.bestpathSaid)).trans (hacks.said pfx)

theorem Sound.processFibMessage (h : rib.Sound) : rib.processFibMessage.Sound := by
  unfold RibBase.processFibMessage
  split
  · exact h
  next message messages hqueue =>
    let batch : Set FibProgrammedPfx := {x | x ∈ message.fibProgrammedPfxs.flatten}
    have hacks : rib.pendingAcks = batch :: { rib with fromFibMessageQ := messages }.pendingAcks := by
      rw [pendingAcks, hqueue]
      rfl
    have hstart : { rib with fromFibMessageQ := messages }.Handling batch
        { rib with fromFibMessageQ := messages }.pendingAcks :=
      ⟨hacks ▸ ⟨h.consistent.entries, h.consistent.acks_lt, h.consistent.said⟩, rfl, h.idle.withdrawal⟩
    exact Handling.flush (foldlRecOn _ _ (hstart.startInitialDump _) fun _ hhdl _ hx =>
      hhdl.handleFibProgrammedPfx (mem_flatten_of_mem_fibProgrammedPrefixes hx) _) _

theorem Sound.exec (h : rib.Sound) {config : SelectionConfig F} {action : RibAction F}
    (hen : rib.Enabled action) : (rib.exec config action).Sound := by
  cases action with
  | announcement cache peer attrs pfxPathIds =>
    exact ribInClosed_sound.processRibInAnnouncement config cache h peer attrs pfxPathIds
  | withdrawal cache peer pfxPathIds =>
    exact ribInClosed_sound.processRibInWithdrawal config cache h peer pfxPathIds fun _ _ _ _ => trivial
  | nexthopUpdate cache nexthopStatuses =>
    exact processRibInNexthopUpdate_closed (fun _ nexthops h => h.nexthopInfoMap nexthops)
      (fun _ condition h => h.requirePathSelection condition) h config cache nexthopStatuses
  | initialPathComputation order =>
    have hrec : { rib with ribEoRReceived := true }.Sound :=
      ⟨⟨h.consistent.entries, h.consistent.acks_lt, h.consistent.said⟩, h.idle⟩
    exact hrec.prepareFibProgramming config true order
  | prepareFibProgramming fullSync order => exact h.prepareFibProgramming config fullSync order
  | resume fullSync order =>
    show (RibBase.processResumeBestPathAndFibProgramming config rib fullSync order).Sound
    unfold RibBase.processResumeBestPathAndFibProgramming
    dsimp only
    split
    · exact (h.requirePathSelection _).prepareFibProgramming config fullSync order
    · exact h.requirePathSelection _
  | fibProgramming isConnected isFullSynced =>
    exact h.processFibProgramming (Option.isNone_iff_eq_none.mp hen.1) isConnected isFullSynced
  | programSucceeded groups =>
    obtain ⟨batch, hprg, hperm⟩ := hen
    exact h.programSucceeded hprg hperm
  | programFailed => exact h.programFailed
  | fibMessage => exact h.processFibMessage

theorem sound_of_reachable {config : SelectionConfig F} {localRoutes : Keyed (LocalRoute.pfx (F := F))}
    (h : Reachable (ribSystem config localRoutes) rib) : rib.Sound := by
  induction h with
  | init => exact ⟨⟨fun _ hentry => (nomatch hentry), fun _ _ ⟨_, hbatch, _⟩ => (nomatch hbatch), fun _ => rfl⟩, rfl, rfl, rfl, rfl⟩
  | step _ hen ih => exact ih.exec hen

/-- In every state of the RIB, replaying the best paths that were pushed gives for each prefix the attributes of the
advertised path, and nothing for a prefix that has none or is not in the RIB. -/
theorem replay_bestpathLog_of_reachable (config : SelectionConfig F) (localRoutes : Keyed (LocalRoute.pfx (F := F)))
    (rib : RibBase F) (h : Reachable (ribSystem config localRoutes) rib) (pfx : CIDRNetwork) :
    replay rib.ribOut.bestpathLog pfx = RibEntry.advertisedAttrs (rib.ribEntries.find pfx) := by
  have hsound := sound_of_reachable h
  rw [← hsound.idle.bestpathSaid]
  exact hsound.consistent.said pfx

/-- A prefix that peers know of has a selected path and was handed to the FIB, and no answer about its deletion is
outstanding. -/
theorem selected_of_replay_bestpathLog {config : SelectionConfig F} {localRoutes : Keyed (LocalRoute.pfx (F := F))}
    (h : Reachable (ribSystem config localRoutes) rib) (pfx : CIDRNetwork) :
    replay rib.ribOut.bestpathLog pfx = none ∨ ∃ entry, rib.ribEntries.find pfx = some entry ∧
      entry.bestpath ≠ none ∧ entry.hasFibOutState = true ∧ ¬Acked rib.pendingAcks (pfx, none) := by
  obtain ⟨hcons, hidle⟩ := sound_of_reachable h
  rw [← hidle.bestpathSaid, hcons.said]
  cases hentry : rib.ribEntries.find pfx with
  | none => exact .inl rfl
  | some entry =>
    obtain ⟨hmem, rfl⟩ := find_eq_some_iff.mp hentry
    have hent := hcons.entries entry hmem
    by_cases hadv : entry.advertisedBestpath = none
    · exact .inl (by simp [RibEntry.advertisedAttrs, hadv])
    · exact .inr ⟨entry, rfl, mt hent.advertised_of_bestpath hadv,
        Bool.of_not_eq_false (mt hent.advertised_of_fibOut hadv), mt hent.advertised_of_deleted hadv⟩

/-- A RIB without configured networks. -/
abbrev sampleSystem : System (RibBase Nat) (RibAction Nat) := ribSystem plainConfig .empty

def sampleBatch : List FibProgrammedPfx := [(samplePrefix, some ⟨1, [((attrsVia 0 1).val.nexthop, 0)]⟩)]

def announcedRib : RibBase Nat :=
  sampleSystem.exec sampleSystem.init
    (.announcement (fun _ => none) (ebgpPeer 1) (attrsVia 0 1) [(samplePrefix, 0)])

def selectedRib : RibBase Nat := sampleSystem.exec announcedRib (.initialPathComputation [samplePrefix])

def programmingRib : RibBase Nat := sampleSystem.exec selectedRib (.fibProgramming true false)

def programmedRib : RibBase Nat := sampleSystem.exec programmingRib (.programSucceeded [sampleBatch])

def advertisedRib : RibBase Nat := sampleSystem.exec programmedRib .fibMessage

theorem reachable_announcedRib : Reachable sampleSystem announcedRib := .step .init trivial

theorem enabled_announcedRib : announcedRib.Enabled (.initialPathComputation [samplePrefix]) := by decide +kernel

theorem enabled_selectedRib : selectedRib.Enabled (.fibProgramming true false) := by decide +kernel

theorem enabled_programmingRib : programmingRib.Enabled (.programSucceeded [sampleBatch]) := by decide +kernel

theorem enabled_programmedRib : programmedRib.Enabled .fibMessage := by decide +kernel

theorem reachable_selectedRib : Reachable sampleSystem selectedRib := .step reachable_announcedRib enabled_announcedRib

theorem reachable_programmedRib : Reachable sampleSystem programmedRib :=
  .step (.step reachable_selectedRib enabled_selectedRib) enabled_programmingRib

theorem reachable_advertisedRib : Reachable sampleSystem advertisedRib :=
  .step reachable_programmedRib enabled_programmedRib

theorem replay_bestpathLog_advertisedRib : replay advertisedRib.ribOut.bestpathLog samplePrefix =
    RibEntry.advertisedAttrs (advertisedRib.ribEntries.find samplePrefix) :=
  replay_bestpathLog_of_reachable plainConfig .empty advertisedRib reachable_advertisedRib samplePrefix

theorem selected_advertisedRib : ∃ entry, advertisedRib.ribEntries.find samplePrefix = some entry ∧
    entry.bestpath ≠ none ∧ entry.hasFibOutState = true ∧ ¬Acked advertisedRib.pendingAcks (samplePrefix, none) := by
  have hknown : (replay advertisedRib.ribOut.bestpathLog samplePrefix).isSome = true := by decide +kernel
  refine (selected_of_replay_bestpathLog reachable_advertisedRib samplePrefix).resolve_left fun hnone => ?_
  rw [hnone] at hknown
  cases hknown

end RibBase

end FbossBgp.Rib
