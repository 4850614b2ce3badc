import FbossBgp.Lib.Pointwise
import FbossBgp.Peer.PeerManager

/-! What one entry of a message of the RIB does to the shadow RIB. A path that is being withdrawn is no longer
there for the log of messages; it stays in its entry while the entry is on the change list, and the callback
of the tracker takes it away. -/

namespace FbossBgp.Peer

open List Keyed Option

open BgpLib (IPAddress)
open Rib (CIDRNetwork kDefaultPathID)
open AdjRib (RibOutWithdrawalEntry)
open ChangeTracker (Operation Session Admissible SparesRetired Tracked Tracks StepOk)

variable {R A C I : Type}

namespace ShadowRibEntry

variable (srEntry : ShadowRibEntry R A) (nexthop : IPAddress)

def liveBestpath : Option (PathInfo R) := srEntry.bestpath.bind ShadowRibRouteInfo.live

def liveMultipath : Option (PathInfo R) :=
  (srEntry.multipaths.find nexthop).bind fun path => path.route.live

/-- Some path of the entry is being withdrawn. -/
def isInWithdraw : Bool :=
  srEntry.bestpath.any ShadowRibRouteInfo.isInWithdraw || srEntry.multipaths.items.any (·.route.isInWithdraw)

/-- The entry that the callback leaves. -/
def completed : Option (ShadowRibEntry R A) :=
  if srEntry.complete.isEmpty then none else some srEntry.complete

variable {srEntry}

theorem live_settle (route : ShadowRibRouteInfo R) : route.settle.bind ShadowRibRouteInfo.live = route.live := by
  rw [ShadowRibRouteInfo.settle, ShadowRibRouteInfo.live]
  split <;> rfl

theorem liveBestpath_complete : srEntry.complete.liveBestpath = srEntry.liveBestpath := by
  show (srEntry.bestpath.bind ShadowRibRouteInfo.settle).bind ShadowRibRouteInfo.live = _
  rw [bind_assoc]
  exact congrArg _ (funext live_settle)

theorem liveMultipath_complete : srEntry.complete.liveMultipath nexthop = srEntry.liveMultipath nexthop := by
  rw [liveMultipath, complete, find_modify, find_filter, liveMultipath]
  cases srEntry.multipaths.find nexthop with
  | none => rfl
  | some path =>
    cases hflag : path.route.isInWithdraw with
    | true => simp [ShadowRibRouteInfo.live, hflag]
    | false =>
      simp only [Option.filter, hflag, bind_some,
        ShadowRibRouteInfo.live]
      rfl

theorem liveBestpath_of_isEmpty (h : srEntry.isEmpty = true) : srEntry.liveBestpath = none := by
  rw [isEmpty, Bool.and_eq_true, isNone_iff_eq_none] at h
  rw [liveBestpath, h.2]
  rfl

theorem liveMultipath_of_isEmpty (h : srEntry.isEmpty = true) (nexthop : IPAddress) :
    srEntry.liveMultipath nexthop = none := by
  rw [isEmpty, Bool.and_eq_true, List.isEmpty_iff] at h
  rw [liveMultipath, Keyed.find, h.1]
  rfl

theorem isEmpty_of_mem {path : Multipath R} (h : path ∈ srEntry.multipaths.items) : srEntry.isEmpty = false := by
  rw [isEmpty, isEmpty_eq_false_iff.mpr (ne_nil_of_mem h), Bool.false_and]

theorem bind_completed_liveBestpath : srEntry.completed.bind liveBestpath = srEntry.liveBestpath := by
  rw [completed, ← liveBestpath_complete]
  split
  next hempty => exact (liveBestpath_of_isEmpty hempty).symm
  · rfl

theorem bind_completed_liveMultipath :
    (srEntry.completed.bind fun srEntry => srEntry.liveMultipath nexthop) = srEntry.liveMultipath nexthop := by
  rw [completed, ← liveMultipath_complete]
  split
  next hempty => exact (liveMultipath_of_isEmpty hempty nexthop).symm
  · rfl

/-- An entry with paths of which none is live has one that is being withdrawn. -/
theorem isInWithdraw_of_not_live (hempty : srEntry.isEmpty = false) (hbp : srEntry.liveBestpath = none)
    (hmp : ∀ nexthop, srEntry.liveMultipath nexthop = none) : srEntry.isInWithdraw = true := by
  have hdead : ∀ route : ShadowRibRouteInfo R, route.live = none → route.isInWithdraw = true := by
    intro route h
    by_contra hflag
    rw [ShadowRibRouteInfo.live, if_neg hflag] at h
    cases h
  rw [isInWithdraw, Bool.or_eq_true]
  cases hbest : srEntry.bestpath with
  | some route =>
    rw [liveBestpath, hbest] at hbp
    exact .inl (hdead route hbp)
  | none =>
    rw [isEmpty, hbest, isNone_none, Bool.and_true, isEmpty_eq_false_iff] at hempty
    obtain ⟨path, hpath⟩ := exists_mem_of_ne_nil _ hempty
    have hlive := hmp path.pathId
    rw [liveMultipath, find_key hpath] at hlive
    exact .inr (any_eq_true.mpr ⟨path, hpath, hdead _ hlive⟩)

/-- The callback leaves an entry with the same version, with paths and with none that is being withdrawn. -/
theorem completed_spec {srEntry' : ShadowRibEntry R A} (h : srEntry.completed = some srEntry') :
    srEntry'.pfx = srEntry.pfx ∧ srEntry'.ribVersion = srEntry.ribVersion ∧ srEntry'.isEmpty = false ∧
      srEntry'.isInWithdraw = false := by
  rw [completed] at h
  split at h
  · cases h
  next hempty =>
      obtain rfl := Option.some.inj h
      refine ⟨rfl, rfl, Bool.not_eq_true _ ▸ hempty, ?_⟩
      rw [isInWithdraw, Bool.or_eq_false_iff]
      constructor
      · show (srEntry.bestpath.bind ShadowRibRouteInfo.settle).any ShadowRibRouteInfo.isInWithdraw = false
        cases srEntry.bestpath with
        | none => rfl
        | some route =>
          rw [bind_some, ShadowRibRouteInfo.settle]
          split <;> rfl
      · rw [List.any_eq_false]
        intro path hpath
        obtain ⟨old, -, rfl⟩ := mem_map.mp hpath
        exact Bool.false_ne_true

end ShadowRibEntry

namespace RibOutEntry

/-- What an entry says about the best path of its prefix. -/
def bestpathEvent : RibOutEntry R A → Option (CIDRNetwork × Option (PathInfo R))
  | .bestpath entry => some (entry.pfx, some { entry.toPathInfo with pathIdToSend := kDefaultPathID })
  | .bestpathWithdrawal entry => some (entry.pfx, none)
  | _ => none

/-- What an entry says about the path of its prefix and nexthop. -/
def multipathEvent : RibOutEntry R A → Option ((CIDRNetwork × IPAddress) × Option (PathInfo R))
  | .multipath entry => entry.attrs.map fun attrs => ((entry.pfx, attrs.nexthop), some entry.toPathInfo)
  | .multipathWithdrawal entry => entry.nh.map fun nexthop => ((entry.pfx, nexthop), none)
  | _ => none

end RibOutEntry

/-- An entry of a message gives its version to the entry of the shadow RIB that it touches. -/
def Handled.versionEvent (handled : Handled R A) : Option (CIDRNetwork × Option Nat) :=
  if handled.touches then some (handled.entry.pfx, some handled.version) else none

namespace PeerManager

variable (s : PeerManager R A C I) (pfx : CIDRNetwork)

/-- The best path of a prefix as a consumer sees it. -/
def bestpathOf : Option (PathInfo R) :=
  (s.shadowRibEntries.find pfx).bind ShadowRibEntry.liveBestpath

/-- The multipath of a prefix and a nexthop as a consumer sees it. -/
def multipathOf (nexthop : IPAddress) : Option (PathInfo R) :=
  (s.shadowRibEntries.find pfx).bind fun srEntry => srEntry.liveMultipath nexthop

def handledEntries : List (RibOutEntry R A) := s.handled.map Handled.entry

section

variable {s : PeerManager R A C I} (o : CIDRNetwork)

theorem find_callback : (s.processChangeItemCompleteCallback o).shadowRibEntries.find o =
    (s.shadowRibEntries.find o).bind ShadowRibEntry.completed := by
  rw [processChangeItemCompleteCallback]
  cases hfind : s.shadowRibEntries.find o with
  | none => rw [hfind]; rfl
  | some srEntry =>
    have hkey : srEntry.complete.pfx = o := (find_eq_some_iff.mp hfind).2
    rw [bind_some, ShadowRibEntry.completed]
    dsimp only
    split
    · exact find_erase_self ..
    · exact hkey ▸ find_put_self ..

theorem find_callback_of_ne {o pfx : CIDRNetwork} (h : pfx ≠ o) :
    (s.processChangeItemCompleteCallback o).shadowRibEntries.find pfx = s.shadowRibEntries.find pfx := by
  rw [processChangeItemCompleteCallback]
  cases hfind : s.shadowRibEntries.find o with
  | none => rfl
  | some srEntry =>
    have hkey : srEntry.complete.pfx = o := (find_eq_some_iff.mp hfind).2
    dsimp only
    split
    · exact find_erase_of_ne h
    · exact find_put_of_ne (hkey ▸ h)

/-- The callback completes the entry of its object and leaves the others. -/
theorem callback_at : Pointwise.At (fun (s : PeerManager R A C I) pfx => s.shadowRibEntries.find pfx)
    processChangeItemCompleteCallback id fun _ before after => after = before.bind ShadowRibEntry.completed where
  self _ o := find_callback o
  of_ne h := find_callback_of_ne h

theorem callback_frame :
    ∃ entries, s.processChangeItemCompleteCallback o = { s with shadowRibEntries := entries } := by
  rw [processChangeItemCompleteCallback]
  cases s.shadowRibEntries.find o with
  | none => exact ⟨_, rfl⟩
  | some srEntry => exact ⟨_, rfl⟩

theorem foldl_callback_frame (objects : List CIDRNetwork) :
    ∃ entries, objects.foldl processChangeItemCompleteCallback s = { s with shadowRibEntries := entries } := by
  induction objects generalizing s with
  | nil => exact ⟨_, rfl⟩
  | cons o objects ih =>
    obtain ⟨entries, hents⟩ := callback_frame (s := s) o
    rw [foldl_cons, hents]
    exact ih

variable [DecidableEq C] [DecidableEq I]

theorem track_spec {op : Operation C CIDRNetwork I} {done : List (CIDRNetwork × ConsumerBitmap)}
    (hdone : (s.tracker.perform op).processed = s.tracker.processed ++ done) (hnodup : (done.map Prod.fst).Nodup) :
    ∃ entries, s.track op = { s with tracker := s.tracker.perform op, shadowRibEntries := entries } ∧
      ∀ pfx, entries.find pfx =
        if pfx ∈ done.map Prod.fst then (s.shadowRibEntries.find pfx).bind ShadowRibEntry.completed
        else s.shadowRibEntries.find pfx := by
  have htrack : s.track op =
      (done.map Prod.fst).foldl processChangeItemCompleteCallback { s with tracker := s.tracker.perform op } := by
    rw [track, hdone, drop_left]
  obtain ⟨entries, hents⟩ := foldl_callback_frame (s := { s with tracker := s.tracker.perform op }) (done.map Prod.fst)
  refine ⟨entries, htrack.trans hents, fun pfx => ?_⟩
  have hfind : entries.find pfx = ((done.map Prod.fst).foldl processChangeItemCompleteCallback
      { s with tracker := s.tracker.perform op }).shadowRibEntries.find pfx := by rw [hents]
  rw [hfind]
  split
  next hmem => exact callback_at.foldl_of_mem (by rwa [List.map_id]) hmem _
  next hmem => exact callback_at.foldl_of_notMem (by rwa [List.map_id]) _

end

end PeerManager

open Replay (replay)

/-- At one prefix: the entry shows what the log says, has the version of the last entry of the log that touched
it and has paths; one with a path that is being withdrawn is on the change list. -/
structure Mirrors (handled : List (Handled R A)) (pfx : CIDRNetwork) (found : Option (ShadowRibEntry R A))
    (listed : Bool) : Prop where
  bestpath : found.bind ShadowRibEntry.liveBestpath =
    replay ((handled.map Handled.entry).filterMap RibOutEntry.bestpathEvent) pfx
  multipath : ∀ nexthop, (found.bind fun srEntry => srEntry.liveMultipath nexthop) =
    replay ((handled.map Handled.entry).filterMap RibOutEntry.multipathEvent) (pfx, nexthop)
  version : ∀ srEntry, found = some srEntry →
    replay (handled.filterMap Handled.versionEvent) pfx = some srEntry.ribVersion
  occupied : ∀ srEntry, found = some srEntry → srEntry.isEmpty = false
  withdrawn : ∀ srEntry, found = some srEntry → srEntry.isInWithdraw = true → listed = true

namespace Mirrors

variable {handled : List (Handled R A)} {pfx : CIDRNetwork} {found : Option (ShadowRibEntry R A)}
  {listed listed' : Bool} {κ ν : Type} {entry : RibOutEntry R A} {x : Handled R A}

theorem of_none (hbp : none = replay ((handled.map Handled.entry).filterMap RibOutEntry.bestpathEvent) pfx)
    (hmp : ∀ nexthop, none = replay ((handled.map Handled.entry).filterMap RibOutEntry.multipathEvent) (pfx, nexthop)) :
    Mirrors handled pfx none listed :=
  have hnone : ∀ srEntry : ShadowRibEntry R A, none ≠ some srEntry := fun srEntry => (some_ne_none srEntry).symm
  ⟨hbp, hmp, fun srEntry h => absurd h (hnone srEntry), fun srEntry h => absurd h (hnone srEntry),
    fun srEntry h => absurd h (hnone srEntry)⟩

theorem relist (h : Mirrors handled pfx found listed) (hlisted : listed = true → listed' = true) :
    Mirrors handled pfx found listed' :=
  ⟨h.bestpath, h.multipath, h.version, h.occupied, fun srEntry hfind hflag => hlisted (h.withdrawn srEntry hfind hflag)⟩

/-- Completing an entry takes away what is no longer there for the log, so it need not be listed any more. -/
theorem completed (h : Mirrors handled pfx found listed) :
    Mirrors handled pfx (found.bind ShadowRibEntry.completed) listed' := by
  cases found with
  | none => exact .of_none h.bestpath h.multipath
  | some srEntry =>
    rw [bind_some]
    refine ⟨?_, fun nexthop => ?_, fun srEntry' hfind => ?_, fun srEntry' hfind => ?_, fun srEntry' hfind hflag => ?_⟩
    · rw [ShadowRibEntry.bind_completed_liveBestpath]
      exact h.bestpath
    · rw [ShadowRibEntry.bind_completed_liveMultipath]
      exact h.multipath nexthop
    · obtain ⟨-, hver, -, -⟩ := ShadowRibEntry.completed_spec hfind
      rw [hver]
      exact h.version srEntry rfl
    · exact (ShadowRibEntry.completed_spec hfind).2.2.1
    · rw [(ShadowRibEntry.completed_spec hfind).2.2.2] at hflag
      cases hflag

theorem filterMap_append_singleton {α β : Type} (f : α → Option β) (l : List α) (x : α) :
    (l ++ [x]).filterMap f = l.filterMap f ++ (f x).toList := by
  rw [filterMap_append, filterMap_cons]
  cases f x <;> rfl

theorem entries_append (handled : List (Handled R A)) (x : Handled R A)
    (event : RibOutEntry R A → Option (κ × Option ν)) : ((handled ++ [x]).map Handled.entry).filterMap event =
      (handled.map Handled.entry).filterMap event ++ (event x.entry).toList := by
  rw [map_append, map_singleton, filterMap_append_singleton]

theorem entries_append_of_none (handled : List (Handled R A))
    {event : RibOutEntry R A → Option (κ × Option ν)} (h : event x.entry = none) :
    ((handled ++ [x]).map Handled.entry).filterMap event = (handled.map Handled.entry).filterMap event := by
  rw [entries_append, h, toList_none, append_nil]

theorem replay_append_toList_of_ne [DecidableEq κ] {events : List (κ × Option ν)}
    {event : Option (κ × Option ν)} {k : κ} (h : ∀ e, event = some e → k ≠ e.1) :
    replay (events ++ event.toList) k = replay events k := by
  cases event with
  | none => rw [toList_none, append_nil]
  | some e => exact Replay.replay_append_of_ne (h e rfl)

theorem pfx_bestpathEvent {e : CIDRNetwork × Option (PathInfo R)}
    (h : entry.bestpathEvent = some e) : e.1 = entry.pfx := by
  cases entry with
  | bestpath | bestpathWithdrawal => obtain rfl := Option.some.inj h; rfl
  | multipath | multipathWithdrawal => cases h

theorem pfx_multipathEvent {e : (CIDRNetwork × IPAddress) × Option (PathInfo R)}
    (h : entry.multipathEvent = some e) : e.1.1 = entry.pfx := by
  cases entry with
  | bestpath | bestpathWithdrawal => cases h
  | multipath | multipathWithdrawal =>
    obtain ⟨_, -, rfl⟩ := map_eq_some_iff.mp h
    rfl

theorem append_of_ne (h : Mirrors handled pfx found listed) (hne : pfx ≠ x.entry.pfx) :
    Mirrors (handled ++ [x]) pfx found listed := by
  refine ⟨?_, fun nexthop => ?_, fun srEntry hfind => ?_, h.occupied, h.withdrawn⟩
  · rw [entries_append, replay_append_toList_of_ne fun e he => pfx_bestpathEvent he ▸ hne]
    exact h.bestpath
  · have hkey : ∀ e, x.entry.multipathEvent = some e → (pfx, nexthop) ≠ e.1 := by
      intro e he heq
      exact hne ((congrArg Prod.fst heq).trans (pfx_multipathEvent he))
    rw [entries_append, replay_append_toList_of_ne hkey]
    exact h.multipath nexthop
  · have hkey : ∀ e, x.versionEvent = some e → pfx ≠ e.1 := by
      intro e he
      rw [Handled.versionEvent] at he
      split at he
      · obtain rfl := Option.some.inj he
        exact hne
      · cases he
    rw [filterMap_append_singleton, replay_append_toList_of_ne hkey]
    exact h.version srEntry hfind

end Mirrors

namespace PeerManager

variable [DecidableEq C] [DecidableEq I] {s s' : PeerManager R A C I}

/-- The tracker is well formed, every bit on an item is that of a consumer that has the item ahead, and the
bitmaps have bits of registered consumers only. -/
structure TracksConsumers (s : PeerManager R A C I) : Prop where
  inv : ChangeTracker.Inv ⟨s.tracker, ∅⟩
  tracked : Tracked s.tracker
  bitmaps : ∀ isBestpathChange p, BitmapUtils.isBitSet (s.getConsumerBitmapForChange isBestpathChange) p = true →
    ∃ c, s.tracker.bitPosition c = p ∧ p ≠ kInvalidBitPosition

def Reflects (s : PeerManager R A C I) : Prop :=
  ∀ pfx, Mirrors s.handled pfx (s.shadowRibEntries.find pfx) (s.tracker.isOnChangeList pfx)

/-- The invariant of a run: the version and the log only grow. -/
structure Sound (s : PeerManager R A C I) : Prop extends TracksConsumers s where
  reflects : Reflects s

/-- What the tracker and the bitmaps say does not depend on the other fields. -/
theorem TracksConsumers.congr (h : TracksConsumers s) (htracker : s'.tracker = s.tracker)
    (hadd : s'.addPathConsumerBitmap = s.addPathConsumerBitmap)
    (hnonAddPath : s'.nonAddPathConsumerBitmap = s.nonAddPathConsumerBitmap) : TracksConsumers s' := by
  refine ⟨by rw [htracker]; exact h.inv, by rw [htracker]; exact h.tracked, fun isBestpathChange => ?_⟩
  rw [getConsumerBitmapForChange, hadd, hnonAddPath, htracker]
  exact h.bitmaps isBestpathChange

section

variable (allocator : Allocator C I) {srEntry : ShadowRibEntry R A} (h : TracksConsumers s) (isBestpathChange : Bool)
include h

theorem TracksConsumers.admissible_publish (o : CIDRNetwork) :
    Admissible s.tracker
      (.publish (allocator.allocate s.tracker) (some o) (s.getConsumerBitmapForChange isBestpathChange)) :=
  ⟨.inr (allocator.fresh _ h.inv.consistent.listed),
    fun p hbit => (h.inv.registered.isBitSet_full p).mpr (h.bitmaps isBestpathChange p hbit)⟩

/-- A published change is either completed at once or on the change list. -/
theorem publishChange_spec (o : CIDRNetwork) : ∃ tracker entries,
    s.publishChange allocator o isBestpathChange = { s with tracker := tracker, shadowRibEntries := entries } ∧
      TracksConsumers { s with tracker := tracker, shadowRibEntries := entries } ∧
      (∀ pfx, pfx ≠ o → entries.find pfx = s.shadowRibEntries.find pfx ∧
        tracker.isOnChangeList pfx = s.tracker.isOnChangeList pfx) ∧
      (entries.find o = (s.shadowRibEntries.find o).bind ShadowRibEntry.completed ∨
        entries.find o = s.shadowRibEntries.find o ∧ tracker.isOnChangeList o = true) := by
  let op : Operation C CIDRNetwork I :=
    .publish (allocator.allocate s.tracker) (some o) (s.getConsumerBitmapForChange isBestpathChange)
  have hadm : Admissible s.tracker op := h.admissible_publish allocator isBestpathChange o
  have hstep : StepOk ⟨s.tracker, ∅⟩ op := ChangeTracker.stepOk_perform h.inv hadm
  have htr : ∀ entries, TracksConsumers { s with tracker := s.tracker.perform op, shadowRibEntries := entries } := by
    intro entries
    refine ⟨hstep.inv, hstep.tracked h.tracked fun c hc => absurd hc (Set.notMem_empty c), fun b p hbit => ?_⟩
    obtain ⟨c, hc, hvalid⟩ := h.bitmaps b p hbit
    exact ⟨c, (hstep.position c nofun nofun).trans hc, hvalid⟩
  rcases ChangeTracker.publishChange_spec h.inv.consistent (ChangeTracker.fresh_of_admissible hadm)
      (s.getConsumerBitmapForChange isBestpathChange) with ⟨-, hskip⟩ | ⟨-, hpub⟩
  · -- nobody needs the change, so the tracker calls the callback
    have hperf : s.tracker.perform op = _ := hskip
    have hdone := congrArg ChangeTracker.processed hperf
    obtain ⟨entries, hents, hfind⟩ := track_spec hdone (nodup_singleton o)
    refine ⟨_, entries, hents, htr entries, fun pfx hne => ⟨?_, ?_⟩, .inl ?_⟩
    · rw [hfind, if_neg (by simpa using hne)]
    · rw [hperf]
      rfl
    · rw [hfind, if_pos (by simp)]
  · have hchangeItem : (s.tracker.perform op).changeItem = _ := hpub.changeItem
    have hdone : (s.tracker.perform op).processed = s.tracker.processed ++ [] :=
      hpub.processed.trans (append_nil _).symm
    obtain ⟨entries, hents, hfind⟩ := track_spec hdone nodup_nil
    have hsame : ∀ pfx, entries.find pfx = s.shadowRibEntries.find pfx := fun pfx => hfind pfx
    refine ⟨_, entries, hents, htr entries, fun pfx hne => ⟨hsame pfx, ?_⟩, .inr ⟨hsame o, ?_⟩⟩
    · rw [ChangeTracker.isOnChangeList, hchangeItem, Function.update_of_ne hne]
      rfl
    · rw [ChangeTracker.isOnChangeList, hchangeItem, Function.update_self]
      rfl

/-- Storing and publishing an entry that mirrors the log. -/
theorem update_spec (hother : ∀ pfx, pfx ≠ srEntry.pfx →
      Mirrors s.handled pfx (s.shadowRibEntries.find pfx) (s.tracker.isOnChangeList pfx))
    (hself : Mirrors s.handled srEntry.pfx (some { srEntry with ribVersion := s.maxRibVersion }) true) :
    Sound (s.update allocator isBestpathChange srEntry) ∧
      (s.update allocator isBestpathChange srEntry).handled = s.handled ∧
      (s.update allocator isBestpathChange srEntry).maxRibVersion = s.maxRibVersion := by
  let stored : ShadowRibEntry R A := { srEntry with ribVersion := s.maxRibVersion }
  have hstored : TracksConsumers { s with shadowRibEntries := s.shadowRibEntries.put stored } := h.congr rfl rfl rfl
  obtain ⟨tracker, entries, heq, htr, hframe, hch⟩ := publishChange_spec allocator hstored isBestpathChange srEntry.pfx
  have hput : (s.shadowRibEntries.put stored).find srEntry.pfx = some stored := find_put_self ..
  rw [update, heq]
  refine ⟨⟨htr, fun pfx => ?_⟩, rfl, rfl⟩
  by_cases hpfx : pfx = srEntry.pfx
  · subst hpfx
    rcases hch with hfind | ⟨hfind, hlisted⟩
    · exact (hfind.trans (congrArg (Option.bind · ShadowRibEntry.completed) hput)) ▸ hself.completed
    · exact (hfind.trans hput) ▸ hself.relist fun _ => hlisted
  · obtain ⟨hfind, hlisted⟩ := hframe pfx hpfx
    have hne : (s.shadowRibEntries.put stored).find pfx = s.shadowRibEntries.find pfx := find_put_of_ne hpfx
    exact (hfind.trans hne) ▸ (hother pfx hpfx).relist fun hold => hlisted.trans hold

end

section

variable (allocator : Allocator C I) {x : Handled R A}

/-- The state after an entry of a message: the invariant holds with the entry in the log. -/
structure Records (s : PeerManager R A C I) (x : Handled R A) (s' : PeerManager R A C I) : Prop where
  sound : Sound s'
  handled : s'.handled = s.handled ++ [x]
  maxRibVersion : s'.maxRibVersion = s.maxRibVersion

theorem announcedEntry_spec (s : PeerManager R A C I) (entry : RibOutAnnouncementEntry R A) :
    (s.announcedEntry entry).pfx = entry.pfx ∧
      (s.shadowRibEntries.find entry.pfx).bind ShadowRibEntry.liveBestpath = (s.announcedEntry entry).liveBestpath ∧
      ∀ nexthop, ((s.shadowRibEntries.find entry.pfx).bind fun srEntry => srEntry.liveMultipath nexthop) =
        (s.announcedEntry entry).liveMultipath nexthop := by
  rw [announcedEntry]
  cases hfind : s.shadowRibEntries.find entry.pfx with
  | none => exact ⟨rfl, rfl, fun _ => rfl⟩
  | some srEntry => exact ⟨(find_eq_some_iff.mp hfind).2, rfl, fun _ => rfl⟩

/-- An entry that is stored and published has to agree with the log in its paths only. -/
theorem replay_multipathWithdrawal (handled : List (Handled R A)) (entry : RibOutWithdrawalEntry) (version : Nat)
    (touches : Bool) (nexthop : IPAddress) :
    replay (((handled ++ [Handled.mk (.multipathWithdrawal entry) version touches]).map Handled.entry).filterMap
        RibOutEntry.multipathEvent) (entry.pfx, nexthop) =
      if entry.nh = some nexthop then none
      else replay ((handled.map Handled.entry).filterMap RibOutEntry.multipathEvent) (entry.pfx, nexthop) := by
  rw [Mirrors.entries_append, RibOutEntry.multipathEvent]
  cases entry.nh with
  | none => rw [map_none, toList_none, append_nil, if_neg nofun]
  | some withdrawn =>
    rw [map_some, toList_some, Replay.replay_append_singleton]
    by_cases hnh : nexthop = withdrawn
    · rw [hnh, if_pos rfl, if_pos rfl]
    · rw [if_neg fun heq => hnh (congrArg Prod.snd heq), if_neg fun heq => hnh (Option.some.inj heq).symm]

variable (h : Sound s)
include h

theorem Sound.records_skip (pfx : CIDRNetwork) {found : Option (ShadowRibEntry R A)}
    (hx : x.entry.pfx = pfx) (hfind : s.shadowRibEntries.find pfx = found)
    (hself : Mirrors (s.handled ++ [x]) pfx found (s.tracker.isOnChangeList pfx)) :
    Records s x { s with handled := s.handled ++ [x] } := by
  refine ⟨⟨h.congr rfl rfl rfl, fun pfx' => ?_⟩, rfl, rfl⟩
  by_cases hpfx : pfx' = pfx
  · subst hpfx
    exact hfind ▸ hself
  · exact (h.reflects pfx').append_of_ne (hx ▸ hpfx)

theorem Sound.records_update (pfx : CIDRNetwork) {srEntry : ShadowRibEntry R A}
    {isBestpathChange : Bool} (hx : x.entry.pfx = pfx ∧ x.version = s.maxRibVersion ∧ x.touches = true)
    (hpfx : srEntry.pfx = pfx)
    (hbp : srEntry.liveBestpath =
      replay (((s.handled ++ [x]).map Handled.entry).filterMap RibOutEntry.bestpathEvent) pfx)
    (hmp : ∀ nexthop, srEntry.liveMultipath nexthop =
      replay (((s.handled ++ [x]).map Handled.entry).filterMap RibOutEntry.multipathEvent) (pfx, nexthop))
    (hoccupied : srEntry.isEmpty = false) :
    Records s x ({ s with handled := s.handled ++ [x] }.update allocator isBestpathChange srEntry) := by
  subst hpfx
  obtain ⟨hself, hver, htouches⟩ := hx
  have hrecorded : TracksConsumers { s with handled := s.handled ++ [x] } := h.congr rfl rfl rfl
  have hlogged : replay ((s.handled ++ [x]).filterMap Handled.versionEvent) srEntry.pfx = some s.maxRibVersion := by
    rw [Mirrors.filterMap_append_singleton, Handled.versionEvent, if_pos htouches, hver, hself]
    exact Replay.replay_append_self ..
  obtain ⟨hsound, hdone, hmax⟩ := update_spec allocator hrecorded isBestpathChange
    (fun pfx hne => (h.reflects pfx).append_of_ne (hself ▸ hne))
    ⟨hbp, hmp, fun _ hsome => Option.some.inj hsome ▸ hlogged,
      fun _ hsome => Option.some.inj hsome ▸ hoccupied, fun _ _ _ => rfl⟩
  exact ⟨hsound, hdone, hmax⟩

theorem announceBestpath_records (entry : RibOutAnnouncementEntry R A) :
    Records s ⟨.bestpath entry, s.maxRibVersion, true⟩ (s.handleEntry allocator (.bestpath entry)) := by
  obtain ⟨hpfx, -, hmp⟩ := announcedEntry_spec s entry
  have hold := h.reflects entry.pfx
  refine h.records_update allocator entry.pfx ⟨rfl, rfl, rfl⟩ hpfx ?_ (fun nexthop => ?_) (Bool.and_false _)
  · rw [Mirrors.entries_append]
    exact (Replay.replay_append_self ..).symm
  · rw [Mirrors.entries_append_of_none s.handled rfl]
    exact (hmp nexthop).symm.trans (hold.multipath nexthop)

theorem announceMultipath_records (entry : RibOutAnnouncementEntry R A) :
    Records s ⟨.multipath entry, s.maxRibVersion, entry.attrs.isSome⟩ (s.handleEntry allocator (.multipath entry)) := by
  have hold := h.reflects entry.pfx
  rw [handleEntry, announceMultipath]
  dsimp only [touches]
  cases hattrs : entry.attrs with
  | none =>
    have hevent : (RibOutEntry.multipath entry).multipathEvent = none := by rw [RibOutEntry.multipathEvent, hattrs]; rfl
    refine h.records_skip entry.pfx rfl rfl ⟨?_, fun nexthop => ?_, fun srEntry hfind => ?_, hold.occupied, hold.withdrawn⟩
    · rw [Mirrors.entries_append_of_none s.handled rfl]
      exact hold.bestpath
    · rw [Mirrors.entries_append_of_none s.handled hevent]
      exact hold.multipath nexthop
    · rw [Mirrors.filterMap_append_singleton]
      exact (congrArg (replay · _) (append_nil _)).trans (hold.version srEntry hfind)
  | some attrs =>
    obtain ⟨hpfx, hbp, hmp⟩ := announcedEntry_spec s entry
    have hevent : (RibOutEntry.multipath entry).multipathEvent =
        some ((entry.pfx, attrs.nexthop), some entry.toPathInfo) := by rw [RibOutEntry.multipathEvent, hattrs]; rfl
    refine h.records_update allocator entry.pfx ⟨rfl, rfl, rfl⟩ hpfx ?_ (fun nexthop => ?_)
      (ShadowRibEntry.isEmpty_of_mem (mem_put.mpr (.inl rfl)))
    · rw [Mirrors.entries_append_of_none s.handled rfl]
      exact hbp.symm.trans hold.bestpath
    · rw [Mirrors.entries_append, hevent, toList_some]
      by_cases hnh : nexthop = attrs.nexthop
      · rw [hnh]
        refine Eq.trans ?_ (Replay.replay_append_self ..).symm
        exact congrArg (Option.bind · _) (find_put_self ..)
      · rw [Replay.replay_append_of_ne fun heq => hnh (congrArg Prod.snd heq)]
        refine Eq.trans ?_ ((hmp nexthop).symm.trans (hold.multipath nexthop))
        exact congrArg (Option.bind · _) (find_put_of_ne hnh)

theorem withdrawBestpath_records (entry : RibOutWithdrawalEntry) :
    Records s ⟨.bestpathWithdrawal entry, s.maxRibVersion, (s.shadowRibEntries.find entry.pfx).isSome⟩
      (s.handleEntry allocator (.bestpathWithdrawal entry)) := by
  have hold := h.reflects entry.pfx
  rw [handleEntry, withdrawBestpath]
  dsimp only [touches]
  cases hfind : s.shadowRibEntries.find entry.pfx with
  | none =>
    rw [hfind] at hold
    refine h.records_skip entry.pfx rfl hfind (.of_none ?_ fun nexthop => ?_)
    · rw [Mirrors.entries_append]
      exact (Replay.replay_append_self ..).symm
    · rw [Mirrors.entries_append_of_none s.handled rfl]
      exact hold.multipath nexthop
  | some srEntry =>
    have hpfx : srEntry.pfx = entry.pfx := (find_eq_some_iff.mp hfind).2
    rw [hfind] at hold
    refine h.records_update allocator entry.pfx ⟨rfl, rfl, rfl⟩ hpfx ?_ (fun nexthop => ?_) ?_
    · rw [Mirrors.entries_append]
      refine Eq.trans ?_ (Replay.replay_append_self ..).symm
      cases srEntry.bestpath <;> rfl
    · rw [Mirrors.entries_append_of_none s.handled rfl]
      exact hold.multipath nexthop
    · rw [← hold.occupied srEntry rfl]
      show (_ && (srEntry.bestpath.map _).isNone) = _
      rw [isNone_map]
      rfl

/-- The path of the withdrawn nexthop, as the log sees it after the withdrawal. -/
theorem withdrawMultipath_records (entry : RibOutWithdrawalEntry) :
    Records s ⟨.multipathWithdrawal entry, s.maxRibVersion, s.touches (.multipathWithdrawal entry)⟩
      (s.handleEntry allocator (.multipathWithdrawal entry)) := by
  have hold := h.reflects entry.pfx
  rw [handleEntry, withdrawMultipath]
  dsimp only [touches]
  cases hfind : s.shadowRibEntries.find entry.pfx with
  | none =>
    rw [hfind] at hold
    refine h.records_skip entry.pfx rfl hfind (.of_none ?_ fun nexthop => ?_)
    · rw [Mirrors.entries_append_of_none s.handled rfl]
      exact hold.bestpath
    · rw [replay_multipathWithdrawal, ← hold.multipath nexthop]
      split <;> rfl
  | some srEntry =>
    have hpfx : srEntry.pfx = entry.pfx := (find_eq_some_iff.mp hfind).2
    rw [hfind] at hold
    dsimp only [any_some]
    cases hpath : entry.nh.bind srEntry.multipaths.find with
    | none =>
      refine h.records_skip entry.pfx rfl hfind ⟨?_, fun nexthop => ?_, fun _ hsome => ?_, hold.occupied, hold.withdrawn⟩
      · rw [Mirrors.entries_append_of_none s.handled rfl]
        exact hold.bestpath
      · rw [replay_multipathWithdrawal, ← hold.multipath nexthop]
        split
        next hnh =>
          rw [hnh, bind_some] at hpath
          rw [bind_some, ShadowRibEntry.liveMultipath, hpath]
          rfl
        · rfl
      · rw [Mirrors.filterMap_append_singleton]
        exact (congrArg (replay · _) (append_nil _)).trans (hold.version _ hsome)
    | some path =>
      obtain ⟨withdrawn, hnh, hfound⟩ := bind_eq_some_iff.mp hpath
      have hkey : path.pathId = withdrawn := (find_eq_some_iff.mp hfound).2
      refine h.records_update allocator entry.pfx ⟨rfl, rfl, rfl⟩ hpfx ?_ (fun nexthop => ?_)
        (ShadowRibEntry.isEmpty_of_mem (mem_put.mpr (.inl rfl)))
      · rw [Mirrors.entries_append_of_none s.handled rfl]
        exact hold.bestpath
      · rw [replay_multipathWithdrawal, ← hold.multipath nexthop,
          hnh]
        by_cases hnexthop : withdrawn = nexthop
        · rw [if_pos (congrArg some hnexthop), ← hnexthop, ← hkey]
          exact congrArg (Option.bind · _) (find_put_self ..)
        · rw [if_neg fun heq => hnexthop (Option.some.inj heq)]
          exact congrArg (Option.bind · _) (find_put_of_ne fun heq => hnexthop (heq.trans hkey).symm)

theorem handleEntry_records (entry : RibOutEntry R A) :
    Records s ⟨entry, s.maxRibVersion, s.touches entry⟩ (s.handleEntry allocator entry) := by
  cases entry with
  | bestpath entry => exact announceBestpath_records allocator h entry
  | multipath entry => exact announceMultipath_records allocator h entry
  | bestpathWithdrawal entry => exact withdrawBestpath_records allocator h entry
  | multipathWithdrawal entry => exact withdrawMultipath_records allocator h entry

end

end PeerManager

end FbossBgp.Peer
