import FbossBgp.Peer.PeerManagerSteps

/-! The shadow RIB is the replay of the messages of the RIB, whatever the consumers of its changes do in
between. -/

namespace FbossBgp.Peer

open List Transition BitmapUtils

open BgpLib (IPAddress)
open Rib (CIDRNetwork)
open ChangeTracker (Operation Session Admissible SparesRetired Tracked Tracks StepOk)
open Replay (replay)

variable {R A C I : Type} [DecidableEq C] [DecidableEq I]

namespace PeerManager

variable {s s' : PeerManager R A C I} (allocator : Allocator C I)

/-- A sound state after more entries were handled, with a version that has not decreased. -/
structure Follows (s : PeerManager R A C I) (entries : List (RibOutEntry R A)) (s' : PeerManager R A C I) : Prop where
  sound : Sound s'
  entries : s'.handledEntries = s.handledEntries ++ entries
  maxRibVersion : s.maxRibVersion ≤ s'.maxRibVersion

theorem Sound.follows_self (h : Sound s) : Follows s [] s := ⟨h, (append_nil _).symm, le_rfl⟩

theorem Follows.trans {s'' : PeerManager R A C I} {entries entries' : List (RibOutEntry R A)}
    (h : Follows s entries s') (h' : Follows s' entries' s'') : Follows s (entries ++ entries') s'' := by
  refine ⟨h'.sound, ?_, h.maxRibVersion.trans h'.maxRibVersion⟩
  rw [h'.entries, h.entries, append_assoc]

theorem handleEntry_follows (h : Sound s) (entry : RibOutEntry R A) :
    Follows s [entry] (s.handleEntry allocator entry) := by
  obtain ⟨hsound, hdone, hver⟩ := handleEntry_records allocator h entry
  refine ⟨hsound, ?_, hver.ge⟩
  rw [handledEntries, hdone, map_append]
  rfl

theorem incrementMaxRibVersion_follows (h : Sound s) : Follows s [] s.incrementMaxRibVersion :=
  ⟨⟨h.congr rfl rfl rfl, h.reflects⟩, (append_nil _).symm, Nat.le_succ _⟩

theorem handleEntries_follows (h : Sound s) (chunkPrefix : Option CIDRNetwork) (entries : List (RibOutEntry R A)) :
    Follows s entries (handleEntries allocator chunkPrefix entries s) := by
  induction entries generalizing s chunkPrefix with
  | nil => exact h.follows_self
  | cons entry entries ih =>
    have hchunk : Follows s [] (if chunkPrefix = some entry.pfx then s else s.incrementMaxRibVersion) := by
      split
      · exact h.follows_self
      · exact incrementMaxRibVersion_follows h
    have hentry := hchunk.trans (handleEntry_follows allocator hchunk.sound entry)
    exact hentry.trans (ih hentry.sound _)

theorem handleMessage_follows (h : Sound s) (message : RibOutMessage R A) :
    Follows s message.handledEntries (s.handleMessage allocator message) := by
  cases message with
  | announcement entries addPathEntries =>
    have hbestpaths := handleEntries_follows allocator h none (entries.map .bestpath)
    exact hbestpaths.trans (handleEntries_follows allocator hbestpaths.sound none _)
  | withdrawal withdrawal =>
    have hbestpaths := handleEntries_follows allocator h none (withdrawal.entries.map .bestpathWithdrawal)
    exact hbestpaths.trans (handleEntries_follows allocator hbestpaths.sound none _)

section

variable {op : Operation C CIDRNetwork I} {consumer : C}

/-- What the consumers do to the change list completes entries and changes nothing else. -/
theorem track_follows (h : Sound s) (hpublish : ∀ address o bitmap, op ≠ .publish address (some o) bitmap)
    (hret : (⟨s.tracker, ∅⟩ : Session C CIDRNetwork I).retiredAfter op = ∅) (hadm : Admissible s.tracker op)
    (hbitmaps : ∀ isBestpathChange p, isBitSet (s.getConsumerBitmapForChange isBestpathChange) p = true →
      ∃ c, (s.tracker.perform op).bitPosition c = p ∧ p ≠ kInvalidBitPosition) :
    Follows s [] (s.track op) := by
  have hstep : StepOk ⟨s.tracker, ∅⟩ op := ChangeTracker.stepOk_perform h.inv hadm
  obtain ⟨hitem, done, hdone, hnodup, -, hmem⟩ := hstep.completes hpublish
  obtain ⟨entries, hents, hfind⟩ := track_spec hdone hnodup
  have hspares : SparesRetired (⟨s.tracker, ∅⟩ : Session C CIDRNetwork I) op := by
    cases op with
    | publish => exact fun c hc => absurd hc (Set.notMem_empty c)
    | _ => trivial
  rw [hents]
  refine ⟨⟨⟨?_, hstep.tracked h.tracked hspares, hbitmaps⟩, fun pfx => ?_⟩, (append_nil _).symm, le_rfl⟩
  · rw [← hret]
    exact hstep.inv
  · rw [hfind]
    split
    · exact (h.reflects pfx).completed
    next hnm =>
      -- an entry that was not completed is listed if it was
      refine (h.reflects pfx).relist fun hlisted => ?_
      by_contra hoff
      exact hnm ((hmem pfx).mpr ⟨hlisted, Bool.not_eq_true _ ▸ hoff⟩)

theorem track_follows_of_positions (h : Sound s)
    (hpublish : ∀ address o bitmap, op ≠ .publish address (some o) bitmap)
    (hret : (⟨s.tracker, ∅⟩ : Session C CIDRNetwork I).retiredAfter op = ∅) (hadm : Admissible s.tracker op)
    (hregister : ∀ c, op ≠ .register c) (hderegister : ∀ c, op ≠ .deregister c) : Follows s [] (s.track op) := by
  have hstep : StepOk ⟨s.tracker, ∅⟩ op := ChangeTracker.stepOk_perform h.inv hadm
  refine track_follows h hpublish hret hadm fun b p hbit => ?_
  obtain ⟨c, hc, hvalid⟩ := h.bitmaps b p hbit
  exact ⟨c, (hstep.position c (hregister c) (hderegister c)).trans hc, hvalid⟩

/-- Registering a consumer gives it a position and moves no other one. -/
theorem bitPosition_registerWithTracker (h : ChangeTracker.Inv ⟨s.tracker, ∅⟩)
    {tracker : ChangeTracker C CIDRNetwork I} (hres : s.tracker.registerWithTracker consumer = .ok tracker) :
    tracker.bitPosition consumer ≠ kInvalidBitPosition ∧
      ∀ c, s.tracker.bitPosition c ≠ kInvalidBitPosition → tracker.bitPosition c = s.tracker.bitPosition c := by
  by_cases hc : s.tracker.bitPosition consumer = kInvalidBitPosition
  · obtain ⟨b, -, -, hb, -, hpos, -⟩ := ChangeTracker.registerWithTracker_new h.consistent h.registered
      ((h.idle consumer).mpr (.inl hc)) hc hres
    refine ⟨by rwa [hpos, if_pos rfl], fun c hvalid => ?_⟩
    have hne : c ≠ consumer := fun heq => hvalid (heq ▸ hc)
    rw [hpos, if_neg hne]
  · obtain ⟨-, hsame, -⟩ := ChangeTracker.registerWithTracker_registered h.consistent hc hres
    have hpos := congrFun hsame.bitPosition
    exact ⟨by rwa [hpos], fun c _ => hpos c⟩

theorem setBitmap_follows (h : Sound s) (hc : s.tracker.bitPosition consumer ≠ kInvalidBitPosition)
    (sendAddPath : Bool) : Follows s [] (s.setBitmap consumer sendAddPath) := by
  have hset : ∀ bitmap, (∀ p, isBitSet bitmap p = true → ∃ c, s.tracker.bitPosition c = p ∧ p ≠ kInvalidBitPosition) →
      ∀ p, isBitSet (setBit bitmap (s.tracker.bitPosition consumer)) p = true →
        ∃ c, s.tracker.bitPosition c = p ∧ p ≠ kInvalidBitPosition := by
    intro bitmap hold p hbit
    by_cases hp : p = s.tracker.bitPosition consumer
    · exact ⟨consumer, hp.symm, hp ▸ hc⟩
    · exact hold p (by simpa [Ne.symm hp] using hbit)
  rw [setBitmap]
  split
  all_goals
    refine ⟨⟨⟨h.inv, h.tracked, fun isBestpathChange => ?_⟩, h.reflects⟩, (append_nil _).symm, le_rfl⟩
    cases isBestpathChange
  · exact hset _ (h.bitmaps false)
  · exact h.bitmaps true
  · exact h.bitmaps false
  · exact hset _ (h.bitmaps true)

theorem registerConsumer_follows (h : Sound s) (consumer : C) (sendAddPath : Bool) :
    Follows s [] (s.registerConsumer consumer sendAddPath) := by
  rw [registerConsumer]
  cases hres : s.tracker.registerWithTracker consumer with
  | error e => exact h.follows_self
  | ok tracker =>
    have hperf : s.tracker.perform (.register consumer) = tracker := by rw [ChangeTracker.perform, hres]
    obtain ⟨hvalid, hpositions⟩ := bitPosition_registerWithTracker h.inv hres
    have htrack : Follows s [] (s.track (.register consumer)) := by
      refine track_follows h (by simp) rfl trivial fun b p hbit => ?_
      obtain ⟨c, hc, hp⟩ := h.bitmaps b p hbit
      exact ⟨c, by rw [hperf, hpositions c (hc ▸ hp), hc], hp⟩
    have htracker : (s.track (.register consumer)).tracker = tracker := by
      rw [track, ← hperf]
      obtain ⟨entries, hents⟩ := foldl_callback_frame
        (s := { s with tracker := s.tracker.perform (.register consumer) })
        (((s.tracker.perform (.register consumer)).processed.drop s.tracker.processed.length).map Prod.fst)
      rw [hents]
    exact htrack.trans (setBitmap_follows htrack.sound (htracker ▸ hvalid) sendAddPath)

theorem deregisterConsumer_follows (h : Sound s) (consumer : C) : Follows s [] (s.deregisterConsumer consumer) := by
  have hclear : ∀ b p, isBitSet ((s.resetBitmap consumer).getConsumerBitmapForChange b) p = true →
      isBitSet (s.getConsumerBitmapForChange b) p = true ∧ s.tracker.bitPosition consumer ≠ p := by
    intro b p hbit
    cases b <;> simpa [getConsumerBitmapForChange, resetBitmap] using hbit
  have hreset : Sound (s.resetBitmap consumer) :=
    ⟨⟨h.inv, h.tracked, fun b p hbit => h.bitmaps b p (hclear b p hbit).1⟩, h.reflects⟩
  have hstep : StepOk ⟨s.tracker, ∅⟩ (.deregister consumer) := ChangeTracker.stepOk_perform h.inv trivial
  have htrack : Follows (s.resetBitmap consumer) [] ((s.resetBitmap consumer).track (.deregister consumer)) := by
    refine track_follows hreset (by simp) (Set.empty_sdiff _) trivial fun b p hbit => ?_
    obtain ⟨hold, hp⟩ := hclear b p hbit
    obtain ⟨c, hc, hvalid⟩ := h.bitmaps b p hold
    refine ⟨c, (hstep.position c (by simp) fun heq => ?_).trans hc, hvalid⟩
    cases heq
    exact hp hc
  exact ⟨htrack.sound, htrack.entries, htrack.maxRibVersion⟩

end

section

/-- The message that an action hands to the peer manager. -/
def Action.ribOutMessage : Action R A C I → Option (RibOutMessage R A)
  | .ribOut message => some message
  | _ => none

def ribOutEntries (actions : List (Action R A C I)) : List (RibOutEntry R A) :=
  (actions.filterMap Action.ribOutMessage).flatMap RibOutMessage.handledEntries

theorem exec_follows (h : Sound s) {action : Action R A C I} (hen : Enabled s action) :
    Follows s (ribOutEntries [action]) (s.exec allocator action) := by
  cases action with
  | ribOut message =>
    rw [show ribOutEntries [Action.ribOut message] = message.handledEntries from append_nil _]
    exact handleMessage_follows allocator h message
  | registerConsumer consumer sendAddPath => exact registerConsumer_follows h consumer sendAddPath
  | deregisterConsumer consumer => exact deregisterConsumer_follows h consumer
  | iterate consumer untilMarker callback => exact track_follows_of_positions h (by simp) rfl trivial (by simp) (by simp)
  | join existingConsumer newConsumer =>
    refine track_follows_of_positions h (by simp) ?_ trivial (by simp) (by simp)
    rw [Session.retiredAfter]
    split
    · rfl
    · exact Set.empty_sdiff _
  | rehash order => exact track_follows_of_positions h (by simp) rfl hen (by simp) (by simp)

theorem sound_init : Sound (peerManagerSystem allocator R A).init := by
  refine ⟨⟨ChangeTracker.inv_empty, fun i p hbit => ?_, fun b p hbit => ?_⟩, fun pfx => ?_⟩
  · simp [peerManagerSystem, ChangeTracker.empty, ChangeTracker.consumerBitmap] at hbit
  · cases b <;> cases hbit
  · exact .of_none rfl fun _ => rfl

theorem ribOutEntries_cons (action : Action R A C I) (actions : List (Action R A C I)) :
    ribOutEntries (action :: actions) = ribOutEntries [action] ++ ribOutEntries actions := by
  rw [ribOutEntries, ← singleton_append, filterMap_append, flatMap_append, ribOutEntries, ribOutEntries]

variable {actions : List (Action R A C I)}

theorem run_follows (h : Sound s) (hadm : Admits (peerManagerSystem allocator R A) s actions) :
    Follows s (ribOutEntries actions) (run (peerManagerSystem allocator R A) s actions) := by
  induction actions generalizing s with
  | nil => exact h.follows_self
  | cons action actions ih =>
    have hstep : Follows s _ ((peerManagerSystem allocator R A).exec s action) := exec_follows allocator h hadm.1
    rw [ribOutEntries_cons]
    exact hstep.trans (ih hstep.sound hadm.2)

/-- An entry without live paths is there for a consumer that has its change ahead. -/
theorem Sound.retained (h : Sound s) {pfx : CIDRNetwork} {srEntry : ShadowRibEntry R A}
    (hfind : s.shadowRibEntries.find pfx = some srEntry) (hbp : s.bestpathOf pfx = none)
    (hmp : ∀ nexthop, s.multipathOf pfx nexthop = none) :
    ∃ i c, s.tracker.changeItem pfx = some i ∧ s.tracker.owns c i = true ∧
      s.tracker.bitPosition c ≠ kInvalidBitPosition ∧ Tracks s.tracker c i := by
  have hmirrors := h.reflects pfx
  have hflag : srEntry.isInWithdraw = true := by
    refine ShadowRibEntry.isInWithdraw_of_not_live (hmirrors.occupied srEntry hfind) ?_ fun nexthop => ?_
    · rwa [bestpathOf, hfind] at hbp
    · have := hmp nexthop
      rwa [multipathOf, hfind] at this
  obtain ⟨i, hi⟩ := Option.isSome_iff_exists.mp (hmirrors.withdrawn srEntry hfind hflag)
  have hobj := (h.inv.consistent.listed.owner i pfx).mpr hi
  have hlisted : i ∈ s.tracker.changeList := (h.inv.consistent.listed.mem_iff i).mpr (by rw [hobj]; rfl)
  -- an item on the list has a bit, and that bit has a consumer
  obtain ⟨p, hp⟩ := (not_isAllBitsCleared_iff _).mp (h.inv.consistent.outstanding i hlisted)
  obtain ⟨c, hc, hvalid, htr⟩ := h.tracked i p hp
  refine ⟨i, c, hi, ?_, hc ▸ hvalid, htr⟩
  rw [ChangeTracker.owns, hc]
  exact hp

/-- In every run, at every point: the best path and the multipaths of each prefix are those that the messages
so far leave; an entry with neither is there only while a registered consumer has its change ahead; the
version of an entry is that of the last entry of a message that touched it, and the greatest version never
decreases. -/
theorem shadowRib_eq_replay
    (h : Admits (peerManagerSystem allocator R A) (peerManagerSystem allocator R A).init actions) :
    let s := run (peerManagerSystem allocator R A) (peerManagerSystem allocator R A).init actions
    (∀ pfx, s.bestpathOf pfx = replay ((ribOutEntries actions).filterMap RibOutEntry.bestpathEvent) pfx) ∧
      (∀ pfx nexthop, s.multipathOf pfx nexthop =
        replay ((ribOutEntries actions).filterMap RibOutEntry.multipathEvent) (pfx, nexthop)) ∧
      (∀ pfx srEntry, s.shadowRibEntries.find pfx = some srEntry → s.bestpathOf pfx = none →
        (∀ nexthop, s.multipathOf pfx nexthop = none) →
          ∃ i c, s.tracker.changeItem pfx = some i ∧ s.tracker.owns c i = true ∧
            s.tracker.bitPosition c ≠ kInvalidBitPosition ∧ Tracks s.tracker c i) ∧
      (s.handledEntries = ribOutEntries actions ∧ ∀ pfx srEntry, s.shadowRibEntries.find pfx = some srEntry →
        replay (s.handled.filterMap Handled.versionEvent) pfx = some srEntry.ribVersion) ∧
      ∀ earlier later, actions = earlier ++ later →
        (run (peerManagerSystem allocator R A) (peerManagerSystem allocator R A).init earlier).maxRibVersion ≤
          s.maxRibVersion := by
  intro s
  have hrun : Follows _ (ribOutEntries actions) s := run_follows allocator (sound_init allocator) h
  have hents : s.handledEntries = ribOutEntries actions := hrun.entries
  have hrefl := hrun.sound.reflects
  refine ⟨fun pfx => ?_, fun pfx nexthop => ?_, fun pfx srEntry => hrun.sound.retained,
    ⟨hents, fun pfx => (hrefl pfx).version⟩, fun earlier later hsplit => ?_⟩
  · rw [← hents]
    exact (hrefl pfx).bestpath
  · rw [← hents]
    exact (hrefl pfx).multipath nexthop
  · subst hsplit
    obtain ⟨hearlier, hlater⟩ := admits_append.mp h
    have hfirst := run_follows allocator (sound_init allocator) hearlier
    rw [show s = _ from run_append ..]
    exact (run_follows allocator hfirst.sound hlater).maxRibVersion

/-- Addresses above all those in use. -/
def nextAddress : Allocator Unit Nat where
  allocate tracker := tracker.changeList.foldr max 0 + 1
  fresh tracker hlisted := by
    have hle : ∀ l : List Nat, ∀ i ∈ l, i ≤ l.foldr max 0 := by
      intro l
      induction l with
      | nil => nofun
      | cons j l ih =>
        intro i hi
        rcases mem_cons.mp hi with rfl | hi
        · exact le_max_left ..
        · exact (ih i hi).trans (le_max_right ..)
    have hnotMem : tracker.changeList.foldr max 0 + 1 ∉ tracker.changeList := fun hmem => by
      have := hle _ _ hmem
      omega
    rw [hlisted.mem_iff, ChangeTracker.trackableObject, Option.isSome_map, Bool.not_eq_true, Option.isSome_eq_false_iff,
      Option.isNone_iff_eq_none] at hnotMem
    exact hnotMem

def samplePath : PathInfo Unit := ⟨⟨.ofOctets 10 0 0 9, .ebgp, false⟩, some ⟨.ofOctets 10 0 0 1, ()⟩, 7, false⟩

def keptPrefix : CIDRNetwork := ⟨.ofOctets 198 51 100 0, 24⟩

/-- A consumer without add-path, two best paths, and the withdrawal of one that the consumer has yet to process. -/
def withdrawnBestpathRun : List (Action Unit Unit Unit Nat) :=
  [.registerConsumer () false,
    .ribOut (.announcement [⟨samplePath, AdjRib.samplePeerPrefix, ()⟩, ⟨samplePath, keptPrefix, ()⟩] []),
    .ribOut (.withdrawal { entries := [⟨AdjRib.samplePeerPrefix, none⟩] })]

theorem shadowRib_eq_replay_withdrawnBestpathRun :
    let s := run (peerManagerSystem nextAddress Unit Unit) (peerManagerSystem nextAddress Unit Unit).init
      withdrawnBestpathRun
    s.bestpathOf AdjRib.samplePeerPrefix = none ∧
      s.bestpathOf keptPrefix = some { samplePath with pathIdToSend := Rib.kDefaultPathID } := by
  have hadm : Admits (peerManagerSystem nextAddress Unit Unit)
      (peerManagerSystem nextAddress Unit Unit).init withdrawnBestpathRun := ⟨trivial, trivial, trivial, trivial⟩
  have hreplay := (shadowRib_eq_replay nextAddress hadm).1
  exact ⟨hreplay AdjRib.samplePeerPrefix, (hreplay keptPrefix).trans rfl⟩

end

end PeerManager

end FbossBgp.Peer
