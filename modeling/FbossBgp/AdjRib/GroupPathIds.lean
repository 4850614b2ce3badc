import FbossBgp.AdjRib.UpdateGroupSteps
import FbossBgp.Lib.Pointwise

/-! The path ids that an add-path update group announces. The shadow RIB keeps the paths of a prefix by nexthop
and the group keeps them by path id, so the group announces the ids of the current paths as long as each
nexthop of an entry keeps its own id. -/

namespace FbossBgp.AdjRib

open List Transition Function

open Rib (CIDRNetwork)

variable {R P C : Type}

/-- Which paths a policy permits. -/
abbrev PathPermits (R : Type) := CIDRNetwork → TinyPeerInfo → BgpPath R → Bool

/-- What becomes of the entry of a path's id. -/
abbrev EntryStep (R : Type) := ShadowRibRouteInfo R → Option (AdjRibEntry R) → Option (AdjRibEntry R)

section

variable (config : GroupConfig R) (permits : PathPermits R) (pfx : CIDRNetwork) (route : ShadowRibRouteInfo R)

/-- A path passes the egress of the group: its family is negotiated, it may go to such peers, and the policy
permits it. -/
def egressPermits : Bool :=
  config.isAfiNegotiated pfx &&
    config.canAnnounceForGroup
      { pfx := pfx, peer := route.peer, attrs := route.attrs, pathIdToSend := route.pathIdToSend } &&
    permits pfx route.peer route.attrs

/-- The policy results are those of a policy that permits just these paths, whatever it makes of their
attributes. -/
def Decides (outcome : Outcomes R) : Prop :=
  ∀ entry, (outcome entry).postOutAttrs.isSome = permits entry.pfx entry.peer entry.attrs

/-- What the group holds for a path that it has processed. -/
def Reflects (entry : Option (AdjRibEntry R)) : Prop :=
  if route.flags = .inWithdraw then entry = none
  else (entry.bind AdjRibEntry.postAttr).isSome = egressPermits config permits pfx route

/-- The entries of the group for one prefix against the paths of the shadow RIB: a path is reflected unless its
change is still pending. -/
structure Tracks (pfx : CIDRNetwork) (registered pending : Bool) (paths : List (ShadowRibRouteInfo R))
    (entries : Nat → Option (AdjRibEntry R)) : Prop where
  distinct : ∀ route ∈ paths, ∀ route' ∈ paths, route.pathIdToSend = route'.pathIdToSend → route = route'
  owned : ∀ pathId, entries pathId ≠ none → ∃ route ∈ paths, route.pathIdToSend = pathId
  reflected : registered = true → ∀ route ∈ paths, route.flags = .unchanged ∨ pending = false →
    Reflects config permits pfx route (entries route.pathIdToSend)
  unregistered : registered = false → pending = false ∧ ∀ pathId, entries pathId = none
  not_negotiated : config.isAfiNegotiated pfx = false → ∀ pathId, entries pathId = none

end

namespace Tracks

variable {config : GroupConfig R} {permits : PathPermits R} {pfx : CIDRNetwork} {registered pending : Bool}
  {paths paths' : List (ShadowRibRouteInfo R)} {entries : Nat → Option (AdjRibEntry R)}

theorem put (h : Tracks config permits pfx registered pending paths entries) {route : ShadowRibRouteInfo R}
    (hflags : route.flags ≠ .unchanged)
    (hpaths : ∀ route', route' ∈ paths' ↔ route' = route ∨ route' ∈ paths ∧ route'.nexthop ≠ route.nexthop)
    (hsteady : ∀ route' ∈ paths, route'.pathIdToSend = route.pathIdToSend ↔ route'.nexthop = route.nexthop) :
    Tracks config permits pfx registered (pending || registered) paths' entries where
  distinct := by
    intro first hfirst second hsecond hid
    rcases (hpaths first).mp hfirst with rfl | ⟨hfirst, hne⟩ <;>
      rcases (hpaths second).mp hsecond with rfl | ⟨hsecond, hne'⟩
    · rfl
    · exact absurd ((hsteady second hsecond).mp hid.symm) hne'
    · exact absurd ((hsteady first hfirst).mp hid) hne
    · exact h.distinct first hfirst second hsecond hid
  owned := by
    intro pathId hentry
    obtain ⟨route', hroute', hid⟩ := h.owned pathId hentry
    by_cases hnh : route'.nexthop = route.nexthop
    · exact ⟨route, (hpaths route).mpr (.inl rfl), ((hsteady route' hroute').mpr hnh).symm.trans hid⟩
    · exact ⟨route', (hpaths route').mpr (.inr ⟨hroute', hnh⟩), hid⟩
  reflected := by
    intro hreg route' hroute' hset
    have hunchanged : route'.flags = .unchanged := hset.resolve_right (by simp [hreg])
    rcases (hpaths route').mp hroute' with rfl | ⟨hold, -⟩
    · exact absurd hunchanged hflags
    · exact h.reflected hreg route' hold (.inl hunchanged)
  unregistered := by
    intro hreg
    obtain ⟨hpend, hents⟩ := h.unregistered hreg
    exact ⟨by rw [hpend, hreg]; rfl, hents⟩
  not_negotiated := h.not_negotiated

/-- Once every consumer has processed a change, the withdrawn paths go. -/
theorem complete (h : Tracks config permits pfx registered false paths entries) :
    Tracks config permits pfx registered false
      ((paths.filter fun route => route.flags ≠ .inWithdraw).map fun route => { route with flags := .unchanged })
      entries := by
  have hmem : ∀ route', route' ∈ ((paths.filter fun route => route.flags ≠ .inWithdraw).map
      fun route => { route with flags := .unchanged }) →
      ∃ route ∈ paths, route.flags ≠ .inWithdraw ∧ { route with flags := .unchanged } = route' := by
    intro route' hroute'
    obtain ⟨route, hroute, heq⟩ := mem_map.mp hroute'
    exact ⟨route, (mem_filter.mp hroute).1, by simpa using (mem_filter.mp hroute).2, heq⟩
  refine ⟨?_, ?_, ?_, fun hreg => ⟨rfl, (h.unregistered hreg).2⟩, h.not_negotiated⟩
  · intro first hfirst second hsecond hid
    obtain ⟨route, hroute, -, rfl⟩ := hmem first hfirst
    obtain ⟨route', hroute', -, rfl⟩ := hmem second hsecond
    rw [h.distinct route hroute route' hroute' hid]
  · intro pathId hentry
    obtain ⟨route, hroute, rfl⟩ := h.owned pathId hentry
    cases hreg : registered with
    | false => exact absurd ((h.unregistered hreg).2 _) hentry
    | true =>
      have hrefl := h.reflected hreg route hroute (.inr rfl)
      have hflags : route.flags ≠ .inWithdraw := fun hwithdraw =>
        hentry (by rwa [Reflects, if_pos hwithdraw] at hrefl)
      exact ⟨{ route with flags := .unchanged },
        mem_map.mpr ⟨route, mem_filter.mpr ⟨hroute, by simpa using hflags⟩, rfl⟩, rfl⟩
  · intro hreg route' hroute' _
    obtain ⟨route, hroute, hflags, rfl⟩ := hmem route' hroute'
    have hrefl := h.reflected hreg route hroute (.inr rfl)
    rw [Reflects, if_neg hflags] at hrefl
    exact hrefl

end Tracks

section

variable (config : GroupConfig R) (outcome : Outcomes R) (srEntry : TrackedRibEntry R C)

def entryAfterAnnouncement : EntryStep R := fun route old =>
  if config.isAfiNegotiated srEntry.pfx then
    GroupRibOut.announcedEntry config (srEntry.announcementOf true route) (outcome (srEntry.announcementOf true route))
  else old

def entryAfterChange : EntryStep R := fun route old =>
  match route.flags with
  | .inUpdate => entryAfterAnnouncement config outcome srEntry route old
  | .inWithdraw => if config.isAfiNegotiated srEntry.pfx then none else old
  | .unchanged => old

end

structure SetsEach (routes : List (ShadowRibRouteInfo R)) (entryAfter : EntryStep R)
    (entries entries' : Nat → Option (AdjRibEntry R)) : Prop where
  mem : ∀ route ∈ routes, entries' route.pathIdToSend = entryAfter route (entries route.pathIdToSend)
  notMem : ∀ pathId, (∀ route ∈ routes, route.pathIdToSend ≠ pathId) → entries' pathId = entries pathId

section

variable {config : GroupConfig R} {permits : PathPermits R} {outcome : Outcomes R} {srEntry : TrackedRibEntry R C}
  {entries entries' : Nat → Option (AdjRibEntry R)} {entryAfter : EntryStep R} {registered pending : Bool}

/-- Entries that are set for some of the paths track the paths once each path is reflected. -/
theorem Tracks.setsEach {routes paths : List (ShadowRibRouteInfo R)} {pfx : CIDRNetwork}
    (h : Tracks config permits pfx registered pending paths entries)
    (hsets : SetsEach routes entryAfter entries entries') (hrts : ∀ route ∈ routes, route ∈ paths)
    (hkeep : config.isAfiNegotiated pfx = false → ∀ route old, entryAfter route old = old)
    (hrefl : ∀ route ∈ paths, Reflects config permits pfx route (entries' route.pathIdToSend)) :
    Tracks config permits pfx true false paths entries' := by
  have hcases : ∀ pathId, (∃ route ∈ routes, route.pathIdToSend = pathId) ∨ entries' pathId = entries pathId :=
    fun pathId => or_iff_not_imp_left.mpr fun hset =>
      hsets.notMem pathId fun route hroute hid => hset ⟨route, hroute, hid⟩
  refine ⟨h.distinct, fun pathId hentry => ?_, fun _ route hroute _ => hrefl route hroute, nofun, fun hafi pathId => ?_⟩
  · rcases hcases pathId with ⟨route, hroute, hid⟩ | hsame
    · exact ⟨route, hrts route hroute, hid⟩
    · exact h.owned pathId (hsame ▸ hentry)
  · rcases hcases pathId with ⟨route, hroute, rfl⟩ | hsame
    · rw [hsets.mem route hroute, hkeep hafi, h.not_negotiated hafi]
    · rw [hsame, h.not_negotiated hafi]

theorem reflects_entryAfterAnnouncement (hout : Decides permits outcome) {route : ShadowRibRouteInfo R}
    (hflags : route.flags ≠ .inWithdraw) {old : Option (AdjRibEntry R)}
    (hold : config.isAfiNegotiated srEntry.pfx = false → old = none) :
    Reflects config permits srEntry.pfx route (entryAfterAnnouncement config outcome srEntry route old) := by
  rw [Reflects, if_neg hflags, entryAfterAnnouncement, egressPermits]
  cases hafi : config.isAfiNegotiated srEntry.pfx with
  | false => rw [hold hafi]; rfl
  | true =>
    have hcan : config.canAnnounceForGroup (srEntry.announcementOf true route) = config.canAnnounceForGroup
          { pfx := srEntry.pfx, peer := route.peer, attrs := route.attrs, pathIdToSend := route.pathIdToSend } := rfl
    rw [← hcan, GroupRibOut.announcedEntry]
    cases config.canAnnounceForGroup (srEntry.announcementOf true route) with
    | false => rfl
    | true => exact hout (srEntry.announcementOf true route)

theorem entryAfterAnnouncement_of_not_negotiated (hafi : config.isAfiNegotiated srEntry.pfx = false)
    (route : ShadowRibRouteInfo R) (old : Option (AdjRibEntry R)) :
    entryAfterAnnouncement config outcome srEntry route old = old := by
  rw [entryAfterAnnouncement, hafi]
  rfl

theorem entryAfterChange_of_not_negotiated (hafi : config.isAfiNegotiated srEntry.pfx = false)
    (route : ShadowRibRouteInfo R) (old : Option (AdjRibEntry R)) :
    entryAfterChange config outcome srEntry route old = old := by
  rw [entryAfterChange, hafi]
  cases route.flags with
  | inUpdate => exact entryAfterAnnouncement_of_not_negotiated hafi route old
  | inWithdraw | unchanged => rfl

theorem Tracks.consume (h : Tracks config permits srEntry.pfx true pending srEntry.multipaths.items entries)
    (hout : Decides permits outcome)
    (hsets : SetsEach srEntry.multipaths.items (entryAfterChange config outcome srEntry) entries entries') :
    Tracks config permits srEntry.pfx true false srEntry.multipaths.items entries' := by
  refine h.setsEach hsets (fun _ hroute => hroute) entryAfterChange_of_not_negotiated fun route hroute => ?_
  rw [hsets.mem route hroute, entryAfterChange]
  cases hflags : route.flags with
  | inUpdate => exact reflects_entryAfterAnnouncement hout (by rw [hflags]; nofun) fun hafi => h.not_negotiated hafi _
  | inWithdraw =>
    rw [Reflects, if_pos hflags]
    cases hafi : config.isAfiNegotiated srEntry.pfx with
    | true => rfl
    | false => exact h.not_negotiated hafi _
  | unchanged => exact h.reflected rfl route hroute (.inl hflags)

theorem Tracks.walk
    (h : Tracks config permits srEntry.pfx registered false srEntry.multipaths.items entries)
    (hout : Decides permits outcome)
    (hsets : SetsEach (srEntry.multipaths.items.filter fun route => route.flags ≠ .inWithdraw)
      (entryAfterAnnouncement config outcome srEntry) entries entries') :
    Tracks config permits srEntry.pfx true false srEntry.multipaths.items entries' := by
  refine h.setsEach hsets (fun _ hroute => (mem_filter.mp hroute).1) entryAfterAnnouncement_of_not_negotiated
    fun route hroute => ?_
  by_cases hflags : route.flags = .inWithdraw
  · -- the walk leaves the path out, and no other path of the entry has its id
    have hkeep : entries' route.pathIdToSend = entries route.pathIdToSend := by
      refine hsets.notMem _ fun other hother hid => ?_
      obtain ⟨hother, hotherFlags⟩ := mem_filter.mp hother
      rw [h.distinct other hother route hroute hid, hflags] at hotherFlags
      simp at hotherFlags
    rw [hkeep]
    cases hreg : registered with
    | true => exact h.reflected hreg route hroute (.inr rfl)
    | false =>
      rw [Reflects, if_pos hflags]
      exact (h.unregistered hreg).2 _
  · rw [hsets.mem route (mem_filter.mpr ⟨hroute, by simpa using hflags⟩)]
    exact reflects_entryAfterAnnouncement hout hflags fun hafi => h.not_negotiated hafi _

end

section

variable {step : GroupRibOut R P → ShadowRibRouteInfo R → GroupRibOut R P} {pfx : CIDRNetwork}
  {entryAfter : EntryStep R}

def GroupRibOut.entriesOf (s : GroupRibOut R P) (pfx : CIDRNetwork) (pathId : Nat) : Option (AdjRibEntry R) :=
  s.groupEntries (pfx, pathId)

/-- The step of a loop over paths of a prefix sets the entry of the path's id. -/
def StepsById (step : GroupRibOut R P → ShadowRibRouteInfo R → GroupRibOut R P) (pfx : CIDRNetwork)
    (entryAfter : EntryStep R) : Prop :=
  Pointwise.At GroupRibOut.groupEntries step (fun route => (pfx, route.pathIdToSend))
    fun route old new => new = entryAfter route old

theorem stepsById_of_update
    (h : ∀ s route, (step s route).groupEntries = Function.update s.groupEntries (pfx, route.pathIdToSend)
      (entryAfter route (s.groupEntries (pfx, route.pathIdToSend)))) : StepsById step pfx entryAfter :=
  ⟨fun s route => by rw [h, update_self], fun hne => by rw [h, update_of_ne hne]⟩

theorem StepsById.setsEach (h : StepsById step pfx entryAfter) {routes paths : List (ShadowRibRouteInfo R)}
    (hperm : routes.Perm paths) (hnodup : (paths.map ShadowRibRouteInfo.pathIdToSend).Nodup) (s : GroupRibOut R P) :
    SetsEach paths entryAfter (s.entriesOf pfx) ((routes.foldl step s).entriesOf pfx) where
  mem := by
    intro route hroute
    have hkeys : (routes.map fun route => (pfx, route.pathIdToSend)).Nodup := by
      have hids : (routes.map ShadowRibRouteInfo.pathIdToSend).Nodup := (hperm.map _).nodup_iff.mpr hnodup
      have hpairs := hids.map (f := fun pathId => (pfx, pathId)) fun _ _ heq => (Prod.mk.inj heq).2
      rwa [map_map] at hpairs
    exact h.foldl_of_mem hkeys (hperm.mem_iff.mpr hroute) s
  notMem := by
    intro pathId hother
    refine h.foldl_of_notMem (fun hmem => ?_) s
    obtain ⟨route, hroute, heq⟩ := mem_map.mp hmem
    exact hother route (hperm.mem_iff.mp hroute) (Prod.mk.inj heq).2

theorem StepsById.entriesOf_of_ne (h : StepsById step pfx entryAfter) (routes : List (ShadowRibRouteInfo R))
    {pfx' : CIDRNetwork} (hne : pfx' ≠ pfx) (s : GroupRibOut R P) : (routes.foldl step s).entriesOf pfx' = s.entriesOf pfx' := by
  funext pathId
  refine h.foldl_of_notMem (fun hmem => ?_) s
  obtain ⟨route, -, heq⟩ := mem_map.mp hmem
  exact hne (Prod.mk.inj heq).1.symm

variable [DecidableEq R] {config : GroupConfig R} {outcome : Outcomes R} {srEntry : TrackedRibEntry R C}

theorem groupEntries_announce (s : GroupRibOut R P) (route : ShadowRibRouteInfo R) :
    (s.processRibAnnouncedEntryForGroup config (srEntry.announcementOf true route)
      (outcome (srEntry.announcementOf true route))).groupEntries =
        Function.update s.groupEntries (srEntry.pfx, route.pathIdToSend)
          (entryAfterAnnouncement config outcome srEntry route (s.groupEntries (srEntry.pfx, route.pathIdToSend))) := by
  rw [GroupRibOut.groupEntries_processRibAnnouncedEntryForGroup, entryAfterAnnouncement]
  show (if config.isAfiNegotiated srEntry.pfx then _ else _) = _
  split
  · rfl
  · exact (update_eq_self _ _).symm

theorem stepsById_announce (hsend : config.key.sendAddPath = true) : StepsById (P := P) (fun s route =>
      let entry := srEntry.announcementOf config.key.sendAddPath route
      s.processRibAnnouncedEntryForGroup config entry (outcome entry)) srEntry.pfx
    (entryAfterAnnouncement config outcome srEntry) := by
  rw [hsend]
  exact stepsById_of_update groupEntries_announce

theorem stepsById_processShadowRibRoute (hsend : config.key.sendAddPath = true) :
    StepsById (P := P) (GroupRibOut.processShadowRibRoute config outcome srEntry) srEntry.pfx
      (entryAfterChange config outcome srEntry) := by
  refine stepsById_of_update fun s route => ?_
  rw [GroupRibOut.processShadowRibRoute, entryAfterChange, hsend]
  cases route.flags with
  | inUpdate => exact groupEntries_announce s route
  | inWithdraw =>
    rw [GroupRibOut.groupEntries_processGroupRibWithdraw]
    split
    · rfl
    · exact (update_eq_self _ _).symm
  | unchanged => exact (update_eq_self _ _).symm

end

/-- In the entry of the prefix a path has the announced id exactly if it has the announced nexthop. -/
def ShadowRib.KeepsIds (shadowRib : ShadowRib R C) (entry : PathAnnouncement R) : Prop :=
  ∀ route ∈ shadowRib.multipathsOf entry.pfx,
    (route.pathIdToSend = entry.pathIdToSend ↔ route.nexthop = entry.attrs.nexthop)

namespace UpdateGroup

variable {config : GroupConfig R} {permits : PathPermits R} {outcome : Outcomes R} {s : UpdateGroup R P}
  {registered : Bool} {pfx : CIDRNetwork}

def TracksAll (config : GroupConfig R) (permits : PathPermits R) (registered : Bool) (s : UpdateGroup R P) : Prop :=
  ∀ pfx, Tracks config permits pfx registered (s.shadowRib.isPending none pfx) (s.shadowRib.multipathsOf pfx)
    (s.ribOut.entriesOf pfx)

theorem TracksAll.at_entry (h : s.TracksAll config permits registered)
    {srEntry : TrackedRibEntry R (Option P)} (hfind : s.shadowRib.entries.find pfx = some srEntry) :
    Tracks config permits srEntry.pfx registered (srEntry.pending none) srEntry.multipaths.items
      (s.ribOut.entriesOf srEntry.pfx) := by
  have hpfx := ShadowRib.pfx_of_find hfind
  have htr := h pfx
  rw [ShadowRib.isPending_of_find hfind, ShadowRib.multipathsOf_of_find hfind] at htr
  rwa [hpfx]

theorem ids_nodup {pending : Bool} {srEntry : TrackedRibEntry R C} {entries : Nat → Option (AdjRibEntry R)}
    (h : Tracks config permits srEntry.pfx registered pending srEntry.multipaths.items entries) :
    (srEntry.multipaths.items.map ShadowRibRouteInfo.pathIdToSend).Nodup :=
  (List.Nodup.of_map _ srEntry.multipaths.keys_nodup).map_on h.distinct

/-- What is seen of a prefix. -/
def viewAt (s : UpdateGroup R P) (pfx : CIDRNetwork) :
    Option (TrackedRibEntry R (Option P)) × (Nat → Option (AdjRibEntry R)) :=
  (s.shadowRib.entries.find pfx, s.ribOut.entriesOf pfx)

theorem TracksAll.of_viewAt {s' : UpdateGroup R P} (h : s.TracksAll config permits registered)
    (hview : s'.viewAt pfx = s.viewAt pfx) :
    Tracks config permits pfx registered (s'.shadowRib.isPending none pfx) (s'.shadowRib.multipathsOf pfx)
      (s'.ribOut.entriesOf pfx) := by
  obtain ⟨hfind, hents⟩ := Prod.mk.inj hview
  rw [ShadowRib.isPending_congr hfind, ShadowRib.multipathsOf_congr hfind, hents]
  exact h pfx

section

variable [DecidableEq R] (hsend : config.key.sendAddPath = true)
include hsend

theorem walkEntry_at :
    Pointwise.At GroupRibOut.entriesOf (GroupRibOut.walkEntry (C := Option P) (P := P) config outcome)
      TrackedRibEntry.pfx fun srEntry old new =>
        (srEntry.multipaths.items.map ShadowRibRouteInfo.pathIdToSend).Nodup →
          SetsEach (srEntry.multipaths.items.filter fun route => route.flags ≠ .inWithdraw)
            (entryAfterAnnouncement config outcome srEntry) old new where
  self := by
    intro s srEntry hnodup
    have hrts : srEntry.routes config.key.sendAddPath = srEntry.multipaths.items := by
      rw [TrackedRibEntry.routes, if_pos hsend]
    rw [GroupRibOut.walkEntry, hrts]
    exact (stepsById_announce hsend).setsEach (.refl _) ((filter_sublist.map _).nodup hnodup) s
  of_ne := by
    intro s srEntry pfx hne
    exact (stepsById_announce hsend).entriesOf_of_ne _ hne s

theorem entriesOf_walk_of_pending
    (h : ∀ srEntry ∈ s.shadowRib.entries.items, srEntry.pfx = pfx → srEntry.pending none = true) :
    (s.walk config outcome).ribOut.entriesOf pfx = s.ribOut.entriesOf pfx := by
  refine (walkEntry_at hsend).foldl_of_notMem (fun hmem => ?_) s.ribOut
  obtain ⟨srEntry, hsrEntry, hpfx⟩ := mem_map.mp hmem
  obtain ⟨hsrEntry, hpend⟩ := mem_filter.mp hsrEntry
  simp [h srEntry hsrEntry hpfx] at hpend

/-- After the walk every entry that is not pending is reflected, also where the group held nothing before. -/
theorem TracksAll.walk (h : s.TracksAll config permits registered)
    (hout : Decides permits outcome) : (s.walk config outcome).TracksAll config permits true := by
  intro pfx
  have hat := @walkEntry_at R P config outcome _ hsend
  cases hfind : s.shadowRib.entries.find pfx with
  | none =>
    have hpaths : s.shadowRib.multipathsOf pfx = [] := by rw [ShadowRib.multipathsOf, hfind]
    have hfree := Keyed.find_eq_none_iff.mp hfind
    have hold := h pfx
    show Tracks config permits pfx true (s.shadowRib.isPending none pfx) (s.shadowRib.multipathsOf pfx) _
    rw [entriesOf_walk_of_pending hsend fun srEntry hmem hpfx => absurd hpfx (hfree srEntry hmem)]
    refine ⟨hold.distinct, hold.owned, fun _ route hroute => ?_, by simp, hold.not_negotiated⟩
    rw [hpaths] at hroute
    cases hroute
  | some srEntry =>
    obtain ⟨hmem, hpfx⟩ := Keyed.find_eq_some_iff.mp hfind
    have htr := h.at_entry hfind
    show Tracks config permits pfx true (s.shadowRib.isPending none pfx) (s.shadowRib.multipathsOf pfx) _
    rw [ShadowRib.isPending_of_find hfind, ShadowRib.multipathsOf_of_find hfind, ← hpfx]
    cases hpend : srEntry.pending none with
    | false =>
      rw [hpend] at htr
      refine htr.walk hout (hat.foldl_of_mem ?_ ?_ s.ribOut (ids_nodup htr))
      · exact (filter_sublist.map _).nodup s.shadowRib.entries.keys_nodup
      · exact mem_filter.mpr ⟨hmem, by simp [hpend]⟩
    | true =>
      have hreg : registered = true := by
        cases hreg : registered with
        | true => rfl
        | false => rw [(htr.unregistered hreg).1] at hpend; exact hpend
      rw [hpend, hreg] at htr
      rw [entriesOf_walk_of_pending hsend fun other hother hotherPfx => ?_]
      · exact htr
      · rwa [s.shadowRib.entries.eq_of_key_eq hother hmem hotherPfx]

variable [DecidableEq P]

/-- Consuming the change of a prefix processes all its paths, whatever their order. -/
theorem consumeChange_at : Pointwise.At viewAt (consumeChange (P := P) config outcome) Prod.fst fun change old new =>
      ∀ srEntry, old.1 = some srEntry → change.2.Perm srEntry.multipaths.items →
        (srEntry.multipaths.items.map ShadowRibRouteInfo.pathIdToSend).Nodup →
          new.1 = some { srEntry with pending := Function.update srEntry.pending none false } ∧
            SetsEach srEntry.multipaths.items (entryAfterChange config outcome srEntry) old.2 new.2 where
  self := by
    intro s change srEntry hfind hperm hnodup
    have hpfx : srEntry.pfx = change.1 := ShadowRib.pfx_of_find hfind
    have hfind : s.shadowRib.entries.find change.1 = some srEntry := hfind
    rw [consumeChange, hfind]
    constructor
    · show (s.shadowRib.markConsumed none change.1).entries.find change.1 = _
      rw [ShadowRib.find_markConsumed, hfind, Option.map_some, if_pos rfl]
    · rw [← hpfx]
      exact (stepsById_processShadowRibRoute hsend).setsEach hperm hnodup s.ribOut
  of_ne := by
    intro s change pfx hne
    rw [consumeChange]
    cases hfind : s.shadowRib.entries.find change.1 with
    | none => rfl
    | some srEntry =>
      have hpfx : srEntry.pfx = change.1 := ShadowRib.pfx_of_find hfind
      refine Prod.ext ?_ ?_
      · show (s.shadowRib.markConsumed none change.1).entries.find pfx = s.shadowRib.entries.find pfx
        rw [ShadowRib.find_markConsumed]
        simp [hne]
      · exact (stepsById_processShadowRibRoute hsend).entriesOf_of_ne change.2 (by rwa [hpfx]) s.ribOut

theorem TracksAll.tryIterateChangesToEnd (h : s.TracksAll config permits true)
    (hout : Decides permits outcome) {changes : ChangeItems R} (hchanges : s.Consumes true changes) :
    (s.tryIterateChangesToEnd config outcome changes).TracksAll config permits true := by
  intro pfx
  have hat := @consumeChange_at R P config outcome _ hsend _
  by_cases hmem : pfx ∈ changes.map Prod.fst
  · obtain ⟨change, hchange, rfl⟩ := mem_map.mp hmem
    have hpend := hchanges.1.mem_iff.mp hmem
    obtain ⟨srEntry, hsrEntry, hpfx⟩ := mem_map.mp hpend
    have hfind : s.shadowRib.entries.find change.1 = some srEntry :=
      Keyed.find_eq_some_iff.mpr ⟨(mem_filter.mp hsrEntry).1, hpfx⟩
    have hnodup : (changes.map Prod.fst).Nodup := by
      refine hchanges.1.nodup_iff.mpr ?_
      exact (filter_sublist.map _).nodup s.shadowRib.entries.keys_nodup
    obtain ⟨hnew, hsets⟩ := hat.foldl_of_mem hnodup hchange s srEntry hfind (hchanges.2 change hchange srEntry hfind)
      (ids_nodup (h.at_entry hfind))
    have htr := (h.at_entry hfind).consume hout (by rwa [hpfx])
    rw [hpfx] at htr
    show Tracks config permits change.1 true
      ((changes.foldl (consumeChange config outcome) s).shadowRib.isPending none change.1)
      ((changes.foldl (consumeChange config outcome) s).shadowRib.multipathsOf change.1) _
    rw [ShadowRib.isPending_of_find hnew, ShadowRib.multipathsOf_of_find hnew]
    exact htr
  · exact h.of_viewAt (hat.foldl_of_notMem hmem s)

end

abbrev Current (config : GroupConfig R) (permits : PathPermits R) (s : UpdateGroup R P) : Prop :=
  s.TracksAll config permits (s.shadowRib.consumers none)

section

variable (h : s.Current config permits)
include h

theorem Current.update {isBestpathChange : Bool} {srEntry : TrackedRibEntry R (Option P)}
    (hentry : Tracks config permits srEntry.pfx (s.shadowRib.consumers none)
      (if isBestpathChange = true then srEntry.pending none else srEntry.pending none || s.shadowRib.consumers none)
      srEntry.multipaths.items (s.ribOut.entriesOf srEntry.pfx)) :
    Current config permits { s with shadowRib := s.shadowRib.update true isBestpathChange srEntry } := by
  intro pfx
  by_cases hpfx : pfx = srEntry.pfx
  · subst hpfx
    rwa [ShadowRib.isPending_update_self, ShadowRib.multipathsOf_update_self]
  · exact TracksAll.of_viewAt h (Prod.ext (ShadowRib.find_update_of_ne true isBestpathChange hpfx) rfl)

/-- A change of the best path is not published to an add-path group. -/
theorem Current.announceBestpath (entry : PathAnnouncement R) :
    Current config permits { s with shadowRib := s.shadowRib.announceBestpath true entry } := by
  refine h.update ?_
  have hentry := h entry.pfx
  simpa using hentry

variable (entry : RibOutWithdrawalEntry)

theorem Current.withdrawBestpath :
    Current config permits { s with shadowRib := s.shadowRib.withdrawBestpath true entry } := by
  rw [ShadowRib.withdrawBestpath]
  cases hfind : s.shadowRib.entries.find entry.pfx with
  | none => exact h
  | some srEntry =>
    have hentry := h.at_entry hfind
    exact h.update hentry

theorem Current.announceMultipath {entry : PathAnnouncement R} (hsteady : s.shadowRib.KeepsIds entry) :
    Current config permits { s with shadowRib := s.shadowRib.announceMultipath true entry } := by
  refine h.update ?_
  have hentry := h entry.pfx
  simp only [ShadowRib.pfx_entryOf, ShadowRib.pending_entryOf]
  have hflags : (⟨entry.peer, entry.attrs, entry.pathIdToSend, .inUpdate⟩ : ShadowRibRouteInfo R).flags ≠ .unchanged :=
    nofun
  refine hentry.put hflags (fun route => ?_) hsteady
  rw [Keyed.mem_put, ShadowRib.multipaths_entryOf]

theorem Current.withdrawMultipath :
    Current config permits { s with shadowRib := s.shadowRib.withdrawMultipath true entry } := by
  rw [ShadowRib.withdrawMultipath]
  cases hfind : s.shadowRib.entries.find entry.pfx with
  | none => exact h
  | some srEntry =>
    dsimp only
    cases hroute : entry.nh.bind srEntry.multipaths.find with
    | none => exact h
    | some route =>
      obtain ⟨nexthop, -, hroute⟩ := Option.bind_eq_some_iff.mp hroute
      obtain ⟨hroute, -⟩ := Keyed.find_eq_some_iff.mp hroute
      have hentry := h.at_entry hfind
      have hflags : ({ route with flags := .inWithdraw } : ShadowRibRouteInfo R).flags ≠ .unchanged := nofun
      refine h.update (hentry.put hflags (fun _ => Keyed.mem_put) fun other hother => ?_)
      refine ⟨fun hid => ?_, fun hnh => ?_⟩
      · rw [hentry.distinct other hother route hroute hid]
        rfl
      · rw [srEntry.multipaths.eq_of_key_eq hother hroute hnh]

theorem Current.withShadowRib {shadowRib : ShadowRib R (Option P)}
    (hconsumers : shadowRib.consumers none = s.shadowRib.consumers none)
    (hpend : ∀ pfx, shadowRib.isPending none pfx = s.shadowRib.isPending none pfx)
    (hpaths : ∀ pfx, shadowRib.multipathsOf pfx = s.shadowRib.multipathsOf pfx) :
    Current config permits { s with shadowRib := shadowRib } := by
  intro pfx
  rw [hconsumers, hpend, hpaths]
  exact h pfx

/-- What each entry of a message keeps current, the message keeps current. -/
theorem Current.handleEntries {E : Type} {pfxOf : E → CIDRNetwork}
    {handle : ShadowRib R (Option P) → E → ShadowRib R (Option P)} {condition : ShadowRib R (Option P) → E → Prop}
    (hhandle : ∀ (s : UpdateGroup R P) entry, s.Current config permits → condition s.shadowRib entry →
      Current config permits { s with shadowRib := handle s.shadowRib entry })
    {entries : List E} (hcond : ShadowRib.HandledUnder condition pfxOf handle none entries s.shadowRib) :
    Current config permits { s with shadowRib := ShadowRib.handleEntries pfxOf handle none entries s.shadowRib } :=
  ShadowRib.handleEntries_invariant (fun shadowRib => Current config permits { s with shadowRib := shadowRib })
    (fun _ hinv => hinv.withShadowRib rfl (fun _ => rfl) fun _ => rfl)
    (fun shadowRib entry hinv => hhandle { s with shadowRib := shadowRib } entry hinv) h hcond

theorem Current.completeChange (hpend : s.shadowRib.isPending none pfx = false) :
    Current config permits { s with shadowRib := s.shadowRib.completeChange pfx } := by
  intro pfx'
  rw [ShadowRib.consumers_completeChange]
  by_cases hpfx : pfx' = pfx
  · subst hpfx
    have hold := h pfx'
    rw [hpend] at hold
    rw [ShadowRib.isPending_completeChange_self hpend, ShadowRib.multipathsOf_completeChange_self]
    exact hold.complete
  · have hfind := ShadowRib.find_completeChange_of_ne (s := s.shadowRib) hpfx
    rw [ShadowRib.isPending_congr hfind, ShadowRib.multipathsOf_congr hfind]
    exact h pfx'

end

/-- Each announced path keeps to its id, in the state in which it is handled. -/
def SteadyIds (config : GroupConfig R) (s : UpdateGroup R P) : GroupAction R P → Prop
  | .ribAnnouncement entries addPathEntries =>
    ShadowRib.HandledUnder ShadowRib.KeepsIds (fun entry => entry.pfx)
      (ShadowRib.announceMultipath config.key.sendAddPath) none addPathEntries
      (ShadowRib.handleEntries (fun entry => entry.pfx) (ShadowRib.announceBestpath config.key.sendAddPath) none entries
        s.shadowRib)
  | _ => True

end UpdateGroup

/-- The runs in which every announced path keeps to its id. -/
def steadyIdSystem [DecidableEq R] [DecidableEq P] (config : GroupConfig R) (permits : PathPermits R)
    (numInSyncPeers : Nat) : System (UpdateGroup R P) (GroupAction R P) :=
  { groupSystem config (Decides permits) numInSyncPeers with
    enabled := fun s action => s.Enabled config (Decides permits) action ∧ s.SteadyIds config action }

section

variable [DecidableEq R] [DecidableEq P] {config : GroupConfig R} {permits : PathPermits R} {numInSyncPeers : Nat}
  {s : UpdateGroup R P}

namespace UpdateGroup

theorem consumers_consumeChange (config : GroupConfig R) (outcome : Outcomes R) (s : UpdateGroup R P)
    (change : CIDRNetwork × List (ShadowRibRouteInfo R)) :
    (s.consumeChange config outcome change).shadowRib.consumers = s.shadowRib.consumers := by
  rw [consumeChange]
  cases s.shadowRib.entries.find change.1 with
  | none => rfl
  | some srEntry => exact ShadowRib.consumers_markConsumed none

theorem consumers_tryIterateChangesToEnd (config : GroupConfig R) (outcome : Outcomes R) (s : UpdateGroup R P)
    (changes : ChangeItems R) :
    (s.tryIterateChangesToEnd config outcome changes).shadowRib.consumers = s.shadowRib.consumers := by
  exact foldlRecOn (motive := fun after => after.shadowRib.consumers = s.shadowRib.consumers) changes _ rfl
    fun after hafter change _ => (consumers_consumeChange config outcome after change).trans hafter

variable {changes : ChangeItems R} {outcome : Outcomes R}

theorem TracksAll.iterate (h : s.TracksAll config permits true) (hreg : s.shadowRib.consumers none = true)
    (hsend : config.key.sendAddPath = true) (hout : Decides permits outcome) (hchanges : s.Consumes true changes) :
    (s.tryIterateChangesToEnd config outcome changes).Current config permits := by
  rw [Current, consumers_tryIterateChangesToEnd, hreg]
  exact h.tryIterateChangesToEnd hsend hout hchanges

omit [DecidableEq R] in
theorem TracksAll.registerGroupConsumer (h : s.TracksAll config permits true) :
    s.registerGroupConsumer.Current config permits := by
  exact h

theorem Current.reEvaluate (h : s.Current config permits) (hsend : config.key.sendAddPath = true)
    (hout : Decides permits outcome) (hchanges : s.Consumes true changes) :
    (s.reEvaluateSyncPeersEgressPolicy config outcome changes).Current config permits := by
  have hwalk := h.walk hsend hout
  rw [reEvaluateSyncPeersEgressPolicy]
  by_cases hreg : s.shadowRib.consumers none = true
  · rw [if_pos (by exact hreg)]
    exact hwalk.iterate hreg hsend hout hchanges
  · rw [if_neg (by exact hreg)]
    exact hwalk.registerGroupConsumer

theorem Current.exec (h : s.Current config permits) (hsend : config.key.sendAddPath = true) {action : GroupAction R P}
    (hen : s.Enabled config (Decides permits) action) (hsteady : s.SteadyIds config action) :
    (s.exec config action).Current config permits := by
  cases action with
  | ribAnnouncement entries addPathEntries =>
    rw [SteadyIds, hsend] at hsteady
    rw [UpdateGroup.exec, hsend]
    have hbestpaths := h.handleEntries (fun _ entry hs _ => hs.announceBestpath entry)
      (ShadowRib.handledUnder_true (fun entry => entry.pfx) none entries)
    exact hbestpaths.handleEntries (fun _ _ hs => hs.announceMultipath) hsteady
  | ribWithdrawal withdrawal =>
    rw [UpdateGroup.exec, hsend]
    have hbestpaths := h.handleEntries (fun _ entry hs _ => hs.withdrawBestpath entry)
      (ShadowRib.handledUnder_true RibOutWithdrawalEntry.pfx none withdrawal.entries)
    exact hbestpaths.handleEntries (fun _ entry hs _ => hs.withdrawMultipath entry)
      (ShadowRib.handledUnder_true RibOutWithdrawalEntry.pfx none withdrawal.addPathEntries)
  | initialDump outcome => exact (h.walk hsend hen.1).registerGroupConsumer
  | iterateChangesToEnd outcome changes =>
    obtain ⟨hout, hreg, hchanges⟩ := hen
    rw [Current, hreg] at h
    exact h.iterate hreg hsend hout (hsend ▸ hchanges)
  | changeItemComplete pfx => exact h.completeChange (hen none)
  | detachPeer peer =>
    have hconsumers : (s.shadowRib.registerAt (some peer) none).consumers none = s.shadowRib.consumers none := by
      rw [ShadowRib.consumers_registerAt, update_of_ne (by nofun)]
    exact h.withShadowRib hconsumers
      (fun _ => ShadowRib.isPending_registerAt_of_ne (by nofun) none) fun _ => ShadowRib.multipathsOf_registerAt ..
  | peerProcessed peer pfx =>
    refine h.withShadowRib ?_ (ShadowRib.isPending_markConsumed_of_ne (by nofun)) (ShadowRib.multipathsOf_markConsumed _)
    rw [ShadowRib.consumers_markConsumed]
  | reEvaluateEgressPolicy outcome changes => exact h.reEvaluate hsend hen.1 (hsend ▸ hen.2)

theorem current_of_reachable (hsend : config.key.sendAddPath = true)
    (h : Reachable (steadyIdSystem config permits numInSyncPeers) s) : s.Current config permits := by
  induction h with
  | init =>
    intro pfx
    exact ⟨nofun, fun _ hentry => absurd rfl hentry, nofun, fun _ => ⟨rfl, fun _ => rfl⟩, fun _ _ => rfl⟩
  | step _ hen ih => exact ih.exec hsend hen.1 hen.2

end UpdateGroup

def GroupRibOut.announcedPathIds (s : GroupRibOut R P) (pfx : CIDRNetwork) : Set Nat :=
  { pathId | ((s.groupEntries (pfx, pathId)).bind AdjRibEntry.postAttr).isSome }

/-- The path ids of the current multipaths of a prefix that pass the egress of the group. -/
def ShadowRib.permittedPathIds (shadowRib : ShadowRib R C) (config : GroupConfig R) (permits : PathPermits R)
    (pfx : CIDRNetwork) : Set Nat :=
  { pathId | ∃ route ∈ shadowRib.multipathsOf pfx, route.flags ≠ .inWithdraw ∧
      egressPermits config permits pfx route = true ∧ route.pathIdToSend = pathId }

def UpdateGroup.Consumed (s : UpdateGroup R P) : Prop :=
  s.shadowRib.consumers none = true ∧ ∀ pfx, s.shadowRib.isPending none pfx = false

omit [DecidableEq R] [DecidableEq P] in
theorem UpdateGroup.Current.announcedPathIds_eq (h : s.Current config permits) (hconsumed : s.Consumed) (pfx : CIDRNetwork) :
    s.ribOut.announcedPathIds pfx = s.shadowRib.permittedPathIds config permits pfx := by
  have htr := h pfx
  rw [hconsumed.1, hconsumed.2 pfx] at htr
  ext pathId
  constructor
  · intro hann
    have hentry : s.ribOut.entriesOf pfx pathId ≠ none := by
      intro hnone
      have hann : ((s.ribOut.entriesOf pfx pathId).bind AdjRibEntry.postAttr).isSome := hann
      rw [hnone] at hann
      cases hann
    obtain ⟨route, hroute, rfl⟩ := htr.owned pathId hentry
    have hrefl := htr.reflected rfl route hroute (.inr rfl)
    rw [Reflects] at hrefl
    split at hrefl
    · exact absurd hrefl hentry
    next hflags => exact ⟨route, hroute, hflags, hrefl.symm.trans hann, rfl⟩
  · rintro ⟨route, hroute, hflags, hpermits, rfl⟩
    have hrefl := htr.reflected rfl route hroute (.inr rfl)
    rw [Reflects, if_neg hflags] at hrefl
    exact hrefl.trans hpermits

/-- Once the group has consumed every change, it announces just the ids of the current paths that pass its
egress, in every run in which the announced paths keep to their ids. -/
theorem announcedPathIds_eq_permittedPathIds (hsend : config.key.sendAddPath = true)
    (h : Reachable (steadyIdSystem config permits numInSyncPeers) s) (hconsumed : s.Consumed)
    (pfx : CIDRNetwork) : s.ribOut.announcedPathIds pfx = s.shadowRib.permittedPathIds config permits pfx :=
  (UpdateGroup.current_of_reachable hsend h).announcedPathIds_eq hconsumed pfx

end

section

instance (shadowRib : ShadowRib R C) (entry : PathAnnouncement R) : Decidable (shadowRib.KeepsIds entry) :=
  inferInstanceAs (Decidable (∀ route ∈ shadowRib.multipathsOf entry.pfx, (_ ↔ _)))

instance (config : GroupConfig R) (s : UpdateGroup R P) (action : GroupAction R P) :
    Decidable (s.SteadyIds config action) := by
  cases action <;> dsimp only [UpdateGroup.SteadyIds] <;> infer_instance

theorem UpdateGroup.consumed_of_pendingPrefixes {s : UpdateGroup R P} (hreg : s.shadowRib.consumers none = true)
    (hpend : s.shadowRib.pendingPrefixes none = []) : s.Consumed :=
  ⟨hreg, fun _ => ShadowRib.isPending_eq_false none hpend⟩

/-- An add-path group of eBGP peers. -/
def addPathConfig : GroupConfig Unit := ⟨{ sendAddPath := true }, fun _ => false⟩

def permitEveryPath : PathPermits Unit := fun _ _ _ => true

def acceptUnchanged : Outcomes Unit := fun entry => { postOutAttrs := some entry.attrs }

theorem decides_acceptUnchanged : Decides permitEveryPath acceptUnchanged := fun _ => rfl

variable (second : Bool) (pathId : Nat)

def neighborRoute (flags : ShadowRibRouteFlags) : ShadowRibRouteInfo Unit where
  peer := ⟨.ofOctets 10 0 0 9, .ebgp, false⟩
  attrs := ⟨if second then .ofOctets 10 0 0 2 else .ofOctets 10 0 0 1, ()⟩
  pathIdToSend := pathId
  flags := flags

def announceRoute : GroupAction Unit Unit :=
  .ribAnnouncement [] [{
    pfx := samplePeerPrefix
    peer := (neighborRoute second pathId .inUpdate).peer
    attrs := (neighborRoute second pathId .inUpdate).attrs
    pathIdToSend := pathId }]

def withdrawRoute : GroupAction Unit Unit :=
  .ribWithdrawal { addPathEntries := [⟨samplePeerPrefix, some (neighborRoute second 0 .inWithdraw).nexthop⟩] }

def consumeRoutes (routes : List (ShadowRibRouteInfo Unit)) : GroupAction Unit Unit :=
  .iterateChangesToEnd acceptUnchanged [(samplePeerPrefix, routes)]

/-- The nexthop of a path changes, and with it the id. -/
def steadyIdRun : List (GroupAction Unit Unit) :=
  [.initialDump acceptUnchanged, announceRoute false 1, consumeRoutes [neighborRoute false 1 .inUpdate],
    .changeItemComplete samplePeerPrefix, announceRoute true 2, withdrawRoute false,
    consumeRoutes [neighborRoute true 2 .inUpdate, neighborRoute false 1 .inWithdraw]]

@[irreducible] def steadyIdState : UpdateGroup Unit Unit :=
  run (steadyIdSystem addPathConfig permitEveryPath 2)
    (steadyIdSystem addPathConfig permitEveryPath 2).init steadyIdRun

theorem announcedPathIds_eq_permittedPathIds_steadyIdState :
    steadyIdState.Consumed ∧ steadyIdState.ribOut.announcedPathIds samplePeerPrefix =
      steadyIdState.shadowRib.permittedPathIds addPathConfig permitEveryPath samplePeerPrefix := by
  have hreach : Reachable (steadyIdSystem addPathConfig permitEveryPath 2) steadyIdState := by
    rw [steadyIdState]
    refine Reachable.init.run ⟨⟨⟨decides_acceptUnchanged, rfl⟩, trivial⟩, ⟨trivial, ?_⟩,
      ⟨⟨decides_acceptUnchanged, ?_, ?_⟩, trivial⟩, ⟨fun consumer => ?_, trivial⟩, ⟨trivial, ?_⟩,
      ⟨trivial, trivial⟩, ⟨⟨decides_acceptUnchanged, ?_, ?_⟩, trivial⟩, trivial⟩
    case refine_4 => rcases consumer with _ | ⟨⟨⟩⟩ <;> decide +kernel
    all_goals decide +kernel
  have hconsumed : steadyIdState.Consumed := by
    exact UpdateGroup.consumed_of_pendingPrefixes (by decide +kernel) (by decide +kernel)
  exact ⟨hconsumed, announcedPathIds_eq_permittedPathIds rfl hreach hconsumed samplePeerPrefix⟩

/-- A neighbor announces its path again with another nexthop. The path keeps its id, and the withdrawal of the old
nexthop then deletes it. -/
def movedIdRun : List (GroupAction Unit Unit) :=
  [.initialDump acceptUnchanged, announceRoute false 1, consumeRoutes [neighborRoute false 1 .inUpdate],
    .changeItemComplete samplePeerPrefix, announceRoute true 1,
    consumeRoutes [neighborRoute true 1 .inUpdate, neighborRoute false 1 .unchanged],
    .changeItemComplete samplePeerPrefix, withdrawRoute false,
    consumeRoutes [neighborRoute false 1 .inWithdraw, neighborRoute true 1 .unchanged]]

@[irreducible] def movedIdState : UpdateGroup Unit Unit :=
  run (groupSystem addPathConfig (Decides permitEveryPath) 2)
    (groupSystem addPathConfig (Decides permitEveryPath) 2).init movedIdRun

theorem reachable_movedIdState : Reachable (groupSystem addPathConfig (Decides permitEveryPath) 2) movedIdState := by
  rw [movedIdState]
  refine Reachable.init.run ⟨⟨decides_acceptUnchanged, rfl⟩, trivial, ⟨decides_acceptUnchanged, ?_, ?_⟩,
    fun consumer => ?_, trivial, ⟨decides_acceptUnchanged, ?_, ?_⟩, fun consumer => ?_, trivial,
    ⟨decides_acceptUnchanged, ?_, ?_⟩, trivial⟩
  case refine_3 | refine_6 => rcases consumer with _ | ⟨⟨⟩⟩ <;> decide +kernel
  all_goals decide +kernel

/-- The group can have withdrawn the id of a path that is current. -/
theorem exists_current_path_not_announced :
    ∃ s : UpdateGroup Unit Unit, Reachable (groupSystem addPathConfig (Decides permitEveryPath) 2) s ∧
      s.Consumed ∧ s.ribOut.announcedPathIds samplePeerPrefix ≠
        s.shadowRib.permittedPathIds addPathConfig permitEveryPath samplePeerPrefix := by
  have hconsumed : movedIdState.Consumed := by
    exact UpdateGroup.consumed_of_pendingPrefixes (by decide +kernel) (by decide +kernel)
  have hcurrent : 1 ∈ movedIdState.shadowRib.permittedPathIds addPathConfig permitEveryPath samplePeerPrefix := by
    exact ⟨neighborRoute true 1 .unchanged, by decide +kernel, by decide, by decide +kernel, rfl⟩
  have hann : 1 ∉ movedIdState.ribOut.announcedPathIds samplePeerPrefix := by
    rw [GroupRibOut.announcedPathIds]
    decide +kernel
  exact ⟨movedIdState, reachable_movedIdState, hconsumed, fun heq => hann (heq ▸ hcurrent)⟩

end

end FbossBgp.AdjRib
