import FbossBgp.AdjRib.GroupPathIds

/-! What a detached peer sees of the RIB-OUT of its group. A mutation by the group clones the entry that the peer
shares before it changes it, so it can change the view only by putting an entry of an old version where the
peer sees none. -/

namespace FbossBgp.AdjRib

open Rib (CIDRNetwork)

variable {R P C : Type} [DecidableEq R]

inductive GroupMutation (R C : Type) where
  | processRibAnnouncedEntry (entry : PathAnnouncement R) (outcome : PolicyOutcome R)
  | processRibWithdraw (pfx : CIDRNetwork) (pathId : Nat)
  /-- `tryInsertWithdrawal` on the group's entry of the key. -/
  | tryInsertWithdrawal (key : PrefixPathId)
  | walkShadowRib (outcome : PathAnnouncement R → PolicyOutcome R) (isPending : TrackedRibEntry R C → Bool)
      (srEntries : List (TrackedRibEntry R C))

namespace GroupRibOut

variable (config : GroupConfig R) (s : GroupRibOut R P) (peer : P) (version : Nat)

def mutate : GroupMutation R C → GroupRibOut R P
  | .processRibAnnouncedEntry entry outcome => s.processRibAnnouncedEntryForGroup config entry outcome
  | .processRibWithdraw pfx pathId => s.processGroupRibWithdraw config pfx pathId
  | .tryInsertWithdrawal key =>
    match s.groupEntries key with
    | none => s
    | some adjRibEntry => s.tryInsertWithdrawal key adjRibEntry
  | .walkShadowRib outcome isPending srEntries => s.walkAndProcessShadowRib config outcome isPending srEntries

/-- The content of the entry visible to a peer: its attributes before and after policy. -/
def contentFor (key : PrefixPathId) : Option (BgpPath R × Option (BgpPath R)) :=
  (s.resolveEntryForPeer peer version key).map fun entry => (entry.preOut, entry.postAttr)

/-- The announcement puts an entry that the peer shares where it sees none. -/
def Reveals (entry : PathAnnouncement R) : Prop :=
  config.isAfiNegotiated entry.pfx = true ∧ config.canAnnounceForGroup entry = true ∧ entry.ribVersion ≤ version ∧
    s.resolveEntryForPeer peer version (entry.pfx, entry.pathIdToSend) = none

def walkAnnouncements (isPending : TrackedRibEntry R C → Bool)
    (srEntries : List (TrackedRibEntry R C)) : List (PathAnnouncement R) :=
  (srEntries.filter fun srEntry => !isPending srEntry).flatMap fun srEntry =>
    ((srEntry.routes config.key.sendAddPath).filter fun route => route.flags ≠ .inWithdraw).map
      (srEntry.announcementOf config.key.sendAddPath)

def Disturbs : GroupMutation R C → Prop
  | .processRibAnnouncedEntry entry _ => s.Reveals config peer version entry
  | .processRibWithdraw .. => False
  | .tryInsertWithdrawal key =>
    s.peerEntries peer key = none ∧
      ∃ entry, s.groupEntries key = some entry ∧ entry.ribVersion ≤ version ∧ entry.postAttr ≠ none
  | .walkShadowRib _ isPending srEntries =>
    ∃ entry ∈ walkAnnouncements config isPending srEntries, s.Reveals config peer version entry

section

variable {config : GroupConfig R} {s s' : GroupRibOut R P} {peer : P} {version : Nat}

theorem SameTree.resolveEntryForPeer_eq (h : SameTree s s') (key : PrefixPathId) :
    s'.resolveEntryForPeer peer version key = s.resolveEntryForPeer peer version key := by
  rw [resolveEntryForPeer, resolveEntryForPeer, h.groupEntries, h.peerEntries]

theorem resolveEntryForPeer_of_ne (hdet : s.detachedRibVersion peer = some version) {key key' : PrefixPathId}
    (hne : key' ≠ key) (entry : Option (AdjRibEntry R)) :
    ((s.cloned key).setGroupEntry key entry).resolveEntryForPeer peer version key' =
      s.resolveEntryForPeer peer version key' := by
  rw [resolveEntryForPeer, resolveEntryForPeer, peerEntries_setGroupEntry, peerEntries_cloned_of_detached _ _ hdet,
    groupEntries_setGroupEntry, groupEntries_cloned, Function.update_of_ne hne, Function.update_of_ne hne]

/-- A peer keeps what it sees of the entry, and sees the new one only if it saw none. -/
theorem resolveEntryForPeer_self (hdet : s.detachedRibVersion peer = some version) (key : PrefixPathId)
    (entry : Option (AdjRibEntry R)) : ((s.cloned key).setGroupEntry key entry).resolveEntryForPeer peer version key =
      (s.resolveEntryForPeer peer version key).or (entry.filter fun entry => entry.ribVersion ≤ version) := by
  rw [resolveEntryForPeer, peerEntries_setGroupEntry, peerEntries_cloned_of_detached _ _ hdet,
    groupEntries_setGroupEntry_self, Function.update_self]
  cases s.resolveEntryForPeer peer version key with
  | none => rfl
  | some shared => rfl

variable {key : PrefixPathId}

section

variable (hdet : s.detachedRibVersion peer = some version) {entry : PathAnnouncement R}
include hdet

/-- An entry that replaces one is seen by a peer exactly if it is shared and the peer saw none. -/
theorem resolveEntryForPeer_setGroupEntry_eq
    {entry : Option (AdjRibEntry R)} (hentry : ∀ newEntry, entry = some newEntry → newEntry.ribVersion ≤ version →
      s.resolveEntryForPeer peer version key ≠ none) (key' : PrefixPathId) :
    ((s.cloned key).setGroupEntry key entry).resolveEntryForPeer peer version key' =
      s.resolveEntryForPeer peer version key' := by
  by_cases hkey : key' = key
  · subst hkey
    rw [resolveEntryForPeer_self hdet]
    cases hseen : s.resolveEntryForPeer peer version key' with
    | some seen => rfl
    | none =>
      rw [Option.none_or, Option.filter_eq_none_iff]
      intro newEntry hnew
      simpa using fun hver => hentry newEntry hnew hver hseen
  · exact resolveEntryForPeer_of_ne hdet hkey entry

theorem resolveEntryForPeer_announce
    (hreveals : ¬s.Reveals config peer version entry) (outcome : PolicyOutcome R) (key : PrefixPathId) :
    (s.processRibAnnouncedEntryForGroup config entry outcome).resolveEntryForPeer peer version key =
      s.resolveEntryForPeer peer version key := by
  cases hafi : config.isAfiNegotiated entry.pfx with
  | false => rw [processRibAnnouncedEntryForGroup, if_pos hafi]
  | true =>
    rw [(processRibAnnouncedEntryForGroup_tree hafi outcome).resolveEntryForPeer_eq]
    refine resolveEntryForPeer_setGroupEntry_eq hdet (fun newEntry hnew hver hseen => ?_) key
    rw [announcedEntry] at hnew
    split at hnew
    · cases hnew
    next hcan =>
      cases hnew
      exact hreveals ⟨hafi, by simpa using hcan, hver, hseen⟩

theorem resolveEntryForPeer_announce_of_reveals
    (hreveals : s.Reveals config peer version entry) (outcome : PolicyOutcome R) :
    (s.processRibAnnouncedEntryForGroup config entry outcome).resolveEntryForPeer peer version
      (entry.pfx, entry.pathIdToSend) ≠ none := by
  obtain ⟨hafi, hcan, hver, hseen⟩ := hreveals
  rw [(processRibAnnouncedEntryForGroup_tree hafi outcome).resolveEntryForPeer_eq, resolveEntryForPeer_self hdet, hseen,
    announcedEntry, if_neg (by simp [hcan]), Option.filter_some, if_pos (by simpa using hver)]
  exact Option.some_ne_none _

/-- What a peer sees it goes on seeing. -/
theorem resolveEntryForPeer_announce_of_seen
    (entry : PathAnnouncement R) (outcome : PolicyOutcome R) (hseen : s.resolveEntryForPeer peer version key ≠ none) :
    (s.processRibAnnouncedEntryForGroup config entry outcome).resolveEntryForPeer peer version key ≠ none := by
  by_cases hreveals : s.Reveals config peer version entry
  · have hne : key ≠ (entry.pfx, entry.pathIdToSend) := fun heq => hseen (heq ▸ hreveals.2.2.2)
    rw [(processRibAnnouncedEntryForGroup_tree hreveals.1 outcome).resolveEntryForPeer_eq,
      resolveEntryForPeer_of_ne hdet hne]
    exact hseen
  · rwa [resolveEntryForPeer_announce hdet hreveals]

theorem resolveEntryForPeer_withdraw (pfx : CIDRNetwork) (pathId : Nat) (key : PrefixPathId) :
    (s.processGroupRibWithdraw config pfx pathId).resolveEntryForPeer peer version key =
      s.resolveEntryForPeer peer version key := by
  cases hafi : config.isAfiNegotiated pfx with
  | false => rw [processGroupRibWithdraw, if_pos hafi]
  | true =>
    rw [(processGroupRibWithdraw_tree hafi pathId).resolveEntryForPeer_eq]
    exact resolveEntryForPeer_setGroupEntry_eq hdet (by simp) key

end

theorem contentFor_of_own {own : AdjRibEntry R} (hown : s.peerEntries peer key = some own) :
    s.contentFor peer version key = some (own.preOut, own.postAttr) := by
  rw [contentFor, resolveEntryForPeer, hown]
  rfl

theorem contentFor_of_group {groupEntry : AdjRibEntry R} (hown : s.peerEntries peer key = none)
    (hgroup : s.groupEntries key = some groupEntry) : s.contentFor peer version key =
      if groupEntry.ribVersion ≤ version then some (groupEntry.preOut, groupEntry.postAttr) else none := by
  rw [contentFor, resolveEntryForPeer, hown, hgroup]
  by_cases hver : groupEntry.ribVersion ≤ version <;> simp [isEntryShared, Option.filter_some]

/-- `tryInsertWithdrawal` does not clone: a peer that shares the entry sees it without attributes. -/
theorem contentFor_tryInsertWithdrawal_iff {adjRibEntry : AdjRibEntry R}
    (hentry : s.groupEntries key = some adjRibEntry) :
    (∀ key', (s.tryInsertWithdrawal key adjRibEntry).contentFor peer version key' = s.contentFor peer version key') ↔
      ¬(s.peerEntries peer key = none ∧ adjRibEntry.ribVersion ≤ version ∧ adjRibEntry.postAttr ≠ none) := by
  have htree := tryInsertWithdrawal_tree hentry
  have hgroup : (s.tryInsertWithdrawal key adjRibEntry).groupEntries key = some { adjRibEntry with postAttr := none } := by
    rw [htree.groupEntries, groupEntries_setGroupEntry_self]
  have hpeer : (s.tryInsertWithdrawal key adjRibEntry).peerEntries = s.peerEntries := by
    rw [htree.peerEntries, peerEntries_setGroupEntry]
  constructor
  · rintro hcontent ⟨hown, hver, hpost⟩
    have hkey := hcontent key
    rw [contentFor_of_group (by rwa [hpeer]) hgroup, contentFor_of_group hown hentry, if_pos hver, if_pos hver]
      at hkey
    injection hkey with hkey
    exact hpost (Prod.mk.inj hkey).2.symm
  · intro hkeeps key'
    by_cases hkey : key' = key
    · subst hkey
      cases hown : s.peerEntries peer key' with
      | some own => rw [contentFor_of_own (by rwa [hpeer]), contentFor_of_own hown]
      | none =>
        rw [contentFor_of_group (by rwa [hpeer]) hgroup, contentFor_of_group hown hentry]
        by_cases hver : adjRibEntry.ribVersion ≤ version
        · have hpost : adjRibEntry.postAttr = none := by
            by_contra hpost
            exact hkeeps ⟨hown, hver, hpost⟩
          rw [← hpost]
        · rw [if_neg hver, if_neg hver]
    · rw [contentFor, contentFor, htree.resolveEntryForPeer_eq, resolveEntryForPeer, resolveEntryForPeer,
        peerEntries_setGroupEntry, groupEntries_setGroupEntry, Function.update_of_ne hkey]

end

section

variable {config : GroupConfig R} {s : GroupRibOut R P} {peer : P} {version : Nat}

theorem walkAndProcessShadowRib_eq_foldl (config : GroupConfig R) (outcome : PathAnnouncement R → PolicyOutcome R)
    (s : GroupRibOut R P) (isPending : TrackedRibEntry R C → Bool) (srEntries : List (TrackedRibEntry R C)) :
    s.walkAndProcessShadowRib config outcome isPending srEntries = (walkAnnouncements config isPending srEntries).foldl
        (fun s entry => s.processRibAnnouncedEntryForGroup config entry (outcome entry)) s := by
  rw [walkAnnouncements, List.foldl_flatMap]
  refine congrArg (fun step => List.foldl step s _) ?_
  funext s srEntry
  rw [walkEntry, List.foldl_map]

variable {outcome : PathAnnouncement R → PolicyOutcome R} {entries : List (PathAnnouncement R)}

theorem foldl_announce_of_seen (hdet : s.detachedRibVersion peer = some version) {key : PrefixPathId}
    (hseen : s.resolveEntryForPeer peer version key ≠ none) :
    (entries.foldl (fun s entry => s.processRibAnnouncedEntryForGroup config entry (outcome entry))
      s).resolveEntryForPeer peer version key ≠ none := by
  induction entries generalizing s with
  | nil => exact hseen
  | cons entry entries ih =>
    refine ih ?_ (resolveEntryForPeer_announce_of_seen hdet entry (outcome entry) hseen)
    rw [detachedRibVersion_processRibAnnouncedEntryForGroup, hdet]

/-- Announcements change what a peer sees exactly if one of them reveals an entry. -/
theorem foldl_announce_iff (hdet : s.detachedRibVersion peer = some version) :
    (∀ key, (entries.foldl (fun s entry => s.processRibAnnouncedEntryForGroup config entry (outcome entry))
      s).contentFor peer version key = s.contentFor peer version key) ↔
      ¬∃ entry ∈ entries, s.Reveals config peer version entry := by
  induction entries generalizing s with
  | nil => simp
  | cons entry entries ih =>
    have hdet' :
        (s.processRibAnnouncedEntryForGroup config entry (outcome entry)).detachedRibVersion peer = some version := by
      rw [detachedRibVersion_processRibAnnouncedEntryForGroup, hdet]
    by_cases hreveals : s.Reveals config peer version entry
    · refine iff_of_false (fun hcontent => ?_) fun hnone => hnone ⟨entry, List.mem_cons_self, hreveals⟩
      have hseen := resolveEntryForPeer_announce_of_reveals hdet hreveals (outcome entry)
      have hstays := @foldl_announce_of_seen R P _ config _ peer version outcome entries hdet' _ hseen
      refine hstays ?_
      have hkey := hcontent (entry.pfx, entry.pathIdToSend)
      rw [contentFor, contentFor, hreveals.2.2.2, Option.map_none, Option.map_eq_none_iff] at hkey
      exact hkey
    · have hsame := resolveEntryForPeer_announce hdet hreveals (outcome entry)
      have hcontent : ∀ key,
          (s.processRibAnnouncedEntryForGroup config entry (outcome entry)).contentFor peer version key =
            s.contentFor peer version key := by
        intro key
        rw [contentFor, hsame, contentFor]
      have hreveal : ∀ other,
          (s.processRibAnnouncedEntryForGroup config entry (outcome entry)).Reveals config peer version other ↔
            s.Reveals config peer version other := by
        intro other
        rw [Reveals, hsame, Reveals]
      rw [List.foldl_cons]
      simp only [← hcontent, ih hdet', hreveal, List.mem_cons, exists_eq_or_imp, hreveals, false_or]

end

end GroupRibOut

/-- A mutation by the group leaves what a detached peer sees as it is exactly if it does not disturb it. -/
theorem contentFor_mutate_iff {config : GroupConfig R} {s : GroupRibOut R P} {peer : P} {version : Nat}
    (hdetached : s.detachedRibVersion peer = some version) (mutation : GroupMutation R C) :
    (∀ key, (s.mutate config mutation).contentFor peer version key = s.contentFor peer version key) ↔
      ¬s.Disturbs config peer version mutation := by
  cases mutation with
  | processRibAnnouncedEntry entry outcome =>
    have hone := @GroupRibOut.foldl_announce_iff R P _ config s peer version (fun _ => outcome) [entry] hdetached
    simp only [List.foldl_cons, List.mem_singleton, exists_eq_left] at hone
    exact hone
  | processRibWithdraw pfx pathId =>
    refine iff_of_true (fun key => ?_) id
    exact congrArg _ (GroupRibOut.resolveEntryForPeer_withdraw hdetached pfx pathId key)
  | tryInsertWithdrawal key =>
    rw [GroupRibOut.mutate, GroupRibOut.Disturbs]
    cases hentry : s.groupEntries key with
    | none => simp
    | some adjRibEntry =>
      rw [GroupRibOut.contentFor_tryInsertWithdrawal_iff hentry]
      simp only [Option.some.injEq, exists_eq_left']
  | walkShadowRib outcome isPending srEntries =>
    rw [GroupRibOut.mutate, GroupRibOut.walkAndProcessShadowRib_eq_foldl]
    exact GroupRibOut.foldl_announce_iff hdetached

/-- A peer that was detached at version 5 and shares an entry of version 3. -/
def sharingRibOut : GroupRibOut Unit Unit where
  groupEntries key := if key = (samplePeerPrefix, 0) then some { preOut := ⟨.empty, ()⟩, ribVersion := 3 } else none
  detachedRibVersion _ := some 5

def laterAnnouncement : PathAnnouncement Unit where
  pfx := samplePeerPrefix
  peer := (neighborRoute false 0 .inUpdate).peer
  attrs := (neighborRoute false 0 .inUpdate).attrs
  pathIdToSend := 0
  ribVersion := 7

theorem contentFor_mutate_iff_laterAnnouncement : sharingRibOut.detachedRibVersion () = some 5 ∧
      ∀ key, (sharingRibOut.mutate (C := Unit) addPathConfig (.processRibAnnouncedEntry laterAnnouncement
        (acceptUnchanged laterAnnouncement))).contentFor () 5 key = sharingRibOut.contentFor () 5 key := by
  refine ⟨rfl, (contentFor_mutate_iff rfl _).mpr fun hdisturbs => ?_⟩
  exact absurd hdisturbs.2.2.1 (by decide)

/-- A peer is detached after the group has lost the entry of a current path. -/
@[irreducible] def detachedState : UpdateGroup Unit Unit := movedIdState.detachPeer ()

theorem reachable_detachedState :
    Transition.Reachable (groupSystem addPathConfig (Decides permitEveryPath) 2) detachedState := by
  have hen : movedIdState.Enabled addPathConfig (Decides permitEveryPath) (.detachPeer ()) := by
    exact ⟨by decide +kernel, by decide +kernel, by decide +kernel⟩
  rw [detachedState]
  exact @Transition.Reachable.run _ _ _ _ [GroupAction.detachPeer ()] reachable_movedIdState ⟨hen, trivial⟩

/-- The walk of a policy re-evaluation can show a detached peer an entry. -/
theorem exists_walk_changes_detached_view : ∃ (s : UpdateGroup Unit Unit) (version : Nat),
      Transition.Reachable (groupSystem addPathConfig (Decides permitEveryPath) 2) s ∧
      s.Enabled addPathConfig (Decides permitEveryPath) (.reEvaluateEgressPolicy acceptUnchanged []) ∧
      s.ribOut.detachedRibVersion () = some version ∧
      ¬∀ key, (s.ribOut.mutate addPathConfig (.walkShadowRib acceptUnchanged (fun srEntry => srEntry.pending none)
        s.shadowRib.entries.items)).contentFor () version key = s.ribOut.contentFor () version key := by
  refine ⟨detachedState, 3, reachable_detachedState, ⟨decides_acceptUnchanged, ?_⟩, ?_, fun hkeeps => ?_⟩
  · decide +kernel
  · decide +kernel
  · have hkey := hkeeps (samplePeerPrefix, 1)
    revert hkey
    decide +kernel

end FbossBgp.AdjRib
