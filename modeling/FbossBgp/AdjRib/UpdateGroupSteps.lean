import FbossBgp.AdjRib.UpdateGroup

/-! What the operations of an update group do to its RIB-OUT: which entry of the group each sets, and for which
peers it clones the old one; and what the messages of the RIB and the consumers of the change list do to the
shadow RIB, prefix by prefix. -/

namespace FbossBgp.AdjRib

open Function Keyed
open BgpLib (IPAddress)
open Rib (CIDRNetwork kDefaultPathID)

section

variable {R P : Type} [DecidableEq R]

namespace GroupRibOut

section

variable (s : GroupRibOut R P) (key : PrefixPathId) (oldPath newPath : Option (BgpPath R)) (flag : Bool)

@[simp] theorem groupEntries_tryUpdate :
    (s.tryUpdateAttrToPrefixMapForGroup key oldPath newPath flag).groupEntries = s.groupEntries := by
  rw [tryUpdateAttrToPrefixMapForGroup]
  split <;> rfl

@[simp] theorem peerEntries_tryUpdate :
    (s.tryUpdateAttrToPrefixMapForGroup key oldPath newPath flag).peerEntries = s.peerEntries := by
  rw [tryUpdateAttrToPrefixMapForGroup]
  split <;> rfl

@[simp] theorem detachedRibVersion_tryUpdate :
    (s.tryUpdateAttrToPrefixMapForGroup key oldPath newPath flag).detachedRibVersion = s.detachedRibVersion := by
  rw [tryUpdateAttrToPrefixMapForGroup]
  split <;> rfl

section

variable (entry : Option (AdjRibEntry R))
include entry

@[simp] theorem groupEntries_setGroupEntry :
    (s.setGroupEntry key entry).groupEntries = Function.update s.groupEntries key entry := rfl

@[simp] theorem peerEntries_setGroupEntry : (s.setGroupEntry key entry).peerEntries = s.peerEntries := rfl

@[simp] theorem detachedRibVersion_setGroupEntry :
    (s.setGroupEntry key entry).detachedRibVersion = s.detachedRibVersion := rfl

theorem groupEntries_setGroupEntry_self : (s.setGroupEntry key entry).groupEntries key = entry := by
  rw [groupEntries_setGroupEntry, update_self]

end

def cloned (s : GroupRibOut R P) (key : PrefixPathId) : GroupRibOut R P :=
  match s.groupEntries key with
  | none => s
  | some groupEntry => s.lazyCloneForDetachedPeers key groupEntry

@[simp] theorem groupEntries_cloned : (s.cloned key).groupEntries = s.groupEntries := by
  rw [cloned]
  split <;> rfl

@[simp] theorem detachedRibVersion_cloned : (s.cloned key).detachedRibVersion = s.detachedRibVersion := by
  rw [cloned]
  split <;> rfl

/-- A detached peer gets what it saw of the group's entry. -/
theorem peerEntries_cloned_of_detached {peer : P} {version : Nat} (hdet : s.detachedRibVersion peer = some version) :
    (s.cloned key).peerEntries peer =
      Function.update (s.peerEntries peer) key (s.resolveEntryForPeer peer version key) := by
  rw [cloned, resolveEntryForPeer]
  cases s.groupEntries key with
  | none =>
    cases hown : s.peerEntries peer key with
    | none => exact (update_eq_self_iff.mpr hown.symm).symm
    | some entry => exact (update_eq_self_iff.mpr hown.symm).symm
  | some groupEntry =>
    simp only [lazyCloneForDetachedPeers, hdet]
    cases hown : s.peerEntries peer key with
    | some entry =>
      exact (update_eq_self_iff.mpr hown.symm).symm
    | none =>
      by_cases hshared : isEntryShared false version groupEntry.ribVersion = true
      · rw [Option.isSome_none, if_pos hshared, Option.filter_some, if_pos hshared]
      · rw [Option.isSome_none, if_neg hshared, Option.filter_some, if_neg hshared]
        exact (update_eq_self_iff.mpr hown.symm).symm

end

section

variable {config : GroupConfig R} {s : GroupRibOut R P}

/-- The fields of a RIB-OUT that tell what its peers see. -/
structure SameTree (s s' : GroupRibOut R P) : Prop where
  groupEntries : s'.groupEntries = s.groupEntries
  peerEntries : s'.peerEntries = s.peerEntries
  detachedRibVersion : s'.detachedRibVersion = s.detachedRibVersion

theorem SameTree.trans {s' s'' : GroupRibOut R P} (h : SameTree s s') (h' : SameTree s' s'') : SameTree s s'' :=
  ⟨h'.groupEntries.trans h.groupEntries, h'.peerEntries.trans h.peerEntries,
    h'.detachedRibVersion.trans h.detachedRibVersion⟩

/-- A withdrawal saves the entry for detached peers and drops it. -/
theorem processGroupRibWithdraw_tree {pfx : CIDRNetwork} (hafi : config.isAfiNegotiated pfx = true) (pathId : Nat) :
    SameTree ((s.cloned (pfx, pathId)).setGroupEntry (pfx, pathId) none) (s.processGroupRibWithdraw config pfx pathId) := by
  rw [processGroupRibWithdraw, if_neg (by simp [hafi]), cloned]
  cases hentry : s.groupEntries (pfx, pathId) with
  | none =>
    refine ⟨?_, rfl, rfl⟩
    exact (update_eq_self_iff.mpr hentry.symm).symm
  | some adjRibEntry =>
    cases hpost : adjRibEntry.postAttr with
    | none => simpa only [hpost] using SameTree.mk rfl rfl rfl
    | some oldPostAttr => constructor <;> simp [hpost]

theorem fst_tryInsertRibOutEntry (key : PrefixPathId) (attrs : BgpPath R) :
    (s.tryInsertRibOutEntry key attrs).1 = s.cloned key := by
  rw [tryInsertRibOutEntry, cloned]
  cases s.groupEntries key <;> rfl

/-- Staging a withdrawal takes the attributes off the entry. -/
theorem tryInsertWithdrawal_tree {key : PrefixPathId} {adjRibEntry : AdjRibEntry R}
    (hentry : s.groupEntries key = some adjRibEntry) :
    SameTree (s.setGroupEntry key (some { adjRibEntry with postAttr := none })) (s.tryInsertWithdrawal key adjRibEntry) := by
  rw [tryInsertWithdrawal]
  split
  next hpost =>
    refine ⟨?_, rfl, rfl⟩
    rw [← hpost]
    exact (update_eq_self_iff.mpr hentry.symm).symm
  · constructor <;> simp

def announcedEntry (config : GroupConfig R) (entry : PathAnnouncement R) (outcome : PolicyOutcome R) :
    Option (AdjRibEntry R) :=
  if config.canAnnounceForGroup entry = false then none
  else some ⟨entry.attrs, outcome.postOutAttrs, outcome.isNexthopSetByPolicy, entry.ribVersion⟩

/-- An announcement saves the entry and writes the new one. -/
theorem processRibAnnouncedEntryForGroup_tree {entry : PathAnnouncement R}
    (hafi : config.isAfiNegotiated entry.pfx = true) (outcome : PolicyOutcome R) :
    SameTree ((s.cloned (entry.pfx, entry.pathIdToSend)).setGroupEntry (entry.pfx, entry.pathIdToSend)
        (announcedEntry config entry outcome)) (s.processRibAnnouncedEntryForGroup config entry outcome) := by
  rw [processRibAnnouncedEntryForGroup, if_neg (by rw [hafi]; nofun), announcedEntry]
  by_cases hannounce : config.canAnnounceForGroup entry = false
  · rw [if_pos hannounce, if_pos hannounce]
    exact processGroupRibWithdraw_tree hafi _
  · rw [if_neg hannounce, if_neg hannounce]
    dsimp only
    rw [fst_tryInsertRibOutEntry]
    cases outcome.postOutAttrs with
    | none =>
      refine SameTree.trans ?_ (tryInsertWithdrawal_tree (groupEntries_setGroupEntry_self ..))
      constructor <;> simp
    | some postOutAttrsNew =>
      dsimp only
      split
      next hsame =>
        refine ⟨?_, rfl, rfl⟩
        rw [groupEntries_setGroupEntry, groupEntries_setGroupEntry, hsame.1]
      · constructor <;> simp

variable (s)

theorem groupEntries_processGroupRibWithdraw (pfx : CIDRNetwork) (pathId : Nat) :
    (s.processGroupRibWithdraw config pfx pathId).groupEntries =
      if config.isAfiNegotiated pfx then Function.update s.groupEntries (pfx, pathId) none else s.groupEntries := by
  cases hafi : config.isAfiNegotiated pfx with
  | false => rw [processGroupRibWithdraw, if_pos hafi]; rfl
  | true => rw [(processGroupRibWithdraw_tree hafi pathId).groupEntries, groupEntries_setGroupEntry, groupEntries_cloned,
      if_pos rfl]

variable (entry : PathAnnouncement R) (outcome : PolicyOutcome R)

theorem groupEntries_processRibAnnouncedEntryForGroup :
    (s.processRibAnnouncedEntryForGroup config entry outcome).groupEntries = if config.isAfiNegotiated entry.pfx then
        Function.update s.groupEntries (entry.pfx, entry.pathIdToSend) (announcedEntry config entry outcome)
      else s.groupEntries := by
  cases hafi : config.isAfiNegotiated entry.pfx with
  | false => rw [processRibAnnouncedEntryForGroup, if_pos hafi]; rfl
  | true => rw [(processRibAnnouncedEntryForGroup_tree hafi outcome).groupEntries, groupEntries_setGroupEntry,
      groupEntries_cloned, if_pos rfl]

theorem detachedRibVersion_processRibAnnouncedEntryForGroup :
    (s.processRibAnnouncedEntryForGroup config entry outcome).detachedRibVersion = s.detachedRibVersion := by
  cases hafi : config.isAfiNegotiated entry.pfx with
  | false => rw [processRibAnnouncedEntryForGroup, if_pos hafi]
  | true => rw [(processRibAnnouncedEntryForGroup_tree hafi outcome).detachedRibVersion, detachedRibVersion_setGroupEntry,
      detachedRibVersion_cloned]

end

end GroupRibOut

end

namespace ShadowRib

variable {R C : Type} {s : ShadowRib R C} {pfx : CIDRNetwork} {srEntry : TrackedRibEntry R C} (consumer : C)

theorem pfx_of_find (h : s.entries.find pfx = some srEntry) : srEntry.pfx = pfx := (find_eq_some_iff.mp h).2

/-- Without pending prefixes none is pending. -/
theorem isPending_eq_false (h : s.pendingPrefixes consumer = []) : s.isPending consumer pfx = false := by
  rw [isPending]
  cases hfind : s.entries.find pfx with
  | none => rfl
  | some srEntry =>
    have hmem := (find_eq_some_iff.mp hfind).1
    rw [pendingPrefixes, List.map_eq_nil_iff, List.filter_eq_nil_iff] at h
    exact Bool.not_eq_true _ ▸ h srEntry hmem

theorem multipathsOf_of_find (h : s.entries.find pfx = some srEntry) :
    s.multipathsOf pfx = srEntry.multipaths.items := by rw [multipathsOf, h]

theorem isPending_of_find (h : s.entries.find pfx = some srEntry) (consumer : C) :
    s.isPending consumer pfx = srEntry.pending consumer := by rw [isPending, h]

variable {s' : ShadowRib R C} {f : TrackedRibEntry R C → TrackedRibEntry R C}

/-- The shadow RIB looks the same at a prefix if it has the same entry there. -/
theorem multipathsOf_congr (h : s'.entries.find pfx = s.entries.find pfx) :
    s'.multipathsOf pfx = s.multipathsOf pfx := by rw [multipathsOf, multipathsOf, h]

theorem isPending_congr (h : s'.entries.find pfx = s.entries.find pfx) (consumer : C) :
    s'.isPending consumer pfx = s.isPending consumer pfx := by rw [isPending, isPending, h]

theorem multipathsOf_of_map
    (h : s'.entries.find pfx = (s.entries.find pfx).map f) (hf : ∀ srEntry, (f srEntry).multipaths = srEntry.multipaths) :
    s'.multipathsOf pfx = s.multipathsOf pfx := by
  rw [multipathsOf, multipathsOf, h]
  cases s.entries.find pfx with
  | none => rfl
  | some srEntry => exact congrArg Keyed.items (hf srEntry)

theorem isPending_of_map {consumer : C} (h : s'.entries.find pfx = (s.entries.find pfx).map f)
    (hf : ∀ srEntry, (f srEntry).pending consumer = srEntry.pending consumer) :
    s'.isPending consumer pfx = s.isPending consumer pfx := by
  rw [isPending, isPending, h]
  cases s.entries.find pfx with
  | none => rfl
  | some srEntry => exact hf srEntry

@[simp] theorem pfx_entryOf : (s.entryOf pfx).pfx = pfx := by
  rw [entryOf]
  cases hfind : s.entries.find pfx with
  | none => rfl
  | some srEntry => exact pfx_of_find hfind

@[simp] theorem multipaths_entryOf : (s.entryOf pfx).multipaths.items = s.multipathsOf pfx := by
  rw [entryOf, multipathsOf]
  cases s.entries.find pfx <;> rfl

@[simp] theorem pending_entryOf : (s.entryOf pfx).pending consumer = s.isPending consumer pfx := by
  rw [entryOf, isPending]
  cases s.entries.find pfx <;> rfl

section

variable (sendAddPath isBestpathChange : Bool)

theorem pfx_publishChange : (s.publishChange sendAddPath isBestpathChange srEntry).pfx = srEntry.pfx := by
  rw [publishChange]
  split <;> rfl

/-- An update is published and stored under its prefix. -/
theorem find_update_self : (s.update sendAddPath isBestpathChange srEntry).entries.find srEntry.pfx =
    some (s.publishChange sendAddPath isBestpathChange { srEntry with ribVersion := s.maxRibVersion }) :=
  find_eq_some_iff.mpr ⟨mem_put.mpr (.inl rfl), pfx_publishChange ..⟩

theorem find_update_of_ne (h : pfx ≠ srEntry.pfx) :
    (s.update sendAddPath isBestpathChange srEntry).entries.find pfx = s.entries.find pfx := by
  refine find_put_of_ne ?_
  rwa [pfx_publishChange]

theorem multipathsOf_update_self :
    (s.update sendAddPath isBestpathChange srEntry).multipathsOf srEntry.pfx = srEntry.multipaths.items := by
  rw [multipathsOf_of_find (find_update_self ..), publishChange]
  split <;> rfl

/-- A change is pending for the consumers that it is for. -/
theorem isPending_update_self (consumer : C) :
    (s.update sendAddPath isBestpathChange srEntry).isPending consumer srEntry.pfx =
      if isBestpathChange = sendAddPath then srEntry.pending consumer
      else srEntry.pending consumer || s.consumers consumer := by
  rw [isPending_of_find (find_update_self ..), publishChange]
  split <;> rfl

end

section

variable {sendAddPath : Bool} {E : Type} {pfxOf : E → CIDRNetwork} {handle : ShadowRib R C → E → ShadowRib R C}

/-- Each entry of a message meets a condition in the state in which it is handled. -/
def HandledUnder (condition : ShadowRib R C → E → Prop) (pfxOf : E → CIDRNetwork)
    (handle : ShadowRib R C → E → ShadowRib R C) : Option CIDRNetwork → List E → ShadowRib R C → Prop
  | _, [], _ => True
  | chunkPrefix, entry :: entries, s =>
    let s := if chunkPrefix = some (pfxOf entry) then s else { s with maxRibVersion := s.maxRibVersion + 1 }
    condition s entry ∧ HandledUnder condition pfxOf handle (some (pfxOf entry)) entries (handle s entry)

instance decidableHandledUnder {condition : ShadowRib R C → E → Prop} [∀ s entry, Decidable (condition s entry)] :
    ∀ (chunkPrefix : Option CIDRNetwork) (entries : List E) (s : ShadowRib R C),
      Decidable (HandledUnder condition pfxOf handle chunkPrefix entries s)
  | _, [], _ => .isTrue trivial
  | chunkPrefix, entry :: entries, s =>
    let s := if chunkPrefix = some (pfxOf entry) then s else { s with maxRibVersion := s.maxRibVersion + 1 }
    have : Decidable (HandledUnder condition pfxOf handle (some (pfxOf entry)) entries (handle s entry)) :=
      decidableHandledUnder ..
    inferInstanceAs (Decidable (condition s entry ∧ _))

/-- What each entry of a message preserves, the message preserves. -/
theorem handleEntries_invariant (inv : ShadowRib R C → Prop) {condition : ShadowRib R C → E → Prop}
    (hver : ∀ s, inv s → inv { s with maxRibVersion := s.maxRibVersion + 1 })
    (hentry : ∀ s entry, inv s → condition s entry → inv (handle s entry)) {chunkPrefix : Option CIDRNetwork}
    {entries : List E} (hinv : inv s) (hcond : HandledUnder condition pfxOf handle chunkPrefix entries s) :
    inv (handleEntries pfxOf handle chunkPrefix entries s) := by
  induction entries generalizing s chunkPrefix with
  | nil => exact hinv
  | cons entry entries ih =>
    refine ih (hentry _ entry ?_ hcond.1) hcond.2
    split
    · exact hinv
    · exact hver s hinv

theorem handledUnder_true (pfxOf : E → CIDRNetwork) (chunkPrefix : Option CIDRNetwork) (entries : List E) :
    HandledUnder (fun _ _ => True) pfxOf handle chunkPrefix entries s := by
  induction entries generalizing s chunkPrefix with
  | nil => trivial
  | cons entry entries ih => exact ⟨trivial, ih _⟩

end

section

variable [DecidableEq C] (consumer : C) (pfx' : CIDRNetwork)

/-- Only the bit of the consumer at the prefix is cleared. -/
theorem find_markConsumed : (s.markConsumed consumer pfx).entries.find pfx' =
    (s.entries.find pfx').map fun srEntry =>
      if pfx' = pfx then { srEntry with pending := Function.update srEntry.pending consumer false } else srEntry := by
  rw [markConsumed]
  cases hfind : s.entries.find pfx with
  | none =>
    by_cases hpfx : pfx' = pfx
    · rw [hpfx, hfind]
      rfl
    · simp [hpfx]
  | some srEntry =>
    have hkey := pfx_of_find hfind
    by_cases hpfx : pfx' = pfx
    · subst hpfx
      rw [hfind, Option.map_some, if_pos rfl]
      exact find_eq_some_iff.mpr ⟨mem_put.mpr (.inl rfl), hkey⟩
    · rw [find_put_of_ne (by rwa [hkey])]
      simp [hpfx]

@[simp] theorem consumers_markConsumed : (s.markConsumed consumer pfx).consumers = s.consumers := by
  rw [markConsumed]
  cases s.entries.find pfx <;> rfl

theorem multipathsOf_markConsumed : (s.markConsumed consumer pfx).multipathsOf pfx' = s.multipathsOf pfx' := by
  refine multipathsOf_of_map (find_markConsumed consumer pfx') fun srEntry => ?_
  split <;> rfl

theorem isPending_markConsumed_of_ne {consumer other : C} (h : other ≠ consumer) (pfx' : CIDRNetwork) :
    (s.markConsumed consumer pfx).isPending other pfx' = s.isPending other pfx' := by
  refine isPending_of_map (find_markConsumed consumer pfx') fun srEntry => ?_
  split
  · exact Function.update_of_ne h ..
  · rfl

/-- A new consumer takes the pending bits of its position. -/
theorem find_registerAt (consumer position : C) : (s.registerAt consumer position).entries.find pfx =
    (s.entries.find pfx).map fun srEntry =>
      { srEntry with pending := Function.update srEntry.pending consumer (srEntry.pending position) } := by
  rw [registerAt, find_modify]

theorem consumers_registerAt (consumer position : C) :
    (s.registerAt consumer position).consumers = Function.update s.consumers consumer true := rfl

theorem multipathsOf_registerAt (consumer position : C) :
    (s.registerAt consumer position).multipathsOf pfx = s.multipathsOf pfx :=
  multipathsOf_of_map (find_registerAt consumer position) fun _ => rfl

theorem isPending_registerAt_of_ne {consumer other : C} (h : other ≠ consumer) (position : C) :
    (s.registerAt consumer position).isPending other pfx = s.isPending other pfx :=
  isPending_of_map (find_registerAt consumer position) fun _ => Function.update_of_ne h ..

end

@[simp] theorem consumers_completeChange : (s.completeChange pfx).consumers = s.consumers := by
  rw [completeChange]
  cases s.entries.find pfx with
  | none => rfl
  | some srEntry =>
    dsimp only
    split <;> rfl

theorem find_completeChange_of_ne {pfx' : CIDRNetwork} (h : pfx' ≠ pfx) :
    (s.completeChange pfx).entries.find pfx' = s.entries.find pfx' := by
  rw [completeChange]
  cases hfind : s.entries.find pfx with
  | none => rfl
  | some srEntry =>
    have hkey : pfx' ≠ srEntry.complete.pfx := fun heq => h (heq.trans (pfx_of_find hfind : srEntry.pfx = pfx))
    dsimp only
    split
    · exact find_erase_of_ne h
    · exact find_put_of_ne hkey

/-- An entry with nothing left is erased. -/
theorem find_completeChange_self (hfind : s.entries.find pfx = some srEntry) : (s.completeChange pfx).entries.find pfx =
    if srEntry.complete.multipaths.items = [] ∧ srEntry.complete.bestpath = none then none
    else some srEntry.complete := by
  have hkey : srEntry.complete.pfx = pfx := (pfx_of_find hfind : srEntry.pfx = pfx)
  rw [completeChange, hfind]
  dsimp only
  split
  · exact find_erase_self ..
  · exact find_eq_some_iff.mpr ⟨mem_put.mpr (.inl rfl), hkey⟩

/-- The paths that are left are those not being withdrawn. -/
theorem multipathsOf_completeChange_self : (s.completeChange pfx).multipathsOf pfx =
    ((s.multipathsOf pfx).filter fun route => route.flags ≠ .inWithdraw).map fun route =>
      { route with flags := .unchanged } := by
  cases hfind : s.entries.find pfx with
  | none =>
    rw [completeChange, hfind, multipathsOf, hfind]
    rfl
  | some srEntry =>
    rw [multipathsOf_of_find hfind, multipathsOf, find_completeChange_self hfind]
    by_cases hempty : srEntry.complete.multipaths.items = [] ∧ srEntry.complete.bestpath = none
    · rw [if_pos hempty]
      exact hempty.1.symm
    · rw [if_neg hempty]
      rfl

theorem isPending_completeChange_self {consumer : C} (h : s.isPending consumer pfx = false) :
    (s.completeChange pfx).isPending consumer pfx = false := by
  cases hfind : s.entries.find pfx with
  | none => rwa [completeChange, hfind]
  | some srEntry =>
    rw [isPending_of_find hfind] at h
    rw [isPending, find_completeChange_self hfind]
    by_cases hempty : srEntry.complete.multipaths.items = [] ∧ srEntry.complete.bestpath = none
    · rw [if_pos hempty]
    · rw [if_neg hempty]
      exact h

end ShadowRib

end FbossBgp.AdjRib
