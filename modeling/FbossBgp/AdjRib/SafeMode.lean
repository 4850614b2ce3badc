import FbossBgp.AdjRib.AdjRibIn

/-! The purge of an AdjRib's learnt routes when the switch enters safe mode: routes that neither the golden
prefix policy nor the check on golden VIPs admits are dropped. Admitting a route counts its subnet or marks its
prefix, so whether a route is admitted depends on those visited before it. -/

namespace FbossBgp.AdjRib

open List

open Rib (CIDRNetwork isSubnet)

structure BgpAttrCommunity where
  asn : Nat
  value : Nat
  deriving DecidableEq, Repr

def kGoldenVipCommunity : BgpAttrCommunity := ⟨65446, 400⟩

/-- A golden prefix, with the reference counts of the subnets admitted under it. -/
structure ParentPrefixTreeNode where
  pfx : CIDRNetwork
  maxSubnetCount : Int
  communities : Option (List BgpAttrCommunity)
  subnets : Keyed (Prod.fst : CIDRNetwork × Int → CIDRNetwork) := .empty

abbrev GoldenPrefixSubnetCountingTree := Keyed ParentPrefixTreeNode.pfx

/-- A signed value compared with an unsigned 64-bit one. -/
def toUint64 (value : Int) : Nat := (value % 2 ^ 64).toNat

namespace GoldenPrefixSubnetCountingTree

variable (tree : GoldenPrefixSubnetCountingTree) (pfx : CIDRNetwork)

def longestMatch : Option ParentPrefixTreeNode :=
  (tree.items.filter fun node => isSubnet pfx node.pfx).argmax fun node => node.pfx.len

def allowPrefix (communities : List BgpAttrCommunity) : Bool :=
  match longestMatch tree pfx with
  | none => false
  | some node =>
    ((node.subnets.find pfx).isSome || node.subnets.items.length < toUint64 node.maxSubnetCount) &&
      match node.communities with
      | none => true
      | some golden => communities.any fun comm => comm ∈ golden

def subnetCount (node : ParentPrefixTreeNode) (pfx : CIDRNetwork) : Int := ((node.subnets.find pfx).map Prod.snd).getD 0

def incrementSubnet : GoldenPrefixSubnetCountingTree :=
  match longestMatch tree pfx with
  | none => tree
  | some node => tree.put { node with subnets := node.subnets.put (pfx, subnetCount node pfx + 1) }

def decrementSubnet : GoldenPrefixSubnetCountingTree :=
  match longestMatch tree pfx with
  | none => tree
  | some node =>
    let count := subnetCount node pfx - 1
    tree.put { node with subnets := if count ≤ 0 then node.subnets.erase pfx else node.subnets.put (pfx, count) }

end GoldenPrefixSubnetCountingTree

/-- An allowlist: what its prefix tree matches and the subnets counted under its prefixes. -/
structure GoldenPrefixList where
  prefixTreeMatch : CIDRNetwork → Bool
  goldenPrefixSubnetCountingTree : GoldenPrefixSubnetCountingTree

/-- Without a list nothing is blocked; an empty list blocks everything. -/
structure GoldenPrefixPolicy where
  prefixList : Option GoldenPrefixList

namespace GoldenPrefixPolicy

variable (policy : GoldenPrefixPolicy) (pfx : CIDRNetwork)

def allowPrefix (communities : List BgpAttrCommunity) : Bool :=
  match policy.prefixList with
  | none => true
  | some list => list.prefixTreeMatch pfx && list.goldenPrefixSubnetCountingTree.allowPrefix pfx communities

def modifyTree (f : GoldenPrefixSubnetCountingTree → GoldenPrefixSubnetCountingTree) : GoldenPrefixPolicy where
  prefixList := policy.prefixList.map fun list =>
    { list with goldenPrefixSubnetCountingTree := f list.goldenPrefixSubnetCountingTree }

def incrementSubnet : GoldenPrefixPolicy :=
  policy.modifyTree (·.incrementSubnet pfx)

def decrementSubnet : GoldenPrefixPolicy :=
  policy.modifyTree (·.decrementSubnet pfx)

end GoldenPrefixPolicy

structure PrefixRef where
  pfx : CIDRNetwork
  refCount : Nat
  isGoldenVip : Bool

structure AdjRibPrefixSet where
  uniquePrefixes : Keyed PrefixRef.pfx
  totalGoldenVipPrefixesCount : Nat

namespace AdjRibPrefixSet

variable (set : AdjRibPrefixSet) (pfx : CIDRNetwork)

def isGoldenVip : Bool :=
  (set.uniquePrefixes.find pfx).any PrefixRef.isGoldenVip

def markGoldenVip : AdjRibPrefixSet :=
  match set.uniquePrefixes.find pfx with
  | none => set
  | some ref =>
    if ref.isGoldenVip then set
    else ⟨set.uniquePrefixes.put { ref with isGoldenVip := true }, set.totalGoldenVipPrefixesCount + 1⟩

def delPrefix : AdjRibPrefixSet :=
  match set.uniquePrefixes.find pfx with
  | none => set
  | some ref =>
    if ref.refCount - 1 = 0 then
      ⟨set.uniquePrefixes.erase pfx,
        if ref.isGoldenVip then set.totalGoldenVipPrefixesCount - 1 else set.totalGoldenVipPrefixesCount⟩
    else { set with uniquePrefixes := set.uniquePrefixes.put { ref with refCount := ref.refCount - 1 } }

end AdjRibPrefixSet

/-- What admits routes: the policy with its counters and the prefixes marked golden. -/
structure GoldenState where
  goldenPrefixPolicy : GoldenPrefixPolicy
  adjRibPrefixSet : AdjRibPrefixSet
  maxGoldenVips : Int

def isGoldenVip (communities : List BgpAttrCommunity) : Bool := communities.any (· == kGoldenVipCommunity)

namespace GoldenState

variable (golden : GoldenState) (pfx : CIDRNetwork)

def allowGoldenVip : Bool :=
  golden.adjRibPrefixSet.isGoldenVip pfx || (golden.maxGoldenVips ≠ 0 &&
    golden.adjRibPrefixSet.totalGoldenVipPrefixesCount ≤ toUint64 (golden.maxGoldenVips - 1))

/-- The state after a route is admitted, by the policy or else as a golden VIP. -/
def accept (communities : List BgpAttrCommunity) : Option GoldenState :=
  if golden.goldenPrefixPolicy.allowPrefix pfx communities then
    some { golden with goldenPrefixPolicy := golden.goldenPrefixPolicy.incrementSubnet pfx }
  else if isGoldenVip communities && golden.allowGoldenVip pfx then
    some { golden with adjRibPrefixSet := golden.adjRibPrefixSet.markGoldenVip pfx }
  else none

def decrementPreInPrefixCount (isSafeModeOn : Bool) (golden : GoldenState) (pfx : CIDRNetwork) : GoldenState :=
  { golden with
    goldenPrefixPolicy :=
      if isSafeModeOn then golden.goldenPrefixPolicy.decrementSubnet pfx else golden.goldenPrefixPolicy
    adjRibPrefixSet := golden.adjRibPrefixSet.delPrefix pfx }

end GoldenState

/-- The walk over the learnt routes: one path id to purge for each prefix. -/
structure GoldenWalk where
  golden : GoldenState
  prefixesPathIdToPurge : Keyed (Prod.fst : CIDRNetwork × Nat → CIDRNetwork) := .empty

/-- Nothing is emplaced over a prefix that is there already. -/
def GoldenWalk.emplace (walk : GoldenWalk) (pfx : CIDRNetwork) (pathId : Nat) : GoldenWalk :=
  if (walk.prefixesPathIdToPurge.find pfx).isSome then walk
  else { walk with prefixesPathIdToPurge := walk.prefixesPathIdToPurge.put (pfx, pathId) }

/-- An AdjRib with the state that safe mode reads; `none` where no golden prefix policy is set. -/
structure SafeModeAdjRib (A : Type) where
  adjRib : AdjRibIn A
  isSafeModeOn : Bool
  golden : Option GoldenState

section

variable {A : Type} (getCommunities : A → List BgpAttrCommunity)

def applyGoldenPrefixPolicy (walk : GoldenWalk) (entry : AdjRibInEntry A) : GoldenWalk :=
  match walk.golden.accept entry.pfx (getCommunities entry.preIn) with
  | some golden => { walk with golden := golden }
  | none => walk.emplace entry.pfx entry.pathId

/-- The purge of one route, with the counters of the golden prefix policy. -/
def purgeRoute (isSafeModeOn : Bool) (state : (AdjRibIn A × List PrefixPathId) × GoldenState) (key : PrefixPathId) :
    (AdjRibIn A × List PrefixPathId) × GoldenState :=
  (AdjRibIn.processWithdrawnPrefixRibInEntry state.1 key,
    if (state.1.1.getRibEntry key).isSome then state.2.decrementPreInPrefixCount isSafeModeOn key.1 else state.2)

variable (s : SafeModeAdjRib A)

def processAdjRibReEvaluationForSafeMode : SafeModeAdjRib A :=
  match s.golden with
  | none => s
  | some golden =>
    let walk := s.adjRib.tree.items.foldl (applyGoldenPrefixPolicy getCommunities) { golden := golden }
    let purged := walk.prefixesPathIdToPurge.items.foldl (purgeRoute s.isSafeModeOn) ((s.adjRib, []), walk.golden)
    { s with adjRib := purged.1.1.sendRibInWithdrawal purged.1.2, golden := some purged.2 }

/-- The routes that are not admitted when the walk comes to them. -/
def GoldenState.denied (golden : GoldenState) : List (AdjRibInEntry A) → List (AdjRibInEntry A)
  | [] => []
  | entry :: entries =>
    match golden.accept entry.pfx (getCommunities entry.preIn) with
    | some golden' => GoldenState.denied golden' entries
    | none => entry :: golden.denied entries

/-- The learnt routes that safe mode does not admit. -/
def SafeModeAdjRib.denied : List (AdjRibInEntry A) :=
  match s.golden with
  | none => []
  | some golden => golden.denied getCommunities s.adjRib.tree.items

/-- What the purge is for: the denied routes go, the RIB hears of those it had, and all others stay. -/
def PurgesDenied (s s' : SafeModeAdjRib A) : Prop :=
  (∀ key, s'.adjRib.getRibEntry key =
    if ∃ entry ∈ s.denied getCommunities, entry.key = key then none else s.adjRib.getRibEntry key) ∧
  ∃ withdrawn : List PrefixPathId, s'.adjRib.pushed = s.adjRib.pushed ++ withdrawn.map (·, none) ∧
    ∀ key, key ∈ withdrawn ↔ ∃ entry ∈ s.denied getCommunities, entry.key = key ∧ entry.postAttr.isSome

theorem GoldenState.denied_sublist (golden : GoldenState) (entries : List (AdjRibInEntry A)) :
    (golden.denied getCommunities entries).Sublist entries := by
  induction entries generalizing golden with
  | nil => exact .slnil
  | cons entry entries ih =>
    rw [GoldenState.denied]
    split
    · exact (ih _).cons _
    · exact (ih _).cons_cons _

theorem SafeModeAdjRib.find_of_mem_denied {s : SafeModeAdjRib A} {entry : AdjRibInEntry A}
    (h : entry ∈ s.denied getCommunities) : s.adjRib.getRibEntry entry.key = some entry := by
  unfold SafeModeAdjRib.denied at h
  split at h
  · exact absurd h not_mem_nil
  · exact Keyed.find_key ((GoldenState.denied_sublist getCommunities _ _).subset h)

/-- One path id stands for all of a prefix that are to be purged. -/
structure PurgesOnePerPrefix (denied : List (AdjRibInEntry A))
    (purge : Keyed (Prod.fst : CIDRNetwork × Nat → CIDRNetwork)) : Prop where
  mem_denied : ∀ key ∈ purge.items, ∃ entry ∈ denied, entry.key = key
  find_denied : ∀ entry ∈ denied, ∃ pathId, (entry.pfx, pathId) ∈ purge.items

theorem GoldenWalk.emplace_purges {denied : List (AdjRibInEntry A)} {walk : GoldenWalk} (entry : AdjRibInEntry A)
    (h : PurgesOnePerPrefix denied walk.prefixesPathIdToPurge) :
    PurgesOnePerPrefix (denied ++ [entry]) (walk.emplace entry.pfx entry.pathId).prefixesPathIdToPurge := by
  have hold : ∀ key ∈ walk.prefixesPathIdToPurge.items, ∃ e ∈ denied ++ [entry], e.key = key := by
    intro key hkey
    obtain ⟨e, he, rfl⟩ := h.mem_denied key hkey
    exact ⟨e, mem_append_left _ he, rfl⟩
  unfold GoldenWalk.emplace
  split
  next hsome =>
    refine ⟨hold, fun e he => ?_⟩
    rcases mem_append.mp he with hden | hentry
    · exact h.find_denied e hden
    · obtain ⟨item, hitem⟩ := Option.isSome_iff_exists.mp hsome
      obtain ⟨hmem, hpfx⟩ := Keyed.find_eq_some_iff.mp hitem
      rw [mem_singleton.mp hentry, ← hpfx]
      exact ⟨item.2, hmem⟩
  next hnone =>
    refine ⟨fun key hkey => ?_, fun e he => ?_⟩
    · rcases Keyed.mem_put.mp hkey with rfl | ⟨hmem, -⟩
      · exact ⟨entry, mem_append_right _ mem_cons_self, rfl⟩
      · exact hold key hmem
    · by_cases hpfx : e.pfx = entry.pfx
      · exact ⟨entry.pathId, Keyed.mem_put.mpr (.inl (by rw [hpfx]))⟩
      · have hden : e ∈ denied := by
          rcases mem_append.mp he with hden | hentry
          · exact hden
          · exact absurd (congrArg AdjRibInEntry.pfx (mem_singleton.mp hentry)) hpfx
        obtain ⟨pathId, hmem⟩ := h.find_denied e hden
        exact ⟨pathId, Keyed.mem_put.mpr (.inr ⟨hmem, hpfx⟩)⟩

theorem applyGoldenPrefixPolicy_foldl_purges {denied : List (AdjRibInEntry A)} (walk : GoldenWalk)
    (h : PurgesOnePerPrefix denied walk.prefixesPathIdToPurge) (entries : List (AdjRibInEntry A)) :
    PurgesOnePerPrefix (denied ++ walk.golden.denied getCommunities entries)
      (entries.foldl (applyGoldenPrefixPolicy getCommunities) walk).prefixesPathIdToPurge := by
  induction entries generalizing denied walk with
  | nil =>
    rw [GoldenState.denied, append_nil]
    exact h
  | cons entry entries ih =>
    rw [foldl_cons, GoldenState.denied, applyGoldenPrefixPolicy]
    cases walk.golden.accept entry.pfx (getCommunities entry.preIn) with
    | some golden => exact ih { walk with golden := golden } h
    | none =>
      have hgolden : (walk.emplace entry.pfx entry.pathId).golden = walk.golden := by
        unfold GoldenWalk.emplace
        split <;> rfl
      have hrest := ih _ (GoldenWalk.emplace_purges entry h)
      rw [hgolden, append_assoc] at hrest
      exact hrest

variable (state : AdjRibIn A × List PrefixPathId) (key k : PrefixPathId)

theorem processWithdrawnPrefixRibInEntry_find :
    (AdjRibIn.processWithdrawnPrefixRibInEntry state key).1.getRibEntry k =
      if k = key then none else state.1.getRibEntry k := by
  unfold AdjRibIn.processWithdrawnPrefixRibInEntry
  split
  next hnone =>
    split
    next hk => rw [hk, hnone]
    · rfl
  · rw [AdjRibIn.getRibEntry, AdjRibIn.tree_setTree]
    split
    next hk => rw [hk, Keyed.find_erase_self]
    next hk => exact Keyed.find_erase_of_ne hk

theorem mem_processWithdrawnPrefixRibInEntry :
    k ∈ (AdjRibIn.processWithdrawnPrefixRibInEntry state key).2 ↔
      k ∈ state.2 ∨ k = key ∧ ∃ entry, state.1.getRibEntry k = some entry ∧ entry.postAttr.isSome := by
  unfold AdjRibIn.processWithdrawnPrefixRibInEntry
  split
  next hnone =>
    refine ⟨.inl, ?_⟩
    rintro (hk | ⟨rfl, entry, hentry, -⟩)
    · exact hk
    · rw [hnone] at hentry
      cases hentry
  next entry hentry =>
    split
    next hpost =>
      rw [mem_append, mem_singleton]
      refine or_congr_right ⟨?_, And.left⟩
      rintro rfl
      exact ⟨rfl, entry, hentry, hpost⟩
    next hpost =>
      refine ⟨.inl, ?_⟩
      rintro (hk | ⟨rfl, entry', hentry', hpost'⟩)
      · exact hk
      · rw [hentry, Option.some.injEq] at hentry'
        exact absurd (hentry' ▸ hpost') hpost

theorem processWithdrawnPrefixRibInEntry_pushed (key : PrefixPathId) :
    (AdjRibIn.processWithdrawnPrefixRibInEntry state key).1.pushed = state.1.pushed := by
  unfold AdjRibIn.processWithdrawnPrefixRibInEntry
  split <;> rfl

/-- The routes of the keys go, and those that the RIB had are withdrawn. -/
theorem purgeRoute_foldl (isSafeModeOn : Bool) (keys : List PrefixPathId)
    (state : (AdjRibIn A × List PrefixPathId) × GoldenState) :
    (∀ k, (keys.foldl (purgeRoute isSafeModeOn) state).1.1.getRibEntry k =
      if k ∈ keys then none else state.1.1.getRibEntry k) ∧
    (∀ k, k ∈ (keys.foldl (purgeRoute isSafeModeOn) state).1.2 ↔
      k ∈ state.1.2 ∨ k ∈ keys ∧ ∃ entry, state.1.1.getRibEntry k = some entry ∧ entry.postAttr.isSome) ∧
    (keys.foldl (purgeRoute isSafeModeOn) state).1.1.pushed = state.1.1.pushed := by
  induction keys generalizing state with
  | nil => exact ⟨fun k => by simp, fun k => by simp, rfl⟩
  | cons key keys ih =>
    obtain ⟨hfind, hmem, hpushed⟩ := ih (purgeRoute isSafeModeOn state key)
    rw [foldl_cons]
    refine ⟨fun k => ?_, fun k => ?_, ?_⟩
    · rw [hfind, purgeRoute, processWithdrawnPrefixRibInEntry_find]
      by_cases hk : k = key
      · simp [hk]
      · simp [hk]
    · rw [hmem, purgeRoute, mem_processWithdrawnPrefixRibInEntry, processWithdrawnPrefixRibInEntry_find]
      by_cases hk : k = key
      · simp [hk]
      · simp [hk]
    · rw [hpushed]
      exact processWithdrawnPrefixRibInEntry_pushed state.1 key

/-- What the purge drops: one denied route for each prefix that has any. -/
theorem processAdjRibReEvaluationForSafeMode_spec : ∃ purge, PurgesOnePerPrefix (s.denied getCommunities) purge ∧
    (∀ key, (processAdjRibReEvaluationForSafeMode getCommunities s).adjRib.getRibEntry key =
      if key ∈ purge.items then none else s.adjRib.getRibEntry key) ∧
    ∃ withdrawn : List PrefixPathId, (processAdjRibReEvaluationForSafeMode getCommunities s).adjRib.pushed =
        s.adjRib.pushed ++ withdrawn.map (·, none) ∧
      ∀ key, key ∈ withdrawn ↔
        key ∈ purge.items ∧ ∃ entry, s.adjRib.getRibEntry key = some entry ∧ entry.postAttr.isSome := by
  have hempty : PurgesOnePerPrefix ([] : List (AdjRibInEntry A)) .empty :=
    ⟨fun key hkey => absurd hkey not_mem_nil, fun entry hentry => absurd hentry not_mem_nil⟩
  unfold processAdjRibReEvaluationForSafeMode SafeModeAdjRib.denied
  cases s.golden with
  | none => exact ⟨.empty, hempty, fun key => by simp, [], by simp, fun key => by simp⟩
  | some golden =>
    have hpurges := applyGoldenPrefixPolicy_foldl_purges getCommunities { golden := golden } hempty
      s.adjRib.tree.items
    obtain ⟨hfind, hmem, hpushed⟩ := purgeRoute_foldl s.isSafeModeOn _ ((s.adjRib, []), _)
    refine ⟨_, hpurges, hfind, _, congrArg (· ++ _) hpushed, fun key => ?_⟩
    rw [hmem, or_iff_right not_mem_nil]

/-- Safe mode purges exactly the denied routes if and only if no two denied routes share a prefix: the path
ids to purge are kept by prefix, and a second one for the same prefix is not entered. -/
theorem purgesDenied_iff (s : SafeModeAdjRib A) :
    PurgesDenied getCommunities s (processAdjRibReEvaluationForSafeMode getCommunities s) ↔
      ∀ entry ∈ s.denied getCommunities, ∀ entry' ∈ s.denied getCommunities,
        entry.pfx = entry'.pfx → entry.pathId = entry'.pathId := by
  obtain ⟨purge, hpurge, hfind, withdrawn, hpushed, hwd⟩ := processAdjRibReEvaluationForSafeMode_spec getCommunities s
  constructor
  · rintro ⟨hgone, -⟩ entry hentry entry' hentry' hpfx
    -- A denied route that is gone was among those purged.
    have hpurged : ∀ e ∈ s.denied getCommunities, e.key ∈ purge.items := by
      intro e he
      by_contra hkey
      have hnone := hgone e.key
      rw [hfind, if_neg hkey, if_pos ⟨e, he, rfl⟩, SafeModeAdjRib.find_of_mem_denied getCommunities he] at hnone
      cases hnone
    exact congrArg Prod.snd (purge.eq_of_key_eq (hpurged entry hentry) (hpurged entry' hentry') hpfx)
  · intro hunique
    have hmem : ∀ key, key ∈ purge.items ↔ ∃ entry ∈ s.denied getCommunities, entry.key = key := by
      refine fun key => ⟨hpurge.mem_denied key, ?_⟩
      rintro ⟨entry, hentry, rfl⟩
      obtain ⟨pathId, hpathId⟩ := hpurge.find_denied entry hentry
      obtain ⟨entry', hentry', hkey⟩ := hpurge.mem_denied _ hpathId
      obtain ⟨hpfx, rfl⟩ := Prod.mk.inj hkey
      rwa [AdjRibInEntry.key, hunique entry hentry entry' hentry' hpfx.symm]
    refine ⟨fun key => ?_, withdrawn, hpushed, fun key => ?_⟩
    · rw [hfind]
      exact if_congr (hmem key) rfl rfl
    · rw [hwd, hmem]
      constructor
      · rintro ⟨⟨entry, hentry, rfl⟩, found, hfound, hpost⟩
        rw [SafeModeAdjRib.find_of_mem_denied getCommunities hentry, Option.some.injEq] at hfound
        exact ⟨entry, hentry, rfl, hfound ▸ hpost⟩
      · rintro ⟨entry, hentry, rfl, hpost⟩
        exact ⟨⟨entry, hentry, rfl⟩, entry, SafeModeAdjRib.find_of_mem_denied getCommunities hentry, hpost⟩

end

/-- An add-path peer has announced two paths of one prefix when an empty golden prefix list takes effect. -/
def twoDeniedPaths : SafeModeAdjRib Nat where
  adjRib := Transition.run (adjRibInSystem false acceptAll) (adjRibInSystem false acceptAll).init
    [.sessionEstablished ⟨true, false, true, 0⟩, .processPeerUpdate unlimited
        { v4Announced := [⟨samplePeerPrefix, some 1⟩, ⟨samplePeerPrefix, some 2⟩], v4Attrs := 7, mpAttrs := 7 }]
  isSafeModeOn := true
  golden := some
    { goldenPrefixPolicy := ⟨some ⟨fun _ => false, .empty⟩⟩
      adjRibPrefixSet := ⟨(Keyed.empty.put ⟨samplePeerPrefix, 2, false⟩), 0⟩
      maxGoldenVips := 0 }

/-- One of the two paths stays in the AdjRib and in the RIB. -/
theorem not_purgesDenied_twoDeniedPaths : ¬PurgesDenied (fun _ => []) twoDeniedPaths
    (processAdjRibReEvaluationForSafeMode (fun _ => []) twoDeniedPaths) := by
  rintro ⟨hgone, -⟩
  have hfirst := hgone (samplePeerPrefix, 1)
  revert hfirst
  decide +kernel

end FbossBgp.AdjRib
