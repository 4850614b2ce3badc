import FbossBgp.Rib.RibEntry
import FbossBgp.Lib.Transition

/-! The ids under which the paths of an entry are sent to add-path peers. Ids come from an interval whose left
end moves on by one with each id; the left end has 32 bits, so after the largest id it is 0 again and the interval
is never found empty. -/

namespace FbossBgp.Rib

open BgpLib Transition List Keyed

variable {F : Type} [Zero F] [DecidableEq F] (k object : Nat) {n : Nat} (id : Option Nat)

/-- An entry with the identity that its next `RouteInfo` gets. -/
structure EntryState (F : Type) [Zero F] where
  entry : RibEntry F
  nextObject : Nat := 0

inductive PathAction (F : Type)
  | updatePath (peer : TinyPeerInfo F) (attrs : Option (BgpPathPtr F)) (installToFib : Bool)
      (receivedPathId : Nat)
  | getOrAssignSendPathId (key : BgpPeerId × Nat)
  | getPathIdToSend

namespace EntryState

variable (s : EntryState F)

def exec : PathAction F → EntryState F
  | .updatePath peer attrs installToFib receivedPathId =>
    ⟨(s.entry.updatePath s.nextObject peer attrs installToFib receivedPathId).1, s.nextObject + 1⟩
  | .getOrAssignSendPathId key =>
    match s.entry.routeInfos.find key with
    | some path => { s with entry := (s.entry.getOrAssignSendPathId path).2 }
    | none => s
  | .getPathIdToSend => { s with entry := s.entry.getPathIdToSend.2 }

/-- Fewer than `2 ^ 32` paths are live, and a send id is assigned to a path of the entry only. -/
def Enabled (a : PathAction F) : Prop :=
  s.entry.routeInfos.paths.length < 2 ^ 32 ∧
    ∀ key, a = .getOrAssignSendPathId key → (s.entry.routeInfos.find key).isSome

/-- The id that an action takes out of the free interval. -/
def drawn : PathAction F → Option Nat
  | .updatePath _ _ _ _ => none
  | .getOrAssignSendPathId key =>
    match s.entry.routeInfos.find key with
    | some path => if path.pathIdToSend.isSome then none else some s.entry.getPathIdToSend.1
    | none => none
  | .getPathIdToSend => some s.entry.getPathIdToSend.1

/-- The number of ids that a run takes out of the free interval. -/
def draws : EntryState F → List (PathAction F) → Nat
  | _, [] => 0
  | s, a :: actions => (if (s.drawn a).isSome then 1 else 0) + draws (s.exec a) actions

end EntryState

/-- An entry of a prefix, from the moment it is made. -/
def entrySystem (pfx : CIDRNetwork) : System (EntryState F) (PathAction F) where
  init := ⟨{ pfx }, 0⟩
  enabled := EntryState.Enabled
  exec := EntryState.exec

def RibEntry.SendIdsDistinct (entry : RibEntry F) : Prop :=
  ∀ r ∈ entry.routeInfos.paths, ∀ r' ∈ entry.routeInfos.paths, ∀ id,
    r.pathIdToSend = some id → r'.pathIdToSend = some id → r.key = r'.key

/-- What a step has to keep: no two paths hold one id, a path that stays or is replaced keeps its id, no path
holds the id that is taken, and the map of any selected paths has one element for each of them. -/
structure SendIdsKept (s : EntryState F) (a : PathAction F) : Prop where
  distinct : (s.exec a).entry.SendIdsDistinct
  kept : ∀ key r r' id, s.entry.routeInfos.find key = some r → (s.exec a).entry.routeInfos.find key = some r' →
    r.pathIdToSend = some id → r'.pathIdToSend = some id
  free : ∀ id, s.drawn a = some id → ∀ r ∈ s.entry.routeInfos.paths, r.pathIdToSend ≠ some id
  counted : ∀ selected : List (RouteInfo F), selected.Nodup → (∀ r ∈ selected, r ∈ (s.exec a).entry.routeInfos.paths) →
    (∀ r ∈ selected, r.pathIdToSend.isSome) → (RibEntry.multipathsOf selected).length = selected.length

def EntryState.RunKeepsSendIds : EntryState F → List (PathAction F) → Prop
  | _, [] => True
  | s, a :: actions => SendIdsKept s a ∧ RunKeepsSendIds (s.exec a) actions

namespace RibEntry

variable {entry : RibEntry F}

theorem mem_updatePath {object : Nat} {peer : TinyPeerInfo F}
    {attrs : Option (BgpPathPtr F)} {install : Bool} {pathId : Nat} {r : RouteInfo F}
    (h : r ∈ (entry.updatePath object peer attrs install pathId).1.routeInfos.paths) :
    r ∈ entry.routeInfos.paths ∨ r.key = (peer.peerId, pathId) ∧
      r.pathIdToSend = (entry.routeInfos.find (peer.peerId, pathId)).bind (·.pathIdToSend) := by
  unfold updatePath at h
  split at h
  next hupd => exact (RouteInfos.mem_updatePath hupd h).imp_right fun hnew => hnew.2
  · exact .inl h

theorem updatePath_freePathIdInterval (entry : RibEntry F) (object : Nat) (peer : TinyPeerInfo F)
    (attrs : Option (BgpPathPtr F)) (install : Bool) (pathId : Nat) :
    (entry.updatePath object peer attrs install pathId).1.freePathIdInterval = entry.freePathIdInterval := by
  unfold updatePath
  split <;> rfl

omit [DecidableEq F] in
/-- While the right end is the largest id the interval is not refilled. -/
theorem getPathIdToSend_eq (h : entry.freePathIdInterval = (n % 2 ^ 32, kMaxPathIDToSend)) :
    entry.getPathIdToSend = (n % 2 ^ 32, { entry with freePathIdInterval := ((n + 1) % 2 ^ 32, kMaxPathIDToSend) }) := by
  have hle : ¬n % 2 ^ 32 > kMaxPathIDToSend := by
    unfold kMaxPathIDToSend
    omega
  have hnext : (n % 2 ^ 32 + 1) % 2 ^ 32 = (n + 1) % 2 ^ 32 := by rw [Nat.mod_add_mod]
  simp only [getPathIdToSend, h, if_neg hle, hnext]

omit [Zero F] [DecidableEq F] in
theorem length_foldl_emplaceMultipath (multipaths : List (Nat × RouteInfo F)) (selected : List (RouteInfo F))
    (ids : List Nat) (hids : selected.map (·.pathIdToSend) = ids.map some) (hnodup : ids.Nodup)
    (hfresh : ∀ x ∈ multipaths, x.1 ∉ ids) :
    (selected.foldl emplaceMultipath multipaths).length = multipaths.length + selected.length := by
  induction selected generalizing multipaths ids with
  | nil => rfl
  | cons path selected ih =>
    obtain ⟨id, ids, rfl⟩ : ∃ id ids', ids = id :: ids' := by
      cases ids with
      | nil => simp at hids
      | cons id ids' => exact ⟨id, ids', rfl⟩
    obtain ⟨hid, hids⟩ : path.pathIdToSend = some id ∧ selected.map (·.pathIdToSend) = ids.map some := by simpa using hids
    obtain ⟨hnotin, hnodup⟩ := nodup_cons.mp hnodup
    have hany : ¬(multipaths.any fun x => x.1 == id) = true := by
      rw [any_eq_true]
      rintro ⟨x, hx, hxid⟩
      exact hfresh x hx (by simp [beq_iff_eq.mp hxid])
    have hemplace : emplaceMultipath multipaths path = multipaths ++ [(id, path)] := by
      rw [emplaceMultipath, hid]
      exact if_neg hany
    have hfresh' : ∀ x ∈ multipaths ++ [(id, path)], x.1 ∉ ids := by
      intro x hx
      rcases mem_append.mp hx with hx | hx
      · exact fun hmem => hfresh x hx (mem_cons_of_mem _ hmem)
      · rw [mem_singleton.mp hx]
        exact hnotin
    rw [foldl_cons, hemplace, ih _ ids hids hnodup hfresh', length_append, length_singleton, length_cons]
    omega

omit [DecidableEq F] in
/-- Selected paths of an entry whose ids are distinct fill their map without a clash. -/
theorem length_multipathsOf (hdistinct : entry.SendIdsDistinct) {selected : List (RouteInfo F)}
    (hnodup : selected.Nodup) (hmem : ∀ r ∈ selected, r ∈ entry.routeInfos.paths)
    (hsome : ∀ r ∈ selected, r.pathIdToSend.isSome) : (multipathsOf selected).length = selected.length := by
  have hids : selected.map (·.pathIdToSend) = (selected.map fun r => r.pathIdToSend.getD 0).map some := by
    rw [map_map]
    refine map_congr_left fun r hr => ?_
    obtain ⟨id, hid⟩ := Option.isSome_iff_exists.mp (hsome r hr)
    simp [hid]
  have hinj : ∀ r ∈ selected, ∀ r' ∈ selected, r.pathIdToSend.getD 0 = r'.pathIdToSend.getD 0 → r = r' := by
    intro r hr r' hr' heq
    obtain ⟨id, hid⟩ := Option.isSome_iff_exists.mp (hsome r hr)
    obtain ⟨id', hid'⟩ := Option.isSome_iff_exists.mp (hsome r' hr')
    rw [hid, hid', Option.getD_some] at heq
    exact entry.routeInfos.table.eq_of_key_eq (hmem r hr) (hmem r' hr')
      (hdistinct r (hmem r hr) r' (hmem r' hr') id hid (heq ▸ hid'))
  have hlen := length_foldl_emplaceMultipath [] selected _ hids (hnodup.map_on hinj) fun x hx => absurd hx not_mem_nil
  rwa [length_nil, Nat.zero_add] at hlen

end RibEntry

/-- After `n` ids the interval starts at `n`, and every id that a path holds is one of those taken. -/
structure DrawnBelow (n : Nat) (s : EntryState F) : Prop where
  interval : s.entry.freePathIdInterval = (n % 2 ^ 32, kMaxPathIDToSend)
  below : ∀ r ∈ s.entry.routeInfos.paths, ∀ id, r.pathIdToSend = some id → id < n
  distinct : s.entry.SendIdsDistinct

namespace DrawnBelow

variable {n : Nat} {s : EntryState F}

section

variable (h : DrawnBelow n s) {key : BgpPeerId × Nat} {path : RouteInfo F}
include h

theorem updatePath (peer : TinyPeerInfo F) (attrs : Option (BgpPathPtr F)) (install : Bool) (pathId : Nat) :
    DrawnBelow n (s.exec (.updatePath peer attrs install pathId)) where
  interval := (RibEntry.updatePath_freePathIdInterval _ _ _ _ _ _).trans h.interval
  below r hr id hid := by
    rcases RibEntry.mem_updatePath hr with hr | ⟨-, hsame⟩
    · exact h.below r hr id hid
    · obtain ⟨old, hold, holdid⟩ := Option.bind_eq_some_iff.mp (hsame.symm.trans hid)
      exact h.below old (find_eq_some_iff.mp hold).1 id holdid
  distinct r hr r' hr' id hid hid' := by
    -- a new path holds the id of the path it replaces, which lies under the same key
    have hholder : ∀ q ∈ (s.exec (.updatePath peer attrs install pathId)).entry.routeInfos.paths,
        q.pathIdToSend = some id → ∃ q' ∈ s.entry.routeInfos.paths, q'.pathIdToSend = some id ∧ q'.key = q.key := by
      intro q hq hqid
      rcases RibEntry.mem_updatePath hq with hq | ⟨hkey, hsame⟩
      · exact ⟨q, hq, hqid, rfl⟩
      · obtain ⟨old, hold, holdid⟩ := Option.bind_eq_some_iff.mp (hsame.symm.trans hqid)
        obtain ⟨holdmem, holdkey⟩ := find_eq_some_iff.mp hold
        exact ⟨old, holdmem, holdid, holdkey.trans hkey.symm⟩
    obtain ⟨q, hq, hqid, hqkey⟩ := hholder r hr hid
    obtain ⟨q', hq', hqid', hqkey'⟩ := hholder r' hr' hid'
    rw [← hqkey, ← hqkey']
    exact h.distinct q hq q' hq' id hqid hqid'

theorem getPathIdToSend : DrawnBelow (n + 1) (s.exec .getPathIdToSend) := by
  have hdraw := RibEntry.getPathIdToSend_eq h.interval
  have hentry : (s.exec .getPathIdToSend).entry =
      { s.entry with freePathIdInterval := ((n + 1) % 2 ^ 32, kMaxPathIDToSend) } := congrArg Prod.snd hdraw
  refine ⟨by rw [hentry], ?_, ?_⟩
  · exact fun r hr id hid => (h.below r hr id hid).trans (Nat.lt_succ_self n)
  · exact h.distinct

/-- Assigning an id to a path without one gives it the next one. -/
theorem exec_assign
    (hfind : s.entry.routeInfos.find key = some path) (hnone : path.pathIdToSend = none) :
    (s.exec (.getOrAssignSendPathId key)).entry = { s.entry with
      freePathIdInterval := ((n + 1) % 2 ^ 32, kMaxPathIDToSend)
      routeInfos := s.entry.routeInfos.put { path with pathIdToSend := some (n % 2 ^ 32) } } := by
  simp only [EntryState.exec, hfind, RibEntry.getOrAssignSendPathId, hnone, RibEntry.getPathIdToSend_eq h.interval]

theorem assign (hn : n < 2 ^ 32)
    (hfind : s.entry.routeInfos.find key = some path) (hnone : path.pathIdToSend = none) :
    DrawnBelow (n + 1) (s.exec (.getOrAssignSendPathId key)) := by
  have hentry := h.exec_assign hfind hnone
  rw [Nat.mod_eq_of_lt hn] at hentry
  refine ⟨by rw [hentry], fun r hr id hid => ?_, fun r hr r' hr' id hid hid' => ?_⟩
  · rw [hentry] at hr
    rcases mem_put.mp hr with rfl | ⟨hr, -⟩
    · have hid : n = id := Option.some.inj hid
      omega
    · exact (h.below r hr id hid).trans (Nat.lt_succ_self n)
  · rw [hentry] at hr hr'
    rcases mem_put.mp hr with rfl | ⟨hr, -⟩ <;> rcases mem_put.mp hr' with rfl | ⟨hr', -⟩
    · rfl
    · have hid : n = id := Option.some.inj hid
      exact absurd (h.below r' hr' id hid') (by omega)
    · have hid' : n = id := Option.some.inj hid'
      exact absurd (h.below r hr id hid) (by omega)
    · exact h.distinct r hr r' hr' id hid hid'

omit [DecidableEq F] in
theorem drawn_eq {a : PathAction F} {id : Nat} (hdrawn : s.drawn a = some id) : id = n % 2 ^ 32 := by
  have hfirst : s.entry.getPathIdToSend.1 = n % 2 ^ 32 := congrArg Prod.fst (RibEntry.getPathIdToSend_eq h.interval)
  cases a with
  | updatePath peer attrs install pathId => exact nomatch hdrawn
  | getPathIdToSend => rw [← hfirst, ← Option.some.inj hdrawn]
  | getOrAssignSendPathId key =>
    simp only [EntryState.drawn] at hdrawn
    split at hdrawn
    · split at hdrawn
      · exact nomatch hdrawn
      · rw [← hfirst, ← Option.some.inj hdrawn]
    · exact nomatch hdrawn

/-- While ids are left a step keeps the invariant, with one more id taken where it takes one. -/
theorem exec (a : PathAction F) (hn : (s.drawn a).isSome → n < 2 ^ 32) :
    DrawnBelow ((if (s.drawn a).isSome then 1 else 0) + n) (s.exec a) := by
  cases a with
  | updatePath peer attrs install pathId =>
    have hkeep := h.updatePath peer attrs install pathId
    rw [← Nat.zero_add n] at hkeep
    exact hkeep
  | getPathIdToSend =>
    rw [Nat.add_comm]
    exact h.getPathIdToSend
  | getOrAssignSendPathId key =>
    cases hfind : s.entry.routeInfos.find key with
    | none =>
      simp only [EntryState.drawn, EntryState.exec, hfind]
      simpa using h
    | some path =>
      cases hid : path.pathIdToSend with
      | some id =>
        simp only [EntryState.drawn, EntryState.exec, hfind, RibEntry.getOrAssignSendPathId, hid]
        simpa using h
      | none =>
        have hdrawn : (s.drawn (.getOrAssignSendPathId key)).isSome := by simp [EntryState.drawn, hfind, hid]
        rw [if_pos hdrawn, Nat.add_comm]
        exact h.assign (hn hdrawn) hfind hid

end

end DrawnBelow

/-- A path that stays or is replaced keeps its id, whatever else happens. -/
theorem EntryState.pathIdToSend_exec {s : EntryState F} {a : PathAction F} {key : BgpPeerId × Nat}
    {r r' : RouteInfo F} {id : Nat} (hr : s.entry.routeInfos.find key = some r)
    (hr' : (s.exec a).entry.routeInfos.find key = some r') (hid : r.pathIdToSend = some id) :
    r'.pathIdToSend = some id := by
  obtain ⟨hrmem, hrkey⟩ := find_eq_some_iff.mp hr
  obtain ⟨hrmem', hrkey'⟩ := find_eq_some_iff.mp hr'
  have hsame : r' ∈ s.entry.routeInfos.paths → r'.pathIdToSend = some id := fun hmem => by
    rw [s.entry.routeInfos.table.eq_of_key_eq hmem hrmem (hrkey'.trans hrkey.symm), hid]
  cases a with
  | updatePath peer attrs install pathId =>
    rcases RibEntry.mem_updatePath hrmem' with hmem | ⟨hkey, hnew⟩
    · exact hsame hmem
    · rw [hnew, ← hkey, hrkey', hr]
      exact hid
  | getPathIdToSend => exact hsame hrmem'
  | getOrAssignSendPathId key' =>
    cases hfind : s.entry.routeInfos.find key' with
    | none =>
      simp only [EntryState.exec, hfind] at hrmem'
      exact hsame hrmem'
    | some path =>
      simp only [EntryState.exec, hfind, RibEntry.getOrAssignSendPathId] at hrmem'
      split at hrmem'
      · exact hsame hrmem'
      next hnone =>
        rcases mem_put.mp hrmem' with rfl | ⟨hmem, -⟩
        · -- the path that gets an id here had none
          have hpath : path = r := by
            obtain ⟨hpathmem, hpathkey⟩ := find_eq_some_iff.mp hfind
            exact s.entry.routeInfos.table.eq_of_key_eq hpathmem hrmem (hrkey'.trans hrkey.symm)
          rw [hpath, hid] at hnone
          exact nomatch hnone
        · exact hsame hmem

theorem DrawnBelow.sendIdsKept {s : EntryState F} (h : DrawnBelow n s) {a : PathAction F}
    (hn : (s.drawn a).isSome → n < 2 ^ 32) : SendIdsKept s a where
  distinct := (h.exec a hn).distinct
  kept _ _ _ _ hr hr' hid := EntryState.pathIdToSend_exec hr hr' hid
  free id hdrawn r hr hid := by
    have hlt := h.below r hr id hid
    rw [h.drawn_eq hdrawn, Nat.mod_eq_of_lt (hn (by rw [hdrawn]; rfl))] at hlt
    exact absurd hlt (lt_irrefl n)
  counted _ hnodup hmem hsome := RibEntry.length_multipathsOf (h.exec a hn).distinct hnodup hmem hsome

theorem DrawnBelow.runKeepsSendIds {s : EntryState F} (h : DrawnBelow n s) (actions : List (PathAction F))
    (hn : n + s.draws actions ≤ 2 ^ 32) : s.RunKeepsSendIds actions := by
  induction actions generalizing n s with
  | nil => trivial
  | cons a actions ih =>
    rw [EntryState.draws] at hn
    have hlt : (s.drawn a).isSome → n < 2 ^ 32 := by
      intro hdrawn
      rw [if_pos hdrawn] at hn
      omega
    exact ⟨h.sendIdsKept hlt, ih (h.exec a hlt) (by omega)⟩

/-- In every run that takes at most `2 ^ 32` ids out of an entry's interval, the send ids are kept. -/
theorem runKeepsSendIds_of_draws_le (pfx : CIDRNetwork) (actions : List (PathAction F))
    (hdraws : (entrySystem (F := F) pfx).init.draws actions ≤ 2 ^ 32) :
    (entrySystem (F := F) pfx).init.RunKeepsSendIds actions := by
  have hinit : DrawnBelow 0 (entrySystem (F := F) pfx).init :=
    ⟨by simp [entrySystem, kMinPathIDToSend], fun _ hr => absurd hr not_mem_nil, fun _ hr => absurd hr not_mem_nil⟩
  exact hinit.runKeepsSendIds actions (by rwa [Nat.zero_add])

def ebgpPeer (n : UInt8) : TinyPeerInfo Nat :=
  { addr := .v4 [10, 0, 0, n] rfl, asn := 65000 + n.toNat, routerId := n.toNat, sessionType := .ebgp }

def attrsVia (object : Nat) (n : UInt8) : SharedPtr (BgpPath Nat) := ⟨object, { nexthop := .v4 [10, 0, 0, n] rfl }⟩

def samplePrefix : CIDRNetwork := ⟨.ofOctets 192 0 2 0, 24⟩

/-- Two paths get ids, one of them is replaced, the other is withdrawn. -/
def shortRun : List (PathAction Nat) :=
  [.updatePath (ebgpPeer 1) (some (attrsVia 0 1)) true 0, .getOrAssignSendPathId ((ebgpPeer 1).peerId, 0),
    .updatePath (ebgpPeer 2) (some (attrsVia 1 2)) true 0, .getOrAssignSendPathId ((ebgpPeer 2).peerId, 0),
    .updatePath (ebgpPeer 1) (some (attrsVia 2 1)) true 0, .updatePath (ebgpPeer 2) none true 0]

theorem runKeepsSendIds_shortRun : (entrySystem (F := Nat) samplePrefix).init.draws shortRun ≤ 2 ^ 32 ∧
      (entrySystem (F := Nat) samplePrefix).init.RunKeepsSendIds shortRun :=
  have hdraws : (entrySystem (F := Nat) samplePrefix).init.draws shortRun ≤ 2 ^ 32 := by decide +kernel
  ⟨hdraws, runKeepsSendIds_of_draws_le samplePrefix shortRun hdraws⟩

theorem EntryState.RunKeepsSendIds.last {s : EntryState F} {actions : List (PathAction F)} {a : PathAction F}
    (h : s.RunKeepsSendIds (actions ++ [a])) : ((actions ++ [a]).foldl EntryState.exec s).entry.SendIdsDistinct := by
  induction actions generalizing s with
  | nil => exact h.1.distinct
  | cons b actions ih => exact ih h.2

theorem exec_entrySystem (pfx : CIDRNetwork) : (entrySystem (F := F) pfx).exec = EntryState.exec := rfl

/-- A second path comes, gets an id and goes. -/
def churn : List (PathAction Nat) :=
  [.updatePath (ebgpPeer 2) (some (attrsVia 1 2)) true 0, .getOrAssignSendPathId ((ebgpPeer 2).peerId, 0),
    .updatePath (ebgpPeer 2) none true 0]

/-- A first path gets an id and stays while a second one comes and goes `n` times, and comes once more. -/
def churnRun (n : Nat) : List (PathAction Nat) :=
  [.updatePath (ebgpPeer 1) (some (attrsVia 0 1)) true 0, .getOrAssignSendPathId ((ebgpPeer 1).peerId, 0)] ++
    (List.replicate n churn).flatten ++ [.updatePath (ebgpPeer 2) (some (attrsVia 1 2)) true 0] ++
    [.getOrAssignSendPathId ((ebgpPeer 2).peerId, 0)]

def firstPath : RouteInfo Nat :=
  { object := 0, pfx := samplePrefix, peer := ebgpPeer 1, attrs := attrsVia 0 1, receivedPathId := 0,
    pathIdToSend := some 0 }

def secondPath (object : Nat) (id : Option Nat) : RouteInfo Nat :=
  { object, pfx := samplePrefix, peer := ebgpPeer 2, attrs := attrsVia 1 2, receivedPathId := 0, pathIdToSend := id }

/-- The entry with the first path alone and the interval from `k` on. -/
def alone : EntryState Nat :=
  ⟨{ pfx := samplePrefix, routeInfos := RouteInfos.empty.put firstPath, freePathIdInterval := (k, kMaxPathIDToSend) },
    object⟩

/-- The entry with both paths. -/
def together : EntryState Nat :=
  ⟨{ pfx := samplePrefix, routeInfos := (RouteInfos.empty.put firstPath).put (secondPath object id),
     freePathIdInterval := (k, kMaxPathIDToSend) }, object + 1⟩

theorem exec_announce_second :
    (alone k object).exec (.updatePath (ebgpPeer 2) (some (attrsVia 1 2)) true 0) = together k object none := rfl

theorem exec_withdraw_second :
    (together k object id).exec (.updatePath (ebgpPeer 2) none true 0) = alone k (object + 2) := rfl

theorem exec_assign_second {k : Nat} (hk : k < 2 ^ 32) (object : Nat) :
    (together k object none).exec (.getOrAssignSendPathId ((ebgpPeer 2).peerId, 0)) =
      together ((k + 1) % 2 ^ 32) object (some k) := by
  have hinterval : (together k object none).entry.freePathIdInterval = (k % 2 ^ 32, kMaxPathIDToSend) := by
    rw [Nat.mod_eq_of_lt hk]
    rfl
  have hdraw := RibEntry.getPathIdToSend_eq hinterval
  rw [Nat.mod_eq_of_lt hk] at hdraw
  simp only [EntryState.exec, RibEntry.getOrAssignSendPathId, hdraw]
  rfl

theorem run_churn {k : Nat} (hk : k < 2 ^ 32) (object : Nat) :
    Admits (entrySystem samplePrefix) (alone k object) churn ∧
      run (entrySystem samplePrefix) (alone k object) churn = alone ((k + 1) % 2 ^ 32) (object + 2) := by
  have hone : (alone k object).entry.routeInfos.paths.length < 2 ^ 32 := Nat.one_lt_two_pow (by decide)
  have htwo : ∀ k id, (together k object id).entry.routeInfos.paths.length < 2 ^ 32 := fun _ _ => by
    show 2 < 2 ^ 32
    decide
  simp only [churn, Admits, run, foldl_cons, foldl_nil, exec_entrySystem, exec_announce_second,
    exec_assign_second hk, exec_withdraw_second, and_true]
  refine ⟨⟨hone, by simp⟩, ⟨htwo _ _, fun key hkey => ?_⟩, htwo _ _, by simp⟩
  cases hkey
  rfl

theorem run_churns {k : Nat} (hk : k < 2 ^ 32) (object n : Nat) :
    Admits (entrySystem samplePrefix) (alone k object) (List.replicate n churn).flatten ∧
      run (entrySystem samplePrefix) (alone k object) (List.replicate n churn).flatten =
        alone ((k + n) % 2 ^ 32) (object + 2 * n) := by
  induction n generalizing k object with
  | zero => exact ⟨trivial, by rw [Nat.add_zero, Nat.mod_eq_of_lt hk]; rfl⟩
  | succ n ih =>
    obtain ⟨hadm, hrun⟩ := run_churn hk object
    obtain ⟨hadm', hrun'⟩ := ih (Nat.mod_lt (k + 1) (by decide)) (object + 2)
    rw [replicate_succ, flatten_cons, admits_append, run_append, hrun]
    refine ⟨⟨hadm, hadm'⟩, hrun'.trans ?_⟩
    rw [Nat.mod_add_mod, show k + 1 + n = k + (n + 1) by omega, show object + 2 + 2 * n = object + 2 * (n + 1) by omega]

theorem run_first : let actions := [.updatePath (ebgpPeer 1) (some (attrsVia 0 1)) true 0,
      .getOrAssignSendPathId ((ebgpPeer 1).peerId, 0)]
    Admits (entrySystem samplePrefix) (entrySystem samplePrefix).init actions ∧
      run (entrySystem samplePrefix) (entrySystem samplePrefix).init actions = alone 1 1 := by
  have hannounce : (entrySystem (F := Nat) samplePrefix).init.exec
      (.updatePath (ebgpPeer 1) (some (attrsVia 0 1)) true 0) =
        ⟨{ pfx := samplePrefix, routeInfos := RouteInfos.empty.put { firstPath with pathIdToSend := none } }, 1⟩ := rfl
  have hassign : EntryState.exec (F := Nat)
      ⟨{ pfx := samplePrefix, routeInfos := RouteInfos.empty.put { firstPath with pathIdToSend := none } }, 1⟩
        (.getOrAssignSendPathId ((ebgpPeer 1).peerId, 0)) = alone 1 1 := by
    rfl
  simp only [Admits, run, foldl_cons, foldl_nil, exec_entrySystem, hannounce, hassign, and_true]
  refine ⟨⟨Nat.two_pow_pos 32, by simp⟩, Nat.one_lt_two_pow (by decide), fun key hkey => ?_⟩
  cases hkey
  rfl

/-- After `2 ^ 32` ids the interval starts at 0 again, and the second path gets the id that the first one holds. -/
theorem run_churnRun (hn : (1 + n) % 2 ^ 32 = 0) :
    Admits (entrySystem samplePrefix) (entrySystem samplePrefix).init (churnRun n) ∧
      ∃ object, run (entrySystem samplePrefix) (entrySystem samplePrefix).init (churnRun n) =
        together 1 object (some 0) := by
  obtain ⟨hadmitsFirst, hfirst⟩ := run_first
  obtain ⟨hadmitsChurn, hchurn⟩ := run_churns (show 1 < 2 ^ 32 by decide) 1 n
  rw [hn] at hchurn
  have hadmitsAnnounce : Admits (entrySystem samplePrefix) (alone 0 (1 + 2 * n))
      [.updatePath (ebgpPeer 2) (some (attrsVia 1 2)) true 0] := ⟨⟨Nat.one_lt_two_pow (by decide), nofun⟩, trivial⟩
  have hannounce : run (entrySystem samplePrefix) (alone 0 (1 + 2 * n))
      [.updatePath (ebgpPeer 2) (some (attrsVia 1 2)) true 0] = together 0 (1 + 2 * n) none := rfl
  have hadmitsAssign : Admits (entrySystem samplePrefix) (together 0 (1 + 2 * n) none)
      [.getOrAssignSendPathId ((ebgpPeer 2).peerId, 0)] := by
    refine ⟨⟨show 2 < 2 ^ 32 by decide, fun key hkey => ?_⟩, trivial⟩
    cases hkey
    rfl
  have hassign : run (entrySystem samplePrefix) (together 0 (1 + 2 * n) none)
      [.getOrAssignSendPathId ((ebgpPeer 2).peerId, 0)] = together 1 (1 + 2 * n) (some 0) :=
    exec_assign_second (by decide) _
  simp only [churnRun, admits_append, run_append, hfirst, hchurn]
  exact ⟨⟨⟨⟨hadmitsFirst, hadmitsChurn⟩, hadmitsAnnounce⟩, hadmitsAssign⟩, _, rfl⟩

/-- In a run that takes one id more two paths hold one id, with two paths live at any time. -/
theorem exists_shared_sendId :
    ∃ actions : List (PathAction Nat), Admits (entrySystem samplePrefix) (entrySystem samplePrefix).init actions ∧
      ¬(entrySystem (F := Nat) samplePrefix).init.RunKeepsSendIds actions := by
  obtain ⟨n, hn⟩ : ∃ n, (1 + n) % 2 ^ 32 = 0 := ⟨2 ^ 32 - 1, by decide⟩
  obtain ⟨hadm, object, hrun⟩ := run_churnRun hn
  refine ⟨churnRun n, hadm, fun hkeeps => ?_⟩
  have hdistinct : (together 1 object (some 0)).entry.SendIdsDistinct := hrun ▸ hkeeps.last
  have hkeys := hdistinct firstPath (.tail _ (.head _)) (secondPath object (some 0)) (.head _) 0 rfl rfl
  have hpeers : (ebgpPeer 1).peerId = (ebgpPeer 2).peerId := congrArg Prod.fst hkeys
  exact absurd hpeers (by decide)

end FbossBgp.Rib
