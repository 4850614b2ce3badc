import FbossBgp.AdjRib.AdjRibIn

/-! What the operations of an AdjRib's ingress side change. Each leaves the trees well laid out, tells the RIB
exactly how the routes it holds change, and tells it nothing about routes that it neither holds nor hears of. -/

namespace FbossBgp.AdjRib

open Replay List Keyed Option Function

variable {A : Type}

namespace RibInUpdates

def keys (updates : RibInUpdates A) : List PrefixPathId := updates.events.map Prod.fst

variable {updates : RibInUpdates A} {key k : PrefixPathId}

theorem mem_keys : key ∈ updates.keys ↔
    key ∈ updates.withdrawnPfxPathIds ∨ key ∈ updates.announcedPrefixes.map Prod.fst := by
  simp [keys, events]

theorem events_announce (updates : RibInUpdates A) (key : PrefixPathId) (attrs : A) :
    (updates.announce key attrs).events = updates.events ++ [(key, some attrs)] := by
  simp [announce, events]

/-- Withdrawals are pushed first, so the order is right only for a key that is not announced as well. -/
theorem foldl_events_withdraw (hkey : key ∉ updates.keys)
    (table : PrefixPathId → Option A) : (updates.withdraw key).events.foldl apply table =
      apply (updates.events.foldl apply table) (key, none) := by
  obtain ⟨withdrawn, announced⟩ := updates
  have hann : key ∉ (announced.map fun a => (a.1, some a.2)).map Prod.fst := by
    rw [List.map_map]
    exact fun h => hkey (mem_keys.mpr (.inr h))
  simp only [withdraw, events, map_append, map_cons, map_nil, foldl_append, foldl_cons, foldl_nil]
  funext k
  by_cases hk : k = key
  · rw [hk, foldl_apply_of_not_mem hann, apply, apply, if_pos rfl, if_pos rfl]
  · rw [apply, if_neg hk]
    by_cases hmem : k ∈ (announced.map fun a => (a.1, some a.2)).map Prod.fst
    · exact foldl_apply_of_mem hmem _ _
    · rw [foldl_apply_of_not_mem hmem, foldl_apply_of_not_mem hmem, apply, if_neg hk]

theorem mem_keys_withdraw : k ∈ (updates.withdraw key).keys ↔ k ∈ updates.keys ∨ k = key := by
  simp only [mem_keys, withdraw, mem_append, mem_singleton]
  tauto

theorem mem_keys_announce {attrs : A} : k ∈ (updates.announce key attrs).keys ↔ k ∈ updates.keys ∨ k = key := by
  simp only [mem_keys, announce, map_append, map_cons, map_nil, mem_append, mem_singleton]
  tauto

end RibInUpdates

/-- An event that says of a key what is known of it changes nothing. -/
theorem apply_self {table : PrefixPathId → Option A} {key : PrefixPathId} {value : Option A} (h : table key = value) :
    apply table (key, value) = table := by
  funext k
  rw [apply]
  split
  next hk => rw [hk, h]
  · rfl

section

variable [DecidableEq A]

/-- Policy is applied to a route that the changes so far do not name: they then say of it what the entry does. -/
structure Evaluated (entry : AdjRibInEntry A) (updates : RibInUpdates A)
    (result : AdjRibInEntry A × RibInUpdates A) : Prop where
  key : result.1.key = entry.key
  preIn : result.1.preIn = entry.preIn
  events : entry.key ∉ updates.keys → ∀ table, updates.events.foldl apply table entry.key = entry.postAttr →
    result.2.events.foldl apply table = apply (updates.events.foldl apply table) (entry.key, result.1.postAttr)
  keys : ∀ k ∈ result.2.keys, k ∈ updates.keys ∨ k = entry.key

theorem maybeAnnouncePrefix_evaluated (checks : RouteChecks) (postInAttrs : Option A) (entry : AdjRibInEntry A)
    (updates : RibInUpdates A) : Evaluated entry updates (maybeAnnouncePrefix checks postInAttrs entry updates) := by
  have hunchanged : Evaluated entry updates (entry, updates) :=
    ⟨rfl, rfl, fun _ table htable => (apply_self htable).symm, fun k hk => .inl hk⟩
  unfold maybeAnnouncePrefix
  split
  · split
    · exact hunchanged
    · exact ⟨rfl, rfl, fun hkey table _ => RibInUpdates.foldl_events_withdraw hkey table,
        fun k hk => RibInUpdates.mem_keys_withdraw.mp hk⟩
  next attrs =>
    split_ifs
    · exact hunchanged
    · exact hunchanged
    · refine ⟨rfl, rfl, fun _ table _ => ?_, fun k hk => RibInUpdates.mem_keys_announce.mp hk⟩
      rw [RibInUpdates.events_announce, foldl_append]
      rfl

theorem processPrefixWithPolicy_evaluated (policy : IngressPolicy A) (checks : RouteChecks) (entry : AdjRibInEntry A)
    (updates : RibInUpdates A) : Evaluated entry updates (processPrefixWithPolicy policy checks entry updates) :=
  maybeAnnouncePrefix_evaluated ..

end

namespace AdjRibIn

variable (s : AdjRibIn A)

def entryOf (key : PrefixPathId) : Option (AdjRibInEntry A) :=
  (s.getRibEntry key).or (s.adjRibInStale.find key)

/-- The attributes under which the RIB should know a key. -/
def held (key : PrefixPathId) : Option A := (s.entryOf key).bind AdjRibInEntry.postAttr

/-- A route is active or stale, in the tree of the session's add-path capability. -/
structure Layout (gr : Bool) (s : AdjRibIn A) : Prop where
  disjoint : ∀ key, s.getRibEntry key ≠ none → s.adjRibInStale.find key = none
  other : s.adjRibInTree (!s.recAddPath) = .empty
  inPlace : gr = true → s.adjRibInStale = .empty

/-- All but the routes and what is pushed stays. -/
structure Kept (s s' : AdjRibIn A) : Prop where
  shape : ∃ trees stale count pushed, s' =
    { s with adjRibInTree := trees, adjRibInStale := stale, staleEntryCount := count, pushed := pushed }
  other : s'.adjRibInTree (!s.recAddPath) = s.adjRibInTree (!s.recAddPath)
  stale : s.adjRibInStale = .empty → s'.adjRibInStale = .empty

theorem Kept.refl : Kept s s := ⟨⟨_, _, _, _, rfl⟩, rfl, id⟩

theorem Kept.trans {s s' s'' : AdjRibIn A} (h : Kept s s') (h' : Kept s' s'') : Kept s s'' := by
  obtain ⟨⟨_, _, _, _, rfl⟩, hother, hstale⟩ := h
  obtain ⟨⟨_, _, _, _, rfl⟩, hother', hstale'⟩ := h'
  exact ⟨⟨_, _, _, _, rfl⟩, hother'.trans hother, hstale' ∘ hstale⟩

theorem Kept.setTree (tree : AdjRibInTree A) : Kept s (s.setTree tree) :=
  ⟨⟨_, _, _, _, rfl⟩, update_of_ne (Bool.not_ne_self _) _ _, id⟩

/-- Only the route of one key changes, and nothing is pushed. -/
structure Turn (gr : Bool) (key : PrefixPathId) (s s' : AdjRibIn A) : Prop where
  kept : Kept s s'
  pushed : s'.pushed = s.pushed
  layout : Layout gr s'
  active_of_ne : ∀ k, k ≠ key → s'.getRibEntry k = s.getRibEntry k
  stale_of_ne : ∀ k, k ≠ key → s'.adjRibInStale.find k = s.adjRibInStale.find k

variable {gr : Bool} {s : AdjRibIn A} {key : PrefixPathId}

theorem Turn.refl (h : Layout gr s) (key : PrefixPathId) :
    Turn gr key s s := ⟨.refl s, rfl, h, fun _ _ => rfl, fun _ _ => rfl⟩

theorem Turn.trans {s' s'' : AdjRibIn A} (h : Turn gr key s s') (h' : Turn gr key s' s'') : Turn gr key s s'' where
  kept := h.kept.trans h'.kept
  pushed := h'.pushed.trans h.pushed
  layout := h'.layout
  active_of_ne k hk := (h'.active_of_ne k hk).trans (h.active_of_ne k hk)
  stale_of_ne k hk := (h'.stale_of_ne k hk).trans (h.stale_of_ne k hk)

theorem Turn.entryOf_of_ne {k : PrefixPathId} {s' : AdjRibIn A}
    (h : Turn gr key s s') (hk : k ≠ key) : s'.entryOf k = s.entryOf k := by
  rw [entryOf, entryOf, h.active_of_ne k hk, h.stale_of_ne k hk]

theorem Turn.held_of_ne {k : PrefixPathId} {s' : AdjRibIn A}
    (h : Turn gr key s s') (hk : k ≠ key) : s'.held k = s.held k := by
  rw [held, held, h.entryOf_of_ne hk]

theorem entryOf_of_stale_none (h : s.adjRibInStale.find key = none) : s.entryOf key = s.getRibEntry key := by
  rw [entryOf, h, or_none]

theorem turn_setTree (h : Layout gr s) (hstale : s.adjRibInStale.find key = none) (tree : AdjRibInTree A)
    (htree : ∀ k, k ≠ key → tree.find k = s.getRibEntry k) : Turn gr key s (s.setTree tree) := by
  have hact : ∀ k, k ≠ key → (s.setTree tree).getRibEntry k = s.getRibEntry k := by
    intro k hk
    rw [getRibEntry, tree_setTree, htree k hk]
  refine ⟨.setTree s tree, rfl, ⟨fun k hk => ?_, ?_, h.inPlace⟩, hact, fun _ _ => rfl⟩
  · by_cases hkey : k = key
    · exact hkey ▸ hstale
    · exact h.disjoint k (hact k hkey ▸ hk)
  · exact (Kept.setTree s tree).other.trans h.other

/-- After a promotion the route of the key is active if it is there at all. -/
structure Promoted (gr : Bool) (key : PrefixPathId) (s s' : AdjRibIn A) : Prop where
  turn : Turn gr key s s'
  stale : s'.adjRibInStale.find key = none
  held : s'.held key = s.held key
  missing : s.entryOf key = none → s'.getRibEntry key = none
  preIn : ∀ entry, s.getRibEntry key = some entry → ∃ entry', s'.getRibEntry key = some entry' ∧ entry'.preIn = entry.preIn

theorem promoted_refl (h : Layout gr s) (hstale : s.adjRibInStale.find key = none) : Promoted gr key s s where
  turn := .refl h key
  stale := hstale
  held := rfl
  missing hmiss := entryOf_of_stale_none hstale ▸ hmiss
  preIn entry hentry := ⟨entry, hentry, rfl⟩

theorem promoteStaleRibInEntryIfExists_promoted (h : Layout gr s) (key : PrefixPathId) :
    Promoted gr key s (s.promoteStaleRibInEntryIfExists key) := by
  unfold promoteStaleRibInEntryIfExists
  split
  next hnone => exact promoted_refl h hnone
  next entry hentry =>
    have hkey : entry.key = key := (find_eq_some_iff.mp hentry).2
    have hact : s.getRibEntry key = none := by
      by_contra hsome
      rw [h.disjoint key hsome] at hentry
      cases hentry
    simp only [hact, isSome_none, Bool.and_false]
    have hput : ∀ k, k ≠ key → (s.tree.put entry).find k = s.getRibEntry k := fun k hk => find_put_of_ne (hkey ▸ hk)
    have hfind : (s.tree.put entry).find key = some entry := hkey ▸ find_put_self _ _
    refine ⟨⟨⟨⟨_, _, _, _, rfl⟩, (Kept.setTree s _).other, fun hempty => ?_⟩, rfl,
      ⟨fun k hk => ?_, (Kept.setTree s _).other.trans h.other, fun hgr => ?_⟩, fun k hk => ?_,
      fun k hk => find_erase_of_ne hk⟩, find_erase_self _ _, ?_, fun hmiss => ?_,
      fun e he => ?_⟩
    · rw [hempty] at hentry
      cases hentry
    · by_cases hk' : k = key
      · exact hk' ▸ find_erase_self _ _
      · refine (find_erase_of_ne hk').trans (h.disjoint k ?_)
        have hne : (s.setTree (s.tree.put entry)).tree.find k ≠ none := hk
        rwa [tree_setTree, hput k hk'] at hne
    · rw [h.inPlace hgr] at hentry
      cases hentry
    · show (s.setTree (s.tree.put entry)).tree.find k = _
      rw [tree_setTree, hput k hk]
    · have hnew : ((s.setTree (s.tree.put entry)).tree.find key).or ((s.adjRibInStale.erase key).find key) =
          s.entryOf key := by
        rw [tree_setTree, hfind, entryOf, hact, hentry]
        rfl
      exact congrArg (·.bind AdjRibInEntry.postAttr) hnew
    · rw [entryOf, hact, hentry] at hmiss
      cases hmiss
    · rw [hact] at he
      cases he

theorem promoteStaleRibInEntryIfExistsInPlace_promoted (h : Layout true s) (key : PrefixPathId) :
    Promoted true key s (s.promoteStaleRibInEntryIfExistsInPlace key) := by
  have hstale : s.adjRibInStale.find key = none := by rw [h.inPlace rfl, find_empty]
  unfold promoteStaleRibInEntryIfExistsInPlace
  split
  · exact promoted_refl h hstale
  next entry hentry =>
    split
    · have hkey : entry.key = key := (find_eq_some_iff.mp hentry).2
      have hfind : (s.setTree (s.tree.put { entry with isStale := false })).getRibEntry key =
          some { entry with isStale := false } := by
        rw [getRibEntry, tree_setTree, ← hkey]
        exact find_put_self _ _
      obtain ⟨hkept, hpushed, hlay, hact, hstaleOf⟩ := turn_setTree h hstale
        (s.tree.put { entry with isStale := false }) fun k hk => find_put_of_ne (hkey ▸ hk)
      refine ⟨⟨⟨⟨_, _, _, _, rfl⟩, hkept.other, id⟩, hpushed,
        ⟨hlay.disjoint, hlay.other, hlay.inPlace⟩, hact, hstaleOf⟩, hstale, ?_, fun hmiss => ?_,
        fun e he => ⟨_, hfind, ?_⟩⟩
      · have hold : s.held key = entry.postAttr := by rw [held, entryOf_of_stale_none hstale, hentry, bind_some]
        rw [hold]
        exact congrArg (fun e => (e.or (s.adjRibInStale.find key)).bind AdjRibInEntry.postAttr) hfind
      · rw [entryOf_of_stale_none hstale, hentry] at hmiss
        cases hmiss
      · rw [hentry, Option.some.injEq] at he
        rw [← he]
    · exact promoted_refl h hstale

theorem promote_promoted (h : Layout gr s) (key : PrefixPathId) : Promoted gr key s (promote gr s key) := by
  cases gr with
  | false => exact promoteStaleRibInEntryIfExists_promoted h key
  | true => exact promoteStaleRibInEntryIfExistsInPlace_promoted h key

theorem Promoted.held_eq {s' : AdjRibIn A} (h : Promoted gr key s s') : s'.held = s.held := by
  funext k
  by_cases hk : k = key
  · rw [hk, h.held]
  · exact h.turn.held_of_ne hk

theorem Kept.keyOf {s' : AdjRibIn A} (h : Kept s s') : s'.keyOf = s.keyOf := by
  obtain ⟨_, _, _, _, rfl⟩ := h.shape
  rfl

/-- The events say how the held routes change, and those of `log` are pushed. A route that is neither announced
nor held is not spoken of; only an announced one becomes active. -/
structure Changes (gr : Bool) (announced : List PrefixPathId) (s s' : AdjRibIn A)
    (events log : List (PrefixPathId × Option A)) : Prop where
  kept : Kept s s'
  pushed : s'.pushed = s.pushed ++ log
  layout : Layout gr s'
  held : s'.held = events.foldl apply s.held
  keys : ∀ k ∈ events.map Prod.fst, k ∉ announced → s.entryOf k ≠ none
  active : ∀ k, k ∉ announced → s.getRibEntry k = none → s'.getRibEntry k = none
  missing : ∀ k, k ∉ announced → s.entryOf k = none → s'.entryOf k = none

section

variable {gr : Bool} {announced : List PrefixPathId} {s₀ s s' : AdjRibIn A}
  {events events' : List (PrefixPathId × Option A)}

theorem Changes.refl (h : Layout gr s) (announced : List PrefixPathId) : Changes gr announced s s [] [] :=
  ⟨.refl s, (append_nil _).symm, h, rfl, fun _ hk => absurd hk not_mem_nil, fun _ _ => id, fun _ _ => id⟩

theorem Changes.turn (h : Changes gr announced s₀ s events []) (ht : Turn gr key s s')
    (hevents : events'.foldl apply s₀.held = apply (events.foldl apply s₀.held) (key, s'.held key))
    (hkeys : ∀ k ∈ events'.map Prod.fst, k ∈ events.map Prod.fst ∨ k = key ∧ (key ∉ announced → s₀.entryOf key ≠ none))
    (hact : key ∉ announced → s₀.getRibEntry key = none → s'.getRibEntry key = none)
    (hmiss : key ∉ announced → s₀.entryOf key = none → s'.entryOf key = none) :
    Changes gr announced s₀ s' events' [] := by
  refine ⟨h.kept.trans ht.kept, ht.pushed.trans h.pushed, ht.layout, ?_, fun k hk hann => ?_, fun k hann hk => ?_,
    fun k hann hk => ?_⟩
  · rw [hevents, ← h.held]
    funext k
    rw [apply]
    split
    next hk => rw [hk]
    next hk => exact ht.held_of_ne hk
  · rcases hkeys k hk with hold | ⟨rfl, hheld⟩
    · exact h.keys k hold hann
    · exact hheld hann
  · by_cases heq : k = key
    · exact heq ▸ hact (heq ▸ hann) (heq ▸ hk)
    · exact (ht.active_of_ne k heq).trans (h.active k hann hk)
  · by_cases heq : k = key
    · exact heq ▸ hmiss (heq ▸ hann) (heq ▸ hk)
    · exact (ht.entryOf_of_ne heq).trans (h.missing k hann hk)

/-- Half-way through the announced prefixes of an UPDATE: a prefix that comes again is skipped, as its
attributes are the same. -/
structure Announcing (gr : Bool) (attrs : A) (announced : List PrefixPathId) (s₀ : AdjRibIn A)
    (state : AdjRibIn A × RibInUpdates A) : Prop where
  changes : Changes gr announced s₀ state.1 state.2.events []
  updated : ∀ key ∈ state.2.keys, ∃ entry, state.1.getRibEntry key = some entry ∧ entry.preIn = attrs

variable {attrs : A} {state : AdjRibIn A × RibInUpdates A}

theorem Announcing.promote
    (h : Announcing gr attrs announced s₀ state) (hkey : key ∈ announced) :
    Announcing gr attrs announced s₀ (AdjRibIn.promote gr state.1 key, state.2) := by
  have hp := promote_promoted h.changes.layout key
  refine ⟨h.changes.turn hp.turn (apply_self ?_).symm (fun k hk => .inl hk) (fun hann => absurd hkey hann)
    (fun hann => absurd hkey hann), fun k hk => ?_⟩
  · rw [← h.changes.held, hp.held_eq]
  · obtain ⟨entry, hentry, hpreIn⟩ := h.updated k hk
    by_cases heq : k = key
    · obtain ⟨entry', hentry', hpreIn'⟩ := hp.preIn entry (heq ▸ hentry)
      exact ⟨entry', heq ▸ hentry', hpreIn'.trans hpreIn⟩
    · exact ⟨entry, (hp.turn.active_of_ne k heq).trans hentry, hpreIn⟩

theorem withdrawPrefix_changes {state : AdjRibIn A × List PrefixPathId}
    (h : Changes gr [] s₀ state.1 (state.2.map (·, none)) []) (rigPrefix : RiggedIPPrefix) :
    Changes gr [] s₀ (withdrawPrefix gr state rigPrefix).1
      ((withdrawPrefix gr state rigPrefix).2.map (·, none)) [] := by
  have hp := promote_promoted h.layout (state.1.keyOf rigPrefix)
  unfold withdrawPrefix
  simp only
  generalize state.1.keyOf rigPrefix = key at hp
  generalize AdjRibIn.promote gr state.1 key = promoted at hp
  have hheld : (state.2.map (·, none)).foldl apply s₀.held key = promoted.held key := by rw [hp.held_eq, h.held]
  have hentryOf := entryOf_of_stale_none hp.stale
  unfold processWithdrawnPrefixRibInEntry
  split
  next hnone =>
    refine h.turn hp.turn (apply_self hheld).symm (fun k hk => .inl hk) (fun _ _ => hnone) fun _ _ => ?_
    exact hentryOf.trans hnone
  next entry hentry =>
    have hturn : Turn gr key state.1 (promoted.setTree (promoted.tree.erase key)) :=
      hp.turn.trans (turn_setTree hp.turn.layout hp.stale _ fun k hk => find_erase_of_ne hk)
    have hgone : (promoted.setTree (promoted.tree.erase key)).getRibEntry key = none := by
      rw [getRibEntry, tree_setTree, find_erase_self]
    have hmiss : (promoted.setTree (promoted.tree.erase key)).entryOf key = none :=
      (entryOf_of_stale_none (s := promoted.setTree _) hp.stale).trans hgone
    have hheld' : (promoted.setTree (promoted.tree.erase key)).held key = none := by
      rw [AdjRibIn.held, hmiss, bind_none]
    -- The route was there before the UPDATE, as nothing is announced by it.
    have hthere : s₀.entryOf key ≠ none := by
      intro hnone
      have hnone' := hp.missing (h.missing key not_mem_nil hnone)
      rw [hentry] at hnone'
      cases hnone'
    refine h.turn hturn ?_ (fun k hk => ?_) (fun _ _ => hgone) fun _ _ => hmiss
    · rw [hheld']
      split
      · rw [map_append, foldl_append]
        rfl
      next hpost =>
        refine (apply_self ?_).symm
        rw [hheld, AdjRibIn.held, hentryOf, hentry]
        exact not_isSome_iff_eq_none.mp hpost
    · have hk' : k ∈ (if entry.postAttr.isSome then state.2 ++ [key] else state.2) := by
        simpa [List.map_map] using hk
      split at hk'
      · rcases mem_append.mp hk' with hold | hnew
        · exact .inl (by simpa [List.map_map] using hold)
        · exact .inr ⟨List.mem_singleton.mp hnew, fun _ => hthere⟩
      · exact .inl (by simpa [List.map_map] using hk')

variable [DecidableEq A]

theorem Announcing.learn {updates : RibInUpdates A}
    (h : Announcing gr attrs announced s₀ (s, updates)) (checks : RouteChecks) {entry : AdjRibInEntry A}
    (hkey : entry.key ∈ announced) (hstale : s.adjRibInStale.find entry.key = none) (hpreIn : entry.preIn = attrs)
    (hheld : s.held entry.key = entry.postAttr) (hnew : entry.key ∉ updates.keys) :
    Announcing gr attrs announced s₀ (s.learn checks entry updates) := by
  have hev := processPrefixWithPolicy_evaluated s.policy checks entry updates
  unfold AdjRibIn.learn
  generalize processPrefixWithPolicy s.policy checks entry updates = processed at hev
  obtain ⟨entry', updates'⟩ := processed
  have hkey' : entry'.key = entry.key := hev.key
  have hturn : Turn gr entry.key s (s.setTree (s.tree.put entry')) :=
    turn_setTree h.changes.layout hstale _ fun k hk => find_put_of_ne (hkey' ▸ hk)
  have hfind : (s.setTree (s.tree.put entry')).getRibEntry entry.key = some entry' := by
    rw [getRibEntry, tree_setTree, ← hkey', find_put_self]
  have hpost : (s.setTree (s.tree.put entry')).held entry.key = entry'.postAttr := by
    rw [AdjRibIn.held, entryOf_of_stale_none (s := s.setTree _) hstale, hfind]
    rfl
  refine ⟨h.changes.turn hturn ?_ (fun k hk => ?_) (fun hann => absurd hkey hann) (fun hann => absurd hkey hann),
    fun k hk => ?_⟩
  · rw [hpost]
    exact hev.events hnew s₀.held (h.changes.held ▸ hheld)
  · exact (hev.keys k hk).imp_right fun heq => ⟨heq, fun hann => absurd hkey hann⟩
  · by_cases heq : k = entry.key
    · exact ⟨entry', heq ▸ hfind, hev.preIn.trans hpreIn⟩
    · obtain ⟨found, hfound, hsame⟩ := h.updated k ((hev.keys k hk).resolve_right heq)
      exact ⟨found, (hturn.active_of_ne k heq).trans hfound, hsame⟩

theorem announcePrefix_announcing
    (h : Announcing gr attrs announced s₀ state) (checks : RouteChecks) {rigPrefix : RiggedIPPrefix}
    (hkey : s₀.keyOf rigPrefix ∈ announced) :
    Announcing gr attrs announced s₀ (announcePrefix gr checks attrs state rigPrefix) := by
  rw [← h.changes.kept.keyOf] at hkey
  have hprom := h.promote hkey
  have hp := promote_promoted h.changes.layout (state.1.keyOf rigPrefix)
  unfold announcePrefix
  simp only
  generalize AdjRibIn.promote gr state.1 (state.1.keyOf rigPrefix) = s at hprom hp
  generalize state.1.keyOf rigPrefix = key at hkey hp
  -- The key of a route whose attributes differ has not come up in this UPDATE.
  have hnew : (∀ entry, s.getRibEntry key = some entry → entry.preIn ≠ attrs) → key ∉ state.2.keys := by
    intro hdiffers hmem
    obtain ⟨entry, hentry, hpreIn⟩ := hprom.updated key hmem
    exact hdiffers entry hentry hpreIn
  cases hentry : s.getRibEntry key with
  | none =>
    dsimp only
    split
    · refine hprom.learn checks hkey hp.stale rfl ?_ (hnew fun entry hsome => ?_)
      · show s.held key = none
        rw [AdjRibIn.held, entryOf_of_stale_none hp.stale, hentry]
        rfl
      · rw [hentry] at hsome
        cases hsome
    · exact hprom
  | some entry =>
    have hentryKey : entry.key = key := (find_eq_some_iff.mp hentry).2
    dsimp only
    split
    · exact hprom
    next hdiffers =>
      refine hprom.learn checks ?_ ?_ rfl ?_ ?_
      · exact hentryKey ▸ hkey
      · exact (congrArg s.adjRibInStale.find hentryKey).trans hp.stale
      · show s.held entry.key = entry.postAttr
        rw [hentryKey, AdjRibIn.held, entryOf_of_stale_none hp.stale, hentry]
        rfl
      · show entry.key ∉ state.2.keys
        rw [hentryKey]
        refine hnew fun e he => ?_
        rw [hentry, Option.some.injEq] at he
        exact he ▸ hdiffers

end

abbrev Pushes (gr : Bool) (announced : List PrefixPathId) (s s' : AdjRibIn A)
    (events : List (PrefixPathId × Option A)) : Prop := Changes gr announced s s' events events

section

variable {gr : Bool} {announced : List PrefixPathId} {s s' s'' : AdjRibIn A}
  {events events' : List (PrefixPathId × Option A)}

theorem Changes.push (h : Changes gr announced s s' events []) : Pushes gr announced s (s'.push events) events := by
  obtain ⟨_, _, _, _, rfl⟩ := h.kept.shape
  have hpushed := h.pushed.trans (append_nil _)
  exact ⟨⟨⟨_, _, _, _, rfl⟩, h.kept.2, h.kept.3⟩, congrArg (· ++ events) hpushed,
    ⟨h.layout.1, h.layout.2, h.layout.3⟩, h.held, h.keys, h.active, h.missing⟩

theorem Pushes.trans (h : Pushes gr announced s s' events) (h' : Pushes gr announced s' s'' events') :
    Pushes gr announced s s'' (events ++ events') where
  kept := h.kept.trans h'.kept
  pushed := by rw [h'.pushed, h.pushed, append_assoc]
  layout := h'.layout
  held := by rw [h'.held, h.held, foldl_append]
  keys k hk hann := by
    rw [map_append, mem_append] at hk
    rcases hk with hfirst | hsecond
    · exact h.keys k hfirst hann
    · exact fun hnone => h'.keys k hsecond hann (h.missing k hann hnone)
  active k hann hk := h'.active k hann (h.active k hann hk)
  missing k hann hk := h'.missing k hann (h.missing k hann hk)

theorem Pushes.mono (h : Pushes gr announced s s' events) {more : List PrefixPathId}
    (hmore : announced ⊆ more) : Pushes gr more s s' events :=
  ⟨h.kept, h.pushed, h.layout, h.held, fun k hk hann => h.keys k hk fun hold => hann (hmore hold),
    fun k hann => h.active k fun hold => hann (hmore hold), fun k hann => h.missing k fun hold => hann (hmore hold)⟩

variable {k : PrefixPathId} {keys : List PrefixPathId} {entry : AdjRibInEntry A}

theorem mem_staleKeys : k ∈ s.staleKeys ↔ s.adjRibInStale.find k ≠ none := find_ne_none_iff.symm

theorem held_of_active (h : s.getRibEntry k = some entry) : s.held k = entry.postAttr := by
  rw [held, entryOf, h]
  rfl

theorem held_of_stale (hact : s.getRibEntry k = none)
    (h : s.adjRibInStale.find k = some entry) : s.held k = entry.postAttr := by
  rw [held, entryOf, hact, h]
  rfl

theorem foldl_withdrawals (h : k ∈ keys) (table : PrefixPathId → Option A) :
    (keys.map (·, none)).foldl apply table k = none := by
  have hk : k ∈ (keys.map fun key => (key, (none : Option A))).map Prod.fst := by
    simpa [List.map_map] using h
  obtain ⟨event, hevent, -, hval⟩ := exists_foldl_apply_eq hk table
  obtain ⟨key, -, rfl⟩ := mem_map.mp hevent
  exact hval

theorem not_mem_withdrawals (h : k ∉ keys) : k ∉ (keys.map fun key => (key, (none : Option A))).map Prod.fst := by
  simpa [List.map_map] using h

theorem entryOf_clearStale : s.clearStale.entryOf k = s.getRibEntry k := or_none

def announcedKeys (s : AdjRibIn A) (update : PeerUpdate A) : List PrefixPathId :=
  (update.v4Announced ++ update.mpAnnounced).map s.keyOf

section

variable (h : Layout gr s)
include h

theorem processPeerWithdrawn_pushes (prefixes : List RiggedIPPrefix) :
    ∃ events, Pushes gr [] s (s.processPeerWithdrawn gr prefixes) events :=
  ⟨_, Changes.push (foldlRecOn prefixes (withdrawPrefix gr)
    (motive := fun state => Changes gr [] s state.1 (state.2.map (·, none)) []) (.refl h [])
    fun _ hstate rigPrefix _ => withdrawPrefix_changes hstate rigPrefix)⟩

theorem Layout.active_of_stale (hstale : s.adjRibInStale.find k ≠ none) : s.getRibEntry k = none := by
  by_contra hact
  exact hstale (h.disjoint k hact)

theorem clearStale_held : s.clearStale.held = (s.staleKeys.map (·, none)).foldl apply s.held := by
  funext k
  by_cases hk : k ∈ s.staleKeys
  · have hact := h.active_of_stale (mem_staleKeys.mp hk)
    rw [foldl_withdrawals hk]
    show ((s.getRibEntry k).or none).bind AdjRibInEntry.postAttr = none
    rw [hact]
    rfl
  · rw [foldl_apply_of_not_mem (not_mem_withdrawals hk)]
    have hstale : s.adjRibInStale.find k = none := by
      by_contra hsome
      exact hk (mem_staleKeys.mpr hsome)
    show ((s.getRibEntry k).or none).bind AdjRibInEntry.postAttr = ((s.getRibEntry k).or _).bind AdjRibInEntry.postAttr
    rw [hstale]

theorem Layout.clearStale : Layout gr s.clearStale := ⟨fun _ _ => rfl, h.other, fun _ => rfl⟩

theorem entryOf_of_mem_staleKeys (hk : k ∈ s.staleKeys) : s.entryOf k ≠ none := by
  rw [entryOf, h.active_of_stale (mem_staleKeys.mp hk)]
  exact mem_staleKeys.mp hk

theorem cleanupStaleRoutes_pushes : Pushes gr [] s s.cleanupStaleRoutes (s.staleKeys.map (·, none)) := by
  refine Changes.push ⟨⟨⟨_, _, _, _, rfl⟩, rfl, fun _ => rfl⟩, (append_nil _).symm, h.clearStale, clearStale_held h,
    fun k hk _ => ?_, fun _ _ => id, fun k _ hk => ?_⟩
  · refine entryOf_of_mem_staleKeys h ?_
    simpa [List.map_map] using hk
  · exact entryOf_clearStale.trans (Option.or_eq_none_iff.mp hk).1

variable [DecidableEq A] (checks : RouteChecks) (attrs : A) (prefixes : List RiggedIPPrefix)

theorem processPeerAnnounced_pushes : ∃ events, Pushes gr (prefixes.map s.keyOf) s
    (s.processPeerAnnounced gr checks attrs prefixes) events := by
  have hstart : Announcing gr attrs (prefixes.map s.keyOf) s (s, {}) :=
    ⟨.refl h _, fun key hkey => absurd hkey not_mem_nil⟩
  exact ⟨_, (foldlRecOn prefixes _ hstart fun _ hstate _ hmem =>
    announcePrefix_announcing hstate checks (mem_map_of_mem hmem)).changes.push⟩

theorem processAnnouncedPrefixes_pushes : ∃ events, Pushes gr (prefixes.map s.keyOf) s
    (s.processAnnouncedPrefixes gr checks attrs prefixes) events := by
  unfold processAnnouncedPrefixes
  split
  · exact processPeerAnnounced_pushes h checks attrs prefixes
  · obtain ⟨events, hpushes⟩ := processPeerWithdrawn_pushes h prefixes
    exact ⟨events, hpushes.mono (nil_subset _)⟩

theorem processPeerUpdate_pushes (update : PeerUpdate A) :
    ∃ events, Pushes gr (s.announcedKeys update) s (s.processPeerUpdate gr checks update) events := by
  obtain ⟨events₁, h₁⟩ := processPeerWithdrawn_pushes h update.v4Withdrawn
  obtain ⟨events₂, h₂⟩ := processPeerWithdrawn_pushes h₁.layout update.mpWithdrawn
  obtain ⟨events₃, h₃⟩ := processAnnouncedPrefixes_pushes h₂.layout checks update.v4Attrs update.v4Announced
  obtain ⟨events₄, h₄⟩ := processAnnouncedPrefixes_pushes h₃.layout checks update.mpAttrs update.mpAnnounced
  have hwd := (h₁.trans h₂).mono (nil_subset (s.announcedKeys update))
  rw [(h₁.trans h₂).kept.keyOf] at h₃
  rw [h₃.kept.keyOf, (h₁.trans h₂).kept.keyOf] at h₄
  refine ⟨_, (hwd.trans (h₃.mono ?_)).trans (h₄.mono ?_)⟩
  · exact map_subset _ (subset_append_left _ _)
  · exact map_subset _ (subset_append_right _ _)

end

end

section

/-- Half-way through the routes of a tree: all events so far say of the routes of the tree what their entries do,
and they are about routes that have had their turn. -/
structure ReEvaluating (tree : AdjRibInTree A) (done : List PrefixPathId) (state : ReEvaluation A) : Prop where
  find : ∀ k, k ∉ done → state.tree.find k = tree.find k
  none_iff : ∀ k, state.tree.find k = none ↔ tree.find k = none
  keys : ∀ k ∈ (state.sent ++ state.updates.events).map Prod.fst, k ∈ done
  events : ∀ table : PrefixPathId → Option A, (∀ k entry, tree.find k = some entry → table k = entry.postAttr) →
    ∀ k entry, state.tree.find k = some entry →
      (state.sent ++ state.updates.events).foldl apply table k = entry.postAttr

variable {done : List PrefixPathId} {state : ReEvaluation A} {tree : AdjRibInTree A}

theorem ReEvaluating.flush (h : ReEvaluating tree done state) : ReEvaluating tree done state.flush := by
  have hevents : state.flush.sent ++ state.flush.updates.events = state.sent ++ state.updates.events := append_nil _
  refine ⟨h.find, h.none_iff, ?_, ?_⟩
  · rw [hevents]
    exact h.keys
  · rw [hevents]
    exact h.events

variable [DecidableEq A] (policy : IngressPolicy A) (checks : RouteChecks)

theorem ReEvaluating.entry (h : ReEvaluating tree done state) {entry : AdjRibInEntry A}
    (hentry : tree.find entry.key = some entry) (hnew : entry.key ∉ done) :
    ReEvaluating tree (entry.key :: done) (state.entry policy checks entry) := by
  have hev := processPrefixWithPolicy_evaluated policy checks entry state.updates
  have hfind : state.tree.find entry.key = some entry := (h.find entry.key hnew).trans hentry
  unfold ReEvaluation.entry
  generalize processPrefixWithPolicy policy checks entry state.updates = processed at hev
  obtain ⟨entry', updates'⟩ := processed
  have hkey' : entry'.key = entry.key := hev.key
  have hput : ∀ k, k ≠ entry.key → (state.tree.put entry').find k = state.tree.find k :=
    fun k hk => find_put_of_ne (hkey' ▸ hk)
  have hself : (state.tree.put entry').find entry.key = some entry' := hkey' ▸ find_put_self _ _
  have hmain : ReEvaluating tree (entry.key :: done) { state with tree := state.tree.put entry', updates := updates' } := by
    refine ⟨fun k hk => ?_, fun k => ?_, fun k hk => ?_, fun table htable k found hfound => ?_⟩
    · rw [mem_cons, not_or] at hk
      exact (hput k hk.1).trans (h.find k hk.2)
    · by_cases hk : k = entry.key
      · exact hk ▸ iff_of_false (by simp [hself]) (by simp [hentry])
      · rw [hput k hk]
        exact h.none_iff k
    · rw [map_append, mem_append] at hk
      rcases hk with hsent | hupd
      · exact mem_cons_of_mem _ (h.keys k (map_append ▸ mem_append_left _ hsent))
      · rcases hev.keys k hupd with hold | rfl
        · exact mem_cons_of_mem _ (h.keys k (map_append ▸ mem_append_right _ hold))
        · exact mem_cons_self
    · have hold := h.events table htable
      have hfresh : entry.key ∉ state.updates.keys := fun hmem =>
        hnew (h.keys _ (map_append ▸ mem_append_right _ hmem))
      rw [foldl_append] at hold ⊢
      rw [hev.events hfresh _ (hold _ _ hfind), apply]
      by_cases hk : k = entry.key
      · rw [if_pos hk]
        rw [hk] at hfound
        rw [Option.some.inj (hself.symm.trans hfound)]
      · rw [if_neg hk]
        exact hold k found ((hput k hk).symm.trans hfound)
  simp only
  split
  · exact hmain.flush
  · exact hmain

theorem ReEvaluating.foldl (entries : List (AdjRibInEntry A)) (h : ReEvaluating tree done state)
    (hents : ∀ entry ∈ entries, tree.find entry.key = some entry)
    (hnew : ∀ entry ∈ entries, entry.key ∉ done) (hnodup : (entries.map AdjRibInEntry.key).Nodup) :
    ReEvaluating tree ((entries.map AdjRibInEntry.key).reverse ++ done)
      (entries.foldl (ReEvaluation.entry policy checks) state) := by
  induction entries generalizing done state with
  | nil => exact h
  | cons entry entries ih =>
    obtain ⟨hfirst, hrest⟩ := nodup_cons.mp hnodup
    have hstep := h.entry policy checks (hents entry mem_cons_self) (hnew entry mem_cons_self)
    rw [map_cons, reverse_cons, append_assoc]
    refine ih hstep (fun e he => hents e (mem_cons_of_mem _ he)) (fun e he => ?_) hrest
    rw [singleton_append, mem_cons, not_or]
    exact ⟨fun heq => hfirst (heq ▸ mem_map_of_mem he), hnew e (mem_cons_of_mem _ he)⟩

/-- A tree that is re-evaluated keeps its keys, and what is sent says how its routes change. -/
structure ReEvaluated (tree tree' : AdjRibInTree A) (sent : List (PrefixPathId × Option A)) : Prop where
  none_iff : ∀ k, tree'.find k = none ↔ tree.find k = none
  keys : ∀ k ∈ sent.map Prod.fst, tree.find k ≠ none
  events : ∀ table : PrefixPathId → Option A, (∀ k entry, tree.find k = some entry → table k = entry.postAttr) →
    ∀ k entry, tree'.find k = some entry → sent.foldl apply table k = entry.postAttr

theorem reEvaluate_spec (tree : AdjRibInTree A) :
    ReEvaluated tree (reEvaluateAdjRibEntriesWithUpdatedPolicy policy checks tree).tree
      (reEvaluateAdjRibEntriesWithUpdatedPolicy policy checks tree).sent := by
  have hstart : ReEvaluating tree [] { tree := tree } :=
    ⟨fun _ _ => rfl, fun _ => Iff.rfl, fun k hk => absurd hk not_mem_nil, fun table htable => htable⟩
  have h := ReEvaluating.foldl policy checks tree.items hstart (fun entry => find_key)
    (fun entry _ => not_mem_nil) tree.keys_nodup
  refine ⟨h.none_iff, fun k hk => ?_, h.events⟩
  have hdone := h.keys k hk
  rw [append_nil, mem_reverse] at hdone
  exact find_ne_none_iff.mpr hdone

theorem processAdjRibReEvaluationForPolicyChange_pushes
    (h : Layout gr s) (checks : RouteChecks) :
    ∃ events, Pushes gr [] s (s.processAdjRibReEvaluationForPolicyChange checks) events := by
  have hact := reEvaluate_spec s.policy checks s.tree
  have hstale := reEvaluate_spec s.policy checks s.adjRibInStale
  unfold processAdjRibReEvaluationForPolicyChange
  generalize reEvaluateAdjRibEntriesWithUpdatedPolicy s.policy checks s.tree = active at hact
  generalize reEvaluateAdjRibEntriesWithUpdatedPolicy s.policy checks s.adjRibInStale = stale at hstale
  have hnone : ∀ k, (s.setTree active.tree).getRibEntry k = none ↔ s.getRibEntry k = none := by
    intro k
    rw [getRibEntry, tree_setTree]
    exact hact.none_iff k
  have hempty : s.adjRibInStale = .empty → stale.tree = .empty := by
    intro hempty
    have hitems : stale.tree.items = [] := by
      refine eq_nil_iff_forall_not_mem.mpr fun entry hentry => ?_
      have hfind := find_key hentry
      rw [(hstale.none_iff entry.key).mpr (by rw [hempty]; rfl)] at hfind
      cases hfind
    exact Keyed.ext hitems
  refine ⟨active.sent ++ stale.sent, ⟨⟨_, _, _, _, rfl⟩, (Kept.setTree s _).other, hempty⟩, rfl,
    ⟨fun k hk => ?_, (Kept.setTree s _).other.trans h.other, fun hgr => hempty (h.inPlace hgr)⟩, ?_, fun k hk _ => ?_,
    fun k _ hk => (hnone k).mpr hk, fun k _ hk => ?_⟩
  · exact (hstale.none_iff k).mpr (h.disjoint k fun hk' => hk ((hnone k).mpr hk'))
  · funext k
    show (((s.setTree active.tree).getRibEntry k).or (stale.tree.find k)).bind AdjRibInEntry.postAttr = _
    rw [foldl_append]
    cases hk : (s.setTree active.tree).getRibEntry k with
    | some entry =>
      have hk' : s.getRibEntry k ≠ none := fun hk' => by simp [(hnone k).mpr hk'] at hk
      rw [foldl_apply_of_not_mem fun hmem => hstale.keys k hmem (h.disjoint k hk')]
      rw [getRibEntry, tree_setTree] at hk
      exact (hact.events s.held (fun k' e he => held_of_active he) k entry hk).symm
    | none =>
      have hk' := (hnone k).mp hk
      cases hfound : stale.tree.find k with
      | none =>
        have hfound' := (hstale.none_iff k).mp hfound
        rw [foldl_apply_of_not_mem fun hmem => hstale.keys k hmem hfound',
          foldl_apply_of_not_mem fun hmem => hact.keys k hmem hk', held, entryOf, hk', hfound']
      | some entry =>
        refine (hstale.events _ (fun k' e he => ?_) k entry hfound).symm
        have hinact := h.active_of_stale (k := k') (by simp [he])
        rw [foldl_apply_of_not_mem fun hmem => hact.keys k' hmem hinact]
        exact held_of_stale hinact he
  · rw [map_append, mem_append] at hk
    rw [entryOf, ne_eq, or_eq_none_iff, not_and_or]
    exact hk.imp (hact.keys k) (hstale.keys k)
  · obtain ⟨hk', hk''⟩ := or_eq_none_iff.mp hk
    exact or_eq_none_iff.mpr ⟨(hnone k).mpr hk', (hstale.none_iff k).mpr hk''⟩

end

theorem adjRibInStale_eq_empty (h : s.staleKeys = []) : s.adjRibInStale = .empty := Keyed.ext (map_eq_nil_iff.mp h)

/-- The routes are laid out, stale ones have a timer, and none is active between sessions unless it is marked in
place. -/
structure Timed (gr : Bool) (s : AdjRibIn A) : Prop where
  layout : Layout gr s
  timers : s.adjRibInStale = .empty ∨ s.stalePathTimer = true ∨ s.remoteGrRestartTimer = true
  established : s.isSessionEstablished = true → s.remoteGrRestartTimer = false
  idle : gr = false → s.isSessionEstablished = false → s.tree = .empty

section

variable {gr : Bool} {s s' : AdjRibIn A} {announced : List PrefixPathId}
  {events : List (PrefixPathId × Option A)}

theorem Timed.other_eq_empty (h : Timed false s) (hstop : s.isSessionEstablished = false) (recAddPath : Bool) :
    s.adjRibInTree (!recAddPath) = .empty := by
  by_cases hsame : recAddPath = s.recAddPath
  · exact hsame ▸ h.layout.other
  · rw [← Bool.eq_not.mpr (Ne.symm hsame)]
    exact h.idle rfl hstop

theorem tree_markStale (s : AdjRibIn A) : (AdjRibIn.markStale false s).tree = .empty := tree_setTree s .empty

/-- Routes change from active to stale, if none was stale. -/
theorem Layout.markStale (h : Layout gr s) (hstale : s.adjRibInStale = .empty) :
    Layout gr (AdjRibIn.markStale gr s) := by
  cases gr with
  | false =>
    refine ⟨fun key hkey => absurd ?_ hkey, (Kept.setTree s _).other.trans h.other, nofun⟩
    rw [getRibEntry, tree_markStale, find_empty]
  | true =>
    refine ⟨fun key _ => ?_, (Kept.setTree s _).other.trans h.other, h.inPlace⟩
    show s.adjRibInStale.find key = none
    rw [hstale, find_empty]

theorem exists_purgeStaleOnTimer_eq (s : AdjRibIn A) : ∃ pending, s.purgeStaleOnTimer =
    { s.clearStale with pendingRibInPushes := pending } ∧
      pending.flatten = s.pendingRibInPushes.flatten ++ s.staleKeys := by
  unfold purgeStaleOnTimer
  split
  next hempty =>
    rw [List.isEmpty_iff] at hempty
    refine ⟨s.pendingRibInPushes, ?_, by rw [hempty, append_nil]⟩
    rw [clearStale, ← adjRibInStale_eq_empty hempty]
  · exact ⟨_, rfl, by rw [flatten_append, flatten_singleton]⟩

section

variable (h : Timed gr s) {session : Session}
include h

theorem Timed.pushes (hp : Pushes gr announced s s' events)
    (hidle : announced = [] ∨ s.isSessionEstablished = true) : Timed gr s' where
  layout := hp.layout
  timers := by
    obtain ⟨_, _, _, _, rfl⟩ := hp.kept.shape
    exact h.timers.imp_left hp.kept.stale
  established := by
    obtain ⟨_, _, _, _, rfl⟩ := hp.kept.shape
    exact h.established
  idle hgr hstop := by
    obtain ⟨_, _, _, _, rfl⟩ := hp.kept.shape
    have hnil : announced = [] := hidle.resolve_right fun hest => Bool.false_ne_true (hstop.symm.trans hest)
    refine Keyed.ext (eq_nil_iff_forall_not_mem.mpr fun entry hentry => ?_)
    have hnone := hp.active entry.key (hnil ▸ not_mem_nil) (by rw [getRibEntry, h.idle hgr hstop, find_empty])
    rw [getRibEntry, find_key hentry] at hnone
    cases hnone

/-- Where the two trees that a session may use differ, both are empty. -/
theorem getRibEntry_sessionEstablished
    (hother : s.adjRibInTree (!session.recAddPath) = .empty) (k : PrefixPathId) :
    (s.sessionEstablished session).getRibEntry k = s.getRibEntry k := by
  show (s.adjRibInTree session.recAddPath).find k = (s.adjRibInTree s.recAddPath).find k
  by_cases hsame : session.recAddPath = s.recAddPath
  · rw [hsame]
  · have hflipped : (!session.recAddPath) = s.recAddPath := by rw [← Bool.eq_not.mpr (Ne.symm hsame)]
    rw [← hflipped, hother, Bool.eq_not.mpr hsame, h.layout.other]

theorem Timed.other_of_enabled (hstop : s.isSessionEstablished = false)
    (hother : gr = true → s.adjRibInTree (!session.recAddPath) = .empty) :
    s.adjRibInTree (!session.recAddPath) = .empty := by
  cases gr with
  | false => exact h.other_eq_empty hstop _
  | true => exact hother rfl

theorem Timed.sessionEstablished (hother : s.adjRibInTree (!session.recAddPath) = .empty) :
    Timed gr (s.sessionEstablished session) := by
  refine ⟨⟨fun key hkey => ?_, hother, h.layout.inPlace⟩, ?_, fun _ => rfl, nofun⟩
  · exact h.layout.disjoint key (getRibEntry_sessionEstablished h hother key ▸ hkey)
  · refine h.timers.imp_right fun htimer => .inl ?_
    exact Bool.or_eq_true_iff.mpr htimer

theorem Timed.processPeerEoR (afi : BgpUpdateAfi) : Timed gr (s.processPeerEoR afi) := by
  unfold AdjRibIn.processPeerEoR
  simp only
  split
  · have hlay := h.layout.clearStale
    exact ⟨⟨hlay.1, hlay.2, hlay.3⟩, .inl rfl, h.established, h.idle⟩
  · exact ⟨⟨h.layout.1, h.layout.2, h.layout.3⟩, h.timers, h.established, h.idle⟩

theorem Timed.stopStalePathTimer (hest : s.isSessionEstablished = true) :
    Layout gr s.stopStalePathTimer ∧ s.stopStalePathTimer.adjRibInStale = .empty := by
  unfold AdjRibIn.stopStalePathTimer
  split
  · have hlay := h.layout.clearStale
    exact ⟨⟨hlay.1, hlay.2, hlay.3⟩, rfl⟩
  next htimer =>
    refine ⟨h.layout, h.timers.resolve_right ?_⟩
    rintro (hstale | hrestart)
    · exact htimer hstale
    · rw [h.established hest] at hrestart
      cases hrestart

theorem Timed.sessionTerminated (hest : s.isSessionEstablished = true)
    (gracefulRestart : Bool) : Timed gr (s.sessionTerminated gr gracefulRestart) := by
  obtain ⟨hlay, hstale⟩ := h.stopStalePathTimer hest
  have hmarked := hlay.markStale hstale
  have hidle : gr = false → (AdjRibIn.markStale gr s.stopStalePathTimer).tree = .empty := by
    rintro rfl
    exact tree_markStale _
  unfold AdjRibIn.sessionTerminated
  split
  · have hclr := hmarked.clearStale
    exact ⟨⟨hclr.1, hclr.2, hclr.3⟩, .inl rfl, nofun, fun hgr _ => hidle hgr⟩
  · exact ⟨⟨hmarked.1, hmarked.2, hmarked.3⟩, .inr (.inr rfl), nofun, fun hgr _ => hidle hgr⟩

theorem Timed.stalePathTimerExpired : Timed gr s.stalePathTimerExpired := by
  have hlay := h.layout.clearStale
  obtain ⟨pending, heq, -⟩ := exists_purgeStaleOnTimer_eq s
  rw [AdjRibIn.stalePathTimerExpired, heq]
  exact ⟨⟨hlay.1, hlay.2, hlay.3⟩, .inl rfl, h.established, h.idle⟩

theorem Timed.remoteGrRestartTimerExpired : Timed gr s.remoteGrRestartTimerExpired := by
  have hlay := h.layout.clearStale
  obtain ⟨pending, heq, -⟩ := exists_purgeStaleOnTimer_eq s
  rw [AdjRibIn.remoteGrRestartTimerExpired, heq]
  exact ⟨⟨hlay.1, hlay.2, hlay.3⟩, .inl rfl, fun _ => rfl, h.idle⟩

theorem Timed.pushStaleWithdrawal : Timed gr s.pushStaleWithdrawal := by
  unfold AdjRibIn.pushStaleWithdrawal
  split
  · exact h
  · exact ⟨⟨h.layout.1, h.layout.2, h.layout.3⟩, h.timers, h.established, h.idle⟩

theorem Timed.exec [DecidableEq A] {action : AdjRibInAction A}
    (hen : s.Enabled action) (hother : gr = true → ∀ session, action = .sessionEstablished session →
      s.adjRibInTree (!session.recAddPath) = .empty) : Timed gr (s.exec gr action) := by
  cases action with
  | sessionEstablished session => exact h.sessionEstablished (h.other_of_enabled hen fun hgr => hother hgr _ rfl)
  | processPeerUpdate checks update =>
    obtain ⟨events, hpushes⟩ := processPeerUpdate_pushes h.layout checks update
    exact h.pushes hpushes (.inr hen)
  | processPeerEoR afi => exact h.processPeerEoR afi
  | sessionTerminated gracefulRestart => exact h.sessionTerminated hen gracefulRestart
  | stalePathTimerExpired => exact h.stalePathTimerExpired
  | remoteGrRestartTimerExpired => exact h.remoteGrRestartTimerExpired
  | pushStaleWithdrawal => exact h.pushStaleWithdrawal
  | setPolicy policy => exact ⟨⟨h.layout.1, h.layout.2, h.layout.3⟩, h.timers, h.established, h.idle⟩
  | processAdjRibReEvaluationForPolicyChange checks =>
    obtain ⟨events, hpushes⟩ := processAdjRibReEvaluationForPolicyChange_pushes h.layout checks
    exact h.pushes hpushes (.inl rfl)

end

theorem timed_init (gr : Bool) (policy : IngressPolicy A) : Timed gr { policy := policy } :=
  ⟨⟨fun _ _ => rfl, rfl, fun _ => rfl⟩, .inl rfl, nofun, fun _ _ => rfl⟩

end

/-- The keys whose withdrawal waits to be pushed. -/
def waiting (s : AdjRibIn A) : List PrefixPathId := s.pendingRibInPushes.flatten

theorem Kept.waiting {s' : AdjRibIn A} (h : Kept s s') : s'.waiting = s.waiting := by
  obtain ⟨_, _, _, _, rfl⟩ := h.shape
  rfl

/-- What the RIB knows when the waiting withdrawals have been pushed as well. -/
def told (s : AdjRibIn A) : PrefixPathId → Option A := replay (s.pushed ++ s.waiting.map (·, none))

theorem told_purgeStaleOnTimer (s : AdjRibIn A) :
    s.purgeStaleOnTimer.told = (s.staleKeys.map (·, none)).foldl apply s.told := by
  obtain ⟨pending, heq, hpending⟩ := exists_purgeStaleOnTimer_eq s
  rw [heq, told, AdjRibIn.waiting, hpending, map_append, ← append_assoc, replay_append]
  rfl

theorem told_pushStaleWithdrawal (s : AdjRibIn A) : s.pushStaleWithdrawal.told = s.told := by
  unfold pushStaleWithdrawal
  cases hpend : s.pendingRibInPushes with
  | nil => rfl
  | cons withdrawal rest =>
    show replay (s.pushed ++ withdrawal.map (·, none) ++ rest.flatten.map (·, none)) = _
    rw [told, AdjRibIn.waiting, hpend, flatten_cons, map_append, append_assoc]

/-- A property of what has been pushed that every step keeps: pushes for allowed announcements, steps that
change nothing the RIB should know, the purge of a timer, and its push. -/
structure LogClosed (gr : Bool) (allowed : AdjRibIn A → List PrefixPathId → Prop)
    (P : AdjRibIn A → Prop) : Prop where
  nil : ∀ s, allowed s []
  pushes : ∀ {s s' announced events}, P s → Pushes gr announced s s' events → allowed s announced → P s'
  same : ∀ {s s' : AdjRibIn A}, P s → s'.pushed = s.pushed → s'.pendingRibInPushes = s.pendingRibInPushes →
    (∀ k, s.entryOf k = none → s'.entryOf k = none) → s'.held = s.held → P s'
  purged : ∀ {s}, P s → Layout gr s → P s.purgeStaleOnTimer
  withdrawalPushed : ∀ {s}, P s → P s.pushStaleWithdrawal

section

variable {gr : Bool} {allowed : AdjRibIn A → List PrefixPathId → Prop} {P : AdjRibIn A → Prop}
  {s s' : AdjRibIn A}

/-- Fields that neither the routes nor the log read may change. -/
theorem LogClosed.congr (hc : LogClosed gr allowed P) (h : P s) (hpushed : s'.pushed = s.pushed)
    (hpend : s'.pendingRibInPushes = s.pendingRibInPushes) (hentryOf : s'.entryOf = s.entryOf) : P s' := by
  refine hc.same h hpushed hpend (fun k hk => hentryOf ▸ hk) (funext fun k => ?_)
  rw [held, hentryOf, held]

theorem LogClosed.cleanupStaleRoutes (hc : LogClosed gr allowed P) (h : P s)
    (hlay : Layout gr s) : P s.cleanupStaleRoutes :=
  hc.pushes h (cleanupStaleRoutes_pushes hlay) (hc.nil s)

theorem entryOf_markStale (h : s.adjRibInStale = .empty) (k : PrefixPathId) : (AdjRibIn.markStale gr s).entryOf k =
    (s.entryOf k).map fun entry => { entry with isStale := gr || entry.isStale } := by
  cases gr with
  | false =>
    show ((s.setTree .empty).tree.find k).or (s.tree.find k) = ((s.tree.find k).or (s.adjRibInStale.find k)).map _
    rw [tree_setTree, h, find_empty, or_none]
    exact map_id'.symm
  | true =>
    show ((s.setTree _).tree.find k).or (s.adjRibInStale.find k) = ((s.tree.find k).or (s.adjRibInStale.find k)).map _
    rw [tree_setTree, h, find_empty, or_none, or_none]
    exact find_modify ..

theorem held_markStale (h : s.adjRibInStale = .empty) : (AdjRibIn.markStale gr s).held = s.held := by
  funext k
  rw [held, entryOf_markStale h, bind_map]
  rfl

section

variable (hc : LogClosed gr allowed P)
include hc

theorem LogClosed.stopStalePathTimer (h : P s) (hlay : Layout gr s) : P s.stopStalePathTimer := by
  unfold AdjRibIn.stopStalePathTimer
  split
  · exact hc.congr (hc.cleanupStaleRoutes h hlay) rfl rfl rfl
  · exact h

theorem LogClosed.sessionTerminated (h : P s)
    (ht : Timed gr s) (hest : s.isSessionEstablished = true) (gracefulRestart : Bool) :
    P (s.sessionTerminated gr gracefulRestart) := by
  obtain ⟨hlay, hstale⟩ := ht.stopStalePathTimer hest
  have hlay' := hlay.markStale hstale
  have hmarked : P { AdjRibIn.markStale gr s.stopStalePathTimer with isSessionEstablished := false } := by
    refine hc.same (hc.stopStalePathTimer h ht.layout) ?_ ?_ (fun k hk => ?_) (held_markStale hstale)
    · cases gr <;> rfl
    · cases gr <;> rfl
    · exact (entryOf_markStale hstale k).trans (by rw [hk, map_none])
  unfold AdjRibIn.sessionTerminated
  split
  · exact hc.cleanupStaleRoutes hmarked ⟨hlay'.1, hlay'.2, hlay'.3⟩
  · exact hc.congr hmarked rfl rfl rfl

theorem LogClosed.sessionEstablished (h : P s)
    (ht : Timed gr s) {session : Session} (hother : s.adjRibInTree (!session.recAddPath) = .empty) :
    P (s.sessionEstablished session) := by
  refine hc.congr h rfl rfl (funext fun k => ?_)
  show ((s.sessionEstablished session).getRibEntry k).or (s.adjRibInStale.find k) = _
  rw [getRibEntry_sessionEstablished ht hother]
  rfl

theorem LogClosed.processPeerEoR (h : P s) (hlay : Layout gr s) (afi : BgpUpdateAfi) : P (s.processPeerEoR afi) := by
  unfold AdjRibIn.processPeerEoR
  simp only
  split
  · exact hc.congr (hc.cleanupStaleRoutes h hlay) rfl rfl rfl
  · exact hc.congr h rfl rfl rfl

theorem LogClosed.exec [DecidableEq A] (h : P s) (ht : Timed gr s) {action : AdjRibInAction A} (hen : s.Enabled action)
    (hother : gr = true → ∀ session, action = .sessionEstablished session →
      s.adjRibInTree (!session.recAddPath) = .empty)
    (hallowed : ∀ checks update, action = .processPeerUpdate checks update → allowed s (s.announcedKeys update)) :
    P (s.exec gr action) := by
  cases action with
  | sessionEstablished session => exact hc.sessionEstablished h ht (ht.other_of_enabled hen fun hgr => hother hgr _ rfl)
  | processPeerUpdate checks update =>
    obtain ⟨events, hpushes⟩ := processPeerUpdate_pushes ht.layout checks update
    exact hc.pushes h hpushes (hallowed checks update rfl)
  | processPeerEoR afi => exact hc.processPeerEoR h ht.layout afi
  | sessionTerminated gracefulRestart => exact hc.sessionTerminated h ht hen gracefulRestart
  | stalePathTimerExpired => exact hc.congr (hc.purged h ht.layout) rfl rfl rfl
  | remoteGrRestartTimerExpired => exact hc.congr (hc.purged h ht.layout) rfl rfl rfl
  | pushStaleWithdrawal => exact hc.withdrawalPushed h
  | setPolicy policy => exact hc.congr h rfl rfl rfl
  | processAdjRibReEvaluationForPolicyChange checks =>
    obtain ⟨events, hpushes⟩ := processAdjRibReEvaluationForPolicyChange_pushes ht.layout checks
    exact hc.pushes h hpushes (hc.nil s)

end

end

end AdjRibIn

end FbossBgp.AdjRib
