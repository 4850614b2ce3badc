import FbossBgp.AdjRib.AdjRibOutSteps

/-! What a RIB announcement makes of its key does not depend on what was advertised before: two histories that
end with the same announcement agree on it. -/

namespace FbossBgp.AdjRib

open Transition Option

open BgpLib (IPAddress)
open Rib (CIDRNetwork)

section

variable {R : Type} [DecidableEq R]

namespace AdjRibOut

theorem closed_layout (session : EgressSession R) :
    Closed (fun _ => True) fun s : AdjRibOut R => Layout s ∧ s.session = session where
  withdrawn _ := trivial
  layout h := h.1
  quiet h hquiet := ⟨hquiet.layout h.1, hquiet.session.trans h.2⟩
  handled h hdone := ⟨hdone.layout, hdone.kept.session.trans h.2⟩

theorem actionSends_true (s : AdjRibOut R) (action : AdjRibOutAction R) : ActionSends (fun _ => True) s action := by
  cases action with
  | processRibOutAnnouncement | processShadowRibEntryChange | programOutDelayTimer => exact fun _ _ _ _ _ => trivial
  | _ => trivial

variable {s : AdjRibOut R} {update : RibOutAnnouncementEntry R} {checks : EgressChecks R} {now : Nat}

theorem sendBgpUpdate_layout (h : Layout s) (path : BgpPathWithAfi R) (packed : List PrefixPathId) :
    Layout (s.sendBgpUpdate path packed) ∧ (s.sendBgpUpdate path packed).session = s.session := by
  unfold sendBgpUpdate
  split
  · exact ⟨h, rfl⟩
  · split
    · exact ⟨⟨h.issued, h.negotiated, h.deferred⟩, rfl⟩
    · exact ⟨⟨h.issued, h.negotiated, h.deferred⟩, rfl⟩

theorem layout_of_reachable {session : EgressSession R} {policy : EgressPolicy R}
    (h : Reachable (adjRibOutSystem session policy) s) : Layout s ∧ s.session = session := by
  induction h with
  | init => exact ⟨⟨fun _ hkey => (hkey rfl).elim, fun _ hkey => (hkey rfl).elim, nofun⟩, rfl⟩
  | step _ _ ih =>
    refine (closed_layout session).exec ih (actionSends_true ..) fun path packed _ => ?_
    exact (sendBgpUpdate_layout ih.1 path packed).imp_right fun hses => hses.trans ih.2

/-- Nexthops that had a path id keep it, and no nexthop has two. -/
structure KeepsPathIds (issued : CIDRNetwork → List IPAddress) (s : AdjRibOut R) : Prop where
  layout : Layout s
  kept : ∀ pfx, issued pfx <+: s.pathIdCache.nexthops pfx ∧ (s.pathIdCache.nexthops pfx).Nodup

section

variable {issued : CIDRNetwork → List IPAddress}

theorem issue_keeps {earlier issued : List IPAddress} (h : earlier <+: issued ∧ issued.Nodup) (sendAddPath : Bool)
    (nexthop : IPAddress) : let later := (PathIdCache.issue sendAddPath issued nexthop).2
    earlier <+: later ∧ later.Nodup := by
  unfold PathIdCache.issue
  split
  · split
    · exact h
    next hnone =>
      have hnew : nexthop ∉ issued := List.idxOf?_eq_none_iff.mp hnone
      exact ⟨h.1.trans (List.prefix_append ..),
        (List.perm_append_singleton ..).nodup_iff.mpr (List.nodup_cons.mpr ⟨hnew, h.2⟩)⟩
  · exact h

theorem closed_keepsPathIds : Closed (fun _ => True) (KeepsPathIds (R := R) issued) where
  withdrawn _ := trivial
  layout h := h.layout
  quiet h hquiet := ⟨hquiet.layout h.layout, hquiet.pathIdCache ▸ h.kept⟩
  handled h hdone := by
    refine ⟨hdone.layout, fun pfx => ?_⟩
    rw [hdone.pathIdCache, getPathId, PathIdCache.nexthops_getPathId]
    split
    next hpfx =>
      subst hpfx
      exact issue_keeps (h.kept pfx) ..
    · exact h.kept pfx

theorem KeepsPathIds.run (h : s.KeepsPathIds issued) (session : EgressSession R) (policy : EgressPolicy R)
    (actions : List (AdjRibOutAction R)) : (run (adjRibOutSystem session policy) s actions).KeepsPathIds issued := by
  induction actions generalizing s with
  | nil => exact h
  | cons action actions ih =>
    refine ih (closed_keepsPathIds.exec h (actionSends_true ..) fun path packed _ => ?_)
    refine ⟨(sendBgpUpdate_layout h.layout path packed).1, fun pfx => ?_⟩
    unfold sendBgpUpdate
    split
    · exact h.kept pfx
    · split <;> exact h.kept pfx

/-- A path id stays with its nexthop, which gets no other one, and what is advertised is of a negotiated family and has
a path id that was issued. -/
theorem pathIds_stable (session : EgressSession R) (policy : EgressPolicy R) (earlier later : List (AdjRibOutAction R))
    (pfx : CIDRNetwork) :
    let s := Transition.run (adjRibOutSystem session policy) (adjRibOutSystem session policy).init earlier
    let t := Transition.run (adjRibOutSystem session policy) s later
    s.pathIdCache.nexthops pfx <+: t.pathIdCache.nexthops pfx ∧ (t.pathIdCache.nexthops pfx).Nodup ∧
      ∀ pathId, t.advertised (pfx, pathId) ≠ none → t.session.isAfiNegotiated pfx = true ∧
        if t.session.sendAddPath then pathId < (t.pathIdCache.nexthops pfx).length else pathId = Rib.kDefaultPathID := by
  intro s t
  have hinit : (adjRibOutSystem session policy).init.KeepsPathIds fun _ => [] :=
    ⟨(layout_of_reachable .init).1, fun _ => ⟨List.nil_prefix, List.nodup_nil⟩⟩
  have hs : s.KeepsPathIds fun _ => [] := hinit.run session policy earlier
  have ht : t.KeepsPathIds s.pathIdCache.nexthops :=
    KeepsPathIds.run ⟨hs.layout, fun pfx => ⟨List.prefix_rfl, (hs.kept pfx).2⟩⟩ session policy later
  refine ⟨(ht.kept pfx).1, (ht.kept pfx).2, fun pathId hadv => ?_⟩
  have hfind : t.adjRibOut.find (pfx, pathId) ≠ none := by
    intro hnone
    rw [advertised, hnone] at hadv
    exact hadv rfl
  exact ⟨ht.layout.negotiated _ hfind, ht.layout.issued _ hfind⟩

end

/-- An announcement is processed when it arrives and is not deferred, or when its out-delay expires. -/
inductive Processed (checks : EgressChecks R) (update : RibOutAnnouncementEntry R) (s : AdjRibOut R) :
    AdjRibOut R → Prop where
  | arrived (now : Nat) (initialDump : Bool)
      (hnow : initialDump = false → s.session.canAnnounceEntry update = true → (s.processOutDelay now update).2.1 = false) :
      Processed checks update s (s.handleRibAnnouncedEntry checks now initialDump update)
  | expired (hdeferred : s.deferredUpdates.find update.pfx = some update) :
      Processed checks update s (s.processDeferred checks update.pfx)

theorem processOutDelay_fst
    (h : (s.processOutDelay now update).2.1 = false) : (s.processOutDelay now update).1 = s := by
  unfold processOutDelay at h ⊢
  grind

/-- An announcement that is not deferred when it arrives. -/
theorem handleRibAnnouncedEntry_eq {initialDump : Bool}
    (hnow : initialDump = false → s.session.canAnnounceEntry update = true → (s.processOutDelay now update).2.1 = false)
    (hneg : s.session.isAfiNegotiated update.pfx = true) (hcan : s.session.canAnnounceEntry update = true) :
    s.handleRibAnnouncedEntry checks now initialDump update = s.processRibAnnouncedEntry checks update := by
  rw [handleRibAnnouncedEntry, if_neg (by rw [hneg]; nofun), if_neg (by rw [hcan]; nofun)]
  cases initialDump with
  | true => rfl
  | false =>
    have hflag := hnow rfl hcan
    simp only [Bool.false_eq_true, if_false, hflag, if_true, processOutDelay_fst hflag]

theorem advertised_processRibAnnouncedEntry (h : Layout s) (hneg : s.session.isAfiNegotiated update.pfx = true)
    (hsup : s.Supported checks update) (hrefused : ¬s.Refused checks update) :
    (s.processRibAnnouncedEntry checks update).advertised (s.keyOf update.pfx update.attrs.nexthop) =
      s.outcome checks update := by
  obtain ⟨-, value, hval, -, hdone⟩ := processRibAnnouncedEntry_handled (P := fun _ => True) (fun _ => trivial) h
    hneg hrefused fun _ _ _ => trivial
  rw [hdone.staged.advertised, if_pos rfl, hval hsup]

theorem advertised_eq_none_of_denied (h : Layout s) (hneg : s.session.isAfiNegotiated update.pfx = true)
    (hden : (s.policyResult checks update).policyCachedAttrs = none) :
    (s.processRibAnnouncedEntry checks update).advertised (s.keyOf update.pfx update.attrs.nexthop) = none := by
  by_cases hrefused : s.Refused checks update
  · rw [processRibAnnouncedEntry_of_refused h hrefused, advertised, hrefused.1]
    rfl
  · have hsup : s.Supported checks update := fun attrs hattrs =>
      absurd (hden ▸ hattrs) (not_mem_none attrs)
    rw [advertised_processRibAnnouncedEntry h hneg hsup hrefused, outcome, hden, map_none]

/-- What is processed is ignored, withdrawn, or evaluated by policy. -/
theorem Processed.cases {s' : AdjRibOut R} (h : Layout s) (hproc : Processed checks update s s') :
    ((s.session.isAfiNegotiated update.pfx = false ∨ s.session.canAnnounceEntry update = false) ∧
        s'.advertised (s.keyOf update.pfx update.attrs.nexthop) = none) ∨
      s.session.isAfiNegotiated update.pfx = true ∧ s.session.canAnnounceEntry update = true ∧
        ∀ k, s'.advertised k = (s.processRibAnnouncedEntry checks update).advertised k := by
  cases hproc with
  | arrived now initialDump hnow =>
    cases hneg : s.session.isAfiNegotiated update.pfx with
    | false =>
      have hfind : s.adjRibOut.find (s.keyOf update.pfx update.attrs.nexthop) = none := find_of_not_negotiated h hneg
      rw [handleRibAnnouncedEntry, if_pos hneg, advertised, hfind]
      exact .inl ⟨.inl rfl, rfl⟩
    | true =>
      cases hcan : s.session.canAnnounceEntry update with
      | false =>
        obtain ⟨-, hdone⟩ := withdrawPath_handled (P := fun _ => True) (fun _ => trivial) h update.pfx
          update.attrs.nexthop
        rw [handleRibAnnouncedEntry, if_neg (by simp [hneg]), if_pos hcan]
        exact .inl ⟨.inr rfl, (hdone.staged.advertised _).trans (if_pos rfl)⟩
      | true => exact .inr ⟨rfl, rfl, fun k => by rw [handleRibAnnouncedEntry_eq hnow hneg hcan]⟩
  | expired hdef =>
    obtain ⟨hneg, hcan⟩ := h.deferred update (Keyed.find_eq_some_iff.mp hdef).1
    refine .inr ⟨hneg, hcan, fun k => ?_⟩
    rw [processDeferred, hdef]
    rfl

/-- What policy makes of an announcement by itself. -/
def verdict (s : AdjRibOut R) (update : RibOutAnnouncementEntry R) : Option (BgpPath R) :=
  (s.policy.getPostOutPolicyAttributesAndInfo update update).policyCachedAttrs.map
    (s.policy.postOutAttrs update (s.policy.getPostOutPolicyAttributesAndInfo update update))

section

variable (hcached : s.policy.sameCacheKey update (checks.cached update) = true)
include hcached

/-- What goes out does not depend on the announcement that the policy cache remembers. -/
theorem outcome_eq : s.outcome checks update = s.verdict update := by
  obtain ⟨-, hsome, hrest, hnh⟩ := s.policy.applyPolicy_of_sameCacheKey hcached
  simp only [outcome, verdict, policyResult, EgressPolicy.getPostOutPolicyAttributesAndInfo, hsome]
  split
  · rfl
  · cases hown : (s.policy.applyPolicy update).policyCachedAttrs with
    | none =>
      rw [hown] at hsome
      rw [isSome_eq_false_iff.mp hsome.symm |> isNone_iff_eq_none.mp]
      rfl
    | some attrs =>
      rw [hown] at hsome
      obtain ⟨cachedAttrs, hcachedAttrs⟩ := isSome_iff_exists.mp hsome.symm
      rw [hcachedAttrs, map_some, map_some, EgressPolicy.postOutAttrs, EgressPolicy.postOutAttrs, hrest]
      congr 2
      split
      next hmask =>
        have hsame := hnh hmask
        rw [hown, hcachedAttrs] at hsame
        exact (Option.some.inj hsame).symm
      · rfl

theorem policyResult_none (hden : (s.policy.getPostOutPolicyAttributesAndInfo update update).policyCachedAttrs = none) :
    (s.policyResult checks update).policyCachedAttrs = none := by
  have hout := outcome_eq hcached
  rwa [verdict, hden, map_none, outcome, map_eq_none_iff] at hout

end

/-- A history leaves the key as the announcement has it: withdrawn if it may not go out, and otherwise with
what policy makes of it. -/
theorem Processed.advertised {s' : AdjRibOut R} (h : Layout s)
    (hcached : s.policy.sameCacheKey update (checks.cached update) = true) (hproc : Processed checks update s s') :
    (s.session.isAfiNegotiated update.pfx = false ∨ s.session.canAnnounceEntry update = false ∨
        (s.policy.getPostOutPolicyAttributesAndInfo update update).policyCachedAttrs = none →
      s'.advertised (s.keyOf update.pfx update.attrs.nexthop) = none) ∧
    (s.session.isAfiNegotiated update.pfx = true → s.session.canAnnounceEntry update = true →
      s.Supported checks update → ¬s.Refused checks update →
      s'.advertised (s.keyOf update.pfx update.attrs.nexthop) = s.verdict update) := by
  obtain ⟨hblk, hnone⟩ | ⟨hneg, hcan, hsame⟩ := hproc.cases h
  · refine ⟨fun _ => hnone, fun hneg hcan => ?_⟩
    rw [hneg, hcan] at hblk
    obtain hblk | hblk := hblk <;> cases hblk
  · refine ⟨fun hden => ?_, fun _ _ hsup hrefused => ?_⟩
    · rw [hneg, hcan] at hden
      obtain hden | hden | hden := hden
      · cases hden
      · cases hden
      · rw [hsame]
        exact advertised_eq_none_of_denied h hneg (policyResult_none hcached hden)
    · rw [hsame, advertised_processRibAnnouncedEntry h hneg hsup hrefused, outcome_eq hcached]

end AdjRibOut

/-- Two histories that end with the same announcement under the same policy and session parameters agree on
its key, where the limit on all paths lets it in and its nexthop can be encoded; a split horizon or a denial
of the policy withdraws it in any case. -/
theorem advertised_eq_of_same_announcement (session : EgressSession R) (policy policy' : EgressPolicy R)
    (s t : AdjRibOut R) (hs : Reachable (adjRibOutSystem session policy) s)
    (ht : Reachable (adjRibOutSystem session policy') t) (hpolicy : t.policy = s.policy)
    (update : RibOutAnnouncementEntry R) (checks checks' : EgressChecks R)
    (hcached : s.policy.sameCacheKey update (checks.cached update) = true)
    (hcached' : s.policy.sameCacheKey update (checks'.cached update) = true) (s' t' : AdjRibOut R)
    (hs' : AdjRibOut.Processed checks update s s') (ht' : AdjRibOut.Processed checks' update t t') :
    (session.isAfiNegotiated update.pfx = false ∨ session.canAnnounceEntry update = false ∨
        (s.policy.getPostOutPolicyAttributesAndInfo update update).policyCachedAttrs = none →
      s'.advertised (s.keyOf update.pfx update.attrs.nexthop) = none) ∧
    (s.Supported checks update → t.Supported checks' update → ¬s.Refused checks update → ¬t.Refused checks' update →
      s'.advertised (s.keyOf update.pfx update.attrs.nexthop) =
        t'.advertised (t.keyOf update.pfx update.attrs.nexthop)) := by
  obtain ⟨hlay, rfl⟩ := AdjRibOut.layout_of_reachable hs
  obtain ⟨hlay', hses⟩ := AdjRibOut.layout_of_reachable ht
  obtain ⟨hnone, hsome⟩ := hs'.advertised hlay hcached
  obtain ⟨hnone', hsome'⟩ := ht'.advertised hlay' (hpolicy ▸ hcached')
  rw [hses, hpolicy] at hnone'
  rw [hses, AdjRibOut.verdict, hpolicy, ← AdjRibOut.verdict] at hsome'
  refine ⟨hnone, fun hsup hsup' hrefused hrefused' => ?_⟩
  cases hneg : s.session.isAfiNegotiated update.pfx with
  | false => rw [hnone (.inl hneg), hnone' (.inl hneg)]
  | true =>
    cases hcan : s.session.canAnnounceEntry update with
    | false => rw [hnone (.inr (.inl hcan)), hnone' (.inr (.inl hcan))]
    | true => rw [hsome hneg hcan hsup hrefused, hsome' hneg hcan hsup' hrefused']

end

/-- A dump that advertises the prefix of the samples with another nexthop. -/
def earlierDump : AdjRibOutAction Unit :=
  .processRibOutAnnouncement uncached 0
    { entries := [sampleUpdate samplePeerPrefix (.ofOctets 192 0 2 10)], initialDump := true, sendWithEoR := true }

@[irreducible] def advertisedState : AdjRibOut Unit :=
  run (adjRibOutSystem classicSession permitAll) (adjRibOutSystem classicSession permitAll).init [earlierDump]

theorem reachable_advertisedState : Reachable (adjRibOutSystem classicSession permitAll) advertisedState := by
  have hadm : Admits (adjRibOutSystem classicSession permitAll)
      (adjRibOutSystem classicSession permitAll).init [earlierDump] := by
    unfold adjRibOutSystem
    decide +kernel
  unfold advertisedState
  exact Reachable.init.run hadm

theorem policy_advertisedState : permitAll = advertisedState.policy := by
  unfold advertisedState
  rfl

/-- The announcement of the samples, after a dump and in a fresh session. -/
theorem advertised_eq_of_same_announcement_advertisedState :
    (advertisedState.handleRibAnnouncedEntry uncached 0 true (sampleUpdate samplePeerPrefix sampleV4Nexthop)).advertised
        (advertisedState.keyOf samplePeerPrefix sampleV4Nexthop) =
      ((adjRibOutSystem classicSession permitAll).init.handleRibAnnouncedEntry uncached 0 true
        (sampleUpdate samplePeerPrefix sampleV4Nexthop)).advertised
        ((adjRibOutSystem classicSession permitAll).init.keyOf samplePeerPrefix sampleV4Nexthop) := by
  have hsup : advertisedState.Supported uncached (sampleUpdate samplePeerPrefix sampleV4Nexthop) ∧
      ¬advertisedState.Refused uncached (sampleUpdate samplePeerPrefix sampleV4Nexthop) := by
    decide +kernel
  have hcached : advertisedState.policy.sameCacheKey (sampleUpdate samplePeerPrefix sampleV4Nexthop)
      (uncached.cached (sampleUpdate samplePeerPrefix sampleV4Nexthop)) = true := policy_advertisedState ▸ rfl
  exact (advertised_eq_of_same_announcement classicSession permitAll permitAll advertisedState
    (adjRibOutSystem classicSession permitAll).init reachable_advertisedState .init policy_advertisedState
    (sampleUpdate samplePeerPrefix sampleV4Nexthop) uncached uncached hcached hcached _ _ (.arrived 0 true nofun)
    (.arrived 0 true nofun)).2 hsup.1 (by decide +kernel) hsup.2 (by decide +kernel)

/-- The limit on all paths is reached: an entry is updated, but no new one is made. -/
theorem exists_histories_differ : ∃ s t : AdjRibOut Unit, Reachable (adjRibOutSystem classicSession permitAll) s ∧
    Reachable (adjRibOutSystem classicSession permitAll) t ∧ t.policy = s.policy ∧
    ∃ s' t', AdjRibOut.Processed ⟨fun _ => true, id⟩ (sampleUpdate samplePeerPrefix sampleV4Nexthop) s s' ∧
      AdjRibOut.Processed ⟨fun _ => true, id⟩ (sampleUpdate samplePeerPrefix sampleV4Nexthop) t t' ∧
      s'.advertised (samplePeerPrefix, 0) = some ⟨sampleV4Nexthop, ()⟩ ∧ t'.advertised (samplePeerPrefix, 0) = none := by
  refine ⟨advertisedState, (adjRibOutSystem classicSession permitAll).init, reachable_advertisedState, .init,
    policy_advertisedState, _, _, .arrived 0 true nofun, .arrived 0 true nofun, ?_, by decide +kernel⟩
  decide +kernel

end FbossBgp.AdjRib
