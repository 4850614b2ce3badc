import FbossBgp.AdjRib.AdjRibOutSteps

/-! The UPDATEs pushed to a peer, followed by what is staged in the packing list, say what the RIB-OUT
advertises. -/

namespace FbossBgp.AdjRib

open BgpLib (IPAddress)
open Replay Transition
open Rib (CIDRNetwork kDefaultPathID)

def RiggedIPPrefix.key (rigPrefix : RiggedIPPrefix) : PrefixPathId :=
  (rigPrefix.pfx, rigPrefix.pathId.getD kDefaultPathID)

section

variable {R : Type}

/-- What an UPDATE tells the peer. -/
def BgpUpdate2.events : BgpUpdate2 R → List (PrefixPathId × Option (BgpPath R))
  | .announced attrs _ _ prefixes => prefixes.map fun rigPrefix => (rigPrefix.key, some attrs)
  | .withdrawn _ prefixes => prefixes.map fun rigPrefix => (rigPrefix.key, none)

namespace AdjRibOut

def sentEvents (s : AdjRibOut R) : List (PrefixPathId × Option (BgpPath R)) := s.adjRibOutQueue.flatMap BgpUpdate2.events

/-- The events are those of the packing list, in any order. -/
def Pending (s : AdjRibOut R) (events : List (PrefixPathId × Option (BgpPath R))) : Prop :=
  ∀ event, event ∈ events ↔ ∃ bucket ∈ s.attrToPrefixMap.items, event.1 ∈ bucket.prefixes ∧ event.2 = bucket.path.attrs

/-- A message can be built for the path. -/
def Sendable (session : EgressSession R) (path : BgpPathWithAfi R) : Prop :=
  ∀ attrs ∈ path.attrs, session.v4EncodingDecision (path.afi = .AFI_IPv4)
    (session.getNewNexthopFromAttributesOut (path.afi = .AFI_IPv4) attrs path.isNexthopSetByPolicy) ≠ .Drop

/-- A peer that gets classic NLRI is told of an IPv4 route by a policy result of the route's own nexthop. -/
def CacheMatches (s : AdjRibOut R) (checks : EgressChecks R) (update : RibOutAnnouncementEntry R) : Prop :=
  s.session.legacyV4NlriEncoding = true → update.pfx.addr.isV4 = true →
    s.policy.nexthopMask = true ∨ (checks.cached update).attrs.nexthop = update.attrs.nexthop
  deriving Decidable

theorem afiOf_eq_AFI_IPv4_iff (pfx : CIDRNetwork) : afiOf pfx = .AFI_IPv4 ↔ pfx.addr.isV4 = true := by
  unfold afiOf
  split
  next h => simp [h]
  next h => simp [h]

theorem isV6_eq_false_of_isV4 {addr : IPAddress} (h : addr.isV4 = true) : addr.isV6 = false := by
  cases addr with
  | empty => rfl
  | v4 _ _ => rfl
  | v6 _ _ => cases h

variable {s : AdjRibOut R} {session : EgressSession R} {update : RibOutAnnouncementEntry R} {checks : EgressChecks R}
  {attrs : BgpPath R} {pfx : CIDRNetwork}

/-- What policy permits stems from the cached announcement. -/
theorem mem_policyCachedAttrs
    (h : attrs ∈ (s.policyResult checks update).policyCachedAttrs) :
    (s.policy.applyPolicy (checks.cached update)).policyCachedAttrs = some attrs := by
  simp only [policyResult, EgressPolicy.getPostOutPolicyAttributesAndInfo] at h
  split at h
  · exact (Option.not_mem_none attrs h).elim
  · exact h

/-- The nexthop that is checked is then the one that is sent. -/
theorem nexthop_postOutAttrs
    (hnh : s.policy.nexthopMask = true ∨ (checks.cached update).attrs.nexthop = update.attrs.nexthop)
    (h : attrs ∈ (s.policyResult checks update).policyCachedAttrs) :
    (s.policy.postOutAttrs update (s.policyResult checks update) attrs).nexthop = attrs.nexthop := by
  rw [EgressPolicy.postOutAttrs]
  split
  · rfl
  next hmask =>
    have hcached := s.policy.nexthop_applyPolicy (Bool.eq_false_of_not_eq_true hmask) (mem_policyCachedAttrs h)
    obtain hmask' | hsame := hnh
    · exact (hmask hmask').elim
    · exact (hcached.trans hsame).symm

theorem getNewNexthopFromAttributesOut_congr {attrs' : BgpPath R}
    (h : attrs.nexthop = attrs'.nexthop) (isV4Prefix isNexthopSetByPolicy : Bool) :
    session.getNewNexthopFromAttributesOut isV4Prefix attrs isNexthopSetByPolicy =
      session.getNewNexthopFromAttributesOut isV4Prefix attrs' isNexthopSetByPolicy := by
  unfold EgressSession.getNewNexthopFromAttributesOut EgressSession.shouldApplyNexthopSelf
  rw [h]

/-- A supported nexthop fits the classic encoding where that is used. -/
theorem v4EncodingDecision_ne_drop {newNexthop : IPAddress}
    (h : session.legacyV4NlriEncoding = true → pfx.addr.isV4 = true →
      newNexthop = .empty ∨ session.isNexthopSupported pfx newNexthop = true) :
    session.v4EncodingDecision pfx.addr.isV4 newNexthop ≠ .Drop := by
  unfold EgressSession.v4EncodingDecision
  split
  · simp
  next hclassic =>
    simp only [Bool.or_eq_true, Bool.not_eq_true', not_or, Bool.not_eq_false, Bool.not_eq_true] at hclassic
    obtain ⟨⟨hv4, hlegacy⟩, hext⟩ := hclassic
    have hnh : newNexthop.isV6 = false := by
      obtain rfl | hsup := h hlegacy hv4
      · rfl
      · have hover : session.isV4OverV6NexthopNegotiated = false := by rw [← session.extNh_of_legacy hlegacy, hext]
        have hv6 : pfx.addr.isV6 = false := isV6_eq_false_of_isV4 hv4
        rw [EgressSession.isNexthopSupported, hv4, hover, hv6] at hsup
        exact isV6_eq_false_of_isV4 (by simpa using hsup)
    rw [if_neg (by simp [hnh])]
    simp

theorem sends_of_cacheMatches (h : s.CacheMatches checks update) : Sends (Sendable s.session) s checks update := by
  intro hsup attrs hattrs sentAttrs hsent
  cases hsent
  obtain ⟨policyCachedAttrs, hcached, rfl⟩ := Option.map_eq_some_iff.mp hattrs
  have hafi : decide (afiOf update.pfx = .AFI_IPv4) = update.pfx.addr.isV4 := by
    rw [Bool.eq_iff_iff, decide_eq_true_iff, afiOf_eq_AFI_IPv4_iff]
  simp only [hafi]
  refine v4EncodingDecision_ne_drop fun hlegacy hv4 => ?_
  rw [getNewNexthopFromAttributesOut_congr (nexthop_postOutAttrs (h hlegacy hv4) hcached)]
  exact hsup policyCachedAttrs hcached

variable [DecidableEq R] {path : BgpPathWithAfi R} {packed : List PrefixPathId}

/-- A key is staged for one path at most, with the attributes that the RIB-OUT advertises; one that is not
staged has been sent with them. -/
structure Packed (session : EgressSession R) (s : AdjRibOut R) : Prop where
  sameSession : s.session = session
  layout : Layout s
  unique : ∀ k path path', k ∈ s.attrToPrefixMap.prefixesAt path → k ∈ s.attrToPrefixMap.prefixesAt path' → path = path'
  staged : ∀ k path, k ∈ s.attrToPrefixMap.prefixesAt path → path.attrs = s.advertised k ∧ path.afi = afiOf k.1
  pathId : ∀ k path, k ∈ s.attrToPrefixMap.prefixesAt path → session.sendAddPath = false → k.2 = kDefaultPathID
  sendable : ∀ k path, k ∈ s.attrToPrefixMap.prefixesAt path → Sendable session path
  sent : ∀ k, (∀ path, k ∉ s.attrToPrefixMap.prefixesAt path) → replay s.sentEvents k = s.advertised k

/-- Prefixes may leave the packing list if they were sent with what it says of them. -/
theorem Packed.drain {s' : AdjRibOut R} (h : Packed session s) (hses : s'.session = s.session) (hlay : Layout s')
    (hadv : ∀ k, s'.advertised k = s.advertised k)
    (hsub : ∀ k path, k ∈ s'.attrToPrefixMap.prefixesAt path → k ∈ s.attrToPrefixMap.prefixesAt path)
    (hsent : ∀ k, (∀ path, k ∉ s'.attrToPrefixMap.prefixesAt path) → replay s'.sentEvents k = s.advertised k) :
    Packed session s' where
  sameSession := hses.trans h.sameSession
  layout := hlay
  unique k path path' hk hk' := h.unique k path path' (hsub k path hk) (hsub k path' hk')
  staged k path hk := hadv k ▸ h.staged k path (hsub k path hk)
  pathId k path hk := h.pathId k path (hsub k path hk)
  sendable k path hk := h.sendable k path (hsub k path hk)
  sent k hk := (hsent k hk).trans (hadv k).symm

theorem Packed.quiet {s' : AdjRibOut R} (h : Packed session s) (hquiet : Quiet s s') : Packed session s' := by
  refine h.drain hquiet.session (hquiet.layout h.layout) (fun k => by rw [advertised, hquiet.adjRibOut, advertised]) ?_ ?_
  · rw [hquiet.attrToPrefixMap]
    exact fun _ _ hk => hk
  · rw [hquiet.attrToPrefixMap, sentEvents, hquiet.adjRibOutQueue]
    exact h.sent

/-- Moving a key between the buckets keeps the packing list in step with the RIB-OUT. -/
theorem Packed.handled {s' : AdjRibOut R} (h : Packed session s)
    {nexthop : IPAddress} {value : Option (BgpPath R)} (hdone : Handled (Sendable session) pfx nexthop value s s') :
    Packed session s' := by
  have hsent : s'.sentEvents = s.sentEvents := by rw [sentEvents, hdone.kept.adjRibOutQueue, sentEvents]
  have hadv := hdone.staged.advertised
  obtain ⟨hval, hmap⟩ | ⟨flag, hsendable, hmap⟩ := hdone.staged.packing
  · have hsame : ∀ k, s'.advertised k = s.advertised k := by
      intro k
      rw [hadv]
      split
      next hk => rw [hval, hk]
      · rfl
    exact h.drain hdone.kept.session hdone.layout hsame (hmap ▸ fun _ _ hk => hk) (hmap ▸ hsent ▸ h.sent)
  · -- the key at hand is in the new bucket only, and all other keys are where they were
    have hself : ∀ path, s.keyOf pfx nexthop ∈ s'.attrToPrefixMap.prefixesAt path ↔
        path = ⟨value, afiOf (s.keyOf pfx nexthop).1, flag⟩ := by
      intro path
      rw [hmap]
      exact AttrToPrefixMap.mem_prefixesAt_tryUpdate_self (h.staged _) value flag path
    have hother : ∀ k path, k ≠ s.keyOf pfx nexthop →
        (k ∈ s'.attrToPrefixMap.prefixesAt path ↔ k ∈ s.attrToPrefixMap.prefixesAt path) := by
      intro k path hk
      rw [hmap]
      exact AttrToPrefixMap.mem_prefixesAt_tryUpdate_of_ne hk ..
    refine ⟨hdone.kept.session.trans h.sameSession, hdone.layout, fun k path path' hk hk' => ?_,
      fun k path hk => ?_, fun k path hk hadd => ?_, fun k path hk => ?_, fun k hk => ?_⟩ <;> by_cases hkey : k = s.keyOf pfx nexthop
    · rw [hkey, hself] at hk hk'
      exact hk.trans hk'.symm
    · rw [hother k _ hkey] at hk hk'
      exact h.unique k path path' hk hk'
    · rw [hadv, if_pos hkey]
      rw [hkey, hself] at hk
      rw [hk, hkey]
      exact ⟨rfl, rfl⟩
    · rw [hadv, if_neg hkey]
      exact h.staged k path ((hother k path hkey).mp hk)
    · have hissued := issued_keyOf s pfx nexthop
      rw [h.sameSession, if_neg (by simp [hadd])] at hissued
      rw [hkey, hissued]
    · exact h.pathId k path ((hother k path hkey).mp hk) hadd
    · rw [hkey, hself] at hk
      exact hk ▸ hsendable
    · exact h.sendable k path ((hother k path hkey).mp hk)
    · exact (hk _ (hkey ▸ (hself _).mpr rfl)).elim
    · rw [hsent, hadv, if_neg hkey]
      exact h.sent k fun path hpath => hk path ((hother k path hkey).mpr hpath)

/-- A prefix comes back from a message under the key it was packed with. -/
theorem key_rig {k : PrefixPathId} (h : s.session.sendAddPath = false → k.2 = kDefaultPathID) :
    (s.rig k).key = k := by
  unfold rig RiggedIPPrefix.key
  split
  · rfl
  next hadd => exact Prod.ext rfl (h (Bool.eq_false_of_not_eq_true hadd)).symm

/-- A message that is built tells the peer of the packed prefixes what the bucket says. -/
theorem events_buildUpdate {update : BgpUpdate2 R} (h : s.buildUpdate path packed = some update)
    (hpathId : ∀ k ∈ packed, s.session.sendAddPath = false → k.2 = kDefaultPathID) :
    update.events = packed.map (·, path.attrs) := by
  have hrig : ∀ attrs : Option (BgpPath R),
      (packed.map s.rig).map (fun rigPrefix => (rigPrefix.key, attrs)) = packed.map (·, attrs) := by
    intro attrs
    rw [List.map_map]
    exact List.map_congr_left fun k hk => Prod.ext (key_rig (hpathId k hk)) rfl
  unfold buildUpdate at h
  split at h
  next hattrs =>
    cases h
    rw [hattrs]
    exact hrig none
  next attrs hattrs =>
    rw [hattrs]
    simp only at h
    split at h
    · cases h
    · cases h
      exact hrig (some attrs)

theorem buildUpdate_ne_none (h : Sendable s.session path)
    (packed : List PrefixPathId) : s.buildUpdate path packed ≠ none := by
  unfold buildUpdate
  split
  · nofun
  next attrs hattrs =>
    simp only
    split
    next hdrop => exact (h attrs hattrs hdrop).elim
    · nofun

theorem Packed.sendBgpUpdate (h : Packed session s) (hen : s.Enabled (.sendBgpUpdate path packed)) :
    Packed session (s.sendBgpUpdate path packed) := by
  obtain ⟨bucket, hbucket, -, hpacked, -⟩ := hen
  have hpath : bucket.path = path := (Keyed.find_eq_some_iff.mp hbucket).2
  have hpfxs : s.attrToPrefixMap.prefixesAt path = bucket.prefixes := AttrToPrefixMap.prefixesAt_of_find hbucket
  have hstaged : ∀ k ∈ packed, k ∈ s.attrToPrefixMap.prefixesAt path := by
    intro k hk
    rw [hpfxs]
    exact hpacked (List.mem_toFinset.mpr hk)
  obtain ⟨hissued, hnegotiated, hdeferred⟩ := h.layout
  unfold AdjRibOut.sendBgpUpdate
  rw [hbucket]
  simp only
  split
  · -- a bucket for which no message can be built holds nothing
    next hbuild =>
      have hempty : ∀ k, k ∉ s.attrToPrefixMap.prefixesAt path := fun k hk =>
        buildUpdate_ne_none (h.sameSession ▸ h.sendable k path hk) packed hbuild
      have hmap : ∀ k path', k ∈ AttrToPrefixMap.prefixesAt (s.attrToPrefixMap.erase path) path' ↔
          k ∈ s.attrToPrefixMap.prefixesAt path' := by
        intro k path'
        rw [AttrToPrefixMap.prefixesAt_erase]
        split
        next hpath' => simp only [hpath', hempty k, Finset.notMem_empty]
        · exact Iff.rfl
      exact h.drain rfl ⟨hissued, hnegotiated, hdeferred⟩ (fun _ => rfl) (fun k path' => (hmap k path').mp) fun k hk =>
        h.sent k fun path' hpath' => hk path' ((hmap k path').mpr hpath')
  next update hbuild =>
    have hevents := events_buildUpdate hbuild fun k hk hadd => h.pathId k path (hstaged k hk) (h.sameSession ▸ hadd)
    have hmap : ∀ k path', (k ∈ AttrToPrefixMap.prefixesAt (if bucket.prefixes \ packed.toFinset = ∅ then
          s.attrToPrefixMap.erase path else s.attrToPrefixMap.put { bucket with prefixes := bucket.prefixes \ packed.toFinset })
          path' ↔ k ∈ s.attrToPrefixMap.prefixesAt path' ∧ ¬(path' = path ∧ k ∈ packed)) := by
      intro k path'
      split
      next hleft =>
        rw [AttrToPrefixMap.prefixesAt_erase]
        split
        next hpath' =>
          have : k ∈ bucket.prefixes → k ∈ packed := fun hk => by
            by_contra hnot
            have : k ∈ bucket.prefixes \ packed.toFinset := by simp [hk, hnot]
            rw [hleft] at this
            exact Finset.notMem_empty k this
          simp only [hpath', hpfxs, Finset.notMem_empty, true_and, false_iff, not_and, not_not]
          exact this
        next hpath' => simp only [hpath', false_and, not_false_eq_true, and_true]
      · rw [AttrToPrefixMap.prefixesAt_put, hpath]
        split
        next hpath' => simp only [hpath', hpfxs, Finset.mem_sdiff, List.mem_toFinset, true_and]
        next hpath' => simp only [hpath', false_and, not_false_eq_true, and_true]
    refine h.drain rfl ⟨hissued, hnegotiated, hdeferred⟩ (fun _ => rfl) (fun k path' hk => ((hmap k path').mp hk).1)
      fun k hk => ?_
    have hsent : replay (s.adjRibOutQueue ++ [update] |>.flatMap BgpUpdate2.events) k =
        (packed.map (·, path.attrs)).foldl apply (replay s.sentEvents) k := by
      rw [List.flatMap_append, List.flatMap_singleton, hevents, replay_append, sentEvents]
    refine hsent.trans ?_
    by_cases hk' : k ∈ packed
    · obtain ⟨event, hevent, -, hval⟩ := exists_foldl_apply_eq
        (by simpa using hk' : k ∈ (packed.map (·, path.attrs)).map Prod.fst) (replay s.sentEvents)
      obtain ⟨_, -, rfl⟩ := List.mem_map.mp hevent
      rw [hval]
      exact (h.staged k path (hstaged k hk')).1
    · rw [foldl_apply_of_not_mem (by simpa using hk')]
      exact h.sent k fun path' hpath' => hk path' ((hmap k path').mpr ⟨hpath', fun hand => hk' hand.2⟩)

/-- The announcements that an action evaluates meet the condition on the policy cache. -/
def Matches (s : AdjRibOut R) : AdjRibOutAction R → Prop
  | .processRibOutAnnouncement checks _ announcement =>
    ∀ update ∈ announcement.entries ++ announcement.addPathEntries, s.CacheMatches checks update
  | .processShadowRibEntryChange checks _ srEntry =>
    ∀ route ∈ srEntry.bestpath.toList ++ srEntry.multipaths, s.CacheMatches checks (announcementOf srEntry route)
  | .programOutDelayTimer checks _ => ∀ update ∈ s.deferredUpdates.items, s.CacheMatches checks update
  | _ => True

instance (s : AdjRibOut R) : ∀ action : AdjRibOutAction R, Decidable (s.Matches action)
  | .processRibOutAnnouncement .. | .processShadowRibEntryChange .. | .programOutDelayTimer .. => by
    dsimp only [Matches]
    infer_instance
  | .processRibOutWithdrawal .. | .scheduleOutDelayTimer .. | .sendBgpUpdate .. | .sendPendingEoRs
  | .setEgressPolicy .. => instDecidableTrue

theorem Matches.sends {action : AdjRibOutAction R} (h : s.Matches action) :
    ActionSends (Sendable s.session) s action := by
  cases action with
  | processRibOutAnnouncement checks now announcement => exact fun update hupd => sends_of_cacheMatches (h update hupd)
  | processShadowRibEntryChange checks now srEntry => exact fun route hroute => sends_of_cacheMatches (h route hroute)
  | programOutDelayTimer checks now => exact fun update hupd => sends_of_cacheMatches (h update hupd)
  | _ => trivial

end AdjRibOut

variable (session : EgressSession R)

/-- The egress side, in runs whose actions all meet the condition on the policy cache. -/
def matchedSystem [DecidableEq R] (policy : EgressPolicy R) :
    System (AdjRibOut R) (AdjRibOutAction R) where
  init := (adjRibOutSystem session policy).init
  enabled s action := s.Enabled action ∧ s.Matches action
  exec := AdjRibOut.exec

variable [DecidableEq R] {s : AdjRibOut R}

open AdjRibOut

theorem packed_of_reachable {session : EgressSession R} {policy : EgressPolicy R}
    (h : Reachable (matchedSystem session policy) s) : Packed session s := by
  induction h with
  | init => exact ⟨rfl, ⟨fun _ hkey => (hkey rfl).elim, fun _ hkey => (hkey rfl).elim, nofun⟩, nofun, nofun, nofun,
      nofun, fun _ _ => rfl⟩
  | step _ hen ih =>
    have hcl : Closed (Sendable session) (Packed session) := ⟨fun _ => nofun, (·.layout), .quiet, (·.handled)⟩
    refine hcl.exec ih (ih.sameSession ▸ hen.2.sends) fun path packed haction => ?_
    exact ih.sendBgpUpdate (haction ▸ hen.1)

theorem mem_prefixesAt {bucket : PackingBucket R} (hbucket : bucket ∈ s.attrToPrefixMap.items)
    {key : PrefixPathId} (hkey : key ∈ bucket.prefixes) : key ∈ s.attrToPrefixMap.prefixesAt bucket.path := by
  rw [AttrToPrefixMap.prefixesAt_of_find (Keyed.find_key hbucket)]
  exact hkey

/-- Each key is in one bucket of the packing list at most, and the messages pushed to the peer followed by
the buckets, in any order, say what the RIB-OUT advertises. -/
theorem replay_sent_pending_eq_advertised (session : EgressSession R) (policy : EgressPolicy R) (s : AdjRibOut R)
    (h : Reachable (matchedSystem session policy) s) :
    (∀ bucket ∈ s.attrToPrefixMap.items, ∀ bucket' ∈ s.attrToPrefixMap.items, ∀ key,
      key ∈ bucket.prefixes → key ∈ bucket'.prefixes → bucket = bucket') ∧
    ∀ pending, s.Pending pending → ∀ key, replay (s.sentEvents ++ pending) key = s.advertised key := by
  have hpacked := packed_of_reachable h
  refine ⟨fun bucket hbucket bucket' hbucket' key hkey hkey' => ?_, fun pending hpend key => ?_⟩
  · exact s.attrToPrefixMap.eq_of_key_eq hbucket hbucket'
      (hpacked.unique key _ _ (mem_prefixesAt hbucket hkey) (mem_prefixesAt hbucket' hkey'))
  · rw [replay_append]
    by_cases hkey : key ∈ pending.map Prod.fst
    · obtain ⟨event, hevent, rfl, hval⟩ := exists_foldl_apply_eq hkey (replay s.sentEvents)
      obtain ⟨bucket, hbucket, hmem, hattrs⟩ := (hpend event).mp hevent
      rw [hval, hattrs]
      exact (hpacked.staged _ _ (mem_prefixesAt hbucket hmem)).1
    · rw [foldl_apply_of_not_mem hkey]
      refine hpacked.sent key fun path hpath => hkey ?_
      cases hbucket : s.attrToPrefixMap.find path with
      | none =>
        rw [AttrToPrefixMap.prefixesAt_of_none hbucket] at hpath
        exact (Finset.notMem_empty key hpath).elim
      | some bucket =>
        rw [AttrToPrefixMap.prefixesAt_of_find hbucket] at hpath
        have hevent := (hpend (key, bucket.path.attrs)).mpr
          ⟨bucket, (Keyed.find_eq_some_iff.mp hbucket).1, hpath, rfl⟩
        exact List.mem_map_of_mem (f := Prod.fst) hevent

end

def otherPeerPrefix : CIDRNetwork := ⟨.ofOctets 198 51 100 0, 24⟩

def samplePath (nexthop : IPAddress) : BgpPathWithAfi Unit := ⟨some ⟨nexthop, ()⟩, .AFI_IPv4, false⟩

/-- Two routes are dumped and sent; then one is withdrawn. -/
def withdrawnActions : List (AdjRibOutAction Unit) :=
  [.processRibOutAnnouncement uncached 0
      { entries := [sampleUpdate samplePeerPrefix sampleV4Nexthop,
          sampleUpdate otherPeerPrefix (.ofOctets 192 0 2 10)],
        initialDump := true, sendWithEoR := true },
    .sendBgpUpdate (samplePath sampleV4Nexthop) [(samplePeerPrefix, 0)],
    .sendBgpUpdate (samplePath (.ofOctets 192 0 2 10)) [(otherPeerPrefix, 0)],
    .sendPendingEoRs,
    .processRibOutWithdrawal { entries := [⟨samplePeerPrefix, some sampleV4Nexthop⟩] }]

@[irreducible] def withdrawnState : AdjRibOut Unit :=
  run (matchedSystem classicSession permitAll) (matchedSystem classicSession permitAll).init withdrawnActions

theorem replay_sent_pending_eq_advertised_withdrawnState :
    Reachable (matchedSystem classicSession permitAll) withdrawnState ∧
      withdrawnState.Pending [((samplePeerPrefix, 0), none)] ∧
      replay (withdrawnState.sentEvents ++ [((samplePeerPrefix, 0), none)]) (otherPeerPrefix, 0) =
        withdrawnState.advertised (otherPeerPrefix, 0) := by
  have hadm : Admits (matchedSystem classicSession permitAll)
      (matchedSystem classicSession permitAll).init withdrawnActions := by
    unfold matchedSystem
    decide +kernel
  have hreach : Reachable (matchedSystem classicSession permitAll) withdrawnState := by
    unfold withdrawnState
    exact Reachable.init.run hadm
  have hpend : withdrawnState.Pending [((samplePeerPrefix, 0), none)] := by
    have hitems : withdrawnState.attrToPrefixMap.items = [⟨⟨none, .AFI_IPv4, false⟩, {(samplePeerPrefix, 0)}⟩] := by
      decide +kernel
    intro event
    rw [hitems]
    simp [Prod.ext_iff]
  exact ⟨hreach, hpend, (replay_sent_pending_eq_advertised classicSession permitAll withdrawnState hreach).2
    _ hpend _⟩

/-- The policy's result for a route with an IPv4 nexthop is found for one with an IPv6 nexthop. -/
def droppedActions : List (AdjRibOutAction Unit) :=
  [.processRibOutAnnouncement ⟨fun _ => false, fun _ => sampleUpdate samplePeerPrefix sampleV4Nexthop⟩ 0
      { entries := [sampleUpdate samplePeerPrefix sampleV4Nexthop, sampleUpdate otherPeerPrefix sampleV6Nexthop],
        initialDump := true, sendWithEoR := true },
    .sendBgpUpdate (samplePath sampleV4Nexthop) [(samplePeerPrefix, 0)],
    .sendBgpUpdate (samplePath sampleV6Nexthop) [(otherPeerPrefix, 0)]]

@[irreducible] def droppedState : AdjRibOut Unit :=
  run (adjRibOutSystem classicSession permitAll) (adjRibOutSystem classicSession permitAll).init droppedActions

/-- The RIB-OUT advertises a route of which the peer is not told and nothing is staged. -/
theorem exists_advertised_not_sent : ∃ s, Reachable (adjRibOutSystem classicSession permitAll) s ∧
    s.Pending [] ∧ s.advertised (otherPeerPrefix, 0) = some ⟨sampleV6Nexthop, ()⟩ ∧
    replay (s.sentEvents ++ []) (otherPeerPrefix, 0) = none := by
  have hadm : Admits (adjRibOutSystem classicSession permitAll)
      (adjRibOutSystem classicSession permitAll).init droppedActions := by
    unfold adjRibOutSystem
    decide +kernel
  have hreach : Reachable (adjRibOutSystem classicSession permitAll) droppedState := by
    unfold droppedState
    exact Reachable.init.run hadm
  have hitems : droppedState.attrToPrefixMap.items = [] := by
    decide +kernel
  refine ⟨droppedState, hreach, fun event => ?_, ?_, ?_⟩
  · rw [hitems]
    simp
  · decide +kernel
  · decide +kernel

end FbossBgp.AdjRib
