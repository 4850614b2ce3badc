import FbossBgp.BgpLib.UpdateDecoding

/-! An update comes back from the wire: decoding the messages that it was serialized into gives its four
lists of prefixes again, in order. -/

namespace FbossBgp.BgpLib

open Bytes Outcome Reader Writer List

/-- The lists of prefixes of an update, in the order they are serialized. -/
inductive NlriField
  | v4Withdrawn
  | mpWithdrawn
  | mpAnnounced
  | v4Announced
  deriving DecidableEq

def BgpUpdate2.nlri (update : BgpUpdate2) : NlriField → List RiggedIPPrefix
  | .v4Withdrawn => update.withdrawn
  | .mpWithdrawn => update.mpWithdrawn.prefixes
  | .mpAnnounced => update.mpAnnounced.prefixes
  | .v4Announced => update.announced

section

variable {capa : BgpCapabilities} (state : UpdateMsgParsingState)

theorem nlri_toUpdate (field : NlriField) : (state.toUpdate capa).nlri field = match field with
    | .v4Withdrawn => state.v4Withdrawn.map fun bgpPrefix => bgpPrefix.toV4 (hasAddPathCap capa)
    | .mpWithdrawn => state.mpWithdrawn.map BgpPrefix.toRigged
    | .mpAnnounced => state.mpAnnounced.map BgpPrefix.toRigged
    | .v4Announced => state.v4Announced.map fun bgpPrefix => bgpPrefix.toV4 (hasAddPathCap capa) := by
  cases field with
  | mpWithdrawn | mpAnnounced => rfl
  | v4Withdrawn =>
    rw [BgpUpdate2.nlri, BgpUpdate2.withdrawn]
    cases hnil : state.v4Withdrawn <;> simp [UpdateMsgParsingState.toUpdate, hnil]
  | v4Announced =>
    rw [BgpUpdate2.nlri, BgpUpdate2.announced]
    cases hnil : state.v4Announced <;> simp [UpdateMsgParsingState.toUpdate, hnil]

theorem hasAddPathCap_of_parsesPathId {safi : BgpUpdateSafi} (h : parsesPathId capa .afiIPv4 safi = true) :
    hasAddPathCap capa = true := by
  have hfold : ∀ (caps : List BgpAddPathCapability) (start : Bool),
      caps.foldl (fun parsePathId cap => if cap.afi = .afiIPv4 ∧ cap.safi = safi then
        decide (cap.sor = .receive ∨ cap.sor = .both) else parsePathId) start = true →
      start = true ∨ ∃ cap ∈ caps, cap.afi = .afiIPv4 ∧ (cap.sor = .receive ∨ cap.sor = .both) := by
    intro caps
    induction caps with
    | nil => exact fun start hstart => .inl hstart
    | cons cap caps ih =>
      intro start hstart
      rcases ih _ hstart with hturn | ⟨other, hmem, hother⟩
      · dsimp only at hturn
        split at hturn
        next hcap => exact .inr ⟨cap, mem_cons_self, hcap.1, of_decide_eq_true hturn⟩
        · exact .inl hturn
      · exact .inr ⟨other, mem_cons_of_mem cap hmem, hother⟩
  rcases hfold _ _ h with hfalse | ⟨cap, hmem, hcap⟩
  · cases hfalse
  · rw [hasAddPathCap, any_eq_true]
    exact ⟨cap, hmem, decide_eq_true hcap⟩

variable {prefixes : List RiggedIPPrefix}

theorem map_toV4_decodePrefix (hwr : ∀ rigged ∈ prefixes, PrefixWritable .afiIPv4 .safiUnicast rigged)
    (hfits : ∀ rigged ∈ prefixes, FitsSession (parsesPathId capa .afiIPv4 .safiUnicast) rigged) :
    (prefixes.map decodePrefix).map (fun bgpPrefix => bgpPrefix.toV4 (hasAddPathCap capa)) = prefixes := by
  rw [map_map]
  apply (map_congr_left _).trans (map_id prefixes)
  intro rigged hmem
  have hrigged := toRigged_decodePrefix (hwr rigged hmem) (hfits rigged hmem).masked
  have hpathId : (if hasAddPathCap capa = true then rigged.pathId else none) = rigged.pathId := by
    cases hid : rigged.pathId with
    | none => exact ite_self _
    | some id =>
      have hparses := (hfits rigged hmem).pathId
      rw [hid] at hparses
      exact if_pos (hasAddPathCap_of_parsesPathId hparses.symm)
  calc (⟨(decodePrefix rigged).toIPPrefix, [], if hasAddPathCap capa = true then (decodePrefix rigged).pathId else none⟩ :
        RiggedIPPrefix)
      = (decodePrefix rigged).toRigged := congrArg _ hpathId
    _ = rigged := hrigged

theorem map_toRigged_decodePrefix {afi : BgpUpdateAfi} {parsePathId : Bool}
    (hwr : ∀ rigged ∈ prefixes, PrefixWritable afi .safiUnicast rigged)
    (hfits : ∀ rigged ∈ prefixes, FitsSession parsePathId rigged) :
    (prefixes.map decodePrefix).map BgpPrefix.toRigged = prefixes := by
  rw [map_map]
  apply (map_congr_left _).trans (map_id prefixes)
  exact fun rigged hmem => toRigged_decodePrefix (hwr rigged hmem) (hfits rigged hmem).masked

theorem flatMap_encodePrefix_ne_nil (safi : BgpUpdateSafi) (h : prefixes ≠ []) :
    prefixes.flatMap (encodePrefix safi) ≠ [] := by
  obtain ⟨rigged, rest, rfl⟩ := exists_cons_of_ne_nil h
  simp [encodePrefix]

end

section

variable {capa : BgpCapabilities} {prefixes : List RiggedIPPrefix} {bytes : Bytes} {update : BgpUpdate2}

theorem packMessage_eq_ok {afi : BgpUpdateAfi} {safi : BgpUpdateSafi} {room bufSize maxPrefixLen count : Nat}
    {finish : Bytes → Except Exception Bytes} {rest : List RiggedIPPrefix}
    (h : packMessage afi safi room bufSize maxPrefixLen finish rest = .ok (bytes, count)) :
    finish ((rest.take count).flatMap (encodePrefix safi)) = .ok bytes ∧
      ∀ rigged ∈ rest.take count, PrefixWritable afi safi rigged := by
  rw [packMessage, bind_eq_ok] at h
  obtain ⟨⟨nlri, count'⟩, hnlri, h⟩ := h
  rw [bind_eq_ok] at h
  obtain ⟨msg, hfinish, h⟩ := h
  cases h
  obtain ⟨rfl, -, hwr⟩ := serializeNlri_eq_ok (Nat.zero_le _) hnlri
  exact ⟨hfinish, hwr⟩

/-- The message is parsed into an update whose only prefixes are these, in the field. -/
def DecodesInto (capa : BgpCapabilities) (field : NlriField) (bytes : Bytes) (prefixes : List RiggedIPPrefix) : Prop :=
  ∃ decoded, parseBgpUpdateRaw bytes capa = .ok (.inl decoded) ∧
    ∀ other, decoded.nlri other = if other = field then prefixes else []

theorem decodesInto_v4Withdrawn (hne : prefixes ≠ [])
    (hwr : ∀ rigged ∈ prefixes, PrefixWritable .afiIPv4 .safiUnicast rigged)
    (hfits : ∀ rigged ∈ prefixes, FitsSession (parsesPathId capa .afiIPv4 .safiUnicast) rigged)
    (h : finishUpdate (prefixes.flatMap (encodePrefix .safiUnicast)) [] [] = .ok bytes) :
    DecodesInto capa .v4Withdrawn bytes prefixes := by
  refine ⟨_, parseBgpUpdateRaw_of_fields h (fun hnil => flatMap_encodePrefix_ne_nil _ hne hnil.1)
    (parseNlri_encode hwr hfits) rfl ⟨rfl, rfl⟩ rfl rfl rfl rfl, fun other => ?_⟩
  rw [nlri_toUpdate]
  cases other with
  | v4Withdrawn => exact map_toV4_decodePrefix hwr hfits
  | mpWithdrawn | mpAnnounced | v4Announced => rfl

theorem decodesInto_mpWithdrawn {nlri : BgpNlri} (hne : prefixes ≠ []) (huni : UnicastNlri capa nlri)
    (hsub : ∀ rigged ∈ prefixes, rigged ∈ nlri.prefixes)
    (hwr : ∀ rigged ∈ prefixes, PrefixWritable nlri.afi nlri.safi rigged)
    (h : finishUpdate [] (mpUnreachAttr nlri.afi nlri.safi (prefixes.flatMap (encodePrefix nlri.safi))) [] = .ok bytes) :
    DecodesInto capa .mpWithdrawn bytes prefixes := by
  have hlen := (finishUpdate_eq_ok h).2
  rw [length_updateBody, length_mpUnreachAttr] at hlen
  rw [huni.safi] at hwr h hlen
  obtain ⟨rigged, hmem⟩ := exists_mem_of_ne_nil prefixes hne
  have htakes := takesAttrs_mpUnreach huni hsub hwr ((hwr rigged hmem).family.imp And.right And.right)
    (flatMap_encodePrefix_ne_nil _ hne) (by omega)
  rw [TakesAttrs, flatMap_singleton, encode_mpUnreachWireAttr, huni.safi] at htakes
  refine ⟨_, parseBgpUpdateRaw_of_fields h (by simp [mpUnreachAttr]) rfl (htakes.untilEmpty_eq _) ⟨rfl, rfl⟩ rfl rfl rfl
    rfl, fun other => ?_⟩
  rw [nlri_toUpdate]
  cases other with
  | mpWithdrawn => exact map_toRigged_decodePrefix hwr fun rigged hmem => huni.fits rigged (hsub rigged hmem)
  | v4Withdrawn | mpAnnounced | v4Announced => rfl

theorem doSanityChecks_of_attrs {state : UpdateMsgParsingState} (horigin : state.hasOriginAttr = true)
    (hasPath : state.hasAsPathAttr = true) (hnh : state.v4Announced ≠ [] → state.v4Nexthop ≠ .empty) :
    doSanityChecks state = .ok () := by
  rw [doSanityChecks, horigin, hasPath, if_neg (by simp), if_neg fun hmiss => hnh hmiss.1 hmiss.2]
  rfl

theorem decodesInto_mpAnnounced {attrs : Bytes}
    (hdec : Decodable update) (hattrs : serializePathAttrs update capa.as4byte false = .ok attrs)
    (huni : UnicastNlri capa update.mpAnnounced) (hnh : NexthopMatches capa update.mpAnnounced)
    (hsub : ∀ rigged ∈ prefixes, rigged ∈ update.mpAnnounced.prefixes)
    (hwr : ∀ rigged ∈ prefixes, PrefixWritable update.mpAnnounced.afi update.mpAnnounced.safi rigged)
    (h : finishUpdate [] (attrs ++ mpReachAttr update.mpAnnounced.afi update.mpAnnounced.safi update.mpAnnounced.nexthop
      (prefixes.flatMap (encodePrefix update.mpAnnounced.safi))) [] = .ok bytes) :
    DecodesInto capa .mpAnnounced bytes prefixes := by
  obtain ⟨hawr, rfl, hattrsLength⟩ := serializePathAttrs_eq_ok_iff.mp hattrs
  have hlen := (finishUpdate_eq_ok h).2
  rw [length_updateBody, length_append, length_mpReachAttr] at hlen
  rw [huni.safi] at hwr h hlen
  have htakes := (takesAttrs_wireAttrs hattrsLength hawr hdec).append
    (takesAttrs_mpReach huni hsub hwr hnh (by omega))
  rw [TakesAttrs, flatMap_append, flatMap_singleton, encode_mpReachWireAttr, huni.safi] at htakes
  refine ⟨_, parseBgpUpdateRaw_of_fields h (by simp [mpReachAttr]) rfl (htakes.untilEmpty_eq _) ⟨rfl, rfl⟩ rfl rfl
    (doSanityChecks_of_attrs rfl rfl fun hnone => absurd rfl hnone) rfl, fun other => ?_⟩
  rw [nlri_toUpdate]
  cases other with
  | mpAnnounced => exact map_toRigged_decodePrefix hwr fun rigged hmem => huni.fits rigged (hsub rigged hmem)
  | v4Withdrawn | mpWithdrawn | v4Announced => rfl

theorem decodesInto_v4Announced {attrs : Bytes}
    (hdec : Decodable update) (hattrs : serializePathAttrs update capa.as4byte true = .ok attrs)
    (hwr : ∀ rigged ∈ prefixes, PrefixWritable .afiIPv4 .safiUnicast rigged)
    (hfits : ∀ rigged ∈ prefixes, FitsSession (parsesPathId capa .afiIPv4 .safiUnicast) rigged)
    (h : finishUpdate [] attrs (prefixes.flatMap (encodePrefix .safiUnicast)) = .ok bytes) :
    DecodesInto capa .v4Announced bytes prefixes := by
  obtain ⟨hawr, rfl, hattrsLength⟩ := serializePathAttrs_eq_ok_iff.mp hattrs
  have htakes := takesAttrs_wireAttrs hattrsLength hawr hdec
  have hnexthop : IPAddress.ofBytes (update.v4Nexthop.take 4) ≠ .empty := by
    obtain ⟨nh, hnh⟩ := hawr.nexthop rfl
    obtain ⟨-, hfam⟩ := IPAddress.bytes_of_fromBinary hnh
    rw [IPAddress.ofBytes, IPAddress.fromBinary_v4 (by rw [length_take]; omega)]
    simp
  refine ⟨_, parseBgpUpdateRaw_of_fields h (fun hnil => ?_) rfl (htakes.untilEmpty_eq _) ⟨rfl, rfl⟩ rfl
    (parseNlri_encode hwr hfits) (doSanityChecks_of_attrs rfl rfl fun _ => ?_) rfl, fun other => ?_⟩
  · exact absurd hnil.2 (by simp [wireAttrs, WireAttr.encode])
  · exact hnexthop
  · rw [nlri_toUpdate]
    cases other with
    | v4Announced => exact map_toV4_decodePrefix hwr hfits
    | v4Withdrawn | mpWithdrawn | mpAnnounced => rfl

end

/-- A message of at most the greatest length, whose three length fields say what is there. -/
structure WellFramed (bytes : Bytes) : Prop where
  length_le : bytes.length ≤ kMaxBgpMsgLen
  fields : ∃ withdrawn pathAttrs nlri, bytes = kBgpMarker ++ toBE 2 bytes.length ++
    [BgpMessageType.bgpMsgTypeUpdate.code] ++
      (toBE 2 withdrawn.length ++ withdrawn ++ toBE 2 pathAttrs.length ++ pathAttrs ++ nlri)

theorem wellFramed_of_finishUpdate {withdrawn pathAttrs nlri bytes : Bytes}
    (h : finishUpdate withdrawn pathAttrs nlri = .ok bytes) : WellFramed bytes := by
  obtain ⟨rfl, hlen⟩ := finishUpdate_eq_ok h
  refine ⟨by rw [length_frame]; exact hlen, withdrawn, pathAttrs, nlri, ?_⟩
  rw [length_frame]
  rfl

section

variable {capa : BgpCapabilities} {as4byte extNhEncoding : Bool} {update : BgpUpdate2} {fuel : Nat}
  {messages : List UpdateMessage} {prefixes : List RiggedIPPrefix} {field : NlriField}

/-- The session of the parser is that of the serializer, and the prefixes are unicast ones that fit it. -/
structure SessionMatches (capa : BgpCapabilities) (as4byte extNhEncoding : Bool) (update : BgpUpdate2) : Prop where
  as4byte : capa.as4byte = as4byte
  extNhEncoding : extNhEncoding = true → capa.extNHEncodingCapabilities ≠ []
  withdrawn : ∀ rigged ∈ update.withdrawn, FitsSession (parsesPathId capa .afiIPv4 .safiUnicast) rigged
  announced : ∀ rigged ∈ update.announced, FitsSession (parsesPathId capa .afiIPv4 .safiUnicast) rigged
  mpWithdrawn : update.mpWithdrawn.prefixes ≠ [] → UnicastNlri capa update.mpWithdrawn
  mpAnnounced : update.mpAnnounced.prefixes ≠ [] → UnicastNlri capa update.mpAnnounced

/-- What is announced has attributes that the parser takes, and v6 prefixes have a v6 next hop. -/
structure Announceable (update : BgpUpdate2) : Prop where
  decodable : update.announced ≠ [] ∨ update.mpAnnounced.prefixes ≠ [] → Decodable update
  nexthop : update.mpAnnounced.prefixes ≠ [] → update.mpAnnounced.afi = .afiIPv6 →
    update.mpAnnounced.nexthop.length = 16

/-- Parsing the messages of a section gives its prefixes in its field, and nothing in the others. -/
def SectionDecodes (capa : BgpCapabilities) (field : NlriField) (prefixes : List RiggedIPPrefix)
    (messages : List UpdateMessage) : Prop :=
  ∃ decoded : List BgpUpdate2, messages.mapM (fun msg => parseBgpUpdateRaw msg.bytes capa) = .ok (decoded.map .inl) ∧
    ∀ other, decoded.flatMap (fun update => update.nlri other) = if other = field then prefixes else []

theorem sectionDecodes_of_turns {turn : List RiggedIPPrefix → Bytes × Nat → Prop} (h : PackedBy turn prefixes messages)
    (hturn : ∀ {rest count bytes}, turn rest (bytes, count) → rest.take count ≠ [] →
      (∀ rigged ∈ rest.take count, rigged ∈ prefixes) → DecodesInto capa field bytes (rest.take count)) :
    SectionDecodes capa field prefixes messages := by
  obtain ⟨rfl, hturns⟩ := h
  have hdecodes : ∀ msg ∈ messages, DecodesInto capa field msg.bytes msg.prefixes := by
    intro msg hmem
    obtain ⟨hne, rest, count, hmsg, htake, hsub⟩ := hturns msg hmem
    rw [htake] at hne ⊢
    exact hturn hmsg hne fun rigged hrigged => hsub rigged (mem_of_mem_take hrigged)
  clear hturn hturns
  induction messages with
  | nil => exact ⟨[], rfl, fun other => (ite_self _).symm⟩
  | cons msg messages ih =>
    obtain ⟨first, hfirst, hfields⟩ := hdecodes msg mem_cons_self
    obtain ⟨decoded, hdecoded, hothers⟩ := ih fun other hmem => hdecodes other (mem_cons_of_mem msg hmem)
    refine ⟨first :: decoded, ?_, fun other => ?_⟩
    · rw [mapM_cons, hfirst, hdecoded]
      rfl
    · rw [flatMap_cons, hfields, hothers, flatMap_cons]
      split
      · rfl
      · rfl

section

variable {attrs : Except Exception Bytes} {needed : Nat}
  {message : Bytes → List RiggedIPPrefix → Except Exception (Bytes × Nat)}

theorem announcedSection_eq_ok_iff (hne : prefixes ≠ []) :
    (announcedSection fuel prefixes attrs needed message).run = some (.ok messages) ↔
      ∃ bytes, attrs = .ok bytes ∧ bytes.length + needed ≤ kMaxBgpUpdateVarLen ∧
        (packMessages (message bytes) fuel prefixes).run = some (.ok messages) := by
  rw [announcedSection, if_neg hne, run_bind_eq_ok]
  refine exists_congr fun bytes => and_congr ⟨Option.some.inj, congrArg some⟩ ?_
  dsimp only
  split
  · exact ⟨nofun, fun ⟨hle, _⟩ => absurd hle (by omega)⟩
  · exact ⟨fun h => ⟨by omega, h⟩, And.right⟩

theorem announcedSection_eq_ok
    (h : (announcedSection fuel prefixes attrs needed message).run = some (.ok messages)) :
    PackedBy (fun rest next => ∃ bytes, attrs = .ok bytes ∧ message bytes rest = .ok next) prefixes messages := by
  by_cases hpfxs : prefixes = []
  · rw [announcedSection, if_pos hpfxs] at h
    cases h
    exact ⟨hpfxs.symm, fun _ hmem => absurd hmem not_mem_nil⟩
  · obtain ⟨bytes, hbytes, -, hpack⟩ := (announcedSection_eq_ok_iff hpfxs).mp h
    refine ⟨(packMessages_eq_ok hpack).concat, fun msg hmem => ?_⟩
    obtain ⟨hne, rest, count, hturn, hrest⟩ := (packMessages_eq_ok hpack).turns msg hmem
    exact ⟨hne, rest, count, ⟨bytes, hbytes, hturn⟩, hrest⟩

end

theorem v4WithdrawnSection_nil (h : update.withdrawn = []) : (v4WithdrawnSection update fuel).run = some (.ok []) := by
  rw [v4WithdrawnSection, h]
  cases fuel <;> rfl

theorem mpWithdrawnSection_nil (h : update.mpWithdrawn.prefixes = []) :
    (mpWithdrawnSection update fuel).run = some (.ok []) := by
  rw [mpWithdrawnSection, h]
  cases fuel <;> rfl

theorem mpAnnouncedSection_nil (h : update.mpAnnounced.prefixes = []) :
    (mpAnnouncedSection update as4byte fuel).run = some (.ok []) := by
  rw [mpAnnouncedSection, announcedSection, if_pos h]
  rfl

theorem v4AnnouncedSection_nil (h : update.announced = []) :
    (v4AnnouncedSection update as4byte fuel).run = some (.ok []) := by
  rw [v4AnnouncedSection, announcedSection, if_pos h]
  rfl

theorem checkUpdate_eq_ok_iff : checkUpdate update extNhEncoding = .ok () ↔
    ¬(update.v4Announced2 ≠ [] ∧ update.v4Announced ≠ [] ∨ update.v4Withdrawn2 ≠ [] ∧ update.v4Withdrawn ≠ []) ∧
      ¬(update.announced = [] ∧ update.withdrawn = [] ∧ update.mpAnnounced.prefixes = [] ∧
        update.mpWithdrawn.prefixes = []) ∧
      (update.mpAnnounced.prefixes ≠ [] → ∃ nh, IPAddress.fromBinary update.mpAnnounced.nexthop = .ok nh ∧
        ¬(extNhEncoding = false ∧ update.mpAnnounced.afi = .afiIPv4 ∧ nh.isV6 = true)) := by
  rw [checkUpdate]
  by_cases hboth : update.v4Announced2 ≠ [] ∧ update.v4Announced ≠ [] ∨
      update.v4Withdrawn2 ≠ [] ∧ update.v4Withdrawn ≠ []
  · rw [if_pos hboth]
    exact iff_of_false (fun h => by cases h) fun h => h.1 hboth
  · rw [if_neg hboth]
    by_cases hnone : update.announced = [] ∧ update.withdrawn = [] ∧ update.mpAnnounced.prefixes = [] ∧
        update.mpWithdrawn.prefixes = []
    · simp only [if_pos hnone]
      exact iff_of_false (fun h => by cases h) fun h => h.2.1 hnone
    · simp only [if_neg hnone]
      refine Iff.trans ?_ ⟨fun h => ⟨hboth, hnone, h⟩, fun h => h.2.2⟩
      by_cases hpfxs : update.mpAnnounced.prefixes ≠ []
      · rw [if_pos hpfxs, bind_eq_ok, forall_prop_of_true hpfxs]
        refine exists_congr fun nh => and_congr_right fun _ => ?_
        split
        next hv6 => exact iff_of_false (fun h => by cases h) fun h => h hv6
        next hv6 => exact iff_of_true rfl hv6
      · rw [if_neg hpfxs]
        exact iff_of_true rfl fun h => absurd h hpfxs

section

variable (hmatches : SessionMatches capa as4byte extNhEncoding update)
include hmatches

/-- The serializer's check on the next hop and the family of the prefixes make it one that the parser takes. -/
theorem nexthopMatches_of_checkUpdate {rigged : RiggedIPPrefix} (hann : Announceable update)
    (hchk : checkUpdate update extNhEncoding = .ok ()) (hmem : rigged ∈ update.mpAnnounced.prefixes)
    (hwr : PrefixWritable update.mpAnnounced.afi update.mpAnnounced.safi rigged) :
    NexthopMatches capa update.mpAnnounced := by
  have hpfxs := ne_nil_of_mem hmem
  rcases hwr.family with ⟨-, h4⟩ | ⟨-, h6⟩
  · obtain ⟨nh, hnh, hallowed⟩ := (checkUpdate_eq_ok_iff.mp hchk).2.2 hpfxs
    obtain ⟨-, ⟨-, hlen⟩ | ⟨hv6, hlen⟩⟩ := IPAddress.bytes_of_fromBinary hnh
    · exact .inl ⟨h4, .inl hlen⟩
    · refine .inl ⟨h4, .inr ⟨hlen, hmatches.extNhEncoding ?_⟩⟩
      by_contra hext
      exact hallowed ⟨Bool.eq_false_of_not_eq_true hext, h4, hv6⟩
  · exact .inr ⟨h6, hann.nexthop hpfxs h6⟩

theorem v4WithdrawnSection_decodes (h : (v4WithdrawnSection update fuel).run = some (.ok messages)) :
    SectionDecodes capa .v4Withdrawn update.withdrawn messages := by
  apply sectionDecodes_of_turns (packMessages_eq_ok h)
  intro rest count bytes hmsg hne hsub
  rw [v4WithdrawnMessage] at hmsg
  obtain ⟨hfinish, hwr⟩ := packMessage_eq_ok hmsg
  exact decodesInto_v4Withdrawn hne hwr (fun rigged hmem => hmatches.withdrawn rigged (hsub rigged hmem)) hfinish

theorem mpWithdrawnSection_decodes (h : (mpWithdrawnSection update fuel).run = some (.ok messages)) :
    SectionDecodes capa .mpWithdrawn update.mpWithdrawn.prefixes messages := by
  apply sectionDecodes_of_turns (packMessages_eq_ok h)
  intro rest count bytes hmsg hne hsub
  rw [mpWithdrawnMessage] at hmsg
  obtain ⟨hfinish, hwr⟩ := packMessage_eq_ok hmsg
  obtain ⟨rigged, hmem⟩ := exists_mem_of_ne_nil _ hne
  exact decodesInto_mpWithdrawn hne (hmatches.mpWithdrawn (ne_nil_of_mem (hsub rigged hmem))) hsub hwr hfinish

theorem mpAnnouncedSection_decodes
    (hann : Announceable update) (hchk : checkUpdate update extNhEncoding = .ok ())
    (h : (mpAnnouncedSection update as4byte fuel).run = some (.ok messages)) :
    SectionDecodes capa .mpAnnounced update.mpAnnounced.prefixes messages := by
  obtain rfl := hmatches.as4byte
  apply sectionDecodes_of_turns (announcedSection_eq_ok h)
  rintro rest count bytes ⟨attrs, hattrs, hmsg⟩ hne hsub
  rw [mpAnnouncedMessage, bind_eq_ok] at hmsg
  obtain ⟨nh, hnh, hmsg⟩ := hmsg
  obtain ⟨hfinish, hwr⟩ := packMessage_eq_ok hmsg
  rw [(IPAddress.bytes_of_fromBinary hnh).1] at hfinish
  obtain ⟨rigged, hmem⟩ := exists_mem_of_ne_nil _ hne
  have hpfxs := ne_nil_of_mem (hsub rigged hmem)
  exact decodesInto_mpAnnounced (hann.decodable (.inr hpfxs)) hattrs (hmatches.mpAnnounced hpfxs)
    (nexthopMatches_of_checkUpdate hmatches hann hchk (hsub rigged hmem) (hwr rigged hmem)) hsub hwr hfinish

theorem v4AnnouncedSection_decodes
    (hann : Announceable update) (h : (v4AnnouncedSection update as4byte fuel).run = some (.ok messages)) :
    SectionDecodes capa .v4Announced update.announced messages := by
  obtain rfl := hmatches.as4byte
  apply sectionDecodes_of_turns (announcedSection_eq_ok h)
  rintro rest count bytes ⟨attrs, hattrs, hmsg⟩ hne hsub
  obtain ⟨hfinish, hwr⟩ := packMessage_eq_ok hmsg
  obtain ⟨rigged, hmem⟩ := exists_mem_of_ne_nil _ hne
  exact decodesInto_v4Announced (hann.decodable (.inl (ne_nil_of_mem (hsub rigged hmem)))) hattrs hwr
    (fun rigged hmem => hmatches.announced rigged (hsub rigged hmem)) hfinish

end

theorem serializeBgpUpdate2_eq_ok_iff : (serializeBgpUpdate2 update as4byte extNhEncoding fuel).run = some (.ok messages) ↔
    checkUpdate update extNhEncoding = .ok () ∧ ∃ v4Withdrawn mpWithdrawn mpAnnounced v4Announced,
      (v4WithdrawnSection update fuel).run = some (.ok v4Withdrawn) ∧
      (mpWithdrawnSection update fuel).run = some (.ok mpWithdrawn) ∧
      (mpAnnouncedSection update as4byte fuel).run = some (.ok mpAnnounced) ∧
      (v4AnnouncedSection update as4byte fuel).run = some (.ok v4Announced) ∧
      messages = v4Withdrawn ++ mpWithdrawn ++ mpAnnounced ++ v4Announced := by
  simp only [serializeBgpUpdate2, run_bind_eq_ok]
  constructor
  · rintro ⟨⟨⟩, hcheck, v4Withdrawn, h₁, mpWithdrawn, h₂, mpAnnounced, h₃, v4Announced, h₄, heq⟩
    cases heq
    exact ⟨Option.some.inj hcheck, _, _, _, _, h₁, h₂, h₃, h₄, rfl⟩
  · rintro ⟨hcheck, v4Withdrawn, mpWithdrawn, mpAnnounced, v4Announced, h₁, h₂, h₃, h₄, rfl⟩
    exact ⟨(), congrArg some hcheck, _, h₁, _, h₂, _, h₃, _, h₄, rfl⟩

theorem wellFramed_of_serializeBgpUpdate2
    (h : (serializeBgpUpdate2 update as4byte extNhEncoding fuel).run = some (.ok messages)) {msg : UpdateMessage}
    (hmem : msg ∈ messages) : WellFramed msg.bytes := by
  obtain ⟨-, v4Withdrawn, mpWithdrawn, mpAnnounced, v4Announced, h₁, h₂, h₃, h₄, rfl⟩ :=
    serializeBgpUpdate2_eq_ok_iff.mp h
  simp only [mem_append] at hmem
  rcases hmem with ((hmem | hmem) | hmem) | hmem
  · obtain ⟨-, rest, count, hturn, -⟩ := (packMessages_eq_ok h₁).turns msg hmem
    rw [v4WithdrawnMessage] at hturn
    exact wellFramed_of_finishUpdate (packMessage_eq_ok hturn).1
  · obtain ⟨-, rest, count, hturn, -⟩ := (packMessages_eq_ok h₂).turns msg hmem
    rw [mpWithdrawnMessage] at hturn
    exact wellFramed_of_finishUpdate (packMessage_eq_ok hturn).1
  · obtain ⟨-, rest, count, ⟨attrs, -, hturn⟩, -⟩ := (announcedSection_eq_ok h₃).turns msg hmem
    rw [mpAnnouncedMessage, bind_eq_ok] at hturn
    obtain ⟨nh, -, hturn⟩ := hturn
    exact wellFramed_of_finishUpdate (packMessage_eq_ok hturn).1
  · obtain ⟨-, rest, count, ⟨attrs, -, hturn⟩, -⟩ := (announcedSection_eq_ok h₄).turns msg hmem
    exact wellFramed_of_finishUpdate (packMessage_eq_ok hturn).1

/-- Every message of an update that was serialized is well framed, and decoding them in order gives the four
lists of prefixes again. -/
theorem decode_serializeBgpUpdate2 (hmatches : SessionMatches capa as4byte extNhEncoding update)
    (hannounceable : Announceable update)
    (h : (serializeBgpUpdate2 update as4byte extNhEncoding fuel).run = some (.ok messages)) :
    (∀ msg ∈ messages, WellFramed msg.bytes) ∧
      ∃ decoded : List BgpUpdate2,
        messages.mapM (fun msg => parseBgpUpdateRaw msg.bytes capa) = .ok (decoded.map .inl) ∧
          ∀ field, decoded.flatMap (fun decodedUpdate => decodedUpdate.nlri field) = update.nlri field := by
  obtain ⟨hchk, v4Withdrawn, mpWithdrawn, mpAnnounced, v4Announced, hv4Withdrawn, hmpWithdrawn, hmpAnnounced,
    hv4Announced, rfl⟩ := serializeBgpUpdate2_eq_ok_iff.mp h
  obtain ⟨decoded₁, hdecoded₁, hfields₁⟩ := v4WithdrawnSection_decodes hmatches hv4Withdrawn
  obtain ⟨decoded₂, hdecoded₂, hfields₂⟩ := mpWithdrawnSection_decodes hmatches hmpWithdrawn
  obtain ⟨decoded₃, hdecoded₃, hfields₃⟩ := mpAnnouncedSection_decodes hmatches hannounceable hchk hmpAnnounced
  obtain ⟨decoded₄, hdecoded₄, hfields₄⟩ := v4AnnouncedSection_decodes hmatches hannounceable hv4Announced
  refine ⟨fun _ => wellFramed_of_serializeBgpUpdate2 h, decoded₁ ++ decoded₂ ++ decoded₃ ++ decoded₄, ?_, fun field => ?_⟩
  · simp only [mapM_append, hdecoded₁, hdecoded₂, hdecoded₃, hdecoded₄, map_append]
    rfl
  · simp only [flatMap_append, hfields₁, hfields₂, hfields₃, hfields₄]
    cases field <;> simp [BgpUpdate2.nlri]

end

section

variable (nexthop : BinaryAddress)

/-- Announces 2001:db8::/32 with the given next hop, over a session with v6 unicast. -/
def v6Announcement : BgpUpdate2 where
  mpAnnounced :=
    { afi := .afiIPv6
      safi := .safiUnicast
      prefixes := [{ ipPrefix :=
        { prefixAddress := [0x20, 0x01, 0x0d, 0xb8] ++ List.replicate 12 0, prefixLength := 32 } }]
      nexthop := nexthop }

def v6Session : BgpCapabilities := { mpExtV6Unicast := true }

theorem sessionMatches_v6Announcement :
    SessionMatches v6Session false false (v6Announcement nexthop) where
  as4byte := rfl
  extNhEncoding := nofun
  withdrawn := fun _ hmem => absurd hmem not_mem_nil
  announced := fun _ hmem => absurd hmem not_mem_nil
  mpWithdrawn := fun hne => absurd rfl hne
  mpAnnounced := by
    refine fun _ => ⟨rfl, nofun, fun _ => rfl, fun rigged hmem => ?_⟩
    obtain rfl := mem_singleton.mp hmem
    exact ⟨⟨by decide, by decide, by decide⟩, rfl, nofun⟩

theorem decode_serializeBgpUpdate2_v6Announcement :
    ∃ messages, (serializeBgpUpdate2 (v6Announcement (List.replicate 16 1)) false false 1).run = some (.ok messages) ∧
      messages.length = 1 ∧
      ∃ decoded : List BgpUpdate2,
        messages.mapM (fun msg => parseBgpUpdateRaw msg.bytes v6Session) = .ok (decoded.map .inl) ∧
          ∀ field, decoded.flatMap (fun update => update.nlri field) =
            (v6Announcement (List.replicate 16 1)).nlri field := by
  have hrun : ∃ messages,
      (serializeBgpUpdate2 (v6Announcement (List.replicate 16 1)) false false 1).run = some (.ok messages) ∧
        messages.length = 1 := ⟨_, rfl, rfl⟩
  obtain ⟨messages, hrun, hlen⟩ := hrun
  exact ⟨messages, hrun, hlen, (decode_serializeBgpUpdate2 (sessionMatches_v6Announcement _)
    ⟨fun _ => ⟨rfl, fun _ hmem => absurd hmem not_mem_nil⟩, fun _ _ => length_replicate⟩ hrun).2⟩

/-- With a v4 next hop the announcement is serialized, and the parser refuses the message. -/
theorem v6Announcement_v4_nexthop_rejected :
    ∃ bytes prefixes, (serializeBgpUpdate2 (v6Announcement [192, 0, 2, 1]) false false 1).run =
        some (.ok [⟨bytes, prefixes⟩]) ∧ ∃ ex, parseBgpUpdateRaw bytes v6Session = .error ex :=
  ⟨_, _, rfl, _, rfl⟩

end

end FbossBgp.BgpLib
