import FbossBgp.BgpLib.AttributeEncoding
import FbossBgp.BgpLib.Packing

/-! Whether the serializer of an update comes to an end. The check on the length of the attributes and the
guard of the packing loop disagree by two bytes: attributes of such a length pass the check, and leave no
space for a prefix in any message. -/

namespace FbossBgp.BgpLib

open Bytes Outcome Writer List

section

variable {afi : BgpUpdateAfi} {safi : BgpUpdateSafi} (hasPathId : Bool)

theorem getMaxPrefixLen_v4_le : getMaxPrefixLen hasPathId true ≤ 9 := by
  cases hasPathId <;> decide

theorem getMaxPrefixLen_v6_le : getMaxPrefixLen hasPathId false ≤ 21 := by
  cases hasPathId <;> decide

section

variable {room bufSize maxPrefixLen : Nat} {finish : Bytes → Except Exception Bytes} {prefixes : List RiggedIPPrefix}

theorem packMessage_progress (hpfxs : prefixes ≠ []) (hspace : maxPrefixLen + 1 < bufSize) :
    Ensures (fun next => 0 < next.2) (fun _ => True)
      (packMessage afi safi room bufSize maxPrefixLen finish prefixes) := by
  rw [packMessage]
  cases hnlri : serializeNlri afi safi room bufSize maxPrefixLen prefixes [] with
  | error e => trivial
  | ok next =>
    change Ensures _ _ (finish next.1 >>= fun msg => pure (msg, next.2))
    cases finish next.1 with
    | error e => trivial
    | ok msg => exact count_pos_of_serializeNlri hpfxs hspace hnlri

theorem packMessage_of_no_space {msg : Bytes} (prefixes : List RiggedIPPrefix) (hspace : ¬maxPrefixLen + 1 < bufSize)
    (hfinish : finish [] = .ok msg) :
    packMessage afi safi room bufSize maxPrefixLen finish prefixes = .ok (msg, 0) := by
  rw [packMessage, serializeNlri_of_no_space prefixes hspace]
  change (finish [] >>= _) = _
  rw [hfinish]
  rfl

theorem packMessage_ne_error (hroom : bufSize ≤ room)
    (hfits : ∀ rigged ∈ prefixes, PrefixFits afi safi maxPrefixLen rigged)
    (hfinish : ∀ nlri, nlri.length ≤ bufSize → ∃ msg, finish nlri = .ok msg) :
    FailsOnly (fun _ => False)
      (packMessage afi safi room bufSize maxPrefixLen finish prefixes) := by
  apply (serializeNlri_ensures hroom hfits (Nat.zero_le _)).bind
  rintro ⟨nlri, count⟩ hlen
  obtain ⟨msg, hmsg⟩ := hfinish nlri hlen
  dsimp only
  rw [hmsg]
  trivial

end

end

section

variable {update : BgpUpdate2} {as4byte extNhEncoding : Bool} {fuel : Nat}

abbrev AllCarry (messages : List UpdateMessage) : Prop := ∀ msg ∈ messages, msg.prefixes ≠ []

/-- The section ends, and every message that it emits holds a prefix. -/
abbrev Progresses (run : ExceptT Exception Option (List UpdateMessage)) : Prop := Returns AllCarry (fun _ => True) run

theorem v4WithdrawnSection_progresses (hfuel : update.withdrawn.length ≤ fuel) :
    Progresses (v4WithdrawnSection update fuel) := by
  apply packMessages_returns _ hfuel
  intro prefixes hne
  have hmax := getMaxPrefixLen_v4_le (firstHasPathId update.withdrawn)
  rw [v4WithdrawnMessage]
  apply packMessage_progress hne
  rw [kMaxBgpMsgLen, kBgpMsgHeaderLen]
  omega

theorem mpWithdrawnSection_progresses (hfuel : update.mpWithdrawn.prefixes.length ≤ fuel) :
    Progresses (mpWithdrawnSection update fuel) := by
  apply packMessages_returns _ hfuel
  intro prefixes hne
  have hmax := getMaxPrefixLen_v6_le (firstHasPathId update.mpWithdrawn.prefixes)
  rw [mpWithdrawnMessage]
  apply packMessage_progress hne
  rw [length_mpUnreachAttr, kMaxBgpMsgLen, kBgpMsgHeaderLen, length_nil]
  omega

/-- A length that the check on the attributes lets through, and that leaves no space for a prefix. -/
def AtLimit (length : Nat) : Prop := length = kMaxBgpUpdateVarLen ∨ length + 1 = kMaxBgpUpdateVarLen

/-- The attributes of announced multiprotocol prefixes with a v6 next hop fill the message to the limit. -/
def MpAnnouncedAtLimit (update : BgpUpdate2) (as4byte : Bool) : Prop :=
  update.mpAnnounced.prefixes ≠ [] ∧ update.mpAnnounced.nexthop.length = 16 ∧
    ∃ attrs, serializePathAttrs update as4byte false = .ok attrs ∧
      AtLimit (attrs.length + kMpAnnouncedAttrLen + getMaxPrefixLen (firstHasPathId update.mpAnnounced.prefixes) false)

/-- The attributes of announced v4 prefixes, and of nothing else, fill the message to the limit. -/
def V4AnnouncedAtLimit (update : BgpUpdate2) (as4byte : Bool) : Prop :=
  update.mpAnnounced.prefixes = [] ∧ update.announced ≠ [] ∧
    ∃ attrs, serializePathAttrs update as4byte true = .ok attrs ∧
      AtLimit (attrs.length + getMaxPrefixLen (firstHasPathId update.announced) true)

section

variable {prefixes : List RiggedIPPrefix} {attrs : Except Exception Bytes} {needed : Nat}
  {message : Bytes → List RiggedIPPrefix → Except Exception (Bytes × Nat)}

theorem announcedSection_progresses (hfuel : prefixes.length ≤ fuel)
    (hturn : prefixes ≠ [] → ∀ bytes, attrs = .ok bytes → bytes.length + needed ≤ kMaxBgpUpdateVarLen →
      ∀ rest, rest ≠ [] → Ensures (fun next => 0 < next.2) (fun _ => True) (message bytes rest)) :
    Progresses (announcedSection fuel prefixes attrs needed message) := by
  rw [announcedSection]
  split
  · exact returns_pure fun msg hmem => absurd hmem not_mem_nil
  next hpfxs =>
    apply (returns_mk (ensures_self _)).bind
    intro bytes hbytes
    dsimp only
    split
    · exact returns_throw trivial
    next hlength => exact packMessages_returns (hturn hpfxs bytes hbytes (Nat.le_of_not_lt hlength)) hfuel

theorem announcedSection_stuck {bytes msg : Bytes} (hpfxs : prefixes ≠ []) (hattrs : attrs = .ok bytes)
    (hlimit : AtLimit (bytes.length + needed)) (hmsg : message bytes prefixes = .ok (msg, 0)) (fuel : Nat) :
    (announcedSection fuel prefixes attrs needed message).run = none := by
  rw [announcedSection, if_neg hpfxs, hattrs]
  change (if _ then _ else _ : ExceptT Exception Option (List UpdateMessage)).run = none
  rw [if_neg (by rw [AtLimit] at hlimit; omega)]
  exact packMessages_stuck hpfxs hmsg fuel

end

theorem mpAnnouncedSection_progresses (hfuel : update.mpAnnounced.prefixes.length ≤ fuel)
    (hlimit : ¬MpAnnouncedAtLimit update as4byte) : Progresses (mpAnnouncedSection update as4byte fuel) := by
  apply announcedSection_progresses hfuel
  intro hpfxs attrs hattrs hlength prefixes hne
  apply (ensures_self _).bind
  intro nh hnh
  obtain ⟨hbytes, hfam⟩ := IPAddress.bytes_of_fromBinary hnh
  apply packMessage_progress hne
  rw [kMpAnnouncedAttrLen, kMaxBgpUpdateVarLen_eq] at hlength
  rw [length_mpReachAttr, kMaxBgpMsgLen, kBgpMsgHeaderLen, length_nil, hbytes]
  rcases hfam with ⟨-, hlen⟩ | ⟨-, hlen⟩
  · omega
  · have hnot : ¬AtLimit _ := fun h => hlimit ⟨hpfxs, hlen, attrs, hattrs, h⟩
    rw [AtLimit, kMpAnnouncedAttrLen, kMaxBgpUpdateVarLen_eq] at hnot
    omega

theorem v4AnnouncedSection_progresses (hfuel : update.announced.length ≤ fuel)
    (hlimit : update.announced ≠ [] → ∀ attrs, serializePathAttrs update as4byte true = .ok attrs →
      ¬AtLimit (attrs.length + getMaxPrefixLen (firstHasPathId update.announced) true)) :
    Progresses (v4AnnouncedSection update as4byte fuel) := by
  apply announcedSection_progresses hfuel
  intro hann attrs hattrs hlen prefixes hne
  apply packMessage_progress hne
  have hnot := hlimit hann attrs hattrs
  rw [AtLimit, kMaxBgpUpdateVarLen_eq] at hnot
  rw [kMaxBgpUpdateVarLen_eq] at hlen
  rw [kMaxBgpMsgLen, kBgpMsgHeaderLen]
  omega

/-- Attributes that fill a message of v4 prefixes to the limit are too long for multiprotocol prefixes. -/
theorem mpAnnouncedSection_of_v4_limit {attrs : Bytes} (hpfxs : update.mpAnnounced.prefixes ≠ [])
    (hattrs : serializePathAttrs update as4byte true = .ok attrs)
    (hlimit : AtLimit (attrs.length + getMaxPrefixLen (firstHasPathId update.announced) true)) :
    mpAnnouncedSection update as4byte fuel = throw tooLargePathAttr := by
  have hmax' := getMaxPrefixLen_v4_le (firstHasPathId update.announced)
  obtain ⟨hwr, rfl, hfits⟩ := serializePathAttrs_eq_ok_iff.mp hattrs
  rw [length_wireAttrs_v4 as4byte hwr] at hlimit hfits
  have hmp : serializePathAttrs update as4byte false = .ok ((wireAttrs as4byte update false).flatMap WireAttr.encode) :=
    serializePathAttrs_eq_ok_iff.mpr ⟨⟨hwr.segments, nofun, hwr.aggregator⟩, rfl, by omega⟩
  rw [mpAnnouncedSection, announcedSection, if_neg hpfxs, hmp]
  rw [AtLimit, kMaxBgpUpdateVarLen_eq] at hlimit
  exact if_pos (by rw [kMpAnnouncedAttrLen, kMaxBgpUpdateVarLen_eq]; omega)

/-- Away from the limits the serializer ends, with a prefix in every message. -/
theorem serializeBgpUpdate2_progresses (hmp : ¬MpAnnouncedAtLimit update as4byte)
    (hv4 : ¬V4AnnouncedAtLimit update as4byte) :
    ∃ fuel, Progresses (serializeBgpUpdate2 update as4byte extNhEncoding fuel) := by
  refine ⟨update.withdrawn.length + update.mpWithdrawn.prefixes.length + update.mpAnnounced.prefixes.length +
    update.announced.length, ?_⟩
  apply (returns_mk (ensures_self _)).bind
  intro _ _
  apply (v4WithdrawnSection_progresses (by omega)).bind
  intro v4Withdrawn hv4Withdrawn
  apply (mpWithdrawnSection_progresses (by omega)).bind
  intro mpWithdrawn hmpWithdrawn
  by_cases hboth : update.mpAnnounced.prefixes ≠ [] ∧ ∃ attrs, serializePathAttrs update as4byte true = .ok attrs ∧
      AtLimit (attrs.length + getMaxPrefixLen (firstHasPathId update.announced) true)
  · obtain ⟨hpfxs, attrs, hattrs, hlimit⟩ := hboth
    rw [mpAnnouncedSection_of_v4_limit hpfxs hattrs hlimit]
    exact returns_throw trivial
  · apply (mpAnnouncedSection_progresses (by omega) hmp).bind
    intro mpAnnounced hmpAnnounced
    have hlimit : update.announced ≠ [] → ∀ attrs, serializePathAttrs update as4byte true = .ok attrs →
        ¬AtLimit (attrs.length + getMaxPrefixLen (firstHasPathId update.announced) true) := by
      intro hann attrs hattrs hat
      by_cases hpfxs : update.mpAnnounced.prefixes = []
      · exact hv4 ⟨hpfxs, hann, attrs, hattrs, hat⟩
      · exact hboth ⟨hpfxs, attrs, hattrs, hat⟩
    apply (v4AnnouncedSection_progresses (by omega) hlimit).bind
    intro v4Announced hv4Announced
    apply returns_pure
    intro msg hmem
    simp only [mem_append] at hmem
    rcases hmem with ((hmem | hmem) | hmem) | hmem
    · exact hv4Withdrawn msg hmem
    · exact hmpWithdrawn msg hmem
    · exact hmpAnnounced msg hmem
    · exact hv4Announced msg hmem

/-- Updates whose withdrawn prefixes are all written: those with nothing that the serializer rejects before
it comes to the announced ones. -/
structure WithdrawnAccepted (update : BgpUpdate2) (extNhEncoding : Bool) : Prop where
  checked : checkUpdate update extNhEncoding = .ok ()
  withdrawn : ∀ rigged ∈ update.withdrawn,
    PrefixFits .afiIPv4 .safiUnicast (getMaxPrefixLen (firstHasPathId update.withdrawn) true) rigged
  mpWithdrawn : ∀ rigged ∈ update.mpWithdrawn.prefixes, PrefixFits update.mpWithdrawn.afi update.mpWithdrawn.safi
    (getMaxPrefixLen (firstHasPathId update.mpWithdrawn.prefixes) false) rigged

theorem WithdrawnAccepted.v4Withdrawn_ne_error (h : WithdrawnAccepted update extNhEncoding) (fuel : Nat) :
    ∀ e, (v4WithdrawnSection update fuel).run ≠ some (.error e) := by
  apply packMessages_ne_error _ fuel h.withdrawn
  intro prefixes hfits
  rw [v4WithdrawnMessage]
  apply packMessage_ne_error (Nat.sub_le _ _) hfits
  intro nlri hlen
  rw [kMaxBgpMsgLen, kBgpMsgHeaderLen] at hlen
  exact ⟨_, finishUpdate_of_le (by rw [kMinBgpUpdateMsgLen, kMaxBgpMsgLen, length_nil]; omega)⟩

theorem WithdrawnAccepted.mpWithdrawn_ne_error (h : WithdrawnAccepted update extNhEncoding) (fuel : Nat) :
    ∀ e, (mpWithdrawnSection update fuel).run ≠ some (.error e) := by
  apply packMessages_ne_error _ fuel h.mpWithdrawn
  intro prefixes hfits
  rw [mpWithdrawnMessage]
  apply packMessage_ne_error le_rfl hfits
  intro nlri hlen
  rw [length_mpUnreachAttr, kMaxBgpMsgLen, kBgpMsgHeaderLen] at hlen
  exact ⟨_, finishUpdate_of_le (by rw [length_mpUnreachAttr, kMinBgpUpdateMsgLen, kMaxBgpMsgLen, length_nil]; omega)⟩

/-- At the limit, the loop over the announced multiprotocol prefixes never ends. -/
theorem mpAnnouncedSection_of_limit (h : MpAnnouncedAtLimit update as4byte) (fuel : Nat) :
    (mpAnnouncedSection update as4byte fuel).run = none := by
  obtain ⟨hpfxs, hlen, attrs, hattrs, hlimit⟩ := h
  have hmsg : ∃ bytes, mpAnnouncedMessage update.mpAnnounced attrs
      (getMaxPrefixLen (firstHasPathId update.mpAnnounced.prefixes) false) update.mpAnnounced.prefixes =
        .ok (bytes, 0) := by
    rw [AtLimit, kMpAnnouncedAttrLen, kMaxBgpUpdateVarLen_eq] at hlimit
    rw [mpAnnouncedMessage, IPAddress.fromBinary_v6 hlen, ok_bind]
    refine ⟨_, packMessage_of_no_space _ ?_ (finishUpdate_of_le ?_)⟩
    · rw [length_mpReachAttr, kMaxBgpMsgLen, kBgpMsgHeaderLen, IPAddress.bytes]
      omega
    · rw [length_append, length_mpReachAttr, kMinBgpUpdateMsgLen, kMaxBgpMsgLen, IPAddress.bytes, length_nil]
      omega
  obtain ⟨bytes, hmsg⟩ := hmsg
  rw [Nat.add_assoc] at hlimit
  exact announcedSection_stuck hpfxs hattrs hlimit hmsg fuel

/-- At the limit, the loop over the announced v4 prefixes never ends. -/
theorem v4AnnouncedSection_of_limit (h : V4AnnouncedAtLimit update as4byte) (fuel : Nat) :
    (v4AnnouncedSection update as4byte fuel).run = none := by
  obtain ⟨-, hann, attrs, hattrs, hlimit⟩ := h
  have hmsg : ∃ bytes, v4AnnouncedMessage attrs (getMaxPrefixLen (firstHasPathId update.announced) true)
      update.announced = .ok (bytes, 0) := by
    rw [AtLimit, kMaxBgpUpdateVarLen_eq] at hlimit
    refine ⟨_, packMessage_of_no_space _ ?_ (finishUpdate_of_le ?_)⟩
    · rw [kMaxBgpMsgLen, kBgpMsgHeaderLen]
      omega
    · rw [kMinBgpUpdateMsgLen, kMaxBgpMsgLen, length_nil]
      omega
  obtain ⟨bytes, hmsg⟩ := hmsg
  exact announcedSection_stuck hann hattrs hlimit hmsg fuel

/-- At a limit, an update that is not rejected before keeps the serializer busy for ever. -/
theorem serializeBgpUpdate2_of_limit (h : WithdrawnAccepted update extNhEncoding)
    (hlimit : MpAnnouncedAtLimit update as4byte ∨ V4AnnouncedAtLimit update as4byte) (fuel : Nat) :
    (serializeBgpUpdate2 update as4byte extNhEncoding fuel).run = none := by
  apply run_bind_of_forall_none
  · rw [h.checked]
    exact fun _ => nofun
  · intro _
    apply run_bind_of_forall_none (h.v4Withdrawn_ne_error fuel)
    intro _
    apply run_bind_of_forall_none (h.mpWithdrawn_ne_error fuel)
    intro _
    rcases hlimit with hmp | hv4
    · exact run_bind_of_none _ (mpAnnouncedSection_of_limit hmp fuel)
    · have hnone : (mpAnnouncedSection update as4byte fuel).run = some (.ok []) := by
        rw [mpAnnouncedSection, announcedSection, if_pos hv4.1]
        rfl
      rw [run_bind_of_ok hnone]
      exact run_bind_of_none _ (v4AnnouncedSection_of_limit hv4 fuel)

/-- The attributes fill the messages of an announcing section to the limit. -/
def AttrsAtLimit (update : BgpUpdate2) (as4byte : Bool) : Prop :=
  MpAnnouncedAtLimit update as4byte ∨ V4AnnouncedAtLimit update as4byte

end

section

variable (communities : Nat)

/-- Announces 10.0.0.0/8 with a number of communities. -/
def announcementWith : BgpUpdate2 where
  attrs := { communities := List.replicate communities {} }
  v4Nexthop := [192, 0, 2, 1]
  v4Announced2 := [{ ipPrefix := { prefixAddress := [10, 0, 0, 0], prefixLength := 8 } }]

theorem withdrawnAccepted_announcementWith : WithdrawnAccepted (announcementWith communities) false :=
  ⟨rfl, fun _ hmem => absurd hmem not_mem_nil, fun _ hmem => absurd hmem not_mem_nil⟩

theorem writable_announcementWith : Writable (announcementWith communities) true :=
  ⟨fun _ hmem => absurd hmem not_mem_nil, fun _ => ⟨_, IPAddress.fromBinary_v4 rfl⟩, fun h => absurd rfl h⟩

theorem wireAttrs_announcementWith {communities : Nat} (h : communities ≠ 0) :
    wireAttrs false (announcementWith communities) true = [originAttr .bgpOriginIgp, asPathAttr false [],
      nextHopAttr [192, 0, 2, 1], communitiesAttr (List.replicate communities {})] := by
  simp [wireAttrs, whenAttr, announcementWith, h]

theorem length_wireAttrs_announcementWith {communities : Nat} (h : communities ≠ 0) :
    ((wireAttrs false (announcementWith communities) true).flatMap WireAttr.encode).length = 19 + 4 * communities := by
  have hcomm : (communitiesAttr (List.replicate communities {})).encode.length = 4 + 4 * communities := by
    rw [communitiesAttr, WireAttr.encode_extended
      (bgpAttrFlagOptional ||| bgpAttrFlagTransitive ||| bgpAttrFlagExtended) _ _ (by decide)]
    simp only [length_append, length_cons, length_nil, length_toBE,
      length_flatMap_of_size length_encodeCommunity, length_replicate]
  have hothers : ((originAttr .bgpOriginIgp).encode ++ (asPathAttr false []).encode ++
      (nextHopAttr [192, 0, 2, 1]).encode).length = 15 := by decide
  rw [wireAttrs_announcementWith h]
  simp only [flatMap_cons, flatMap_nil, append_nil, length_append] at hothers ⊢
  omega

/-- A thousand and twelve communities bring the attributes to the limit. -/
theorem attrsAtLimit_announcementWith_iff {communities : Nat} (h : communities ≠ 0) :
    AttrsAtLimit (announcementWith communities) false ↔ communities = 1012 := by
  have hlen := length_wireAttrs_announcementWith h
  constructor
  · rintro (⟨hpfxs, -⟩ | ⟨-, -, attrs, hattrs, hlimit⟩)
    · exact absurd rfl hpfxs
    · obtain ⟨-, rfl, -⟩ := serializePathAttrs_eq_ok_iff.mp hattrs
      have hmax : getMaxPrefixLen (firstHasPathId (announcementWith communities).announced) true = 5 := rfl
      rw [hlen, AtLimit, kMaxBgpUpdateVarLen_eq] at hlimit
      omega
  · rintro rfl
    refine .inr ⟨rfl, cons_ne_nil _ _, _, serializePathAttrs_eq_ok_iff.mpr
      ⟨writable_announcementWith 1012, rfl, ?_⟩, ?_⟩
    · rw [hlen]
      decide
    · rw [hlen]
      exact .inr rfl

end

end FbossBgp.BgpLib
