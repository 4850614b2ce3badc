import FbossBgp.AdjRib.UpdateGroup
import FbossBgp.BgpLib.UpdateDescriptor

/-! The messages of an update group: each is serialized once with the nexthop of the path, and each in-sync
peer sends the shared bytes with its own nexthop written over that one. -/

namespace FbossBgp.AdjRib

open BgpLib (IPAddress Bytes BgpAttributes UpdateMessage UpdateDescriptor WellFramed PatchesAt
  AnnouncesMp AnnouncesV4 trackNexthops serializeBgpUpdate2 serializeTracked serializeUpdateAndCreateDescriptor)
open Overlay List

namespace UpdateGroupKey

structure Has {R : Type} (key : UpdateGroupKey) (session : EgressSession R) : Prop where
  extNhEncodingCapable : session.extNhEncodingCapable = key.extNhEncodingCapable
  legacyV4NlriEncoding : session.legacyV4NlriEncoding = key.legacyV4NlriEncoding

variable (key : UpdateGroupKey)

def v4EncodingDecision (isV4 : Bool) (newNexthop : IPAddress) : V4EncodingDecision :=
  if !isV4 || !key.legacyV4NlriEncoding || key.extNhEncodingCapable then .MpReach
  else if newNexthop.isV6 then .Drop
  else .ClassicNlri

/-- The announcement of the packed prefixes. The nexthop in it is that of the path. -/
def buildGroupUpdate (postOutAttrs : BgpPath BgpAttributes) (afi : BgpLib.BgpUpdateAfi)
    (prefixes : List BgpLib.RiggedIPPrefix) : Option BgpLib.BgpUpdate2 :=
  if prefixes = [] then none
  else
    match key.v4EncodingDecision (afi = .afiIPv4) postOutAttrs.nexthop with
    | .ClassicNlri =>
      some { attrs := postOutAttrs.rest, v4Nexthop := postOutAttrs.nexthop.bytes, v4Announced2 := prefixes }
    | .Drop => none
    | .MpReach =>
      some {
        attrs := postOutAttrs.rest
        mpAnnounced :=
          { afi := afi, safi := .safiUnicast, prefixes := prefixes, nexthop := postOutAttrs.nexthop.bytes } }

end UpdateGroupKey

variable (groupDescriptor : UpdateDescriptor)

/-- The descriptor that `distributeMessageToInSyncPeers` pushes to a peer. -/
def peerDescriptor (peerNexthop : IPAddress) : UpdateDescriptor :=
  if peerNexthop.isV4 then { groupDescriptor with v4Nexthop := peerNexthop }
  else { groupDescriptor with v6Nexthop := peerNexthop }

/-- What the shared PDU holds after peers with these nexthops have serialized it. -/
def sharedStorage (pdu : List Bytes) (peerNexthops : List IPAddress) : List Bytes :=
  peerNexthops.foldl (fun storage nexthop => (peerDescriptor groupDescriptor nexthop).serialize storage) pdu

/-- The bytes are those of the message with the peer's nexthop: well-framed UPDATEs, with that nexthop at each
recorded place. -/
structure PeerBytes (key : UpdateGroupKey) (update : BgpLib.BgpUpdate2) (descriptor : UpdateDescriptor)
    (nexthop : IPAddress) (buffers : List Bytes) : Prop where
  serialized : ∃ fuel messages,
    (serializeBgpUpdate2 (update.setNexthop nexthop) key.as4ByteCapable key.extNhEncodingCapable fuel).run =
      some (.ok messages) ∧ buffers = messages.map UpdateMessage.bytes
  framed : ∀ buf ∈ buffers, WellFramed buf
  located : descriptor.nexthopOffsets.map (·.bufferIndex) = List.range buffers.length
  carried : ∀ location ∈ descriptor.nexthopOffsets, ∀ buf ∈ buffers[location.bufferIndex]?,
    HoldsAt location.offset nexthop.bytes buf

section

variable {key : UpdateGroupKey} {path : BgpPath BgpAttributes} {afi : BgpLib.BgpUpdateAfi}
  {prefixes : List BgpLib.RiggedIPPrefix} {update : BgpLib.BgpUpdate2} {fuel : Nat} {descriptor : UpdateDescriptor}
  {pdu : List Bytes} {nexthop : IPAddress}

theorem serializeUpdateAndCreateDescriptor_eq_some {as4byte extNhEncoding : Bool}
    (hdesc : serializeUpdateAndCreateDescriptor update as4byte extNhEncoding fuel = some descriptor)
    (hpdu : descriptor.serializedGroupPDU = some pdu) : ∃ mpNexthop messages offsets,
      (if update.mpAnnounced.prefixes = [] then .ok .empty else IPAddress.fromBinary update.mpAnnounced.nexthop) =
        .ok mpNexthop ∧
      (serializeTracked update as4byte extNhEncoding fuel).run = some (.ok (messages, offsets)) ∧
      pdu = messages.map UpdateMessage.bytes ∧ descriptor.nexthopOffsets = offsets ∧
      (∀ isV4, descriptor.nexthop isV4 = if mpNexthop.isV4 = isV4 then mpNexthop else .empty) := by
  unfold serializeUpdateAndCreateDescriptor at hdesc
  dsimp only at hdesc
  split at hdesc
  · cases hdesc
    cases hpdu
  next mpNexthop hmp =>
    split at hdesc
    · cases hdesc
    · cases hdesc
      cases hpdu
    next messages offsets hrun =>
      cases hdesc
      cases hpdu
      refine ⟨mpNexthop, messages, offsets, hmp, hrun, rfl, rfl, fun isV4 => ?_⟩
      cases isV4 <;> cases mpNexthop <;> rfl

/-- How the announcement is encoded, and what follows for its nexthop. -/
theorem buildGroupUpdate_cases (h : key.buildGroupUpdate path afi prefixes = some update) :
    AnnouncesMp update ∧ update.mpAnnounced.nexthop = path.nexthop.bytes ∨
      AnnouncesV4 update ∧ update.v4Nexthop = path.nexthop.bytes ∧ path.nexthop.isV6 = false ∧ afi = .afiIPv4 ∧
        key.legacyV4NlriEncoding = true ∧ key.extNhEncodingCapable = false := by
  rw [UpdateGroupKey.buildGroupUpdate] at h
  split at h
  · cases h
  next hne =>
    split at h
    next hdecision =>
      cases h
      simp only [UpdateGroupKey.v4EncodingDecision] at hdecision
      split at hdecision
      · cases hdecision
      next hclassic =>
        split at hdecision
        · cases hdecision
        next hv6 =>
          simp only [Bool.or_eq_true, Bool.not_eq_true', decide_eq_false_iff_not, not_or, not_not,
            Bool.not_eq_false, Bool.not_eq_true] at hclassic hv6
          have hann : AnnouncesV4
              { attrs := path.rest, v4Nexthop := path.nexthop.bytes, v4Announced2 := prefixes } :=
            ⟨fun hnil => by rw [BgpLib.BgpUpdate2.announced, if_neg hne] at hnil; exact hne hnil, rfl, rfl, rfl⟩
          exact .inr ⟨hann, rfl, hv6, hclassic.1.1, hclassic.1.2, hclassic.2⟩
    · cases h
    · cases h
      exact .inl ⟨⟨hne, rfl, rfl, rfl⟩, rfl⟩

/-- A shared PDU that was serialized with the nexthop `nh`, and the places recorded for it. -/
structure SharedPdu (key : UpdateGroupKey) (update : BgpLib.BgpUpdate2) (nh : IPAddress) (fuel : Nat)
    (descriptor : UpdateDescriptor) (pdu : List Bytes) (messages : List UpdateMessage) (offset : Nat) : Prop where
  pdu_eq : pdu = messages.map UpdateMessage.bytes
  tracked : descriptor.nexthopOffsets = trackNexthops 0 offset nh.isV4 messages
  patches : PatchesAt update key.as4ByteCapable key.extNhEncodingCapable fuel messages offset nh.bytes.length
  ne_empty : nh ≠ .empty
  groupNexthop : descriptor.nexthop nh.isV4 = nh ∨ descriptor.nexthop nh.isV4 = .empty
  serialized : (serializeBgpUpdate2 update key.as4ByteCapable key.extNhEncodingCapable fuel).run = some (.ok messages)
  mpOffset : AnnouncesMp update → ∃ attrs, BgpLib.serializePathAttrs update key.as4ByteCapable false = .ok attrs ∧
    offset = BgpLib.mpNexthopOffset attrs

theorem exists_sharedPdu (hbuild : key.buildGroupUpdate path afi prefixes = some update)
    (hdesc : serializeUpdateAndCreateDescriptor update key.as4ByteCapable key.extNhEncodingCapable fuel =
      some descriptor) (hpdu : descriptor.serializedGroupPDU = some pdu) :
    ∃ messages offset, SharedPdu key update path.nexthop fuel descriptor pdu messages offset := by
  obtain ⟨mpNexthop, messages, offsets, hmp, hrun, rfl, rfl, hgroup⟩ :=
    serializeUpdateAndCreateDescriptor_eq_some hdesc hpdu
  rcases buildGroupUpdate_cases hbuild with ⟨hanns, hnexthop⟩ | ⟨hanns, hnexthop, hv6, -⟩
  · obtain ⟨attrs, nh, hattrs, hnh, hoffs, hpatches⟩ := hanns.patchesAt hrun
    rw [if_neg hanns.mpAnnounced] at hmp
    cases hmp.symm.trans hnh
    obtain ⟨hbytes, hfam⟩ := IPAddress.bytes_of_fromBinary hnh
    obtain rfl : mpNexthop = path.nexthop := IPAddress.bytes_injective (hbytes.trans hnexthop)
    refine ⟨messages, _, rfl, hoffs, hpatches, ?_, .inl (by rw [hgroup, if_pos rfl]),
      (hanns.serializeTracked hrun).1, fun _ => ⟨attrs, hattrs, rfl⟩⟩
    rintro hempty
    rw [hempty] at hfam
    exact hfam.elim (fun h => nomatch h.1) fun h => nomatch h.1
  · -- the serializer has written the nexthop, so it is a v4 address
    have hwrt : path.nexthop.bytes.length = 4 ∧ path.nexthop.isV4 = true := by
      obtain ⟨-, hsec⟩ := hanns.serializeBgpUpdate2_iff.mp (hanns.serializeTracked hrun).1
      obtain ⟨attrs, hattrs, -⟩ := (BgpLib.announcedSection_eq_ok_iff hanns.announced).mp hsec
      obtain ⟨nh, hnh⟩ := (BgpLib.serializePathAttrs_eq_ok_iff.mp hattrs).1.nexthop rfl
      rw [hnexthop] at hnh
      cases hpath : path.nexthop with
      | empty =>
        rw [hpath] at hnh
        cases hnh
      | v4 octets hlen => exact ⟨hlen, rfl⟩
      | v6 octets hlen =>
        rw [hpath] at hv6
        cases hv6
    obtain ⟨offset, hoffs, hpatches⟩ := hanns.patchesAt (hnexthop ▸ hwrt.1) hrun
    rw [if_pos hanns.mpAnnounced] at hmp
    cases hmp
    refine ⟨messages, offset, rfl, hwrt.2 ▸ hoffs, hwrt.1 ▸ hpatches, ?_, .inr ?_,
      (hanns.serializeTracked hrun).1, fun hmp => absurd hanns.mpAnnounced hmp.mpAnnounced⟩
    · intro hempty
      rw [hempty] at hwrt
      cases hwrt.2
    · rw [hgroup, hwrt.2]
      rfl

theorem nexthop_peerDescriptor (descriptor : UpdateDescriptor) (nexthop : IPAddress) (isV4 : Bool) :
    (peerDescriptor descriptor nexthop).nexthop isV4 =
      if nexthop.isV4 = isV4 then nexthop else descriptor.nexthop isV4 := by
  cases nexthop <;> cases isV4 <;> rfl

theorem nexthopOffsets_peerDescriptor (descriptor : UpdateDescriptor) (nexthop : IPAddress) :
    (peerDescriptor descriptor nexthop).nexthopOffsets = descriptor.nexthopOffsets := by
  cases nexthop <;> rfl

/-- The byte for the length of an address tells whether it is a v4 one. -/
theorem isV4_eq_length (addr : IPAddress) : addr.isV4 = (UInt8.ofNat addr.bytes.length == 4) := by
  cases addr with
  | empty => rfl
  | v4 octets hlen => simp only [IPAddress.bytes, hlen]; rfl
  | v6 octets hlen => simp only [IPAddress.bytes, hlen]; rfl

namespace SharedPdu

variable {nh : IPAddress} {messages : List UpdateMessage} {offset : Nat}

section

variable (h : SharedPdu key update nh fuel descriptor pdu messages offset) {storage : List Bytes}
include h

/-- The nexthop that a peer's descriptor holds for the recorded family is none or has the length of the field. -/
theorem length_nexthop_peerDescriptor
    (nexthop : IPAddress) : (peerDescriptor descriptor nexthop).nexthop nh.isV4 = .empty ∨
      ((peerDescriptor descriptor nexthop).nexthop nh.isV4).bytes.length = nh.bytes.length := by
  rw [nexthop_peerDescriptor]
  split
  next hfam =>
    cases nexthop with
    | empty => exact .inl rfl
    | v4 octets hlen =>
      cases nh with
      | empty => cases hfam
      | v4 octets' hlen' => exact .inr (hlen.trans hlen'.symm)
      | v6 octets' hlen' => cases hfam
    | v6 octets hlen =>
      cases nh with
      | empty => exact absurd rfl h.ne_empty
      | v4 octets' hlen' => cases hfam
      | v6 octets' hlen' => exact .inr (hlen.trans hlen'.symm)
  · rcases h.groupNexthop with hgroup | hgroup
    · exact .inr (by rw [hgroup])
    · exact .inl hgroup

/-- Serializing for a peer writes over the fields, or leaves them. -/
theorem serialize_peerDescriptor (nexthop : IPAddress) (hlen : storage.length = messages.length) :
    (peerDescriptor descriptor nexthop).serialize storage = storage ∨ ∃ bytes : Bytes, bytes.length = nh.bytes.length ∧
        (peerDescriptor descriptor nexthop).serialize storage = storage.map (overwrite offset bytes) := by
  have htrk := (nexthopOffsets_peerDescriptor descriptor nexthop).trans h.tracked
  by_cases hempty : (peerDescriptor descriptor nexthop).nexthop nh.isV4 = .empty
  · exact .inl (BgpLib.serialize_of_empty htrk hempty)
  · exact .inr ⟨_, (h.length_nexthop_peerDescriptor nexthop).resolve_left hempty,
      BgpLib.serialize_of_tracked htrk hlen hempty⟩

/-- The PDU differs from what was serialized in the fields only, whichever peers have serialized it. -/
theorem sharedStorage_cases (peerNexthops : List IPAddress) :
    sharedStorage descriptor pdu peerNexthops = pdu ∨ ∃ bytes : Bytes, bytes.length = nh.bytes.length ∧
      sharedStorage descriptor pdu peerNexthops = pdu.map (overwrite offset bytes) := by
  induction peerNexthops using List.reverseRecOn with
  | nil => exact .inl rfl
  | append_singleton earlier nexthop ih =>
    have hlast : sharedStorage descriptor pdu (earlier ++ [nexthop]) =
        (peerDescriptor descriptor nexthop).serialize (sharedStorage descriptor pdu earlier) := by
      rw [sharedStorage, foldl_append]
      rfl
    have hlen : (sharedStorage descriptor pdu earlier).length = messages.length := by
      rcases ih with hearlier | ⟨bytes, -, hearlier⟩
      · rw [hearlier, h.pdu_eq, length_map]
      · rw [hearlier, h.pdu_eq, length_map, length_map]
    rcases h.serialize_peerDescriptor nexthop hlen with hsame | ⟨bytes, hbytes, hwrt⟩
    · rwa [hlast, hsame]
    · refine .inr ⟨bytes, hbytes, ?_⟩
      rcases ih with hearlier | ⟨bytes', hbytes', hearlier⟩
      · rw [hlast, hwrt, hearlier]
      · rw [hlast, hwrt, hearlier, map_overwrite_map_overwrite (hbytes'.trans hbytes.symm)]

theorem family_of_peerBytes
    (hmp : AnnouncesMp update) (hnh : update.mpAnnounced.nexthop = nh.bytes) (peerNexthops : List IPAddress)
    (hbytes : PeerBytes key update descriptor nexthop
      ((peerDescriptor descriptor nexthop).serialize (sharedStorage descriptor pdu peerNexthops))) :
    nexthop.isV4 = nh.isV4 := by
  obtain ⟨attrs, hattrs, rfl⟩ := h.mpOffset hmp
  obtain ⟨fuel', messages', hser, hbuffers⟩ := hbytes.serialized
  have hlt : BgpLib.mpNexthopOffset attrs - 1 < BgpLib.mpNexthopOffset attrs := by
    rw [BgpLib.mpNexthopOffset]
    omega
  have hpdu : pdu.length = messages.length := by rw [h.pdu_eq, length_map]
  have hstorage : (sharedStorage descriptor pdu peerNexthops).length = messages.length ∧
      (sharedStorage descriptor pdu peerNexthops).map (fun buf => buf[BgpLib.mpNexthopOffset attrs - 1]?) =
        pdu.map fun buf => buf[BgpLib.mpNexthopOffset attrs - 1]? := by
    rcases h.sharedStorage_cases peerNexthops with hstorage | ⟨bytes, -, hstorage⟩
    · rw [hstorage]
      exact ⟨hpdu, rfl⟩
    · rw [hstorage, length_map, map_map]
      exact ⟨hpdu, map_congr_left fun buf _ => getElem?_overwrite_of_lt hlt⟩
  have hsame : messages'.map (fun msg => msg.bytes[BgpLib.mpNexthopOffset attrs - 1]?) =
      messages.map fun msg => msg.bytes[BgpLib.mpNexthopOffset attrs - 1]? := by
    have hafter := BgpLib.map_getElem?_serialize
      ((nexthopOffsets_peerDescriptor descriptor nexthop).trans h.tracked) hstorage.1 hlt
    rw [hbuffers, hstorage.2, h.pdu_eq, map_map, map_map] at hafter
    exact hafter
  obtain ⟨-, hlengths⟩ := hmp.nexthopLength hattrs h.serialized
  obtain ⟨hne', hlengths'⟩ := (hmp.setNexthop nexthop).nexthopLength hattrs hser
  obtain ⟨msg', rest', rfl⟩ := exists_cons_of_ne_nil hne'
  cases messages with
  | nil => cases hsame
  | cons msg rest =>
    have hhead : msg'.bytes[BgpLib.mpNexthopOffset attrs - 1]? = msg.bytes[BgpLib.mpNexthopOffset attrs - 1]? :=
      (List.cons.inj hsame).1
    rw [hlengths' msg' mem_cons_self, hlengths msg mem_cons_self, hnh] at hhead
    rw [isV4_eq_length, isV4_eq_length, ← Option.some.inj hhead]
    rfl

variable (hfam : nexthop.isV4 = nh.isV4) (hne : nexthop ≠ .empty)
include hfam hne

theorem length_bytes_of_family : nexthop.bytes.length = nh.bytes.length := by
  have hlen := h.length_nexthop_peerDescriptor nexthop
  rw [nexthop_peerDescriptor, if_pos hfam] at hlen
  exact hlen.resolve_left hne

theorem serialize_of_family (hlen : storage.length = messages.length) :
    (peerDescriptor descriptor nexthop).serialize storage = storage.map (overwrite offset nexthop.bytes) := by
  have htrk := (nexthopOffsets_peerDescriptor descriptor nexthop).trans h.tracked
  have hown : (peerDescriptor descriptor nexthop).nexthop nh.isV4 = nexthop := by
    rw [nexthop_peerDescriptor, if_pos hfam]
  rw [BgpLib.serialize_of_tracked htrk hlen (by rwa [hown]), hown]

/-- A peer whose nexthop is of the recorded family sends its own nexthop, whoever has serialized before. -/
theorem serialize_sharedStorage (peerNexthops : List IPAddress) :
    (peerDescriptor descriptor nexthop).serialize (sharedStorage descriptor pdu peerNexthops) =
      pdu.map (overwrite offset nexthop.bytes) := by
  have hpdu : pdu.length = messages.length := by rw [h.pdu_eq, length_map]
  rcases h.sharedStorage_cases peerNexthops with hstorage | ⟨bytes, hlen, hstorage⟩
  · rw [hstorage, h.serialize_of_family hfam hne hpdu]
  · rw [hstorage, h.serialize_of_family hfam hne (by rw [length_map, hpdu]),
      map_overwrite_map_overwrite (hlen.trans (h.length_bytes_of_family hfam hne).symm)]

/-- The fields with the peer's nexthop are the message with that nexthop. -/
theorem peerBytes :
    PeerBytes key update descriptor nexthop (pdu.map (overwrite offset nexthop.bytes)) := by
  have hbytes := h.length_bytes_of_family hfam hne
  have hser := h.patches.replace hbytes
  have hbuffers : pdu.map (overwrite offset nexthop.bytes) =
      (messages.map fun msg => (⟨overwrite offset nexthop.bytes msg.bytes, msg.prefixes⟩ : UpdateMessage)).map
        UpdateMessage.bytes := by
    rw [h.pdu_eq, map_map, map_map]
    rfl
  refine ⟨⟨fuel, _, hser, hbuffers⟩, ?_, ?_, ?_⟩
  · intro buf hbuf
    rw [hbuffers] at hbuf
    obtain ⟨msg, hmem, rfl⟩ := mem_map.mp hbuf
    exact BgpLib.wellFramed_of_serializeBgpUpdate2 hser hmem
  · rw [h.tracked, trackNexthops, h.pdu_eq]
    simp [Function.comp_def]
  · intro location hlocation buf hbuf
    rw [h.tracked, trackNexthops, mem_map] at hlocation
    obtain ⟨i, -, rfl⟩ := hlocation
    obtain ⟨original, horiginal, rfl⟩ := mem_map.mp (mem_of_getElem? hbuf)
    rw [h.pdu_eq] at horiginal
    obtain ⟨msg, hmem, rfl⟩ := mem_map.mp horiginal
    exact holdsAt_overwrite (hbytes ▸ h.patches.fits msg hmem)

end

end SharedPdu

end

section

variable {R : Type} {path : BgpPath R}

/-- Nexthop-self gives a v4 address for v4 routes unless RFC 5549 was negotiated. -/
theorem EgressSession.getNewNexthopFromAttributesOut_classic {session : EgressSession R}
    (hneg : session.isV4OverV6NexthopNegotiated = false) (hv4 : path.nexthop.isV4 = true)
    (isNexthopSetByPolicy : Bool) :
    (session.getNewNexthopFromAttributesOut true path isNexthopSetByPolicy).isV4 = true := by
  rw [getNewNexthopFromAttributesOut]
  split
  · rw [hneg]
    split
    · split
      · exact session.localBgpId.2
      · exact session.nexthopV4.2
    next hself => exact absurd rfl hself
  · exact hv4

theorem EgressSession.getNewNexthopFromAttributesOut_ne_empty (session : EgressSession R)
    (hne : path.nexthop ≠ .empty) (isV4Prefix isNexthopSetByPolicy : Bool) :
    session.getNewNexthopFromAttributesOut isV4Prefix path isNexthopSetByPolicy ≠ .empty := by
  have hv4 : ∀ addr : IPAddressV4, addr.1 ≠ .empty := by
    rintro ⟨addr, haddr⟩ rfl
    cases haddr
  have hv6 : ∀ addr : IPAddressV6, addr.1 ≠ .empty := by
    rintro ⟨addr, haddr⟩ rfl
    cases haddr
  have hmapped : ∀ addr : IPAddressV4, createIPv6 addr ≠ .empty := by
    rintro ⟨addr, haddr⟩
    cases addr with
    | v4 octets hlen => exact nofun
    | empty => cases haddr
    | v6 octets hlen => cases haddr
  rw [getNewNexthopFromAttributesOut]
  split
  · split
    · split
      · exact hv4 _
      · exact hv4 _
    · split
      · exact hmapped _
      · exact hv6 _
  · exact hne

/-- The peer sends the message with its own nexthop exactly when that has the family of the path's. -/
theorem peerBytes_serialize_iff {key : UpdateGroupKey} {path : BgpPath BgpAttributes} {afi : BgpLib.BgpUpdateAfi}
    {prefixes : List BgpLib.RiggedIPPrefix} {update : BgpLib.BgpUpdate2} {fuel : Nat} {descriptor : UpdateDescriptor}
    {pdu : List Bytes} (hbuild : key.buildGroupUpdate path afi prefixes = some update)
    (hdescriptor : serializeUpdateAndCreateDescriptor update key.as4ByteCapable key.extNhEncodingCapable fuel =
      some descriptor)
    (hpdu : descriptor.serializedGroupPDU = some pdu) {session : EgressSession BgpAttributes} (hmember : key.Has session)
    (isNexthopSetByPolicy : Bool) (peerNexthops : List IPAddress) :
    let nexthop := session.getNewNexthopFromAttributesOut (afi = .afiIPv4) path isNexthopSetByPolicy
    PeerBytes key update descriptor nexthop
        ((peerDescriptor descriptor nexthop).serialize (sharedStorage descriptor pdu peerNexthops)) ↔
      nexthop.isV4 = path.nexthop.isV4 := by
  intro nexthop
  obtain ⟨messages, offset, hshared⟩ := exists_sharedPdu hbuild hdescriptor hpdu
  have hne : nexthop ≠ .empty := session.getNewNexthopFromAttributesOut_ne_empty hshared.ne_empty _ _
  constructor
  · intro hbytes
    rcases buildGroupUpdate_cases hbuild with ⟨hmp, hnh⟩ | ⟨-, -, hv6, rfl, hlegacy, hext⟩
    · exact hshared.family_of_peerBytes hmp hnh peerNexthops hbytes
    · -- a peer of a legacy group has not negotiated RFC 5549
      have hv4 : path.nexthop.isV4 = true := by
        cases hpath : path.nexthop with
        | empty => exact absurd hpath hshared.ne_empty
        | v4 octets hlen => rfl
        | v6 octets hlen =>
          rw [hpath] at hv6
          cases hv6
      have hneg := session.extNh_of_legacy (hmember.legacyV4NlriEncoding.trans hlegacy)
      rw [hmember.extNhEncodingCapable, hext] at hneg
      rw [hv4]
      exact EgressSession.getNewNexthopFromAttributesOut_classic hneg.symm hv4 _
  · intro hfam
    rw [hshared.serialize_sharedStorage hfam hne]
    exact hshared.peerBytes hfam hne

end

/-- An EBGP session with or without RFC 5549; to its peer the nexthop is always set to self. -/
def ebgpSession (isV4OverV6NexthopNegotiated : Bool) : EgressSession BgpAttributes where
  isAfiIpv4Negotiated := true
  isAfiIpv6Negotiated := true
  isV4OverV6NexthopNegotiated := isV4OverV6NexthopNegotiated
  sendAddPath := false
  peerAddr := .ofOctets 10 0 0 2
  allowLoopbackReflection := false
  sessionType := .ebgp
  isRrClient := false
  nextHopSelf := false
  nexthopV4 := classicSession.nexthopV4
  nexthopV6 := classicSession.nexthopV6
  localBgpId := classicSession.localBgpId
  legacyV4NlriEncoding := false
  extNhEncodingCapable := isV4OverV6NexthopNegotiated
  outDelay := 0
  suppressLoopedAdvertisements _ := false
  applyWellKnownCommunityFilter _ := false
  extNh_of_legacy := nofun

def ebgpKey (extNhEncodingCapable : Bool) : UpdateGroupKey :=
  { extNhEncodingCapable := extNhEncodingCapable }

def v4Path : BgpPath BgpAttributes := ⟨.ofOctets 10 0 0 1, {}⟩

def v4Prefixes : List BgpLib.RiggedIPPrefix := [{ ipPrefix := { prefixAddress := [10, 1, 0, 0], prefixLength := 16 } }]

/-- The message of the group for the path, in MP_REACH_NLRI. -/
def v4GroupUpdate : BgpLib.BgpUpdate2 where
  mpAnnounced := { afi := .afiIPv4, safi := .safiUnicast, prefixes := v4Prefixes, nexthop := [10, 0, 0, 1] }

theorem peerBytes_serialize_iff_v4Path : ∃ descriptor pdu,
    serializeUpdateAndCreateDescriptor v4GroupUpdate true false 1 = some descriptor ∧
      descriptor.serializedGroupPDU = some pdu ∧
      PeerBytes (ebgpKey false) v4GroupUpdate descriptor (.v4 [10, 0, 0, 254] rfl)
        ((peerDescriptor descriptor (.v4 [10, 0, 0, 254] rfl)).serialize
          (sharedStorage descriptor pdu [.v4 [10, 0, 0, 253] rfl])) := by
  obtain ⟨descriptor, pdu, hdesc, hpdu⟩ : ∃ descriptor pdu,
      serializeUpdateAndCreateDescriptor v4GroupUpdate true false 1 = some descriptor ∧
        descriptor.serializedGroupPDU = some pdu := ⟨_, _, rfl, rfl⟩
  exact ⟨descriptor, pdu, hdesc, hpdu, (@peerBytes_serialize_iff (ebgpKey false) v4Path .afiIPv4 v4Prefixes
    _ _ _ _ rfl hdesc hpdu (ebgpSession false) ⟨rfl, rfl⟩ false _).mpr rfl⟩

/-- A peer with RFC 5549 whose nexthop is a v6 address is sent the v4 nexthop of the path. -/
theorem exists_peer_sent_path_nexthop : ∃ descriptor pdu,
    (ebgpKey true).buildGroupUpdate v4Path .afiIPv4 v4Prefixes = some v4GroupUpdate ∧
      serializeUpdateAndCreateDescriptor v4GroupUpdate true true 1 = some descriptor ∧
      descriptor.serializedGroupPDU = some pdu ∧ (ebgpKey true).Has (ebgpSession true) ∧
      let nexthop := (ebgpSession true).getNewNexthopFromAttributesOut true v4Path false
      (peerDescriptor descriptor nexthop).serialize pdu = pdu ∧
        ¬PeerBytes (ebgpKey true) v4GroupUpdate descriptor nexthop ((peerDescriptor descriptor nexthop).serialize pdu) := by
  obtain ⟨descriptor, pdu, hdesc, hpdu, hsame⟩ : ∃ descriptor pdu,
      serializeUpdateAndCreateDescriptor v4GroupUpdate true true 1 = some descriptor ∧
        descriptor.serializedGroupPDU = some pdu ∧
        (peerDescriptor descriptor ((ebgpSession true).getNewNexthopFromAttributesOut true v4Path false)).serialize pdu =
          pdu := ⟨_, _, rfl, rfl, rfl⟩
  refine ⟨descriptor, pdu, rfl, hdesc, hpdu, ⟨rfl, rfl⟩, hsame, fun hbytes => ?_⟩
  obtain ⟨messages, offset, hshared⟩ :=
    @exists_sharedPdu (ebgpKey true) v4Path .afiIPv4 v4Prefixes _ _ _ _ rfl hdesc hpdu
  have hmp : AnnouncesMp v4GroupUpdate := ⟨by decide, rfl, rfl, rfl⟩
  have hfam := hshared.family_of_peerBytes hmp rfl [] hbytes
  cases hfam

end FbossBgp.AdjRib
