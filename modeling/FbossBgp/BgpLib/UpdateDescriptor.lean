import FbossBgp.Lib.Overlay
import FbossBgp.BgpLib.UpdateRoundTrip

/-! Updates that are serialized once for many peers: the serializer records where it wrote each next hop, and
`BgpSerializer` writes the next hop of a peer over those places. All the peers share the bytes. -/

namespace FbossBgp.BgpLib

open Bytes Outcome Writer Overlay List

section

/-- Where a next hop stands in the chain of messages. -/
structure NexthopOffset where
  bufferIndex : Nat
  offset : Nat
  isV4 : Bool
  deriving DecidableEq

variable (update : BgpUpdate2) (as4byte : Bool) (queueIndex : Nat) (messages : List UpdateMessage)

/-- Where the address of NEXT_HOP begins within the attributes. -/
def nexthopOffsetInAttrs : Except Exception Nat := do
  let pcursor ← writeOrigin update.attrs.origin []
  let pcursor ← writeAsPath as4byte update.attrs.asPath pcursor
  let pcursor ← pushAttr [bgpAttrFlagTransitive, BgpAttrCode.bgpAttrNextHop.code, 4] pcursor
  return pcursor.length

/-- Where the next hop of MP_REACH_NLRI begins: after the header, the two lengths and the attributes come its
flags, type, length, AFI, SAFI and the length of the next hop. -/
def mpNexthopOffset (attrs : Bytes) : Nat := kBgpMsgHeaderLen + 4 + attrs.length + (1 + 1 + 2 + 2 + 1 + 1)

/-- One record for each message of a section. -/
def trackNexthops (queueIndex offset : Nat) (isV4 : Bool) (messages : List UpdateMessage) : List NexthopOffset :=
  (List.range messages.length).map fun i => ⟨queueIndex + i, offset, isV4⟩

def mpAnnouncedOffsets :
    Except Exception (List NexthopOffset) :=
  if update.mpAnnounced.prefixes = [] then .ok []
  else do
    let attrs ← serializePathAttrs update as4byte false
    let nh ← IPAddress.fromBinary update.mpAnnounced.nexthop
    return trackNexthops queueIndex (mpNexthopOffset attrs) nh.isV4 messages

def v4AnnouncedOffsets :
    Except Exception (List NexthopOffset) :=
  if update.announced = [] then .ok []
  else do
    let offset ← nexthopOffsetInAttrs update as4byte
    return trackNexthops queueIndex (kBgpMsgHeaderLen + 4 + offset) true messages

/-- `serializeBgpUpdate2` with `outNexthopOffsets`. -/
def serializeTracked (as4byte extNhEncoding : Bool) (fuel : Nat) :
    ExceptT Exception Option (List UpdateMessage × List NexthopOffset) := do
  ExceptT.mk (some (checkUpdate update extNhEncoding))
  let v4Withdrawn ← v4WithdrawnSection update fuel
  let mpWithdrawn ← mpWithdrawnSection update fuel
  let mpAnnounced ← mpAnnouncedSection update as4byte fuel
  let mpOffsets ← ExceptT.mk (some (mpAnnouncedOffsets update as4byte (v4Withdrawn ++ mpWithdrawn).length mpAnnounced))
  let v4Announced ← v4AnnouncedSection update as4byte fuel
  let v4Offsets ← ExceptT.mk (some
    (v4AnnouncedOffsets update as4byte (v4Withdrawn ++ mpWithdrawn ++ mpAnnounced).length v4Announced))
  return (v4Withdrawn ++ mpWithdrawn ++ mpAnnounced ++ v4Announced, mpOffsets ++ v4Offsets)

end

structure UpdateDescriptor where
  serializedGroupPDU : Option (List Bytes) := none
  v4Nexthop : IPAddress := .empty
  v6Nexthop : IPAddress := .empty
  nexthopOffsets : List NexthopOffset := []
  deriving DecidableEq

/-- The descriptor without a PDU is what an exception leaves; `none` is a serializer that is still running. -/
def serializeUpdateAndCreateDescriptor (message : BgpUpdate2) (as4byte extNhEncoding : Bool) (fuel : Nat) :
    Option UpdateDescriptor :=
  let mpNexthop :=
    if message.mpAnnounced.prefixes = [] then .ok .empty else IPAddress.fromBinary message.mpAnnounced.nexthop
  match mpNexthop with
  | .error _ => some {}
  | .ok mpNexthop =>
    match (serializeTracked message as4byte extNhEncoding fuel).run with
    | none => none
    | some (.error _) => some {}
    | some (.ok (messages, nexthopOffsets)) =>
      some {
        serializedGroupPDU := some (messages.map UpdateMessage.bytes)
        v4Nexthop := if mpNexthop.isV4 then mpNexthop else .empty
        v6Nexthop := if mpNexthop.isV6 then mpNexthop else .empty
        nexthopOffsets := nexthopOffsets }

namespace UpdateDescriptor

variable (desc : UpdateDescriptor)

def nexthop (isV4 : Bool) : IPAddress := if isV4 then desc.v4Nexthop else desc.v6Nexthop

/-- The call of `BgpSerializer` on a descriptor whose PDU now holds `storage`. The clone that it returns shares
the bytes of the PDU, so this is also what the PDU holds afterwards. -/
def serialize (storage : List Bytes) : List Bytes :=
  let needV4 := desc.nexthopOffsets.any fun location => location.isV4
  let needV6 := desc.nexthopOffsets.any fun location => !location.isV4
  if needV4 = true ∧ desc.v4Nexthop = .empty ∨ needV6 = true ∧ desc.v6Nexthop = .empty then storage
  else
    desc.nexthopOffsets.foldl (fun storage location =>
      storage.modify location.bufferIndex (overwrite location.offset (desc.nexthop location.isV4).bytes)) storage

end UpdateDescriptor

/-- The message with its next hop replaced, in whichever field it is sent. -/
def BgpUpdate2.setNexthop (update : BgpUpdate2) (nexthop : IPAddress) : BgpUpdate2 :=
  { update with
    mpAnnounced := { update.mpAnnounced with nexthop := nexthop.bytes }
    v4Nexthop := nexthop.bytes }

section

variable {messages : List UpdateMessage} {desc : UpdateDescriptor} {storage : List Bytes} {isV4 : Bool} {offset : Nat}

variable (htrk : desc.nexthopOffsets = trackNexthops 0 offset isV4 messages)
include htrk

/-- The loop over the records of one section writes over all its messages. -/
theorem serialize_of_tracked (hlen : storage.length = messages.length) (hset : desc.nexthop isV4 ≠ .empty) :
    desc.serialize storage = storage.map (overwrite offset (desc.nexthop isV4).bytes) := by
  have hpresent : ¬((desc.nexthopOffsets.any fun location => location.isV4) = true ∧ desc.v4Nexthop = .empty ∨
      (desc.nexthopOffsets.any fun location => !location.isV4) = true ∧ desc.v6Nexthop = .empty) := by
    cases isV4 with
    | true =>
      rintro (⟨-, hempty⟩ | ⟨hneed, -⟩)
      · exact hset hempty
      · simp [htrk, trackNexthops] at hneed
    | false =>
      rintro (⟨hneed, -⟩ | ⟨-, hempty⟩)
      · simp [htrk, trackNexthops] at hneed
      · exact hset hempty
  rw [UpdateDescriptor.serialize, if_neg hpresent, htrk, trackNexthops, foldl_map, ← hlen]
  simp only [Nat.zero_add]
  exact foldl_modify_range _ storage

/-- A descriptor that lacks the next hop it needs leaves the bytes as they are. -/
theorem serialize_of_empty (hempty : desc.nexthop isV4 = .empty) : desc.serialize storage = storage := by
  cases messages with
  | nil =>
    rw [UpdateDescriptor.serialize, htrk]
    simp [trackNexthops]
  | cons msg messages =>
    have hneed : (desc.nexthopOffsets.any fun location => location.isV4) = true ∧ desc.v4Nexthop = .empty ∨
        (desc.nexthopOffsets.any fun location => !location.isV4) = true ∧ desc.v6Nexthop = .empty := by
      cases isV4 with
      | true => exact .inl ⟨by simp [htrk, trackNexthops, range_succ_eq_map], hempty⟩
      | false => exact .inr ⟨by simp [htrk, trackNexthops, range_succ_eq_map], hempty⟩
    rw [UpdateDescriptor.serialize, if_pos hneed]

/-- What stands before the next hops is the same after a call as before it. -/
theorem map_getElem?_serialize {i : Nat} (hlen : storage.length = messages.length) (hi : i < offset) :
    (desc.serialize storage).map (fun buf => buf[i]?) = storage.map fun buf => buf[i]? := by
  by_cases hempty : desc.nexthop isV4 = .empty
  · rw [serialize_of_empty htrk hempty]
  · rw [serialize_of_tracked htrk hlen hempty, map_map]
    exact map_congr_left fun buf _ => getElem?_overwrite_of_lt hi

end

section

/-- For next hops of length `n`, the messages of a section differ only in the field at the offset. -/
def FieldAt (offset n : Nat) (message : Bytes → List RiggedIPPrefix → Except Exception (Bytes × Nat)) : Prop :=
  ∀ {nh : Bytes} {rest : List RiggedIPPrefix} {bytes : Bytes} {count : Nat}, nh.length = n →
    message nh rest = .ok (bytes, count) → offset + n ≤ bytes.length ∧
      ∀ {nh' : Bytes}, nh'.length = n → message nh' rest = .ok (overwrite offset nh' bytes, count)

variable {offset n : Nat} {message : Bytes → List RiggedIPPrefix → Except Exception (Bytes × Nat)} {attrs : Bytes}

/-- The loop of a section for another next hop writes the same messages, with that next hop in the field. -/
theorem FieldAt.packMessages {nh nh' : Bytes} {fuel : Nat} {prefixes : List RiggedIPPrefix}
    {messages : List UpdateMessage} (hfield : FieldAt offset n message) (hnh : nh.length = n) (hnh' : nh'.length = n)
    (h : (packMessages (message nh) fuel prefixes).run = some (.ok messages)) :
    (BgpLib.packMessages (message nh') fuel prefixes).run =
      some (.ok (messages.map fun msg => ⟨overwrite offset nh' msg.bytes, msg.prefixes⟩)) := by
  fun_induction BgpLib.packMessages (message nh) fuel prefixes generalizing messages with
  | case1 =>
    cases h
    rw [BgpLib.packMessages]
    rfl
  | case2 => cases h
  | case3 fuel rigged rest ih =>
    rw [run_bind_eq_ok] at h
    obtain ⟨⟨bytes, count⟩, hturn, h⟩ := h
    rw [run_bind_eq_ok] at h
    obtain ⟨later, hlater, h⟩ := h
    cases h
    have hturn' := (hfield hnh (Option.some.inj hturn)).2 hnh'
    have hrun : (ExceptT.mk (some (message nh' (rigged :: rest))) : ExceptT Exception Option (Bytes × Nat)).run =
        some (.ok (overwrite offset nh' bytes, count)) := congrArg some hturn'
    rw [BgpLib.packMessages, run_bind_of_ok hrun]
    rw [run_bind_of_ok (ih count hlater)]
    rfl

/-- A turn packs the same prefixes whatever is put around them. -/
theorem packMessage_finish {afi : BgpUpdateAfi} {safi : BgpUpdateSafi} {room bufSize maxPrefixLen count : Nat}
    {finish : Bytes → Except Exception Bytes} {rest : List RiggedIPPrefix} {bytes : Bytes}
    (h : packMessage afi safi room bufSize maxPrefixLen finish rest = .ok (bytes, count)) :
    ∃ nlri, finish nlri = .ok bytes ∧ ∀ {finish' : Bytes → Except Exception Bytes} {bytes' : Bytes},
      finish' nlri = .ok bytes' → packMessage afi safi room bufSize maxPrefixLen finish' rest = .ok (bytes', count) := by
  rw [packMessage, bind_eq_ok] at h
  obtain ⟨⟨nlri, count'⟩, hnlri, h⟩ := h
  rw [bind_eq_ok] at h
  obtain ⟨msg, hfinish, h⟩ := h
  cases h
  refine ⟨nlri, hfinish, fun {finish' bytes'} hfinish' => ?_⟩
  rw [packMessage, hnlri, ok_bind]
  dsimp only
  rw [hfinish']
  rfl

/-- An attribute field of a finished message is replaced by one of the same length. -/
theorem finishUpdate_field {front nh nh' back nlri bytes : Bytes} (hlen : nh.length = nh'.length)
    (h : finishUpdate [] (front ++ nh ++ back) nlri = .ok bytes) :
    kBgpMsgHeaderLen + 4 + front.length + nh.length ≤ bytes.length ∧ finishUpdate [] (front ++ nh' ++ back) nlri =
        .ok (overwrite (kBgpMsgHeaderLen + 4 + front.length) nh' bytes) := by
  obtain ⟨rfl, hfits⟩ := finishUpdate_eq_ok h
  have hattrs : (front ++ nh ++ back).length = (front ++ nh' ++ back).length := by
    simp only [length_append, hlen]
  refine ⟨?_, ?_⟩
  · rw [length_frame, length_updateBody]
    simp only [length_append]
    omega
  · rw [finishUpdate_of_le]
    · -- the length fields do not tell the two messages apart
      have hframe : ∀ field, field.length = nh'.length →
          frame .bgpMsgTypeUpdate (updateBody [] (front ++ field ++ back) nlri) =
            (kBgpMarker ++ toBE 2 (kBgpMsgHeaderLen + (updateBody [] (front ++ nh' ++ back) nlri).length) ++
              [BgpMessageType.bgpMsgTypeUpdate.code] ++ toBE 2 0 ++ toBE 2 (front ++ nh' ++ back).length ++ front) ++
              field ++ (back ++ nlri) := by
        intro field hfield
        rw [frame, length_updateBody, length_updateBody]
        simp only [updateBody, length_append, hfield, length_nil, append_nil, append_assoc]
      have hfront : (kBgpMarker ++ toBE 2 (kBgpMsgHeaderLen + (updateBody [] (front ++ nh' ++ back) nlri).length) ++
          [BgpMessageType.bgpMsgTypeUpdate.code] ++ toBE 2 0 ++ toBE 2 (front ++ nh' ++ back).length ++ front).length =
          kBgpMsgHeaderLen + 4 + front.length := by
        simp only [length_append, length_toBE, length_kBgpMarker, length_cons, length_nil, kBgpMsgHeaderLen]
      rw [hframe nh hlen, hframe nh' rfl, ← hfront, overwrite_append hlen]
    · rw [length_updateBody] at hfits
      simp only [kBgpMsgHeaderLen, kMinBgpUpdateMsgLen] at hfits ⊢
      omega

theorem fieldAt_mpAnnouncedMessage {nlri : BgpNlri} {maxV6PrefixLen : Nat} (hn : n = 4 ∨ n = 16) :
    FieldAt (mpNexthopOffset attrs) n fun nh => mpAnnouncedMessage { nlri with nexthop := nh } attrs maxV6PrefixLen := by
  have hfromBinary : ∀ {nh : Bytes}, nh.length = n → ∃ addr, IPAddress.fromBinary nh = .ok addr ∧ addr.bytes = nh := by
    rintro nh hnh
    rcases hn with rfl | rfl
    · exact ⟨.v4 nh hnh, IPAddress.fromBinary_v4 hnh, rfl⟩
    · exact ⟨.v6 nh hnh, IPAddress.fromBinary_v6 hnh, rfl⟩
  -- what stands before the next hop depends on its length only
  have hattr : ∀ {nh nlri' : Bytes}, nh.length = n → attrs ++ mpReachAttr nlri.afi nlri.safi nh nlri' =
      (attrs ++ ([bgpAttrFlagOptional ||| bgpAttrFlagExtended, BgpAttrCode.bgpAttrMpReachNlri.code] ++
        toBE 2 (5 + n + nlri'.length) ++ intBE 2 nlri.afi.toInt ++ intBE 1 nlri.safi.toInt ++ [UInt8.ofNat n])) ++
        nh ++ ([0] ++ nlri') := by
    intro nh nlri' hnh
    rw [mpReachAttr, hnh]
    simp only [append_assoc]
  intro nh rest bytes count hnh h
  obtain ⟨addr, haddr, hbytes⟩ := hfromBinary hnh
  dsimp only at h
  rw [mpAnnouncedMessage, haddr, ok_bind] at h
  obtain ⟨nlri', hfinish, hpack⟩ := packMessage_finish h
  rw [hbytes, hattr hnh] at hfinish
  refine ⟨?_, fun {nh'} hnh' => ?_⟩
  · have hfits := (finishUpdate_field rfl hfinish).1
    simp only [length_append, length_toBE, length_intBE, length_cons] at hfits
    rw [mpNexthopOffset]
    omega
  · obtain ⟨addr', haddr', hbytes'⟩ := hfromBinary hnh'
    have hfinish' := (finishUpdate_field (hnh.trans hnh'.symm) hfinish).2
    rw [← hattr hnh'] at hfinish'
    have hroom : (mpReachAttr nlri.afi nlri.safi nh' []).length = (mpReachAttr nlri.afi nlri.safi addr.bytes []).length := by
      rw [length_mpReachAttr, length_mpReachAttr, hbytes, hnh, hnh']
    dsimp only
    rw [mpAnnouncedMessage, haddr', ok_bind, hbytes', hroom]
    refine hpack (hfinish'.trans ?_)
    congr 2
    simp only [mpNexthopOffset, length_append, length_toBE, length_intBE, length_cons, length_nil]
    omega

theorem fieldAt_v4AnnouncedMessage {front back : Bytes} {maxV4PrefixLen : Nat} :
    FieldAt (kBgpMsgHeaderLen + 4 + front.length) n
      fun nh => v4AnnouncedMessage (front ++ nh ++ back) maxV4PrefixLen := by
  intro nh rest bytes count hnh h
  obtain ⟨nlri, hfinish, hpack⟩ := packMessage_finish h
  refine ⟨?_, fun {nh'} hnh' => ?_⟩
  · have hfits := (finishUpdate_field rfl hfinish).1
    rwa [hnh] at hfits
  · have hattrs : (front ++ nh' ++ back).length = (front ++ nh ++ back).length := by
      simp only [length_append, hnh, hnh']
    dsimp only
    rw [v4AnnouncedMessage, hattrs]
    exact hpack (finishUpdate_field (hnh.trans hnh'.symm) hfinish).2

/-- The attributes with NEXT_HOP, and the offset recorded for it. -/
theorem serializePathAttrs_field {update : BgpUpdate2} {as4byte : Bool}
    (h : serializePathAttrs update as4byte true = .ok attrs) (h4 : update.v4Nexthop.length = 4) :
    ∃ front back, attrs = front ++ update.v4Nexthop ++ back ∧ nexthopOffsetInAttrs update as4byte = .ok front.length ∧
      ∀ {nexthop : IPAddress}, nexthop.bytes.length = 4 →
        serializePathAttrs (update.setNexthop nexthop) as4byte true = .ok (front ++ nexthop.bytes ++ back) := by
  obtain ⟨hwr, rfl, hfits⟩ := serializePathAttrs_eq_ok_iff.mp h
  have hencode : ∀ {octets : Bytes}, octets.length = 4 → (nextHopAttr octets).encode =
      [bgpAttrFlagTransitive, BgpAttrCode.bgpAttrNextHop.code, 4] ++ octets := by
    intro octets hoctets
    rw [nextHopAttr, WireAttr.encode_short bgpAttrFlagTransitive _ _ (by decide), take_of_length_le (by omega), hoctets]
    rfl
  have hwire : ∀ {octets : Bytes}, octets.length = 4 →
      (wireAttrs as4byte { update with v4Nexthop := octets } true).flatMap WireAttr.encode =
        ((originAttr update.attrs.origin).encode ++ (asPathAttr as4byte update.attrs.asPath).encode ++
          [bgpAttrFlagTransitive, BgpAttrCode.bgpAttrNextHop.code, 4]) ++ octets ++
          ((wireAttrs as4byte update true).drop 3).flatMap WireAttr.encode := by
    intro octets hoctets
    have hsplit : wireAttrs as4byte { update with v4Nexthop := octets } true =
        originAttr update.attrs.origin :: asPathAttr as4byte update.attrs.asPath :: nextHopAttr octets ::
          (wireAttrs as4byte update true).drop 3 := rfl
    rw [hsplit]
    simp only [flatMap_cons, hencode hoctets, append_assoc]
  have hself := hwire h4
  refine ⟨_, _, hself, ?_, fun {nexthop} hlen => ?_⟩
  · have hwrites := Writes.bind ((writesAttrs_writeOrigin update.attrs.origin).bind
      (writesAttrs_writeAsPath as4byte hwr.segments))
      (writes_pushAttr [bgpAttrFlagTransitive, BgpAttrCode.bgpAttrNextHop.code, 4]) [] (Nat.zero_le _)
    simp only [flatMap_append, flatMap_singleton] at hwrites
    rw [push_of_le] at hwrites
    · simp only [bind_assoc] at hwrites
      simp only [nexthopOffsetInAttrs, bind_eq_ok] at hwrites ⊢
      obtain ⟨origin, horigin, asPath, hasPath, hpush⟩ := hwrites
      exact ⟨origin, horigin, asPath, hasPath, _, hpush, rfl⟩
    · rw [hself] at hfits
      simp only [length_append, length_nil] at hfits ⊢
      omega
  · refine serializePathAttrs_eq_ok_iff.mpr ⟨⟨hwr.segments, fun _ => ?_, hwr.aggregator⟩, (hwire hlen).symm, ?_⟩
    · exact ⟨_, IPAddress.fromBinary_v4 hlen⟩
    · rw [hself] at hfits
      simp only [length_append, h4, hlen] at hfits ⊢
      exact hfits

end

section

variable {update : BgpUpdate2} {as4byte extNhEncoding : Bool} {fuel : Nat} {messages : List UpdateMessage}
  {offsets : List NexthopOffset}

structure AnnouncesMp (update : BgpUpdate2) : Prop where
  mpAnnounced : update.mpAnnounced.prefixes ≠ []
  announced : update.announced = []
  withdrawn : update.withdrawn = []
  mpWithdrawn : update.mpWithdrawn.prefixes = []

structure AnnouncesV4 (update : BgpUpdate2) : Prop where
  announced : update.announced ≠ []
  mpAnnounced : update.mpAnnounced.prefixes = []
  withdrawn : update.withdrawn = []
  mpWithdrawn : update.mpWithdrawn.prefixes = []

theorem AnnouncesMp.setNexthop (h : AnnouncesMp update) (nexthop : IPAddress) :
    AnnouncesMp (update.setNexthop nexthop) :=
  ⟨h.mpAnnounced, h.announced, h.withdrawn, h.mpWithdrawn⟩

theorem AnnouncesV4.setNexthop (h : AnnouncesV4 update) (nexthop : IPAddress) :
    AnnouncesV4 (update.setNexthop nexthop) :=
  ⟨h.announced, h.mpAnnounced, h.withdrawn, h.mpWithdrawn⟩

theorem AnnouncesMp.serializeBgpUpdate2_iff (h : AnnouncesMp update) :
    (serializeBgpUpdate2 update as4byte extNhEncoding fuel).run = some (.ok messages) ↔
      checkUpdate update extNhEncoding = .ok () ∧
        (mpAnnouncedSection update as4byte fuel).run = some (.ok messages) := by
  simp [serializeBgpUpdate2_eq_ok_iff, v4WithdrawnSection_nil h.withdrawn, mpWithdrawnSection_nil h.mpWithdrawn,
    v4AnnouncedSection_nil h.announced]

theorem AnnouncesV4.serializeBgpUpdate2_iff (h : AnnouncesV4 update) :
    (serializeBgpUpdate2 update as4byte extNhEncoding fuel).run = some (.ok messages) ↔
      checkUpdate update extNhEncoding = .ok () ∧
        (v4AnnouncedSection update as4byte fuel).run = some (.ok messages) := by
  simp [serializeBgpUpdate2_eq_ok_iff, v4WithdrawnSection_nil h.withdrawn, mpWithdrawnSection_nil h.mpWithdrawn,
    mpAnnouncedSection_nil h.mpAnnounced]

theorem AnnouncesMp.serializeTracked (h : AnnouncesMp update)
    (hrun : (serializeTracked update as4byte extNhEncoding fuel).run = some (.ok (messages, offsets))) :
    (serializeBgpUpdate2 update as4byte extNhEncoding fuel).run = some (.ok messages) ∧
      mpAnnouncedOffsets update as4byte 0 messages = .ok offsets := by
  simp only [BgpLib.serializeTracked, run_bind_eq_ok, v4WithdrawnSection_nil h.withdrawn,
    mpWithdrawnSection_nil h.mpWithdrawn, v4AnnouncedSection_nil h.announced, v4AnnouncedOffsets,
    if_pos h.announced] at hrun
  obtain ⟨⟨⟩, hcheck, _, ⟨⟩, _, ⟨⟩, announced, hann, mpOffsets, hoffs, _, ⟨⟩, _, ⟨⟩, ⟨⟩⟩ := hrun
  refine ⟨h.serializeBgpUpdate2_iff.mpr ⟨Option.some.inj hcheck, by simpa using hann⟩, ?_⟩
  simpa using Option.some.inj hoffs

theorem AnnouncesV4.serializeTracked (h : AnnouncesV4 update)
    (hrun : (serializeTracked update as4byte extNhEncoding fuel).run = some (.ok (messages, offsets))) :
    (serializeBgpUpdate2 update as4byte extNhEncoding fuel).run = some (.ok messages) ∧
      v4AnnouncedOffsets update as4byte 0 messages = .ok offsets := by
  simp only [BgpLib.serializeTracked, run_bind_eq_ok, v4WithdrawnSection_nil h.withdrawn,
    mpWithdrawnSection_nil h.mpWithdrawn, mpAnnouncedSection_nil h.mpAnnounced, mpAnnouncedOffsets,
    if_pos h.mpAnnounced] at hrun
  obtain ⟨⟨⟩, hcheck, _, ⟨⟩, _, ⟨⟩, _, ⟨⟩, _, ⟨⟩, announced, hann, v4Offsets, hoffs, ⟨⟩⟩ := hrun
  refine ⟨h.serializeBgpUpdate2_iff.mpr ⟨Option.some.inj hcheck, by simpa using hann⟩, ?_⟩
  simpa using Option.some.inj hoffs

/-- The messages for any next hop of length `n` are these, with that next hop in the field at the offset. -/
structure PatchesAt (update : BgpUpdate2) (as4byte extNhEncoding : Bool) (fuel : Nat) (messages : List UpdateMessage)
    (offset n : Nat) : Prop where
  fits : ∀ msg ∈ messages, offset + n ≤ msg.bytes.length
  replace : ∀ {nexthop : IPAddress}, nexthop.bytes.length = n →
    (serializeBgpUpdate2 (update.setNexthop nexthop) as4byte extNhEncoding fuel).run =
      some (.ok (messages.map fun msg => ⟨overwrite offset nexthop.bytes msg.bytes, msg.prefixes⟩))

theorem checkUpdate_setNexthop {nh nexthop : IPAddress} (hnh : IPAddress.fromBinary update.mpAnnounced.nexthop = .ok nh)
    (hlen : nexthop.bytes.length = nh.bytes.length) (h : checkUpdate update extNhEncoding = .ok ()) :
    checkUpdate (update.setNexthop nexthop) extNhEncoding = .ok () := by
  obtain ⟨hboth, hnone, hallowed⟩ := checkUpdate_eq_ok_iff.mp h
  refine checkUpdate_eq_ok_iff.mpr ⟨hboth, hnone, fun hpfxs => ?_⟩
  obtain ⟨addr, haddr, hv6⟩ := hallowed hpfxs
  cases hnh.symm.trans haddr
  obtain ⟨hbytes, hfam⟩ := IPAddress.bytes_of_fromBinary hnh
  rcases hfam with ⟨-, h4⟩ | ⟨h6, h16⟩
  · exact ⟨_, IPAddress.fromBinary_v4 (hlen.trans (hbytes ▸ h4)), fun hrej => by cases hrej.2.2⟩
  · exact ⟨_, IPAddress.fromBinary_v6 (hlen.trans (hbytes ▸ h16)), fun hrej => hv6 ⟨hrej.1, hrej.2.1, h6⟩⟩

theorem AnnouncesMp.patchesAt (h : AnnouncesMp update)
    (hrun : (BgpLib.serializeTracked update as4byte extNhEncoding fuel).run = some (.ok (messages, offsets))) :
    ∃ attrs nh, serializePathAttrs update as4byte false = .ok attrs ∧
      IPAddress.fromBinary update.mpAnnounced.nexthop = .ok nh ∧
      offsets = trackNexthops 0 (mpNexthopOffset attrs) nh.isV4 messages ∧
      PatchesAt update as4byte extNhEncoding fuel messages (mpNexthopOffset attrs) nh.bytes.length := by
  obtain ⟨hser, hoffs⟩ := h.serializeTracked hrun
  obtain ⟨hcheck, hsec⟩ := h.serializeBgpUpdate2_iff.mp hser
  obtain ⟨attrs, hattrs, hroom, hpack⟩ := (announcedSection_eq_ok_iff h.mpAnnounced).mp hsec
  rw [mpAnnouncedOffsets, if_neg h.mpAnnounced, hattrs, ok_bind, bind_eq_ok] at hoffs
  obtain ⟨nh, hnh, hoffs⟩ := hoffs
  obtain ⟨hbytes, hfam⟩ := IPAddress.bytes_of_fromBinary hnh
  have hfield : FieldAt (mpNexthopOffset attrs) nh.bytes.length
      fun nexthop => mpAnnouncedMessage { update.mpAnnounced with nexthop := nexthop } attrs
        (getMaxPrefixLen (firstHasPathId update.mpAnnounced.prefixes) false) :=
    fieldAt_mpAnnouncedMessage (hfam.imp (fun h4 => hbytes ▸ h4.2) fun h16 => hbytes ▸ h16.2)
  have hself : update.mpAnnounced.nexthop.length = nh.bytes.length := by rw [hbytes]
  refine ⟨attrs, nh, hattrs, hnh, (Except.ok.inj hoffs).symm, ?_, fun {nexthop} hlen => ?_⟩
  · intro msg hmem
    obtain ⟨-, rest, count, hturn, -⟩ := (packMessages_eq_ok hpack).turns msg hmem
    exact (hfield hself hturn).1
  · have h' := h.setNexthop nexthop
    exact h'.serializeBgpUpdate2_iff.mpr ⟨checkUpdate_setNexthop hnh hlen hcheck,
      (announcedSection_eq_ok_iff h'.mpAnnounced).mpr ⟨attrs, hattrs, hroom, hfield.packMessages hself hlen hpack⟩⟩

theorem AnnouncesV4.patchesAt (h : AnnouncesV4 update) (h4 : update.v4Nexthop.length = 4)
    (hrun : (BgpLib.serializeTracked update as4byte extNhEncoding fuel).run = some (.ok (messages, offsets))) :
    ∃ offset, offsets = trackNexthops 0 offset true messages ∧
      PatchesAt update as4byte extNhEncoding fuel messages offset 4 := by
  obtain ⟨hser, hoffs⟩ := h.serializeTracked hrun
  obtain ⟨hcheck, hsec⟩ := h.serializeBgpUpdate2_iff.mp hser
  obtain ⟨attrs, hattrs, hroom, hpack⟩ := (announcedSection_eq_ok_iff h.announced).mp hsec
  obtain ⟨front, back, rfl, hoffset, hattrs'⟩ := serializePathAttrs_field hattrs h4
  rw [v4AnnouncedOffsets, if_neg h.announced, hoffset] at hoffs
  have hfield : FieldAt (kBgpMsgHeaderLen + 4 + front.length) 4
      fun nexthop => v4AnnouncedMessage (front ++ nexthop ++ back)
        (getMaxPrefixLen (firstHasPathId update.announced) true) := fieldAt_v4AnnouncedMessage
  refine ⟨_, (Except.ok.inj hoffs).symm, ?_, fun {nexthop} hlen => ?_⟩
  · intro msg hmem
    obtain ⟨-, rest, count, hturn, -⟩ := (packMessages_eq_ok hpack).turns msg hmem
    exact (hfield h4 hturn).1
  · have h' := h.setNexthop nexthop
    obtain ⟨hboth, hnone, -⟩ := checkUpdate_eq_ok_iff.mp hcheck
    refine h'.serializeBgpUpdate2_iff.mpr ⟨checkUpdate_eq_ok_iff.mpr ⟨hboth, hnone, fun hmp => absurd h'.mpAnnounced hmp⟩,
      (announcedSection_eq_ok_iff h'.announced).mpr ⟨_, hattrs' hlen, ?_, hfield.packMessages h4 hlen hpack⟩⟩
    simp only [length_append, h4, hlen] at hroom ⊢
    exact hroom

theorem frame_mpReachAttr (attrs nexthop nlri : Bytes) (afi : BgpUpdateAfi) (safi : BgpUpdateSafi) :
    ∃ front back : Bytes, front.length = mpNexthopOffset attrs - 1 ∧
      frame .bgpMsgTypeUpdate (updateBody [] (attrs ++ mpReachAttr afi safi nexthop nlri) []) =
        front ++ UInt8.ofNat nexthop.length :: back := by
  have hsplit : ∀ length attrLength : Nat, ∃ front back : Bytes, front.length = mpNexthopOffset attrs - 1 ∧
      kBgpMarker ++ toBE 2 length ++ [BgpMessageType.bgpMsgTypeUpdate.code] ++
        (toBE 2 0 ++ [] ++ toBE 2 attrLength ++ (attrs ++ mpReachAttr afi safi nexthop nlri) ++ []) =
          front ++ UInt8.ofNat nexthop.length :: back := by
    intro length attrLength
    refine ⟨kBgpMarker ++ toBE 2 length ++ [BgpMessageType.bgpMsgTypeUpdate.code] ++ toBE 2 0 ++ toBE 2 attrLength ++
      attrs ++ [bgpAttrFlagOptional ||| bgpAttrFlagExtended, BgpAttrCode.bgpAttrMpReachNlri.code] ++
      toBE 2 (5 + nexthop.length + nlri.length) ++ intBE 2 afi.toInt ++ intBE 1 safi.toInt,
      nexthop ++ [0] ++ nlri, ?_, ?_⟩
    · simp only [length_append, length_toBE, length_intBE, length_kBgpMarker, length_cons, length_nil,
        mpNexthopOffset, kBgpMsgHeaderLen]
      omega
    · simp only [mpReachAttr, append_assoc, cons_append, nil_append, append_nil]
  exact hsplit _ _

/-- Each message tells the length of its next hop in the byte before it. -/
theorem AnnouncesMp.nexthopLength {attrs : Bytes} (h : AnnouncesMp update)
    (hattrs : serializePathAttrs update as4byte false = .ok attrs)
    (hser : (serializeBgpUpdate2 update as4byte extNhEncoding fuel).run = some (.ok messages)) :
    messages ≠ [] ∧ ∀ msg ∈ messages,
      msg.bytes[mpNexthopOffset attrs - 1]? = some (UInt8.ofNat update.mpAnnounced.nexthop.length) := by
  obtain ⟨-, hsec⟩ := h.serializeBgpUpdate2_iff.mp hser
  obtain ⟨attrs', hattrs', -, hpack⟩ := (announcedSection_eq_ok_iff h.mpAnnounced).mp hsec
  cases hattrs.symm.trans hattrs'
  obtain ⟨hpfxs, hturns⟩ := packMessages_eq_ok hpack
  refine ⟨?_, fun msg hmem => ?_⟩
  · rintro rfl
    exact h.mpAnnounced hpfxs.symm
  · obtain ⟨-, rest, count, hturn, -⟩ := hturns msg hmem
    rw [mpAnnouncedMessage, bind_eq_ok] at hturn
    obtain ⟨nh, hnh, hturn⟩ := hturn
    rw [(IPAddress.bytes_of_fromBinary hnh).1] at hturn
    obtain ⟨nlri, hfinish, -⟩ := packMessage_finish hturn
    obtain ⟨front, back, hfront, hbytes⟩ :=
      frame_mpReachAttr attrs update.mpAnnounced.nexthop nlri update.mpAnnounced.afi update.mpAnnounced.safi
    rw [(finishUpdate_eq_ok hfinish).1, hbytes, ← hfront, List.getElem?_append_right (Nat.le_refl _), Nat.sub_self]
    rfl

end

end FbossBgp.BgpLib
