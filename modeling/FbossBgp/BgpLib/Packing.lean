import FbossBgp.BgpLib.FiberBgpParser
import FbossBgp.BgpLib.MessageSerializer

/-! What the serializer writes: the header of a message is the one the parser reads, a turn of a packing loop
writes the encodings of a run of prefixes, and a section ends exactly when its turns pack at least one prefix. -/

namespace FbossBgp.BgpLib

open Bytes Outcome Reader Writer List

section

variable (type : BgpMessageType)

/-- A message around its body. -/
def frame (body : Bytes) : Bytes :=
  kBgpMarker ++ toBE 2 (kBgpMsgHeaderLen + body.length) ++ [type.code] ++ body

variable (withdrawn pathAttrs nlri : Bytes) (afi : BgpUpdateAfi) (safi : BgpUpdateSafi)

/-- The body of an UPDATE message: two fields with their lengths, and the prefixes that are left. -/
def updateBody : Bytes :=
  toBE 2 withdrawn.length ++ withdrawn ++ toBE 2 pathAttrs.length ++ pathAttrs ++ nlri

theorem length_kBgpMarker : kBgpMarker.length = 16 := length_replicate

theorem length_frame (body : Bytes) : (frame type body).length = kBgpMsgHeaderLen + body.length := by
  simp only [frame, length_append, length_kBgpMarker, length_toBE, length_cons, length_nil, kBgpMsgHeaderLen]

theorem length_updateBody :
    (updateBody withdrawn pathAttrs nlri).length = 4 + withdrawn.length + pathAttrs.length + nlri.length := by
  simp only [updateBody, length_append, length_toBE]
  omega

theorem length_mpUnreachAttr (nlri : Bytes) : (mpUnreachAttr afi safi nlri).length = 7 + nlri.length := by
  simp only [mpUnreachAttr, length_append, length_toBE, length_intBE, length_cons, length_nil]

theorem length_mpReachAttr (nexthop nlri : Bytes) :
    (mpReachAttr afi safi nexthop nlri).length = 9 + nexthop.length + nlri.length := by
  simp only [mpReachAttr, length_append, length_toBE, length_intBE, length_cons, length_nil]
  omega

theorem serializeBgpHeader_of_le {type : BgpMessageType} {body : Bytes}
    (h : kBgpMsgHeaderLen + body.length ≤ kMaxBgpMsgLen) :
    serializeBgpHeader (List.replicate kBgpMsgHeaderLen 0 ++ body) type = .ok (frame type body) := by
  have hlen : (List.replicate kBgpMsgHeaderLen (0 : UInt8) ++ body).length = kBgpMsgHeaderLen + body.length := by
    rw [length_append, length_replicate]
  have hmod : (kBgpMsgHeaderLen + body.length) % 2 ^ 16 = kBgpMsgHeaderLen + body.length := by
    rw [kMaxBgpMsgLen] at h
    exact Nat.mod_eq_of_lt (by omega)
  rw [serializeBgpHeader, hlen, hmod, if_neg (by omega)]
  rfl

theorem finishUpdate_of_le {withdrawn pathAttrs nlri : Bytes}
    (h : kMinBgpUpdateMsgLen + withdrawn.length + pathAttrs.length + nlri.length ≤ kMaxBgpMsgLen) :
    finishUpdate withdrawn pathAttrs nlri = .ok (frame .bgpMsgTypeUpdate (updateBody withdrawn pathAttrs nlri)) := by
  have hbody : kBgpMsgHeaderLen + (updateBody withdrawn pathAttrs nlri).length ≤ kMaxBgpMsgLen := by
    rw [kMinBgpUpdateMsgLen] at h
    rw [length_updateBody, kBgpMsgHeaderLen]
    omega
  rw [finishUpdate, push_of_le (by rw [length_replicate]; exact hbody)]
  exact serializeBgpHeader_of_le hbody

theorem finishUpdate_eq_ok {withdrawn pathAttrs nlri bytes : Bytes}
    (h : finishUpdate withdrawn pathAttrs nlri = .ok bytes) :
    bytes = frame .bgpMsgTypeUpdate (updateBody withdrawn pathAttrs nlri) ∧
      kBgpMsgHeaderLen + (updateBody withdrawn pathAttrs nlri).length ≤ kMaxBgpMsgLen := by
  rw [finishUpdate, bind_eq_ok] at h
  obtain ⟨buf, hpush, hheader⟩ := h
  obtain ⟨hfits, rfl⟩ := push_eq_ok hpush
  have hbody : kBgpMsgHeaderLen + (updateBody withdrawn pathAttrs nlri).length ≤ kMaxBgpMsgLen := by
    rwa [length_replicate] at hfits
  exact ⟨Except.ok.inj (hheader.symm.trans (serializeBgpHeader_of_le hbody)), hbody⟩

section

variable {type : BgpMessageType} {body : Bytes}

theorem parseBgpMsgHdr_frame (h : kBgpMsgHeaderLen + body.length ≤ kMaxBgpMsgLen) :
    parseBgpMsgHdr (frame type body) (some type) = .ok ⟨kBgpMsgHeaderLen + body.length, type.code⟩ := by
  have hshort : ¬(frame type body).length < kBgpMsgHeaderLen := by
    rw [length_frame]
    omega
  have hmod : (kBgpMsgHeaderLen + body.length) % 256 ^ 2 = kBgpMsgHeaderLen + body.length := by
    rw [kMaxBgpMsgLen] at h
    exact Nat.mod_eq_of_lt (by omega)
  rw [parseBgpMsgHdr, if_neg hshort, frame, append_assoc, append_assoc,
    pull_append underflow _ length_kBgpMarker, ok_bind]
  dsimp only
  rw [if_neg (not_not.mpr rfl), readBE_toBE, ok_bind, hmod]
  rw [cons_append, readBE_one_cons, ok_bind]
  rw [if_neg (by omega), if_neg (not_not.mpr rfl), UInt8.ofNat_toNat]
  rfl

theorem consumeBgpMsgHdr_frame (h : kBgpMsgHeaderLen + body.length ≤ kMaxBgpMsgLen) :
    consumeBgpMsgHdr (frame type body) (some type) = .ok (⟨kBgpMsgHeaderLen + body.length, type.code⟩, body) := by
  have hheader : (kBgpMarker ++ toBE 2 (kBgpMsgHeaderLen + body.length) ++ [type.code]).length = kBgpMsgHeaderLen := by
    simp only [length_append, length_kBgpMarker, length_toBE, length_cons, length_nil, kBgpMsgHeaderLen]
  rw [consumeBgpMsgHdr, parseBgpMsgHdr_frame h, ok_bind]
  rw [length_frame, frame, pull_append underflow body hheader, ok_bind]
  dsimp only
  rw [if_neg (lt_irrefl _)]
  rfl

/-- The parser of an update sees the body of the message and nothing else. -/
theorem parseBgpUpdateRaw_frame {withdrawn pathAttrs nlri : Bytes} (capabilities : BgpCapabilities)
    (h : kBgpMsgHeaderLen + (updateBody withdrawn pathAttrs nlri).length ≤ kMaxBgpMsgLen) :
    parseBgpUpdateRaw (frame .bgpMsgTypeUpdate (updateBody withdrawn pathAttrs nlri)) capabilities =
      parseUpdateBody (updateBody withdrawn pathAttrs nlri) capabilities := by
  rw [parseBgpUpdateRaw, consumeBgpMsgHdr_frame h, ok_bind]
  dsimp only
  rw [if_neg (by rw [length_updateBody]; omega), Nat.add_sub_cancel_left, take_length]

end

end

section

/-- The length of a prefix in bits, as it is kept in one byte. -/
def prefixLength (rigged : RiggedIPPrefix) : Nat := (rigged.ipPrefix.prefixLength % 2 ^ 8).toNat

def encodePrefix (safi : BgpUpdateSafi) (rigged : RiggedIPPrefix) : Bytes :=
  rigged.pathId.toList.flatMap (intBE 4) ++
    [UInt8.ofNat (if safi = .safiLabeledUnicast then prefixLength rigged + rigged.labels.length * 24
      else prefixLength rigged)] ++
    (if safi = .safiLabeledUnicast then encodeLabels rigged.labels else []) ++
    addressBytes rigged.ipPrefix.prefixAddress (prefixLength rigged)

/-- What the serializer checks in a prefix: its address is of the family, and it has labels where they are due. -/
structure PrefixWritable (afi : BgpUpdateAfi) (safi : BgpUpdateSafi) (rigged : RiggedIPPrefix) : Prop where
  family : rigged.ipPrefix.prefixAddress.length = 4 ∧ afi = .afiIPv4 ∨
    rigged.ipPrefix.prefixAddress.length = 16 ∧ afi = .afiIPv6
  labels : ¬(safi = .safiLabeledUnicast ∧ rigged.labels = [] ∨ safi = .safiUnicast ∧ rigged.labels ≠ [])

variable {afi : BgpUpdateAfi} {safi : BgpUpdateSafi} {room : Nat} {rigged : RiggedIPPrefix}

theorem PrefixWritable.exists_address (h : PrefixWritable afi safi rigged) :
    ∃ addr, IPAddress.fromBinary rigged.ipPrefix.prefixAddress = .ok addr ∧ addr.bytes = rigged.ipPrefix.prefixAddress ∧
      ¬(addr.isV4 = true ∧ afi ≠ .afiIPv4 ∨ addr.isV6 = true ∧ afi ≠ .afiIPv6) := by
  rcases h.family with ⟨hlen, rfl⟩ | ⟨hlen, rfl⟩
  · exact ⟨_, IPAddress.fromBinary_v4 hlen, rfl, by simp [IPAddress.isV6]⟩
  · exact ⟨_, IPAddress.fromBinary_v6 hlen, rfl, by simp [IPAddress.isV4]⟩

theorem writes_writePrefix (safi : BgpUpdateSafi) (room : Nat) (rigged : RiggedIPPrefix) : Writes overflow room
    (writePrefix safi room rigged rigged.ipPrefix.prefixAddress (prefixLength rigged))
    (encodePrefix safi rigged) := by
  have hpath := Writes.writeSome rigged.pathId fun pathId _ => writes_push overflow room (intBE 4 pathId)
  have hlabels := Writes.writeIf (c := safi = .safiLabeledUnicast)
    fun _ => writes_push overflow room (encodeLabels rigged.labels)
  have hall := ((hpath.bind (writes_push overflow room [UInt8.ofNat
    (if safi = .safiLabeledUnicast then prefixLength rigged + rigged.labels.length * 24
      else prefixLength rigged)])).bind hlabels).bind
    (writes_push overflow room (addressBytes rigged.ipPrefix.prefixAddress (prefixLength rigged)))
  intro written hwrt
  have hwrite := hall written hwrt
  simp only [bind_assoc] at hwrite
  exact hwrite

theorem writes_serializePrefix (h : PrefixWritable afi safi rigged) :
    Writes overflow room (serializePrefix afi safi room rigged) (encodePrefix safi rigged) := by
  obtain ⟨addr, haddr, hbytes, hfam⟩ := h.exists_address
  intro written hwrt
  rw [serializePrefix, haddr]
  change (if _ then _ else if _ then _ else _) = _
  rw [if_neg hfam, if_neg h.labels, hbytes]
  exact writes_writePrefix safi room rigged written hwrt

theorem prefixWritable_of_serializePrefix {cursor out : Bytes}
    (h : serializePrefix afi safi room rigged cursor = .ok out) : PrefixWritable afi safi rigged := by
  rw [serializePrefix, bind_eq_ok] at h
  obtain ⟨addr, haddr, h⟩ := h
  obtain ⟨-, hlen⟩ := IPAddress.bytes_of_fromBinary haddr
  dsimp only at h
  split at h
  · cases h
  next hfam =>
    split at h
    · cases h
    next hlabels =>
      refine ⟨?_, hlabels⟩
      by_contra hnone
      rcases hlen with ⟨hv4, hlen⟩ | ⟨hv6, hlen⟩
      · exact hfam (.inl ⟨hv4, fun hafi => hnone (.inl ⟨hlen, hafi⟩)⟩)
      · exact hfam (.inr ⟨hv6, fun hafi => hnone (.inr ⟨hlen, hafi⟩)⟩)

end

section

variable {afi : BgpUpdateAfi} {safi : BgpUpdateSafi} {room bufSize maxPrefixLen : Nat} {prefixes : List RiggedIPPrefix}
  {count : Nat}

/-- What is packed is a run of prefixes from the front of the list, each as it is encoded. -/
theorem serializeNlri_eq_ok {cursor out : Bytes} (hcursor : cursor.length ≤ room)
    (h : serializeNlri afi safi room bufSize maxPrefixLen prefixes cursor = .ok (out, count)) :
    out = cursor ++ (prefixes.take count).flatMap (encodePrefix safi) ∧ out.length ≤ room ∧
      ∀ rigged ∈ prefixes.take count, PrefixWritable afi safi rigged := by
  induction prefixes generalizing cursor count with
  | nil =>
    cases h
    simpa using hcursor
  | cons rigged prefixes ih =>
    rw [serializeNlri] at h
    split at h
    · rw [bind_eq_ok] at h
      obtain ⟨next, hnext, h⟩ := h
      rw [bind_eq_ok] at h
      obtain ⟨⟨out', count'⟩, hrest, h⟩ := h
      cases h
      have hwr := prefixWritable_of_serializePrefix hnext
      rw [writes_serializePrefix hwr cursor hcursor] at hnext
      obtain ⟨hfits, rfl⟩ := push_eq_ok hnext
      obtain ⟨hout, hlen, hall⟩ := ih (by rw [length_append]; exact hfits) hrest
      refine ⟨?_, hlen, ?_⟩
      · rw [hout, take_succ_cons, flatMap_cons, append_assoc]
      · exact forall_mem_cons.mpr ⟨hwr, hall⟩
    · cases h
      simpa using hcursor

/-- With space for one prefix of the greatest length, at least one is packed. -/
theorem count_pos_of_serializeNlri {out : Bytes} (hpfxs : prefixes ≠ []) (hspace : maxPrefixLen + 1 < bufSize)
    (h : serializeNlri afi safi room bufSize maxPrefixLen prefixes [] = .ok (out, count)) : 0 < count := by
  obtain ⟨rigged, prefixes, rfl⟩ := exists_cons_of_ne_nil hpfxs
  rw [serializeNlri, if_pos (by simpa using hspace), bind_eq_ok] at h
  obtain ⟨next, -, h⟩ := h
  rw [bind_eq_ok] at h
  obtain ⟨⟨out', count'⟩, -, h⟩ := h
  cases h
  exact Nat.succ_pos count'

theorem serializeNlri_of_no_space (prefixes : List RiggedIPPrefix) (hspace : ¬maxPrefixLen + 1 < bufSize) :
    serializeNlri afi safi room bufSize maxPrefixLen prefixes [] = .ok ([], 0) := by
  cases prefixes with
  | nil => rfl
  | cons rigged prefixes => rw [serializeNlri, if_neg (by simpa using hspace)]

/-- A prefix that can be written in the greatest length. -/
def PrefixFits (afi : BgpUpdateAfi) (safi : BgpUpdateSafi) (maxPrefixLen : Nat) (rigged : RiggedIPPrefix) : Prop :=
  PrefixWritable afi safi rigged ∧ (encodePrefix safi rigged).length ≤ maxPrefixLen

theorem serializeNlri_ensures (hroom : bufSize ≤ room)
    (hfits : ∀ rigged ∈ prefixes, PrefixFits afi safi maxPrefixLen rigged) {cursor : Bytes}
    (hcursor : cursor.length ≤ bufSize) : Ensures (fun next => next.1.length ≤ bufSize) (fun _ => False)
      (serializeNlri afi safi room bufSize maxPrefixLen prefixes cursor) := by
  induction prefixes generalizing cursor with
  | nil => exact hcursor
  | cons rigged prefixes ih =>
    obtain ⟨hwr, hlen⟩ := hfits rigged mem_cons_self
    apply ensures_ite
    · intro hspace
      rw [writes_serializePrefix hwr cursor (by omega), push_of_le (by omega)]
      have hlength : (cursor ++ encodePrefix safi rigged).length ≤ bufSize := by
        rw [length_append]
        omega
      have hrest := ih (fun rigged hmem => hfits rigged (mem_cons_of_mem _ hmem)) hlength
      exact hrest.bind fun next hnext => hnext
    · intro _
      exact hcursor

end

section

variable {message : List RiggedIPPrefix → Except Exception (Bytes × Nat)} {prefixes : List RiggedIPPrefix} {fuel : Nat}

/-- A turn that packs nothing is repeated for ever. -/
theorem packMessages_stuck {bytes : Bytes} (hpfxs : prefixes ≠ [])
    (hturn : message prefixes = .ok (bytes, 0)) (fuel : Nat) : (packMessages message fuel prefixes).run = none := by
  obtain ⟨rigged, rest, rfl⟩ := exists_cons_of_ne_nil hpfxs
  induction fuel with
  | zero => rfl
  | succ fuel ih =>
    have hfirst : (ExceptT.mk (some (message (rigged :: rest)))).run = some (.ok (bytes, 0)) := congrArg some hturn
    rw [packMessages, run_bind_of_ok hfirst]
    exact run_bind_of_none _ ih

/-- Turns that pack at least one prefix each come to an end, and throw only what a turn throws. -/
theorem packMessages_returns {P : Exception → Prop}
    (hturn : ∀ prefixes, prefixes ≠ [] → Ensures (fun next => 0 < next.2) P (message prefixes))
    (hfuel : prefixes.length ≤ fuel) :
    Returns (fun messages => ∀ msg ∈ messages, msg.prefixes ≠ []) P (packMessages message fuel prefixes) := by
  fun_induction packMessages message fuel prefixes with
  | case1 => exact returns_pure fun msg hmem => absurd hmem not_mem_nil
  | case2 => cases hfuel
  | case3 fuel rigged rest ih =>
    apply (returns_mk (hturn (rigged :: rest) (cons_ne_nil _ _))).bind
    rintro ⟨bytes, count⟩ hcount
    apply (ih count (by rw [length_drop]; omega)).bind
    intro messages hmessages
    apply returns_pure
    refine forall_mem_cons.mpr ⟨fun hnil => ?_, hmessages⟩
    rw [take_eq_nil_iff] at hnil
    exact hnil.elim (fun h => hcount.ne' h) (cons_ne_nil _ _)

theorem packMessages_ne_error {V : RiggedIPPrefix → Prop}
    (hturn : ∀ prefixes, (∀ rigged ∈ prefixes, V rigged) → FailsOnly (fun _ => False) (message prefixes))
    (fuel : Nat) (hvalid : ∀ rigged ∈ prefixes, V rigged) :
    ∀ e, (packMessages message fuel prefixes).run ≠ some (.error e) := by
  fun_induction packMessages message fuel prefixes with
  | case1 | case2 => exact fun _ => nofun
  | case3 fuel rigged rest ih =>
    apply run_bind_ne_error
    · intro e hmsg
      exact (hturn _ hvalid).of_error (Option.some.inj hmsg)
    · intro next
      apply run_bind_ne_error
      · exact ih next.2 fun p hp => hvalid p (mem_of_mem_drop hp)
      · exact fun _ _ => nofun

/-- The messages of a section hold its prefixes in order, and each is that of a turn that packed some. -/
structure PackedBy (turn : List RiggedIPPrefix → Bytes × Nat → Prop) (prefixes : List RiggedIPPrefix)
    (messages : List UpdateMessage) : Prop where
  concat : messages.flatMap UpdateMessage.prefixes = prefixes
  turns : ∀ msg ∈ messages, msg.prefixes ≠ [] ∧ ∃ rest count, turn rest (msg.bytes, count) ∧
    msg.prefixes = rest.take count ∧ ∀ rigged ∈ rest, rigged ∈ prefixes

theorem packMessages_eq_ok {messages : List UpdateMessage}
    (h : (packMessages message fuel prefixes).run = some (.ok messages)) :
    PackedBy (fun rest next => message rest = .ok next) prefixes messages := by
  fun_induction packMessages message fuel prefixes generalizing messages with
  | case1 =>
    cases h
    exact ⟨rfl, fun msg hmem => absurd hmem not_mem_nil⟩
  | case2 => cases h
  | case3 fuel rigged rest ih =>
    rw [run_bind_eq_ok] at h
    obtain ⟨⟨bytes, count⟩, hturn, h⟩ := h
    have hmsg : message (rigged :: rest) = .ok (bytes, count) := Option.some.inj hturn
    rw [run_bind_eq_ok] at h
    obtain ⟨later, hlater, h⟩ := h
    cases h
    obtain ⟨hconcat, hturns⟩ := ih count hlater
    have hcount : count ≠ 0 := by
      rintro rfl
      rw [drop_zero, packMessages_stuck (cons_ne_nil _ _) hmsg] at hlater
      cases hlater
    refine ⟨by rw [flatMap_cons, hconcat, take_append_drop], forall_mem_cons.mpr ⟨⟨?_, ?_⟩, ?_⟩⟩
    · intro hnil
      rw [take_eq_nil_iff] at hnil
      exact hnil.elim hcount (cons_ne_nil _ _)
    · exact ⟨rigged :: rest, count, hmsg, rfl, fun p hp => hp⟩
    · intro msg hmem
      obtain ⟨hne, rest', count', hturn', htake, hsub⟩ := hturns msg hmem
      exact ⟨hne, rest', count', hturn', htake, fun p hp => mem_of_mem_drop (hsub p hp)⟩

end

end FbossBgp.BgpLib
