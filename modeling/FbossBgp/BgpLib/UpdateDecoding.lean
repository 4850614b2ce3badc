import FbossBgp.BgpLib.Packing
import FbossBgp.BgpLib.AttributeDecoding

/-! What the parser makes of the four kinds of messages that an update is serialized into. Prefixes come back from
the wire when they are masked to their length and carry path ids exactly where the session has them. Labelled
prefixes do when they have a length other than 0, no path id, and in a withdrawal no label that stands for none. -/

namespace FbossBgp.BgpLib

open Bytes Outcome Reader List

theorem prefixBytes_of_pos {bits : Nat} (h : bits ≠ 0) : prefixBytes bits = prefixBytes (bits - 8) + 1 := by
  rw [prefixBytes, prefixBytes]
  omega

/-- The bytes that a masked address is not written in are zero. -/
theorem zeroPad_take_of_masked {bits : Nat} {octets : Bytes} (h : IPAddress.maskBytes bits octets = octets) :
    zeroPad octets.length (octets.take (prefixBytes bits)) = octets := by
  induction octets generalizing bits with
  | nil => rw [take_nil, zeroPad, length_nil, replicate_zero, append_nil]
  | cons b octets ih =>
    rw [IPAddress.maskBytes, cons_eq_cons] at h
    have hrest := ih h.2
    by_cases hbits : bits = 0
    · subst hbits
      have hb : b = 0 := by
        have hmask : IPAddress.fetchMask 0 = 0 := rfl
        rw [← h.1, hmask, UInt8.and_zero]
      have hzero : prefixBytes 0 = 0 := rfl
      rw [hzero, take_zero, zeroPad, nil_append, length_nil, Nat.sub_zero] at hrest
      rw [hzero, take_zero, zeroPad, nil_append, length_nil, Nat.sub_zero, length_cons, replicate_succ, hrest, hb]
    · rw [prefixBytes_of_pos hbits, take_succ_cons, zeroPad, length_cons, length_cons,
        Nat.add_sub_add_right]
      exact congrArg (b :: ·) hrest

theorem addressBytes_of_le {addr : Bytes} {length : Nat} (h : prefixBytes length ≤ addr.length) :
    addressBytes addr length = addr.take (prefixBytes length) := by
  rw [addressBytes, zeroPad, take_append_of_le_length h]

/-- A prefix whose length is one of its family, and whose address has no bits past it. -/
structure IPPrefix.Masked (prf : IPPrefix) : Prop where
  nonneg : 0 ≤ prf.prefixLength
  le : prf.prefixLength ≤ 8 * prf.prefixAddress.length
  masked : IPAddress.maskBytes prf.prefixLength.toNat prf.prefixAddress = prf.prefixAddress

/-- A masked prefix that carries a 32-bit path id exactly when the session has them. -/
structure FitsSession (parsePathId : Bool) (rigged : RiggedIPPrefix) : Prop where
  masked : rigged.ipPrefix.Masked
  pathId : rigged.pathId.isSome = parsePathId
  fits : ∀ id ∈ rigged.pathId, -2 ^ 31 ≤ id ∧ id < 2 ^ 31

/-- What the parser keeps of a prefix without labels. -/
def decodePrefix (rigged : RiggedIPPrefix) : BgpPrefix :=
  ⟨(IPAddress.ofBytes rigged.ipPrefix.prefixAddress, prefixLength rigged), [], rigged.pathId⟩

section

variable {afi : BgpUpdateAfi} {safi : BgpUpdateSafi} {parsePathId : Bool} {rigged : RiggedIPPrefix}

theorem PrefixWritable.width (h : PrefixWritable afi safi rigged) :
    rigged.ipPrefix.prefixAddress.length = 4 ∨ rigged.ipPrefix.prefixAddress.length = 16 :=
  h.family.imp And.left And.left

theorem prefixLength_of_masked (h : PrefixWritable afi safi rigged) (hmasked : rigged.ipPrefix.Masked) :
    (prefixLength rigged : Int) = rigged.ipPrefix.prefixLength ∧
      prefixBytes (prefixLength rigged) ≤ rigged.ipPrefix.prefixAddress.length ∧ prefixLength rigged < 256 := by
  have hnonneg := hmasked.nonneg
  have hle := hmasked.le
  have hwidth := h.width
  rw [prefixLength, prefixBytes]
  omega

section

variable (h : PrefixWritable afi .safiUnicast rigged)
include h

theorem PrefixWritable.labels_eq_nil : rigged.labels = [] := by
  by_contra hlabels
  exact h.labels (.inr ⟨rfl, hlabels⟩)

/-- What the parser keeps makes the prefix again. -/
theorem toRigged_decodePrefix (hmasked : rigged.ipPrefix.Masked) : (decodePrefix rigged).toRigged = rigged := by
  obtain ⟨prf, labels, pathId⟩ := rigged
  obtain rfl : labels = [] := h.labels_eq_nil
  rw [BgpPrefix.toRigged, BgpPrefix.toIPPrefix, decodePrefix, IPAddress.bytes_ofBytes h.width,
    (prefixLength_of_masked h hmasked).1]

theorem encodePrefix_unicast (hmasked : rigged.ipPrefix.Masked) :
    encodePrefix .safiUnicast rigged = rigged.pathId.toList.flatMap (intBE 4) ++ (UInt8.ofNat (prefixLength rigged) ::
        rigged.ipPrefix.prefixAddress.take (prefixBytes (prefixLength rigged))) := by
  have hsafi : ¬(BgpUpdateSafi.safiUnicast = .safiLabeledUnicast) := by decide
  rw [encodePrefix, if_neg hsafi, if_neg hsafi, addressBytes_of_le (prefixLength_of_masked h hmasked).2.1,
    append_nil, append_assoc]
  rfl

end

theorem signedPathId_of_fits {id : Int} (h : -2 ^ 31 ≤ id ∧ id < 2 ^ 31) : signedPathId (id % 256 ^ 4).toNat = id := by
  have hnonneg : 0 ≤ id % 256 ^ 4 := Int.emod_nonneg _ (by norm_num)
  have hsize : (256 : Int) ^ 4 = ((2 ^ 32 : Nat) : Int) := by norm_num
  have hbmod : id.bmod (2 ^ 32) = id := by
    apply Int.bmod_eq_of_le
    · norm_num
      omega
    · norm_num
      omega
  unfold signedPathId
  rw [Int.toNat_of_nonneg hnonneg, hsize, Int.emod_bmod, hbmod]

theorem readPathId_encode (hpathId : rigged.pathId.isSome = parsePathId)
    (hfits : ∀ id ∈ rigged.pathId, -2 ^ 31 ≤ id ∧ id < 2 ^ 31) (rest : Bytes) :
    readPathId parsePathId (rigged.pathId.toList.flatMap (intBE 4) ++ rest) = .ok (rigged.pathId, rest) := by
  subst hpathId
  cases hid : rigged.pathId with
  | none => rfl
  | some id =>
    rw [Option.toList_some, flatMap_singleton, readPathId]
    simp only [Option.isSome_some, readBE_intBE, ok_bind, signedPathId_of_fits (hfits id hid)]
    rfl

theorem parseNlriPrefix_encode (h : PrefixWritable afi safi rigged) (hmasked : rigged.ipPrefix.Masked) :
    parseNlriPrefix (rigged.ipPrefix.prefixAddress.take (prefixBytes (prefixLength rigged))) (prefixLength rigged) afi =
      .ok (decodePrefix rigged).network := by
  obtain ⟨hlen, hbytes, -⟩ := prefixLength_of_masked h hmasked
  have hmask := hmasked.masked
  rw [← hlen, Int.toNat_natCast] at hmask
  have hcursor : prefixBytes (prefixLength rigged) ≤
      (rigged.ipPrefix.prefixAddress.take (prefixBytes (prefixLength rigged))).length := by
    rw [length_take]
    omega
  have hread : ∀ tooLong, readPrefix rigged.ipPrefix.prefixAddress.length tooLong
      (rigged.ipPrefix.prefixAddress.take (prefixBytes (prefixLength rigged))) (prefixLength rigged) =
        .ok (decodePrefix rigged).network := by
    intro tooLong
    obtain ⟨addr, hread, haddr, -⟩ := readPrefix_of_le tooLong h.width hbytes hcursor
    rw [take_take, min_self, zeroPad_take_of_masked hmask, hmask] at haddr
    rw [hread, decodePrefix, IPAddress.bytes_injective (haddr.trans (IPAddress.bytes_ofBytes h.width).symm)]
  rw [parseNlriPrefix]
  rcases h.family with ⟨hwidth, rfl⟩ | ⟨hwidth, rfl⟩
  · rw [if_pos rfl, ← hread, hwidth]
  · rw [if_neg (by decide), if_pos rfl, ← hread, hwidth]

theorem parseNlriItem_encodePrefix (h : PrefixWritable afi .safiUnicast rigged)
    (hfits : FitsSession parsePathId rigged) (bgpPrefixes : List BgpPrefix) (rest : Bytes) :
    parseNlriItem parsePathId afi bgpPrefixes (encodePrefix .safiUnicast rigged ++ rest) =
      .ok (bgpPrefixes ++ [decodePrefix rigged], rest) := by
  obtain ⟨-, hbytes, hlt⟩ := prefixLength_of_masked h hfits.masked
  have hlen := length_take_of_le hbytes
  have hpathId : ¬(parsePathId = true ∧ (encodePrefix .safiUnicast rigged ++ rest).length < 4) := by
    rintro ⟨hparse, hshort⟩
    rw [← hfits.pathId, Option.isSome_iff_exists] at hparse
    obtain ⟨id, hid⟩ := hparse
    rw [encodePrefix_unicast h hfits.masked, hid] at hshort
    simp only [Option.toList_some, flatMap_singleton, length_append, length_intBE] at hshort
    omega
  rw [parseNlriItem, if_neg hpathId, encodePrefix_unicast h hfits.masked, append_assoc,
    readPathId_encode hfits.pathId hfits.fits, ok_bind]
  dsimp only
  rw [if_neg (by simp), cons_append, readBE_one_cons, ok_bind, UInt8.toNat_ofNat', Nat.mod_eq_of_lt hlt]
  dsimp only
  rw [if_neg (by rw [length_append]; omega), pull_append underflow rest hlen, ok_bind]
  rw [parseNlriPrefix_encode h hfits.masked]
  rfl

theorem parseNlri_encode {prefixes : List RiggedIPPrefix} {capabilities : BgpCapabilities}
    (h : ∀ rigged ∈ prefixes, PrefixWritable afi .safiUnicast rigged)
    (hfits : ∀ rigged ∈ prefixes, FitsSession (parsesPathId capabilities afi .safiUnicast) rigged) :
    parseNlri (prefixes.flatMap (encodePrefix .safiUnicast)) afi .safiUnicast capabilities =
      .ok (prefixes.map decodePrefix) :=
  untilEmpty_flatMap (parseNlriItem_consumes _ afi)
    (fun rigged hmem => parseNlriItem_encodePrefix (h rigged hmem) (hfits rigged hmem)) []

end

section

variable {afi : BgpUpdateAfi} {attrType : UInt8} {labels : List Int} {rigged : RiggedIPPrefix}

/-- Labels of 20 bits. In a withdrawal none above the bottom has a value that stands for no label. -/
structure LabelsFit (attrType : UInt8) (labels : List Int) : Prop where
  bits : ∀ label ∈ labels, 0 ≤ label ∧ label < 2 ^ 20
  kept : attrType = BgpAttrCode.bgpAttrMpUnreachNlri.code → ∀ label ∈ labels.dropLast, label ≠ 0 ∧ label ≠ 2 ^ 19

theorem parseLabels_intBE {x len : Nat} (hx : x < 2 ^ 24) (hlen : 24 < len)
    (hkept : ¬(attrType = BgpAttrCode.bgpAttrMpUnreachNlri.code ∧
      (x = kWithdrawCompatibility ∨ x = kWithdrawCompatibility2))) (fuel : Nat) (rest : Bytes) :
    parseLabels attrType (fuel + 1) len labels (intBE 3 x ++ rest) =
      if x % 2 = 1 then .ok ((labels ++ [((x / 16 : Nat) : Int)], len - 24), rest)
      else parseLabels attrType fuel (len - 24) (labels ++ [((x / 16 : Nat) : Int)]) rest := by
  have hbytes : intBE 3 x = [UInt8.ofNat (x / 2 ^ 16), UInt8.ofNat (x / 2 ^ 8), UInt8.ofNat x] := by
    have hmod : ((x : Int) % 256 ^ 3).toNat = x := by omega
    rw [intBE, hmod]
    simp [toBE]
  have hlabel : x / 2 ^ 16 % 2 ^ 8 * 2 ^ 16 + x / 2 ^ 8 % 2 ^ 8 * 2 ^ 8 + x % 2 ^ 8 = x := by omega
  rw [parseLabels, if_pos hlen, hbytes]
  simp only [cons_append, readBE_one_cons, ok_bind, UInt8.toNat_ofNat', hlabel]
  rw [if_neg hkept]
  rfl

theorem parseLabels_encodeLabels (hfit : LabelsFit attrType labels) (hne : labels ≠ []) {length : Nat}
    (hlength : 0 < length) {fuel : Nat} (hfuel : labels.length ≤ fuel) (front : List Int) (rest : Bytes) :
    parseLabels attrType fuel (length + labels.length * 24) front (encodeLabels labels ++ rest) =
      .ok ((front ++ labels, length), rest) := by
  induction labels generalizing front fuel with
  | nil => exact absurd rfl hne
  | cons label labels ih =>
    obtain ⟨fuel, rfl⟩ : ∃ k, fuel = k + 1 := ⟨fuel - 1, by rw [length_cons] at hfuel; omega⟩
    obtain ⟨n, rfl⟩ := Int.eq_ofNat_of_zero_le (hfit.bits label mem_cons_self).1
    have hbits := (hfit.bits n mem_cons_self).2
    rw [length_cons] at hfuel ⊢
    cases labels with
    | nil =>
      have hbottom : intBE 3 ((n : Int) * 16 + 1) = intBE 3 (n * 16 + 1 : Nat) := rfl
      rw [encodeLabels, hbottom, parseLabels_intBE (by omega) (by omega), if_pos (by omega)]
      · simp [show (n * 16 + 1) / 16 = n by omega]
      · simp only [kWithdrawCompatibility, kWithdrawCompatibility2]
        omega
    | cons next labels =>
      have hlabel : intBE 3 ((n : Int) * 16) = intBE 3 (n * 16 : Nat) := rfl
      have hrest : LabelsFit attrType (next :: labels) :=
        ⟨fun label hmem => hfit.bits label (mem_cons_of_mem _ hmem),
          fun hwd label hmem => hfit.kept hwd label (mem_cons_of_mem _ hmem)⟩
      rw [encodeLabels, append_assoc, hlabel, parseLabels_intBE (by omega) (by omega), if_neg (by omega)]
      · rw [show length + ((next :: labels).length + 1) * 24 - 24 = length + (next :: labels).length * 24 by omega,
          ih hrest (by simp) (by omega)]
        simp
      · rintro ⟨hwd, heq⟩
        have := hfit.kept hwd n mem_cons_self
        simp only [kWithdrawCompatibility, kWithdrawCompatibility2] at heq
        omega
      · exact nofun

/-- A labelled prefix that comes back from the wire: its length is not 0, and it has no path id. -/
structure LabeledFits (attrType : UInt8) (rigged : RiggedIPPrefix) : Prop where
  masked : rigged.ipPrefix.Masked
  pathId : rigged.pathId = none
  pos : 0 < prefixLength rigged
  le : prefixLength rigged + rigged.labels.length * 24 ≤ 255
  labels : LabelsFit attrType rigged.labels

theorem parseLabeledItem_encodePrefix (h : PrefixWritable afi .safiLabeledUnicast rigged)
    (hfits : LabeledFits attrType rigged) (quoted : Bytes) (bgpPrefixes : List BgpPrefix) (rest : Bytes) :
    parseLabeledItem false afi quoted attrType bgpPrefixes (encodePrefix .safiLabeledUnicast rigged ++ rest) =
      .ok (bgpPrefixes ++ [{ decodePrefix rigged with labels := rigged.labels }], rest) := by
  obtain ⟨-, hbytes, -⟩ := prefixLength_of_masked h hfits.masked
  have hlen := length_take_of_le hbytes
  have hle := hfits.le
  have hne : rigged.labels ≠ [] := fun hnil => h.labels (.inl ⟨rfl, hnil⟩)
  have hpathId : (decodePrefix rigged).pathId = none := hfits.pathId
  rw [parseLabeledItem, encodePrefix, hfits.pathId, if_pos rfl, if_pos rfl, addressBytes_of_le hbytes]
  simp only [Option.toList_none, flatMap_nil, nil_append, cons_append, append_assoc, readBE_one_cons, ok_bind,
    UInt8.toNat_ofNat', Nat.mod_eq_of_lt (show prefixLength rigged + rigged.labels.length * 24 < 2 ^ 8 by omega)]
  rw [parseLabels_encodeLabels hfits.labels hne hfits.pos (by omega), ok_bind]
  simp only [readPathId, Bool.false_eq_true, if_false, pure_bind]
  rw [if_neg (by rw [length_append]; omega), pull_append underflow rest hlen, ok_bind]
  rw [parseNlriPrefix_encode h hfits.masked, ← hpathId]
  rfl

/-- What the packing loop writes of labelled prefixes comes back from the wire. -/
theorem parseMpNlri_serializeNlri {prefixes : List RiggedIPPrefix} {room bufSize maxPrefixLen count : Nat} {out : Bytes}
    {capa : BgpCapabilities} (hcapa : afi = .afiIPv4 ∧ capa.mpExtV4LU = true ∨ afi = .afiIPv6 ∧ capa.mpExtV6LU = true)
    (hpathId : parsesPathId capa afi .safiLabeledUnicast = false)
    (h : serializeNlri afi .safiLabeledUnicast room bufSize maxPrefixLen prefixes [] = .ok (out, count))
    (hfits : ∀ rigged ∈ prefixes, LabeledFits attrType rigged) (quoted : Bytes) :
    (parseMpNlri out afi .safiLabeledUnicast capa quoted attrType).map (map BgpPrefix.toRigged) =
      .ok (prefixes.take count) := by
  obtain ⟨rfl, -, hwr⟩ := serializeNlri_eq_ok (Nat.zero_le _) h
  have hfits' := fun rigged hmem => hfits rigged (mem_of_mem_take (i := count) hmem)
  have hturns := untilEmpty_flatMap (parseLabeledItem_ensures false afi quoted attrType).consumes
    (fun rigged hmem => parseLabeledItem_encodePrefix (hwr rigged hmem) (hfits' rigged hmem) quoted) []
  have hcapa' : ¬((afi ≠ .afiIPv6 ∨ capa.mpExtV6LU = false) ∧ (afi ≠ .afiIPv4 ∨ capa.mpExtV4LU = false)) := by
    rcases hcapa with ⟨rfl, hcapa⟩ | ⟨rfl, hcapa⟩ <;> simp [hcapa]
  rw [parseMpNlri, if_neg hcapa', hpathId, nil_append, hturns, nil_append]
  refine congrArg Except.ok ?_
  rw [map_map]
  refine (map_congr_left fun rigged hmem => ?_).trans (map_id _)
  have hlength := (prefixLength_of_masked (hwr _ hmem) (hfits' _ hmem).masked).1
  simp only [Function.comp_apply, BgpPrefix.toRigged, BgpPrefix.toIPPrefix, decodePrefix,
    IPAddress.bytes_ofBytes (hwr _ hmem).width, hlength, id]

/-- The prefix `10.0.0.0/8` with two labels. -/
def labeledPrefix (top : Int) : RiggedIPPrefix := ⟨⟨[10, 0, 0, 0], 8⟩, [top, 16], none⟩

theorem parseMpNlri_labeledPrefix : ∃ out, serializeNlri .afiIPv4 .safiLabeledUnicast 64 64 5 [labeledPrefix 17] [] =
      .ok (out, 1) ∧ (parseMpNlri out .afiIPv4 .safiLabeledUnicast { mpExtV4LU := true } [] 14).map
        (map BgpPrefix.toRigged) = .ok [labeledPrefix 17] := by
  obtain ⟨out, hout⟩ : ∃ out, serializeNlri .afiIPv4 .safiLabeledUnicast 64 64 5 [labeledPrefix 17] [] = .ok (out, 1) :=
    ⟨_, rfl⟩
  have hfits : LabeledFits 14 (labeledPrefix 17) :=
    ⟨⟨by decide, by decide, rfl⟩, rfl, by decide, by decide, by decide, by decide⟩
  exact ⟨out, hout, parseMpNlri_serializeNlri (.inl ⟨rfl, rfl⟩) rfl hout (forall_mem_singleton.mpr hfits) []⟩

/-- A withdrawn prefix loses a label that stands for no label, and what follows it is read as the address. -/
theorem exists_labels_not_decoded : ∃ out, serializeNlri .afiIPv4 .safiLabeledUnicast 64 64 5 [labeledPrefix 0] [] =
      .ok (out, 1) ∧ (parseMpNlri out .afiIPv4 .safiLabeledUnicast { mpExtV4LU := true } [] 15).toOption.map
        (map BgpPrefix.toRigged) ≠ some [labeledPrefix 0] :=
  ⟨_, rfl, by decide +kernel⟩

end

variable {capa : BgpCapabilities}

section

theorem readFieldLen_toBE (tooShort : String) {n : Nat} (h : n < 65536) (rest : Bytes) :
    readFieldLen tooShort (toBE 2 n ++ rest) = .ok (n, rest) := by
  have hmod : n % 256 ^ 2 = n := Nat.mod_eq_of_lt h
  rw [readFieldLen, if_neg (by rw [length_append, length_toBE]; omega), readBE_toBE, hmod]

variable {prefixes : List BgpPrefix}

theorem parseV4Withdrawn_field {withdrawn : Bytes} (hlen : withdrawn.length < 65536)
    (h : parseNlri withdrawn .afiIPv4 .safiUnicast capa = .ok prefixes) (rest : Bytes) :
    parseV4Withdrawn capa {} (toBE 2 withdrawn.length ++ (withdrawn ++ rest)) =
      .ok ({ v4WithdrawnLen := withdrawn.length, v4Withdrawn := prefixes }, rest) := by
  rw [parseV4Withdrawn, readFieldLen_toBE _ hlen, ok_bind]
  dsimp only
  split
  next hzero =>
    obtain rfl := length_eq_zero_iff.mp hzero
    cases h
    rfl
  · rw [if_neg (by rw [length_append]; omega), pull_append underflow rest rfl, ok_bind]
    rw [h]
    rfl

theorem parsePathAttributes_field {pathAttrs : Bytes} (hlen : pathAttrs.length < 65536)
    (state : UpdateMsgParsingState) (rest : Bytes) :
    parsePathAttributes capa state (toBE 2 pathAttrs.length ++ (pathAttrs ++ rest)) =
      (untilEmpty (parsePathAttribute capa) { state with attrs.isMedSet := false, paLen := pathAttrs.length }
        pathAttrs >>= fun state => .ok (state, rest)) := by
  rw [parsePathAttributes, readFieldLen_toBE _ hlen, ok_bind]
  dsimp only
  split
  next hzero =>
    obtain rfl := length_eq_zero_iff.mp hzero
    rfl
  · rw [if_neg (by rw [length_append]; omega), pull_append underflow rest rfl]
    rfl

theorem parseV4Announced_field {nlri : Bytes} {state : UpdateMsgParsingState}
    (hstate : state.v4Announced = []) (h : parseNlri nlri .afiIPv4 .safiUnicast capa = .ok prefixes) :
    parseV4Announced capa state nlri = .ok { state with v4Announced := prefixes } := by
  rw [parseV4Announced]
  split
  next hzero =>
    obtain rfl := length_eq_zero_iff.mp hzero
    cases h
    rw [← hstate]
    rfl
  · rw [h]
    rfl

/-- A message with something in it, whose fields parse and pass the checks, is an update. -/
theorem parseBgpUpdateRaw_of_fields {withdrawn pathAttrs nlri bytes : Bytes} {v4Withdrawn v4Announced : List BgpPrefix}
    {state : UpdateMsgParsingState} (h : finishUpdate withdrawn pathAttrs nlri = .ok bytes)
    (hsome : ¬(withdrawn = [] ∧ pathAttrs = []))
    (hwd : parseNlri withdrawn .afiIPv4 .safiUnicast capa = .ok v4Withdrawn)
    (hattrs : untilEmpty (parsePathAttribute capa)
      { v4WithdrawnLen := withdrawn.length, v4Withdrawn := v4Withdrawn, paLen := pathAttrs.length } pathAttrs = .ok state)
    (hlens : state.v4WithdrawnLen = withdrawn.length ∧ state.paLen = pathAttrs.length)
    (hann : state.v4Announced = []) (hnlri : parseNlri nlri .afiIPv4 .safiUnicast capa = .ok v4Announced)
    (hchecks : doSanityChecks { state with v4Announced := v4Announced } = .ok ()) (heor : state.eor = none) :
    parseBgpUpdateRaw bytes capa =
      .ok (.inl (UpdateMsgParsingState.toUpdate { state with v4Announced := v4Announced } capa)) := by
  obtain ⟨rfl, hlen⟩ := finishUpdate_eq_ok h
  rw [parseBgpUpdateRaw_frame capa hlen]
  rw [length_updateBody, kMaxBgpMsgLen] at hlen
  have hlens' : ¬(state.v4WithdrawnLen = 0 ∧ state.paLen = 0) := by
    rw [hlens.1, hlens.2, length_eq_zero_iff, length_eq_zero_iff]
    exact hsome
  rw [parseUpdateBody, updateBody, append_assoc, append_assoc, append_assoc,
    parseV4Withdrawn_field (by omega) hwd, ok_bind]
  dsimp only
  rw [parsePathAttributes_field (by omega), hattrs, ok_bind, ok_bind]
  rw [if_neg hlens', parseV4Announced_field hann hnlri, ok_bind, hchecks]
  simp only [heor]
  rfl

end

section

variable (afi : BgpUpdateAfi) (safi : BgpUpdateSafi)

def mpUnreachWireAttr (nlri : Bytes) : WireAttr :=
  ⟨bgpAttrFlagOptional ||| bgpAttrFlagExtended, .bgpAttrMpUnreachNlri, intBE 2 afi.toInt ++ intBE 1 safi.toInt ++ nlri⟩

def mpReachWireAttr (nexthop nlri : Bytes) : WireAttr :=
  ⟨bgpAttrFlagOptional ||| bgpAttrFlagExtended, .bgpAttrMpReachNlri,
    intBE 2 afi.toInt ++ intBE 1 safi.toInt ++ [UInt8.ofNat nexthop.length] ++ nexthop ++ [0] ++ nlri⟩

theorem encode_mpUnreachWireAttr (nlri : Bytes) :
    (mpUnreachWireAttr afi safi nlri).encode = mpUnreachAttr afi safi nlri := by
  have hlen : (intBE 2 afi.toInt ++ intBE 1 safi.toInt ++ nlri).length = 3 + nlri.length := by
    rw [length_append, length_append, length_intBE, length_intBE]
  rw [mpUnreachWireAttr, WireAttr.encode_extended (bgpAttrFlagOptional ||| bgpAttrFlagExtended) _ _ (by decide),
    mpUnreachAttr, hlen]
  simp only [append_assoc]

theorem encode_mpReachWireAttr (nexthop nlri : Bytes) :
    (mpReachWireAttr afi safi nexthop nlri).encode = mpReachAttr afi safi nexthop nlri := by
  have hlen : (intBE 2 afi.toInt ++ intBE 1 safi.toInt ++ [UInt8.ofNat nexthop.length] ++ nexthop ++ [0] ++
      nlri).length = 5 + nexthop.length + nlri.length := by
    simp only [length_append, length_intBE, length_cons, length_nil]
    omega
  rw [mpReachWireAttr, WireAttr.encode_extended (bgpAttrFlagOptional ||| bgpAttrFlagExtended) _ _ (by decide),
    mpReachAttr, hlen]
  simp only [append_assoc]

structure UnicastNlri (capa : BgpCapabilities) (nlri : BgpNlri) : Prop where
  safi : nlri.safi = .safiUnicast
  v4 : nlri.afi = .afiIPv4 → capa.mpExtV4Unicast = true
  v6 : nlri.afi = .afiIPv6 → capa.mpExtV6Unicast = true
  fits : ∀ rigged ∈ nlri.prefixes, FitsSession (parsesPathId capa nlri.afi .safiUnicast) rigged

variable {nlri : BgpNlri} {prefixes : List RiggedIPPrefix} {nexthop : Bytes}

theorem afi_of_code {afi : BgpUpdateAfi} (h : afi = .afiIPv4 ∨ afi = .afiIPv6) :
    OpenEnum.ofInt ((afi.toInt % 256 ^ 2).toNat : Int) = afi := by
  rcases h with rfl | rfl <;> decide

theorem safi_of_code :
    OpenEnum.ofInt ((BgpUpdateSafi.safiUnicast.toInt % 256 ^ 1).toNat : Int) = BgpUpdateSafi.safiUnicast := by
  decide

theorem readV6Nexthop_encode (h : nexthop.length = 16) (rest : Bytes) :
    readV6Nexthop 16 (nexthop ++ rest) = .ok (IPAddress.ofBytes nexthop, rest) := by
  rw [readV6Nexthop, pull_append underflow rest h, ok_bind]
  dsimp only
  rw [IPAddress.fromBinary_v6 h, IPAddress.ofBytes, IPAddress.fromBinary_v6 h]
  rfl

/-- The next hop of v4 prefixes may be a v6 address when the session has that encoding. -/
theorem readMpV4Nexthop_encode
    (h : nexthop.length = 4 ∨ nexthop.length = 16 ∧ capa.extNHEncodingCapabilities ≠ []) (quoted rest : Bytes) :
    readMpV4Nexthop capa quoted (UInt8.ofNat nexthop.length :: (nexthop ++ rest)) =
      .ok (IPAddress.ofBytes nexthop, rest) := by
  rw [readMpV4Nexthop, readBE_one_cons, ok_bind]
  dsimp only
  rcases h with h4 | ⟨h16, hext⟩
  · have hlen : (UInt8.ofNat nexthop.length).toNat = 4 := by rw [h4]; rfl
    rw [hlen, if_neg (fun h => h.2 rfl), if_neg (fun h => h.2.1 rfl),
      readBE_of_le (by rw [length_append]; omega), take_left' h4, drop_left' h4, ok_bind]
    rw [fromLongHBO_ofBE h4, IPAddress.ofBytes, IPAddress.fromBinary_v4 h4]
    rfl
  · have hlen : (UInt8.ofNat nexthop.length).toNat = 16 := by rw [h16]; rfl
    have hsome : capa.extNHEncodingCapabilities.length > 0 := length_pos_of_ne_nil hext
    rw [hlen, decide_eq_true hsome, if_neg (fun h => Bool.noConfusion h.1), if_neg (fun h => h.2.2.1 rfl),
      if_neg (by decide), readV6Nexthop_encode h16]

theorem readMpV6Nexthop_encode (h : nexthop.length = 16) (quoted rest : Bytes) :
    readMpV6Nexthop quoted (UInt8.ofNat nexthop.length :: (nexthop ++ rest)) =
      .ok (IPAddress.ofBytes nexthop, rest) := by
  have hlen : (UInt8.ofNat nexthop.length).toNat = 16 := by rw [h]; rfl
  rw [readMpV6Nexthop, readBE_one_cons, ok_bind]
  dsimp only
  rw [hlen, if_neg (fun h => h.1 rfl), readV6Nexthop_encode h]

/-- The next hop is one that the parser takes for the family. -/
def NexthopMatches (capa : BgpCapabilities) (nlri : BgpNlri) : Prop :=
  nlri.afi = .afiIPv4 ∧ (nlri.nexthop.length = 4 ∨ nlri.nexthop.length = 16 ∧ capa.extNHEncodingCapabilities ≠ []) ∨
    nlri.afi = .afiIPv6 ∧ nlri.nexthop.length = 16

theorem NexthopMatches.length_le (h : NexthopMatches capa nlri) : nlri.nexthop.length ≤ 16 := by
  rcases h with ⟨-, h | h⟩ | ⟨-, h⟩ <;> omega

variable (h : UnicastNlri capa nlri) (hsub : ∀ rigged ∈ prefixes, rigged ∈ nlri.prefixes)
  (hwr : ∀ rigged ∈ prefixes, PrefixWritable nlri.afi .safiUnicast rigged)
  (hafi : nlri.afi = .afiIPv4 ∨ nlri.afi = .afiIPv6)
include h hsub hwr hafi

theorem parseMpNlri_encode (quoted : Bytes) (attrType : UInt8) :
    parseMpNlri (prefixes.flatMap (encodePrefix .safiUnicast)) nlri.afi .safiUnicast capa quoted attrType =
      .ok (prefixes.map decodePrefix) := by
  have hfam : nlri.afi = .afiIPv6 ∧ capa.mpExtV6Unicast = true ∨ nlri.afi = .afiIPv4 ∧ capa.mpExtV4Unicast = true :=
    hafi.symm.imp (fun h6 => ⟨h6, h.v6 h6⟩) fun h4 => ⟨h4, h.v4 h4⟩
  rw [parseMpNlri, if_pos hfam]
  exact parseNlri_encode hwr fun rigged hmem => h.fits rigged (hsub rigged hmem)

theorem takesAttrs_mpUnreach (hne : prefixes.flatMap (encodePrefix .safiUnicast) ≠ [])
    (hlen : (prefixes.flatMap (encodePrefix .safiUnicast)).length ≤ kMaxBgpMsgLen) :
    TakesAttrs capa [mpUnreachWireAttr nlri.afi nlri.safi (prefixes.flatMap (encodePrefix .safiUnicast))] fun state =>
      { state with
        mpWithdrawnAfi := nlri.afi
        mpWithdrawnSafi := .safiUnicast
        mpWithdrawn := prefixes.map decodePrefix } := by
  rw [kMaxBgpMsgLen] at hlen
  apply takesAttrs_singleton
  · refine accepted_extended (bgpAttrFlagOptional ||| bgpAttrFlagExtended) .bgpAttrMpUnreachNlri (by decide) (by decide) ?_
    simp only [length_append, length_intBE]
    omega
  · intro hdr htype quoted rawLen state
    rw [parseAttrBody, htype]
    change parseMpUnreachNlri capa quoted BgpAttrCode.bgpAttrMpUnreachNlri.code state
      (intBE 2 nlri.afi.toInt ++ intBE 1 nlri.safi.toInt ++ prefixes.flatMap (encodePrefix .safiUnicast)) = _
    rw [parseMpUnreachNlri, h.safi, append_assoc, readBE_intBE, ok_bind]
    dsimp only
    rw [readBE_intBE, ok_bind]
    rw [afi_of_code hafi, safi_of_code]
    have hfam : nlri.afi = .afiIPv4 ∨ ¬(nlri.afi = .afiIPv4) ∧ nlri.afi = .afiIPv6 :=
      hafi.imp_right fun h6 => ⟨by rw [h6]; decide, h6⟩
    have hnlri := parseMpNlri_encode h hsub hwr hafi quoted BgpAttrCode.bgpAttrMpUnreachNlri.code
    simp only [parseMpWithdrawn, if_neg (mt length_eq_zero_iff.mp hne)]
    rcases hfam with h4 | ⟨hn4, h6⟩
    · rw [if_pos h4, ← h4, hnlri]
      rfl
    · rw [if_neg hn4, if_pos h6, ← h6, hnlri]
      rfl

theorem parseMpAnnounced_encode {cursor : Bytes} {nexthop : IPAddress}
    (readNexthop : Bytes → Except Exception (IPAddress × Bytes))
    (hread : readNexthop cursor = .ok (nexthop, [0] ++ prefixes.flatMap (encodePrefix .safiUnicast)))
    (quoted : Bytes) (attrType : UInt8) (state : UpdateMsgParsingState)
    (hsafi : state.mpAnnouncedSafi = .safiUnicast) :
    parseMpAnnounced capa quoted attrType readNexthop nlri.afi state cursor =
      .ok { state with mpNexthop := nexthop, mpAnnounced := prefixes.map decodePrefix } := by
  rw [parseMpAnnounced, hread, ok_bind]
  dsimp only
  rw [pull_append underflow _ length_singleton, ok_bind]
  rw [hsafi, parseMpNlri_encode h hsub hwr hafi]
  rfl

omit hafi in
theorem takesAttrs_mpReach (hnh : NexthopMatches capa nlri)
    (hlength : (prefixes.flatMap (encodePrefix .safiUnicast)).length ≤ kMaxBgpMsgLen) :
    TakesAttrs capa [mpReachWireAttr nlri.afi nlri.safi nlri.nexthop (prefixes.flatMap (encodePrefix .safiUnicast))]
      fun state =>
      { state with
        mpAnnouncedAfi := nlri.afi
        mpAnnouncedSafi := .safiUnicast
        mpNexthop := IPAddress.ofBytes nlri.nexthop
        mpAnnounced := prefixes.map decodePrefix } := by
  rw [kMaxBgpMsgLen] at hlength
  apply takesAttrs_singleton
  · refine accepted_extended (bgpAttrFlagOptional ||| bgpAttrFlagExtended) .bgpAttrMpReachNlri (by decide) (by decide) ?_
    have hnexthopLength := hnh.length_le
    simp only [length_append, length_intBE, length_cons, length_nil]
    omega
  · intro hdr htype quoted rawLen state
    rw [parseAttrBody, htype]
    change parseMpReachNlri capa quoted BgpAttrCode.bgpAttrMpReachNlri.code state
      (intBE 2 nlri.afi.toInt ++ intBE 1 nlri.safi.toInt ++ [UInt8.ofNat nlri.nexthop.length] ++ nlri.nexthop ++ [0] ++
        prefixes.flatMap (encodePrefix .safiUnicast)) = _
    simp only [append_assoc]
    rw [h.safi]
    rcases hnh with ⟨h4, hlen⟩ | ⟨h6, hlen⟩
    · have hann := parseMpAnnounced_encode h hsub hwr (.inl h4) _
        (readMpV4Nexthop_encode hlen quoted _) quoted BgpAttrCode.bgpAttrMpReachNlri.code
        { state with mpAnnouncedAfi := nlri.afi, mpAnnouncedSafi := .safiUnicast } rfl
      rw [h4] at hann ⊢
      exact hann
    · have hann := parseMpAnnounced_encode h hsub hwr (.inr h6) _
        (readMpV6Nexthop_encode hlen quoted _) quoted BgpAttrCode.bgpAttrMpReachNlri.code
        { state with mpAnnouncedAfi := nlri.afi, mpAnnouncedSafi := .safiUnicast } rfl
      rw [h6] at hann ⊢
      exact hann

end

end FbossBgp.BgpLib
