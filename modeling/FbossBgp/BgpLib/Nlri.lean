import FbossBgp.BgpLib.Structs

/-! Addresses as the codec uses them: their bytes, masking, and the dotted text of a v4 address; and parsing the
prefixes of an UPDATE message: the plain NLRI fields, and those of the multiprotocol attributes with their label
stacks. -/

namespace FbossBgp.BgpLib

open Bytes Outcome Reader

/-- A `folly::IPAddress`; its bytes are in network order. -/
inductive IPAddress
  | empty
  | v4 (octets : Bytes) (h : octets.length = 4)
  | v6 (octets : Bytes) (h : octets.length = 16)
  deriving DecidableEq

namespace IPAddress

abbrev ofOctets (a b c d : UInt8) : IPAddress := v4 [a, b, c, d] rfl

def bytes : IPAddress → Bytes
  | empty => []
  | v4 octets _ => octets
  | v6 octets _ => octets

def isV4 : IPAddress → Bool
  | v4 _ _ => true
  | _ => false

def isV6 : IPAddress → Bool
  | v6 _ _ => true
  | _ => false

def fromBinary (octets : Bytes) : Except Exception IPAddress :=
  if h₄ : octets.length = 4 then .ok (v4 octets h₄)
  else if h₁₆ : octets.length = 16 then .ok (v6 octets h₁₆)
  else .error .ipAddressException

variable (n : Nat)

def fromLongHBO : IPAddress := v4 (toBE 4 n) (length_toBE 4 n)

/-- The byte whose first `n` bits are set, at most eight. -/
def fetchMask : UInt8 := UInt8.ofNat (256 - 2 ^ (8 - min n 8))

/-- The first `n` bits of the bytes, with the others cleared. -/
def maskBytes (n : Nat) : Bytes → Bytes
  | [] => []
  | b :: octets => (b &&& fetchMask n) :: maskBytes (n - 8) octets

@[simp] theorem length_maskBytes (octets : Bytes) : (maskBytes n octets).length = octets.length := by
  induction octets generalizing n with
  | nil => rfl
  | cons b octets ih => rw [maskBytes, List.length_cons, List.length_cons, ih]

def mask (numBits : Nat) : IPAddress → Except Exception IPAddress
  | empty => .error .ipAddressException
  | v4 octets h =>
    if numBits > 32 then .error .ipAddressException
    else .ok (v4 (maskBytes numBits octets) (by rw [length_maskBytes, h]))
  | v6 octets h =>
    if numBits > 128 then .error .ipAddressException
    else .ok (v6 (maskBytes numBits octets) (by rw [length_maskBytes, h]))

def octetText (b : UInt8) : List Char := Nat.toDigits 10 b.toNat

/-- The text of a v4 address. -/
def str (octets : Bytes) : List Char := List.intercalate ['.'] (octets.map octetText)

variable (text : List Char)

def octetOfText : Option UInt8 :=
  ((List.range 256).find? fun n => Nat.toDigits 10 n == text).map UInt8.ofNat

/-- `folly::IPAddress(text).asV4()`: a text that is not a v4 address throws. -/
def v4OfText : Except Exception Bytes :=
  match (text.splitOn '.').mapM octetOfText with
  | some octets => if octets.length = 4 then .ok octets else .error .ipAddressException
  | none => .error .ipAddressException

theorem octetText_of_octetOfText {text : List Char} {b : UInt8} (h : octetOfText text = some b) :
    octetText b = text := by
  rw [octetOfText, Option.map_eq_some_iff] at h
  obtain ⟨n, hn, rfl⟩ := h
  have hmem := List.mem_of_find?_eq_some hn
  have htext := List.find?_some hn
  rw [beq_iff_eq] at htext
  rw [List.mem_range] at hmem
  rw [octetText, UInt8.toNat_ofNat', Nat.mod_eq_of_lt hmem, htext]

variable {octets : Bytes}

theorem map_octetText_of_mapM {texts : List (List Char)} (h : texts.mapM octetOfText = some octets) :
    octets.map octetText = texts := by
  induction texts generalizing octets with
  | nil =>
    cases h
    rfl
  | cons text texts ih =>
    rw [List.mapM_cons] at h
    cases hb : octetOfText text with
    | none =>
      rw [hb] at h
      cases h
    | some b =>
      cases hrest : texts.mapM octetOfText with
      | none =>
        rw [hb, hrest] at h
        cases h
      | some rest =>
        rw [hb, hrest] at h
        cases h
        rw [List.map_cons, octetText_of_octetOfText hb, ih hrest]

/-- A text is read as an address only if it is the text of that address. -/
theorem v4OfText_eq_ok {text : List Char} (h : v4OfText text = .ok octets) : octets.length = 4 ∧ str octets = text := by
  rw [v4OfText] at h
  split at h
  next parsed hparsed =>
    split at h
    next hlen =>
      cases h
      exact ⟨hlen, by rw [str, map_octetText_of_mapM hparsed, List.intercalate_splitOn]⟩
    · cases h
  · cases h

@[simp] theorem fromBinary_v4 (h : octets.length = 4) : fromBinary octets = .ok (v4 octets h) := dif_pos h

@[simp] theorem fromBinary_v6 (h : octets.length = 16) : fromBinary octets = .ok (v6 octets h) := by
  rw [fromBinary, dif_neg (by omega), dif_pos h]

theorem bytes_of_fromBinary {addr : IPAddress} (h : fromBinary octets = .ok addr) :
    addr.bytes = octets ∧ (addr.isV4 = true ∧ octets.length = 4 ∨ addr.isV6 = true ∧ octets.length = 16) := by
  rw [fromBinary] at h
  split at h
  next h₄ =>
    cases h
    exact ⟨rfl, .inl ⟨rfl, h₄⟩⟩
  · split at h
    next h₁₆ =>
      cases h
      exact ⟨rfl, .inr ⟨rfl, h₁₆⟩⟩
    · cases h

theorem bytes_injective : Function.Injective bytes := by
  intro a b h
  cases a with
  | empty =>
    cases b with
    | empty => rfl
    | v4 octets hlen =>
      subst h
      cases hlen
    | v6 octets hlen =>
      subst h
      cases hlen
  | v4 octets hlen =>
    cases b with
    | empty =>
      cases h
      cases hlen
    | v4 octets' hlen' =>
      cases h
      rfl
    | v6 octets' hlen' =>
      cases h
      omega
  | v6 octets hlen =>
    cases b with
    | empty =>
      cases h
      cases hlen
    | v4 octets' hlen' =>
      cases h
      omega
    | v6 octets' hlen' =>
      cases h
      rfl

/-- The address of four or sixteen bytes, and the empty one otherwise. -/
def ofBytes (octets : Bytes) : IPAddress :=
  match fromBinary octets with
  | .ok addr => addr
  | .error _ => empty

theorem bytes_ofBytes (h : octets.length = 4 ∨ octets.length = 16) : (ofBytes octets).bytes = octets := by
  rcases h with h | h
  · rw [ofBytes, fromBinary_v4 h]
    rfl
  · rw [ofBytes, fromBinary_v6 h]
    rfl

end IPAddress

def kWithdrawCompatibility : Nat := 0x800000

def kWithdrawCompatibility2 : Nat := 0x000000

/-- A prefix as the parser keeps it: its address and length, its labels and its path id. -/
structure BgpPrefix where
  network : IPAddress × Nat
  labels : List Int
  pathId : Option Int
  deriving DecidableEq

/-- The bytes of a prefix in an array of `width` bytes that was cleared before. -/
def zeroPad (width : Nat) (bytes : Bytes) : Bytes := bytes ++ List.replicate (width - bytes.length) 0

def prefixBytes (bits : Nat) : Nat := (bits + 7) / 8

/-- One family of `parseNlriPrefix`: addresses of `width` bytes. -/
def readPrefix (width : Nat) (tooLong : String) (cursor : Bytes) (prefixLen : Nat) :
    Except Exception (IPAddress × Nat) := do
  if prefixBytes prefixLen > width then
    throw (.bgpUpdateMsgException .bnUmInvalidNetworkField [] ⟨tooLong, [.num (prefixBytes prefixLen)]⟩)
  let (data, _) ← pull underflow (prefixBytes prefixLen) cursor
  let addr ← IPAddress.fromBinary (zeroPad width data)
  let masked ← addr.mask prefixLen
  return (masked, prefixLen)

def parseNlriPrefix (cursor : Bytes) (prefixLen : Nat) (afi : BgpUpdateAfi) : Except Exception (IPAddress × Nat) :=
  if afi = .afiIPv4 then
    readPrefix 4 "Unexpected length of v4-prefix. expected: <= 4, received: {}" cursor prefixLen
  else if afi = .afiIPv6 then
    readPrefix 16 "Unexpected length of v6-prefix. expected: <= 16, received: {}" cursor prefixLen
  else return (.empty, prefixLen)

/-- Whether prefixes of the family carry a path id: the last capability for it decides. -/
def parsesPathId (capabilities : BgpCapabilities) (afi : BgpUpdateAfi) (safi : BgpUpdateSafi) : Bool :=
  capabilities.addPathCapabilities.foldl (fun parsePathId cap =>
    if cap.afi = afi ∧ cap.safi = safi then decide (cap.sor = .receive ∨ cap.sor = .both) else parsePathId) false

/-- A path id is kept in a signed 32-bit field. -/
def signedPathId (id : Nat) : Int := (id : Int).bmod (2 ^ 32)

def invalidNetworkField (what : What) : Exception := .bgpUpdateMsgException .bnUmInvalidNetworkField [] what

variable (parsePathId : Bool) (cursor : Bytes) (afi : BgpUpdateAfi)

def readPathId : Except Exception (Option Int × Bytes) :=
  if parsePathId then do
    let (id, cursor) ← readBE underflow 4 cursor
    return (some (signedPathId id), cursor)
  else return (none, cursor)

/-- One turn of the loop of `parseNlri`. -/
def parseNlriItem (bgpPrefixes : List BgpPrefix) (cursor : Bytes) :
    Except Exception (List BgpPrefix × Bytes) := do
  if parsePathId = true ∧ cursor.length < 4 then
    throw (invalidNetworkField
      ⟨"Withdrawn NLRI: Attempting to 4-bytes of pathId, but only {} bytes remaining.", [.num cursor.length]⟩)
  let (pathId, cursor) ← readPathId parsePathId cursor
  if cursor.length = 0 then
    throw (invalidNetworkField ⟨"Withdrawn NLRI: No bytes left, before reading length", []⟩)
  let (prefixLen, cursor) ← readBE underflow 1 cursor
  if prefixBytes prefixLen > cursor.length then
    throw (invalidNetworkField ⟨"Withdrawn NLRI: {} bytes prefixlen, but only {} bytes left.",
      [.num (prefixBytes prefixLen), .num cursor.length]⟩)
  let (prefixBuf, cursor) ← pull underflow (prefixBytes prefixLen) cursor
  let network ← parseNlriPrefix prefixBuf prefixLen afi
  return (bgpPrefixes ++ [⟨network, [], pathId⟩], cursor)

def parseNlri (afi : BgpUpdateAfi) (safi : BgpUpdateSafi) (capabilities : BgpCapabilities) :
    Except Exception (List BgpPrefix) :=
  untilEmpty (parseNlriItem (parsesPathId capabilities afi safi) afi) [] cursor

/-- The label stack of a prefix, and the bits of its length that are left for the address. -/
def parseLabels (attrType : UInt8) : Nat → Nat → List Int → Bytes → Except Exception ((List Int × Nat) × Bytes)
  | 0, len, labels, cursor => .ok ((labels, len), cursor)
  | fuel + 1, len, labels, cursor =>
    if len > 24 then do
      let (high, cursor) ← readBE underflow 1 cursor
      let (middle, cursor) ← readBE underflow 1 cursor
      let (low, cursor) ← readBE underflow 1 cursor
      let label := high * 2 ^ 16 + middle * 2 ^ 8 + low
      if attrType = BgpAttrCode.bgpAttrMpUnreachNlri.code ∧
          (label = kWithdrawCompatibility ∨ label = kWithdrawCompatibility2) then
        return ((labels, len - 24), cursor)
      if label % 2 = 1 then return ((labels ++ [↑(label / 16)], len - 24), cursor)
      parseLabels attrType fuel (len - 24) (labels ++ [↑(label / 16)]) cursor
    else .ok ((labels, len), cursor)

/-- One turn of the loop of `parseMpNlri` over labelled prefixes; a length has room for at most ten labels. -/
def parseLabeledItem (attrBeingParsed : Bytes) (attrType : UInt8)
    (bgpPrefixes : List BgpPrefix) (cursor : Bytes) : Except Exception (List BgpPrefix × Bytes) := do
  let (len, cursor) ← readBE underflow 1 cursor
  let ((labels, len), cursor) ← parseLabels attrType 10 len [] cursor
  let (pathId, cursor) ← readPathId parsePathId cursor
  if prefixBytes len > cursor.length then
    throw (.bgpUpdateMsgException .bnUmUnspecific attrBeingParsed
      ⟨"bgp prefix length exceeds cursor lengthcursor length : {}, prefix length: {}",
        [.num cursor.length, .num (prefixBytes len)]⟩)
  let (prefixBuf, cursor) ← pull underflow (prefixBytes len) cursor
  let network ← parseNlriPrefix prefixBuf len afi
  return (bgpPrefixes ++ [⟨network, labels, pathId⟩], cursor)

def parseMpNlri (afi : BgpUpdateAfi) (safi : BgpUpdateSafi) (capa : BgpCapabilities)
    (attrBeingParsed : Bytes) (attrType : UInt8) : Except Exception (List BgpPrefix) :=
  let parsePathId := parsesPathId capa afi safi
  if safi = .safiUnicast then
    if afi = .afiIPv6 ∧ capa.mpExtV6Unicast = true ∨ afi = .afiIPv4 ∧ capa.mpExtV4Unicast = true then
      parseNlri cursor afi safi capa
    else return []
  else if safi = .safiLabeledUnicast then
    if (afi ≠ .afiIPv6 ∨ capa.mpExtV6LU = false) ∧ (afi ≠ .afiIPv4 ∨ capa.mpExtV4LU = false) then return []
    else untilEmpty (parseLabeledItem parsePathId afi attrBeingParsed attrType) [] cursor
  else
    throw (.bgpUpdateMsgException .bnUmOptionalAttrError attrBeingParsed ⟨"Unsupported safi: {}", [.num safi.toInt]⟩)

section

variable {width prefixLen : Nat} {cursor : Bytes}

theorem length_zeroPad {bytes : Bytes} (h : bytes.length ≤ width) : (zeroPad width bytes).length = width := by
  rw [zeroPad, List.length_append, List.length_replicate]
  omega

/-- A prefix that fits its family is read: its bytes are padded and masked. -/
theorem readPrefix_of_le (tooLong : String) (hwidth : width = 4 ∨ width = 16) (hlen : prefixBytes prefixLen ≤ width)
    (hcursor : prefixBytes prefixLen ≤ cursor.length) :
    ∃ addr, readPrefix width tooLong cursor prefixLen = .ok (addr, prefixLen) ∧
      addr.bytes = IPAddress.maskBytes prefixLen (zeroPad width (cursor.take (prefixBytes prefixLen))) ∧
      addr.bytes.length = width := by
  have hpad : (zeroPad width (cursor.take (prefixBytes prefixLen))).length = width :=
    length_zeroPad (by rw [List.length_take]; omega)
  rw [prefixBytes] at hlen
  rcases hwidth with rfl | rfl
  · refine ⟨.v4 _ (by rw [IPAddress.length_maskBytes, hpad]), ?_, rfl, by simp [IPAddress.bytes, hpad]⟩
    rw [readPrefix, if_neg (by rw [prefixBytes]; omega), pull_of_le hcursor]
    simp only [bind, Except.bind, IPAddress.fromBinary_v4 hpad, IPAddress.mask]
    rw [if_neg (by omega)]
    rfl
  · refine ⟨.v6 _ (by rw [IPAddress.length_maskBytes, hpad]), ?_, rfl, by simp [IPAddress.bytes, hpad]⟩
    rw [readPrefix, if_neg (by rw [prefixBytes]; omega), pull_of_le hcursor]
    simp only [bind, Except.bind, IPAddress.fromBinary_v6 hpad, IPAddress.mask]
    rw [if_neg (by omega)]
    rfl

end

section

/-- An exception that an UPDATE message's sender is told about. -/
def IsUpdateMsgException : Exception → Prop
  | .bgpUpdateMsgException _ _ _ => True
  | _ => False

/-- The errors of the body of an attribute, before a read past its end is reported as malformed. -/
abbrev UpdateOrRange : Exception → Prop := OrRange IsUpdateMsgException

variable {cursor : Bytes}

theorem readPrefix_ensures {width prefixLen : Nat} {tooLong : String}
    (hwidth : width = 4 ∨ width = 16) (hcursor : prefixBytes prefixLen ≤ cursor.length) :
    FailsOnly IsUpdateMsgException (readPrefix width tooLong cursor prefixLen) := by
  by_cases hlen : prefixBytes prefixLen ≤ width
  · obtain ⟨addr, hread, -⟩ := readPrefix_of_le tooLong hwidth hlen hcursor
    rw [hread]
    trivial
  · rw [readPrefix, if_pos (by omega)]
    trivial

theorem parseNlriPrefix_ensures (prefixLen : Nat) (hcursor : prefixBytes prefixLen ≤ cursor.length)
    (afi : BgpUpdateAfi) : FailsOnly IsUpdateMsgException (parseNlriPrefix cursor prefixLen afi) := by
  refine ensures_ite (fun _ => readPrefix_ensures (.inl rfl) hcursor) fun _ => ?_
  exact ensures_ite (fun _ => readPrefix_ensures (.inr rfl) hcursor) fun _ => trivial

theorem readPathId_ensures {P : Exception → Prop} {parsePathId : Bool}
    (h : parsePathId = true → cursor.length < 4 → P underflow) :
    Ensures (fun next => next.2.length ≤ cursor.length) P (readPathId parsePathId cursor) := by
  refine ensures_ite (fun hpath => ?_) fun _ => le_rfl
  refine (ensures_readBE (h hpath)).bind ?_
  rintro ⟨id, rest⟩ ⟨-, rfl, -⟩
  exact (List.length_drop ..).trans_le (Nat.sub_le _ _)

/-- A turn takes at least the length byte, and fails only with an UPDATE error. -/
theorem parseNlriItem_ensures (parsePathId : Bool) (afi : BgpUpdateAfi) :
    ConsumesOr (parseNlriItem parsePathId afi) IsUpdateMsgException := by
  intro bgpPrefixes cursor
  refine ensures_ite (fun _ => trivial) fun hshort => ?_
  refine (readPathId_ensures fun hpath hlt => absurd ⟨hpath, hlt⟩ hshort).bind ?_
  rintro ⟨pathId, cursor₁⟩ hless
  dsimp only at hless
  refine ensures_ite (fun _ => trivial) fun hempty => ?_
  refine (ensures_readBE fun hlt => absurd hlt (by omega)).bind ?_
  rintro ⟨prefixLen, cursor₂⟩ ⟨-, rfl, hread⟩
  refine ensures_ite (fun _ => trivial) fun hfits => ?_
  refine (ensures_pull fun hlt => absurd hlt hfits).bind ?_
  rintro ⟨prefixBuf, cursor₃⟩ ⟨rfl, rfl, hprefix⟩
  refine (parseNlriPrefix_ensures _ (by rw [List.length_take]; omega) afi).bind fun network _ => ?_
  rw [ensures_pure, List.length_drop, List.length_drop]
  omega

theorem parseNlriItem_consumes (parsePathId : Bool) (afi : BgpUpdateAfi) : Consumes (parseNlriItem parsePathId afi) :=
  (parseNlriItem_ensures parsePathId afi).consumes

theorem parseNlri_ensures (cursor : Bytes) (afi : BgpUpdateAfi) (safi : BgpUpdateSafi)
    (capabilities : BgpCapabilities) :
    FailsOnly IsUpdateMsgException (parseNlri cursor afi safi capabilities) :=
  untilEmpty_ensures (parseNlriItem_ensures _ afi) [] cursor

theorem parseLabels_ensures (attrType : UInt8) (fuel len : Nat) (labels : List Int) (cursor : Bytes) :
    Ensures (fun next => next.2.length ≤ cursor.length) UpdateOrRange (parseLabels attrType fuel len labels cursor) := by
  induction fuel generalizing len labels cursor with
  | zero => exact le_rfl
  | succ fuel ih =>
    refine ensures_ite (fun _ => ?_) fun _ => le_rfl
    refine ensures_read_bind fun next₁ _ => ?_
    refine ensures_read_bind fun next₂ _ => ?_
    refine ensures_read_bind fun next₃ _ => ?_
    have hless : (((cursor.drop 1).drop 1).drop 1).length ≤ cursor.length := by
      rw [List.drop_drop, List.drop_drop, List.length_drop]
      omega
    refine ensures_ite (fun _ => hless) fun _ => ensures_ite (fun _ => hless) fun _ => ?_
    exact Ensures.mono (ih _ _ _) (fun _ hrest => hrest.trans hless) fun _ h => h

/-- A turn takes at least the length byte. -/
theorem parseLabeledItem_ensures (parsePathId : Bool) (afi : BgpUpdateAfi) (quoted : Bytes) (attrType : UInt8) :
    ConsumesOr (parseLabeledItem parsePathId afi quoted attrType) UpdateOrRange := by
  intro bgpPrefixes cursor
  refine ensures_read_bind fun next₁ hread => ?_
  refine (parseLabels_ensures attrType 10 _ _ _).bind fun next₂ hlabels => ?_
  refine (readPathId_ensures fun _ _ => .inr rfl).bind fun next₃ hpathId => ?_
  refine ensures_ite (fun _ => .inl trivial) fun hfits => ?_
  refine (ensures_pull fun _ => .inr rfl).bind ?_
  rintro ⟨prefixBuf, cursor₄⟩ ⟨rfl, rfl, hprefix⟩
  have hnetwork := parseNlriPrefix_ensures next₂.1.2 (by rw [List.length_take]; exact le_min le_rfl hprefix) afi
  refine (hnetwork.mono_error fun _ => OrRange.of).bind fun _ _ => ?_
  rw [List.length_drop] at hlabels
  rw [ensures_pure, List.length_drop]
  omega

theorem parseMpNlri_ensures (cursor : Bytes) (afi : BgpUpdateAfi) (safi : BgpUpdateSafi) (capa : BgpCapabilities)
    (quoted : Bytes) (attrType : UInt8) :
    FailsOnly UpdateOrRange (parseMpNlri cursor afi safi capa quoted attrType) := by
  refine ensures_ite (fun _ => ?_) fun _ => ?_
  · refine ensures_ite (fun _ => ?_) fun _ => trivial
    exact (parseNlri_ensures cursor afi safi capa).mono_error fun _ => OrRange.of
  · refine ensures_ite (fun _ => ?_) fun _ => .inl trivial
    refine ensures_ite (fun _ => trivial) fun _ => ?_
    exact untilEmpty_ensures (parseLabeledItem_ensures _ afi quoted attrType) [] cursor

end

end FbossBgp.BgpLib
