import FbossBgp.BgpLib.AttributeEncoding
import FbossBgp.BgpLib.Dispatch

/-! What the parser makes of attributes as the serializer writes them: each attribute is taken off the wire
with one effect on the parser's state, and the numbers in it come back cut to their width. -/

namespace FbossBgp.BgpLib

open Bytes Outcome Reader List

section

variable (as4byte : Bool)

/-- A segment as it comes back: its AS numbers are cut to the session's width. -/
def decodeSegment (segment : BgpAttrAsPathSegment) : BgpAttrAsPathSegment where
  asSet := segment.asSet.image (wrap (asnLen as4byte))
  asSequence := segment.asSequence.map (wrap (asnLen as4byte))
  asConfedSequence := segment.asConfedSequence.map (wrap (asnLen as4byte))
  asConfedSet := segment.asConfedSet.image (wrap (asnLen as4byte))

/-- The entries of one type are read into one part of the segment. -/
theorem readAsns_encode {α : Type} {segmentType : Nat} {add : α → Int → α} (put : α → BgpAttrAsPathSegment)
    (h : ∀ part asn, addAsn segmentType (put part) asn = .ok (put (add part asn))) (asns : List Int) (part : α)
    (rest : Bytes) :
    readAsns as4byte segmentType asns.length (put part) (asns.flatMap (intBE (asnLen as4byte)) ++ rest) =
      .ok (put ((asns.map (wrap (asnLen as4byte))).foldl add part), rest) := by
  induction asns generalizing part with
  | nil => rfl
  | cons asn asns ih =>
    rw [length_cons, readAsns, flatMap_cons, append_assoc, readBE_intBE, ok_bind]
    dsimp only
    rw [h, ok_bind, ih]
    rfl

variable (asns : List Int) {segment : BgpAttrAsPathSegment} {capa : BgpCapabilities}

theorem foldl_insert (part : Finset Int) :
    asns.foldl (fun part asn => insert asn part) part = asns.toFinset ∪ part := by
  induction asns generalizing part with
  | nil => simp
  | cons asn asns ih => rw [foldl_cons, ih, toFinset_cons, Finset.insert_union, Finset.union_insert]

theorem foldl_snoc (part : List Int) : asns.foldl (fun part asn => part ++ [asn]) part = part ++ asns := by
  induction asns generalizing part with
  | nil => simp
  | cons asn asns ih => rw [foldl_cons, ih, append_assoc, singleton_append]

theorem toFinset_map_wrap (k : Nat) : (asns.map (wrap k)).toFinset = asns.toFinset.image (wrap k) := by
  ext asn
  simp

section

variable (h : numUsedSegmentTypes segment ≤ 1)
include h

/-- A segment that uses at most one part is that part. -/
theorem parts_of_numUsedSegmentTypes :
    (∃ asSet, asSet ≠ ∅ ∧ segment = { asSet := asSet }) ∨
      (∃ asSequence, asSequence ≠ [] ∧ segment = { asSequence := asSequence }) ∨
      (∃ asConfedSequence, asConfedSequence ≠ [] ∧ segment = { asConfedSequence := asConfedSequence }) ∨
      ∃ asConfedSet, segment = { asConfedSet := asConfedSet } := by
  obtain ⟨asSet, asSequence, asConfedSequence, asConfedSet⟩ := segment
  simp only [numUsedSegmentTypes] at h
  split_ifs at h
  all_goals first | omega | simp_all

/-- The entries of a segment are read back into the part that is in use. -/
theorem readAsns_segment
    (rest : Bytes) : readAsns as4byte (segmentEntries segment).1.toNat (segmentEntries segment).2.length {}
        ((segmentEntries segment).2.flatMap (intBE (asnLen as4byte)) ++ rest) =
      .ok (decodeSegment as4byte segment, rest) := by
  rcases parts_of_numUsedSegmentTypes h with ⟨asSet, hne, rfl⟩ | ⟨asSequence, hne, rfl⟩ |
    ⟨asConfedSequence, hne, rfl⟩ | ⟨asConfedSet, rfl⟩
  · rw [segmentEntries, if_pos hne]
    refine (readAsns_encode as4byte (fun asSet => { asSet }) (fun _ _ => rfl) _ ∅ rest).trans ?_
    simp [foldl_insert, toFinset_map_wrap, decodeSegment]
  · rw [segmentEntries, if_pos hne]
    refine (readAsns_encode as4byte (fun asSequence => { asSequence }) (fun _ _ => rfl) _ [] rest).trans ?_
    rw [foldl_snoc]
    simp [decodeSegment]
  · rw [segmentEntries, if_pos hne]
    refine (readAsns_encode as4byte (fun asConfedSequence => { asConfedSequence }) (fun _ _ => rfl) _ [] rest).trans ?_
    rw [foldl_snoc]
    simp [decodeSegment]
  · rw [segmentEntries, if_neg (not_not.mpr rfl), if_neg (not_not.mpr rfl), if_neg (not_not.mpr rfl)]
    refine (readAsns_encode as4byte (fun asConfedSet => { asConfedSet }) (fun _ _ => rfl) _ ∅ rest).trans ?_
    simp [foldl_insert, toFinset_map_wrap, decodeSegment]

/-- A segment whose number of entries fits its byte is read back. -/
theorem parseSegment_encode
    (hcount : (segmentEntries segment).2.length ≤ 255) (quoted : Bytes)
    (asPath : List BgpAttrAsPathSegment) (rest : Bytes) :
    parseSegment capa quoted asPath (encodeSegment capa.as4byte segment ++ rest) =
      .ok (asPath ++ [decodeSegment capa.as4byte segment], rest) := by
  have hasns := length_flatMap_of_size (length_intBE (asnLen capa.as4byte)) (segmentEntries segment).2
  rw [parseSegment, encodeSegment, if_neg (by simp), append_assoc, cons_append, cons_append,
    nil_append, readBE_one_cons, ok_bind]
  dsimp only
  rw [readBE_one_cons, ok_bind]
  dsimp only
  rw [UInt8.toNat_ofNat', Nat.mod_eq_of_lt (by omega), if_neg (by rw [length_append]; omega),
    readAsns_segment capa.as4byte h]
  rfl

end

theorem parseAsPathAttr_encode {asPath : List BgpAttrAsPathSegment}
    (h : ∀ segment ∈ asPath, numUsedSegmentTypes segment ≤ 1)
    (hcount : ∀ segment ∈ asPath, (segmentEntries segment).2.length ≤ 255) (quoted : Bytes) :
    parseAsPathAttr (asPath.flatMap (encodeSegment capa.as4byte)) capa quoted =
      .ok (asPath.map (decodeSegment capa.as4byte)) :=
  untilEmpty_flatMap parseSegment_consumes
    (fun segment hmem => parseSegment_encode (h segment hmem) (hcount segment hmem) quoted) []

end

section

def decodeCommunity (community : BgpAttrCommunity) : BgpAttrCommunity :=
  ⟨wrap 2 community.asn, wrap 2 community.value⟩

variable (community : BgpAttrExtCommunity)

def decodeExtCommunity : BgpAttrExtCommunity :=
  ⟨wrap 4 community.firstWord, wrap 4 community.secondWord⟩

theorem readCommunity_encode (community : BgpAttrCommunity) (communities : List BgpAttrCommunity) (rest : Bytes) :
    readCommunity communities (encodeCommunity community ++ rest) =
      .ok (communities ++ [decodeCommunity community], rest) := by
  rw [readCommunity, encodeCommunity, append_assoc, readBE_intBE, ok_bind]
  dsimp only
  rw [readBE_intBE]
  rfl

theorem readClusterId_encode (clusterId : Int) (clusterList : List Int) (rest : Bytes) :
    readClusterId clusterList (intLE 4 clusterId ++ rest) = .ok (clusterList ++ [wrap 4 clusterId], rest) := by
  rw [readClusterId, pull_append underflow rest (length_intLE 4 clusterId), ok_bind]
  dsimp only
  rw [ofLE_intLE]
  rfl

theorem readExtCommunity_encode (extCommunities : List BgpAttrExtCommunity)
    (rest : Bytes) : readExtCommunity extCommunities (encodeExtCommunity community ++ rest) =
      .ok (extCommunities ++ [decodeExtCommunity community], rest) := by
  rw [readExtCommunity, encodeExtCommunity, append_assoc, readBE_intBE, ok_bind]
  dsimp only
  rw [readBE_intBE]
  rfl

end

section

variable {capa : BgpCapabilities} {attr : WireAttr} (flags : UInt8) (code : BgpAttrCode)
  {effect : UpdateMsgParsingState → UpdateMsgParsingState} {body : Bytes}

/-- The flags that the parser wants for a type; partial attributes are left out. -/
abbrev FlagsAccepted : Prop :=
  kBgpAttrCodesToFlags code = flags &&& 0xc0 ∧
    ¬(flags &&& bgpAttrFlagOptional = 0 ∧ flags &&& bgpAttrFlagTransitive = 0) ∧ flags &&& bgpAttrFlagPartial = 0

/-- The flags are those of the type, and the length of the body fits its field. -/
structure WireAttr.Accepted (attr : WireAttr) : Prop where
  flags : FlagsAccepted attr.flags attr.code
  length : attr.body.length < 256 ^ attr.lengthSize

theorem accepted_extended (h : FlagsAccepted flags code)
    (hextended : flags &&& bgpAttrFlagExtended ≠ 0) (hbody : body.length < 65536) :
    WireAttr.Accepted ⟨flags, code, body⟩ := by
  refine ⟨h, ?_⟩
  rw [WireAttr.lengthSize, if_pos hextended]
  exact hbody

theorem readAttrHeader_encode (h : attr.body.length < 256 ^ attr.lengthSize) (rest : Bytes) :
    readAttrHeader (attr.encode ++ rest) =
      .ok (⟨attr.flags, attr.code.code, attr.body.length, attr.lengthSize⟩, attr.body ++ rest) := by
  have hsize : (if UInt8.ofNat attr.flags.toNat &&& bgpAttrFlagExtended ≠ 0 then 2 else 1) = attr.lengthSize := by
    rw [UInt8.ofNat_toNat]
    rfl
  rw [readAttrHeader, WireAttr.encode, append_assoc, append_assoc, cons_append, cons_append,
    nil_append, readBE_one_cons, ok_bind]
  dsimp only
  rw [readBE_one_cons, ok_bind]
  rw [hsize, readBE_toBE, Nat.mod_eq_of_lt h, UInt8.ofNat_toNat, UInt8.ofNat_toNat]
  rfl

theorem checkAttr_of_accepted (h : attr.Accepted) (quoted rest : Bytes) :
    checkAttr ⟨attr.flags, attr.code.code, attr.body.length, attr.lengthSize⟩ quoted (attr.body ++ rest) = .ok () := by
  have hflags : checkPathAttributeFlag attr.flags attr.code.code quoted = .ok () := by
    rw [checkPathAttributeFlag, BgpAttrCode.ofCode_code]
    exact if_neg (not_not.mpr h.flags.1)
  have hlen : ¬attr.body.length > (attr.body ++ rest).length := by
    rw [length_append]
    omega
  rw [checkAttr, hflags, if_neg hlen, if_neg h.flags.2.1, if_neg fun hpartial => hpartial.2 h.flags.2.2]
  rfl

/-- The body of an attribute is parsed with one effect on the state, whatever is quoted in errors. -/
def Decodes (capa : BgpCapabilities) (attr : WireAttr) (effect : UpdateMsgParsingState → UpdateMsgParsingState) :
    Prop :=
  ∀ hdr : AttrHeader, hdr.type = attr.code.code → ∀ attrBeingParsed rawAttrLen state,
    parseAttrBody capa hdr attrBeingParsed rawAttrLen state attr.body = .ok (effect state)

abbrev TakesAttrs (capa : BgpCapabilities) (attrs : List WireAttr)
    (effect : UpdateMsgParsingState → UpdateMsgParsingState) : Prop :=
  Takes (parsePathAttribute capa) (attrs.flatMap WireAttr.encode) effect

theorem parsePathAttribute_encode (h : attr.Accepted) (state : UpdateMsgParsingState) (rest : Bytes) :
    ∃ hdr : AttrHeader, hdr.type = attr.code.code ∧ ∃ quoted rawLen handler,
      parsePathAttribute capa state (attr.encode ++ rest) = catchOutOfRange handler
        (parseAttrBody capa hdr quoted rawLen state attr.body >>= fun state => pure (state, rest)) := by
  rw [parsePathAttribute, parseAttr, readAttrHeader_encode h.length, ok_bind]
  dsimp only
  rw [checkAttr_of_accepted h, pull_append underflow rest rfl]
  exact ⟨⟨attr.flags, attr.code.code, attr.body.length, attr.lengthSize⟩, rfl, _, _, _, rfl⟩

/-- The loop over the attributes takes an attribute off the wire. -/
theorem takesAttrs_singleton (h : attr.Accepted)
    (hdecodes : Decodes capa attr effect) : TakesAttrs capa [attr] effect := by
  rw [TakesAttrs, flatMap_singleton]
  apply takes_of_turn parsePathAttribute_consumes
  intro state rest
  obtain ⟨hdr, htype, _, _, _, hparse⟩ := parsePathAttribute_encode h state rest
  rw [hparse, hdecodes hdr htype]
  rfl

theorem takesAttrs_short (h : FlagsAccepted flags code) (hshort : flags &&& bgpAttrFlagExtended = 0)
    (hbody : body.length < 256) (hdecodes : Decodes capa ⟨flags, code, body⟩ effect) :
    TakesAttrs capa [⟨flags, code, body⟩] effect := by
  refine takesAttrs_singleton ⟨h, ?_⟩ hdecodes
  rw [WireAttr.lengthSize, if_neg (not_not.mpr hshort)]
  exact hbody

theorem TakesAttrs.append {attrs attrs' : List WireAttr} {effect' : UpdateMsgParsingState → UpdateMsgParsingState}
    (h : TakesAttrs capa attrs effect) (h' : TakesAttrs capa attrs' effect') :
    TakesAttrs capa (attrs ++ attrs') (effect' ∘ effect) := by
  rw [TakesAttrs, flatMap_append]
  exact Takes.append h h'

/-- An attribute that is not always there: without it the effect is none. -/
theorem takesAttrs_whenAttr {c : Prop} [Decidable c]
    (h : c → TakesAttrs capa [attr] effect) (hid : ¬c → effect = id) : TakesAttrs capa (whenAttr c attr) effect := by
  rw [whenAttr]
  split
  · exact h ‹c›
  · rw [hid ‹¬c›]
    exact takes_nil

/-- A list of entries, written unless it is empty, is read behind the entries that the state has. -/
theorem takesAttrs_whenEntries {α : Type} {read : List α → Bytes → Except Exception (List α × Bytes)}
    {encode : α → Bytes} {decode : α → α} {entries : List α} (get : UpdateMsgParsingState → List α)
    (put : UpdateMsgParsingState → List α → UpdateMsgParsingState) (hput : ∀ state, put state (get state) = state)
    (hread : ConsumesOr read UpdateOrRange)
    (hencode : ∀ entry values rest, read values (encode entry ++ rest) = .ok (values ++ [decode entry], rest))
    (hflags : FlagsAccepted flags code) (hextended : flags &&& bgpAttrFlagExtended ≠ 0)
    (hlen : entries ≠ [] → (entries.flatMap encode).length < 65536)
    (hparse : ∀ hdr : AttrHeader, hdr.type = code.code → ∀ quoted rawLen state body,
      parseAttrBody capa hdr quoted rawLen state body = put state <$> untilEmpty read (get state) body) :
    TakesAttrs capa (whenAttr (entries ≠ []) ⟨flags, code, entries.flatMap encode⟩) fun state =>
      put state (get state ++ entries.map decode) := by
  apply takesAttrs_whenAttr
  · refine fun hne => takesAttrs_singleton (accepted_extended flags code hflags hextended (hlen hne)) ?_
    intro hdr htype quoted rawLen state
    rw [hparse hdr htype, untilEmpty_flatMap hread.consumes fun entry _ => hencode entry]
    rfl
  · intro hnil
    simp only [not_not.mp hnil, map_nil, append_nil, hput]
    rfl

end

section

variable {capa : BgpCapabilities} {octets : Bytes}

theorem takesAttrs_origin {origin : BgpAttrOrigin} (h : origin.isNamed = true) :
    TakesAttrs capa [originAttr origin] fun state =>
      { state with attrs.origin := origin, hasOriginAttr := true } := by
  refine takesAttrs_short _ _ (by decide) (by decide) (by simp) fun hdr htype quoted rawLen state => ?_
  rw [parseAttrBody, htype]
  cases origin with
  | named name => cases name <;> rfl
  | unnamed value hval => cases h

theorem takesAttrs_asPath {asPath : List BgpAttrAsPathSegment} (h : ∀ segment ∈ asPath, numUsedSegmentTypes segment = 1)
    (hcount : ∀ segment ∈ asPath, (segmentEntries segment).2.length ≤ 255)
    (hlen : (asPath.flatMap (encodeSegment capa.as4byte)).length < 65536) :
    TakesAttrs capa [asPathAttr capa.as4byte asPath] fun state =>
      { state with attrs.asPath := asPath.map (decodeSegment capa.as4byte), hasAsPathAttr := true } := by
  apply takesAttrs_singleton
  · exact accepted_extended (bgpAttrFlagTransitive ||| bgpAttrFlagExtended) .bgpAttrAsPath (by decide) (by decide) hlen
  · intro hdr htype quoted rawLen state
    rw [parseAttrBody, htype]
    change (parseAsPathAttr (asPath.flatMap (encodeSegment capa.as4byte)) capa quoted >>= _) = _
    rw [parseAsPathAttr_encode (fun segment hmem => (h segment hmem).le) hcount]
    rfl

/-- Four bytes are the address they were. -/
theorem fromLongHBO_ofBE (h : octets.length = 4) : IPAddress.fromLongHBO (ofBE octets) = .v4 octets h := by
  have hbytes : toBE 4 (ofBE octets) = octets := by rw [← h, toBE_ofBE]
  simp only [IPAddress.fromLongHBO, hbytes]

end

section

/-- What the parser needs besides: an origin that it knows, and segments whose number of entries fits a byte. -/
structure Decodable (update : BgpUpdate2) : Prop where
  origin : update.attrs.origin.isNamed = true
  segments : ∀ segment ∈ update.attrs.asPath, (segmentEntries segment).2.length ≤ 255

variable (as4byte : Bool) {attr : WireAttr}

variable (update : BgpUpdate2)

/-- The effect on the parser's state of the attributes behind the AS path. -/
def restEffect (v4 : Bool) (state : UpdateMsgParsingState) : UpdateMsgParsingState :=
  let attrs := update.attrs
  { state with
    attrs := { state.attrs with
        nexthop := if v4 = true then IPAddress.str (update.v4Nexthop.take 4) else state.attrs.nexthop
        med := if attrs.isMedSet = true then wrap 4 attrs.med else state.attrs.med
        isMedSet := attrs.isMedSet || state.attrs.isMedSet
        localPref := (attrs.localPref.map (wrap 4)).or state.attrs.localPref
        atomicAggregate := attrs.atomicAggregate || state.attrs.atomicAggregate
        aggregator := if attrs.aggregator.asn ≠ 0 ∧ attrs.aggregator.ip ≠ [] then
          ⟨wrap (asnLen as4byte) attrs.aggregator.asn, attrs.aggregator.ip⟩ else state.attrs.aggregator
        communities := state.attrs.communities ++ attrs.communities.map decodeCommunity
        originatorId := if attrs.originatorId ≠ 0 then wrap 4 attrs.originatorId else state.attrs.originatorId
        clusterList := state.attrs.clusterList ++ attrs.clusterList.map (wrap 4)
        extCommunities := state.attrs.extCommunities ++ attrs.extCommunities.map decodeExtCommunity }
    v4Nexthop := if v4 = true then IPAddress.ofBytes (update.v4Nexthop.take 4) else state.v4Nexthop }

/-- The effect of all the attributes of an update, with the AS path that was read. -/
def wireEffect (v4 : Bool) (asPath : List BgpAttrAsPathSegment) (state : UpdateMsgParsingState) :
    UpdateMsgParsingState :=
  restEffect as4byte update v4
    { state with attrs.origin := update.attrs.origin, attrs.asPath := asPath, hasOriginAttr := true, hasAsPathAttr := true }

/-- The attributes behind the AS path. -/
def restAttrs (v4 : Bool) : List WireAttr :=
  let attrs := update.attrs
  whenAttr (v4 = true) (nextHopAttr update.v4Nexthop) ++ (whenAttr (attrs.isMedSet = true) (medAttr attrs.med) ++
    ((attrs.localPref.map localPrefAttr).toList ++
    (whenAttr (attrs.atomicAggregate = true) atomicAggregateAttr ++
    (whenAttr (attrs.aggregator.asn ≠ 0 ∧ attrs.aggregator.ip ≠ []) (aggregatorAttr as4byte attrs.aggregator) ++
    (whenAttr (attrs.communities ≠ []) (communitiesAttr attrs.communities) ++
    (whenAttr (attrs.originatorId ≠ 0) (originatorIdAttr attrs.originatorId) ++
    (whenAttr (attrs.clusterList ≠ []) (clusterListAttr attrs.clusterList) ++
    whenAttr (attrs.extCommunities ≠ []) (extCommunitiesAttr attrs.extCommunities))))))))

theorem wireAttrs_eq (v4 : Bool) :
    wireAttrs as4byte update v4 = [originAttr update.attrs.origin] ++ ([asPathAttr as4byte update.attrs.asPath] ++
      restAttrs as4byte update v4) := by
  simp only [wireAttrs, restAttrs, append_assoc]

theorem length_body_le {attrs : List WireAttr} (h : attr ∈ attrs) :
    attr.body.length ≤ (attrs.flatMap WireAttr.encode).length := by
  induction attrs with
  | nil => cases h
  | cons other attrs ih =>
    rw [flatMap_cons, length_append]
    rcases mem_cons.mp h with rfl | h
    · rw [WireAttr.encode, length_append]
      omega
    · exact (ih h).trans (Nat.le_add_left _ _)

variable {capa : BgpCapabilities} {update : BgpUpdate2} {v4 : Bool} (attrs : BgpAttributes)

theorem takesAttrs_whenNextHop (h : Writable update v4) :
    TakesAttrs capa (whenAttr (v4 = true) (nextHopAttr update.v4Nexthop)) fun state =>
      { state with
        v4Nexthop := if v4 = true then IPAddress.ofBytes (update.v4Nexthop.take 4) else state.v4Nexthop
        attrs.nexthop := if v4 = true then IPAddress.str (update.v4Nexthop.take 4) else state.attrs.nexthop } := by
  apply takesAttrs_whenAttr
  · rintro rfl
    obtain ⟨nh, hnh⟩ := h.nexthop rfl
    obtain ⟨-, hfam⟩ := IPAddress.bytes_of_fromBinary hnh
    have hlen : (update.v4Nexthop.take 4).length = 4 := by
      rw [length_take]
      omega
    refine takesAttrs_short _ _ (by decide) (by decide) (by rw [hlen]; decide) fun hdr htype quoted rawLen state => ?_
    rw [parseAttrBody, htype]
    change parseNextHop quoted state (update.v4Nexthop.take 4) = _
    rw [parseNextHop, if_neg (not_not.mpr hlen), readBE_of_le hlen.ge, ok_bind]
    dsimp only
    rw [take_of_length_le hlen.le, fromLongHBO_ofBE hlen, IPAddress.ofBytes, IPAddress.fromBinary_v4 hlen]
    rfl
  · intro hv4
    simp only [if_neg hv4]
    rfl

theorem takesAttrs_whenMed : TakesAttrs capa (whenAttr (attrs.isMedSet = true) (medAttr attrs.med)) fun state =>
    { state with
      attrs.med := if attrs.isMedSet = true then wrap 4 attrs.med else state.attrs.med
      attrs.isMedSet := attrs.isMedSet || state.attrs.isMedSet } := by
  apply takesAttrs_whenAttr
  · intro hset
    refine takesAttrs_short _ _ (by decide) (by decide) (by simp) fun hdr htype quoted rawLen state => ?_
    rw [parseAttrBody, htype, hset]
    change (readBE underflow 4 (intBE 4 attrs.med) >>= _) = _
    rw [← append_nil (intBE 4 attrs.med), readBE_intBE]
    rfl
  · intro hset
    simp only [Bool.eq_false_of_not_eq_true hset]
    rfl

theorem takesAttrs_someLocalPref : TakesAttrs capa (attrs.localPref.map localPrefAttr).toList fun state =>
    { state with attrs.localPref := (attrs.localPref.map (wrap 4)).or state.attrs.localPref } := by
  cases attrs.localPref with
  | none => exact takes_nil
  | some localPref =>
    refine takesAttrs_short _ _ (by decide) (by decide) (by simp) fun hdr htype quoted rawLen state => ?_
    rw [parseAttrBody, htype]
    change (readBE underflow 4 (intBE 4 localPref) >>= _) = _
    rw [← append_nil (intBE 4 localPref), readBE_intBE]
    rfl

theorem takesAttrs_whenAtomicAggregate :
    TakesAttrs capa (whenAttr (attrs.atomicAggregate = true) atomicAggregateAttr) fun state =>
      { state with attrs.atomicAggregate := attrs.atomicAggregate || state.attrs.atomicAggregate } := by
  apply takesAttrs_whenAttr
  · intro hset
    refine takesAttrs_short _ _ (by decide) (by decide) (by decide) fun hdr htype quoted rawLen state => ?_
    rw [parseAttrBody, htype, hset]
    rfl
  · intro hset
    simp only [Bool.eq_false_of_not_eq_true hset]
    rfl

theorem takesAttrs_whenAggregator (h : Writable update v4) :
    TakesAttrs capa (whenAttr (update.attrs.aggregator.asn ≠ 0 ∧ update.attrs.aggregator.ip ≠ [])
      (aggregatorAttr capa.as4byte update.attrs.aggregator)) fun state =>
      { state with attrs.aggregator := if update.attrs.aggregator.asn ≠ 0 ∧ update.attrs.aggregator.ip ≠ [] then
          ⟨wrap (asnLen capa.as4byte) update.attrs.aggregator.asn, update.attrs.aggregator.ip⟩
        else state.attrs.aggregator } := by
  apply takesAttrs_whenAttr
  · intro hset
    obtain ⟨octets, hoctets⟩ := h.aggregator hset.1 hset.2
    obtain ⟨hlen, hstr⟩ := IPAddress.v4OfText_eq_ok hoctets
    have haddr : aggregatorAddress update.attrs.aggregator = octets := by rw [aggregatorAddress, hoctets]
    simp only [if_pos hset]
    refine takesAttrs_short _ _ (by decide) (by decide) ?_ fun hdr htype quoted rawLen state => ?_
    · rw [length_append, length_intBE, haddr, hlen, asnLen]
      split <;> decide
    · rw [parseAttrBody, htype]
      change parseAggregator capa quoted rawLen state
        (intBE (asnLen capa.as4byte) _ ++ aggregatorAddress update.attrs.aggregator) = _
      rw [haddr, parseAggregator, readBE_intBE, ok_bind]
      dsimp only
      rw [readBE_of_le hlen.ge, ok_bind]
      rw [if_neg (by rw [length_drop, hlen]; decide), take_of_length_le hlen.le, fromLongHBO_ofBE hlen,
        IPAddress.bytes, hstr]
      rfl
  · intro hset
    simp only [if_neg hset]
    rfl

theorem takesAttrs_whenOriginatorId :
    TakesAttrs capa (whenAttr (attrs.originatorId ≠ 0) (originatorIdAttr attrs.originatorId)) fun state =>
      { state with attrs.originatorId :=
        if attrs.originatorId ≠ 0 then wrap 4 attrs.originatorId else state.attrs.originatorId } := by
  apply takesAttrs_whenAttr
  · intro hset
    simp only [if_pos hset]
    refine takesAttrs_short _ _ (by decide) (by decide) (by simp) fun hdr htype quoted rawLen state => ?_
    rw [parseAttrBody, htype]
    change parseOriginatorId quoted rawLen state (intLE 4 attrs.originatorId) = _
    rw [parseOriginatorId, ← append_nil (intLE 4 _), pull_append underflow [] (length_intLE 4 _), ok_bind]
    dsimp only
    rw [ofLE_intLE]
    rfl
  · intro hset
    simp only [if_neg hset]
    rfl

theorem takesAttrs_whenCommunities
    (h : attrs.communities ≠ [] → (attrs.communities.flatMap encodeCommunity).length < 65536) :
    TakesAttrs capa (whenAttr (attrs.communities ≠ []) (communitiesAttr attrs.communities)) fun state =>
      { state with attrs.communities := state.attrs.communities ++ attrs.communities.map decodeCommunity } :=
  takesAttrs_whenEntries _ _ (·.attrs.communities) (fun state communities => { state with attrs.communities := communities })
    (fun _ => rfl) readCommunity_ensures readCommunity_encode (by decide) (by decide) h fun hdr htype _ _ _ _ => by
      rw [parseAttrBody, htype]
      rfl

theorem takesAttrs_whenClusterList (h : attrs.clusterList ≠ [] → (attrs.clusterList.flatMap (intLE 4)).length < 65536) :
    TakesAttrs capa (whenAttr (attrs.clusterList ≠ []) (clusterListAttr attrs.clusterList)) fun state =>
      { state with attrs.clusterList := state.attrs.clusterList ++ attrs.clusterList.map (wrap 4) } :=
  takesAttrs_whenEntries _ _ (·.attrs.clusterList) (fun state clusterList => { state with attrs.clusterList := clusterList })
    (fun _ => rfl) readClusterId_ensures readClusterId_encode (by decide) (by decide) h fun hdr htype _ _ _ _ => by
      rw [parseAttrBody, htype]
      rfl

theorem takesAttrs_whenExtCommunities
    (h : attrs.extCommunities ≠ [] → (attrs.extCommunities.flatMap encodeExtCommunity).length < 65536) :
    TakesAttrs capa (whenAttr (attrs.extCommunities ≠ []) (extCommunitiesAttr attrs.extCommunities)) fun state =>
      { state with attrs.extCommunities := state.attrs.extCommunities ++ attrs.extCommunities.map decodeExtCommunity } :=
  takesAttrs_whenEntries _ _ (·.attrs.extCommunities)
    (fun state extCommunities => { state with attrs.extCommunities := extCommunities })
    (fun _ => rfl) readExtCommunity_ensures readExtCommunity_encode (by decide) (by decide) h fun hdr htype _ _ _ _ => by
      rw [parseAttrBody, htype]
      rfl

variable (hlen : ((wireAttrs capa.as4byte update v4).flatMap WireAttr.encode).length ≤ kMaxBgpUpdateVarLen)
include hlen

theorem length_body_lt (hmem : attr ∈ wireAttrs capa.as4byte update v4) : attr.body.length < 65536 := by
  have hle := (length_body_le hmem).trans hlen
  rw [kMaxBgpUpdateVarLen_eq] at hle
  omega

/-- The attributes behind the AS path are taken off the wire. -/
theorem takesAttrs_restAttrs (hwr : Writable update v4) :
    TakesAttrs capa (restAttrs capa.as4byte update v4) (restEffect capa.as4byte update v4) := by
  have hbody : ∀ attr ∈ restAttrs capa.as4byte update v4, attr.body.length < 65536 := by
    intro attr hmem
    refine length_body_lt hlen ?_
    rw [wireAttrs_eq]
    exact mem_append_right _ (mem_append_right _ hmem)
  have hcomm := fun hne : update.attrs.communities ≠ [] =>
    hbody (communitiesAttr update.attrs.communities) (by simp [restAttrs, whenAttr, hne])
  have hclusterList := fun hne : update.attrs.clusterList ≠ [] =>
    hbody (clusterListAttr update.attrs.clusterList) (by simp [restAttrs, whenAttr, hne])
  have hextCommunities := fun hne : update.attrs.extCommunities ≠ [] =>
    hbody (extCommunitiesAttr update.attrs.extCommunities) (by simp [restAttrs, whenAttr, hne])
  exact (takesAttrs_whenNextHop hwr).append ((takesAttrs_whenMed update.attrs).append
    ((takesAttrs_someLocalPref update.attrs).append ((takesAttrs_whenAtomicAggregate update.attrs).append
    ((takesAttrs_whenAggregator hwr).append ((takesAttrs_whenCommunities update.attrs hcomm).append
    ((takesAttrs_whenOriginatorId update.attrs).append ((takesAttrs_whenClusterList update.attrs hclusterList).append
    (takesAttrs_whenExtCommunities update.attrs hextCommunities))))))))

/-- The attributes of an update are taken off the wire. -/
theorem takesAttrs_wireAttrs (hwr : Writable update v4) (hdec : Decodable update) :
    TakesAttrs capa (wireAttrs capa.as4byte update v4)
      (wireEffect capa.as4byte update v4 (update.attrs.asPath.map (decodeSegment capa.as4byte))) := by
  have hmem : asPathAttr capa.as4byte update.attrs.asPath ∈ wireAttrs capa.as4byte update v4 := by simp [wireAttrs]
  rw [wireAttrs_eq]
  exact (takesAttrs_origin hdec.origin).append ((takesAttrs_asPath hwr.segments hdec.segments
    (length_body_lt hlen hmem)).append (takesAttrs_restAttrs hlen hwr))

end

end FbossBgp.BgpLib
