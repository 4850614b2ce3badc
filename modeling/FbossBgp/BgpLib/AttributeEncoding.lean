import FbossBgp.BgpLib.MessageSerializer

/-! The path attributes as they stand on the wire: the serializer writes exactly a list of attributes, each
with its flags, its type and its body, or it throws. -/

namespace FbossBgp.BgpLib

open Bytes Outcome Writer List

/-- An attribute on the wire. The extended flag decides how its length is written. -/
structure WireAttr where
  flags : UInt8
  code : BgpAttrCode
  body : Bytes

namespace WireAttr

variable (attr : WireAttr) (flags : UInt8) (code : BgpAttrCode) (body : Bytes)

def lengthSize : Nat := if attr.flags &&& bgpAttrFlagExtended ≠ 0 then 2 else 1

def encode : Bytes :=
  [attr.flags, attr.code.code] ++ toBE attr.lengthSize attr.body.length ++ attr.body

theorem encode_short (h : flags &&& bgpAttrFlagExtended = 0) :
    encode ⟨flags, code, body⟩ = [flags, code.code, UInt8.ofNat body.length] ++ body := by
  rw [encode, lengthSize, if_neg (not_not.mpr h), toBE_one]
  rfl

theorem encode_extended (h : flags &&& bgpAttrFlagExtended ≠ 0) :
    encode ⟨flags, code, body⟩ = [flags, code.code] ++ toBE 2 body.length ++ body := by
  rw [encode, lengthSize, if_pos h]

end WireAttr

section

variable (as4byte : Bool)

def encodeSegment (segment : BgpAttrAsPathSegment) : Bytes :=
  [(segmentEntries segment).1, UInt8.ofNat (segmentEntries segment).2.length] ++
    (segmentEntries segment).2.flatMap (intBE (asnLen as4byte))

def originAttr (origin : BgpAttrOrigin) : WireAttr := ⟨bgpAttrFlagTransitive, .bgpAttrOrigin, intBE 1 origin.toInt⟩

def asPathAttr (asPath : List BgpAttrAsPathSegment) : WireAttr :=
  ⟨bgpAttrFlagTransitive ||| bgpAttrFlagExtended, .bgpAttrAsPath, asPath.flatMap (encodeSegment as4byte)⟩

def nextHopAttr (v4Nexthop : BinaryAddress) : WireAttr := ⟨bgpAttrFlagTransitive, .bgpAttrNextHop, v4Nexthop.take 4⟩

def medAttr (med : Int) : WireAttr := ⟨bgpAttrFlagOptional, .bgpAttrMed, intBE 4 med⟩

def localPrefAttr (localPref : Int) : WireAttr := ⟨bgpAttrFlagTransitive, .bgpAttrLocalPref, intBE 4 localPref⟩

def atomicAggregateAttr : WireAttr := ⟨bgpAttrFlagTransitive, .bgpAttrAtomicAggregate, []⟩

variable (aggregator : BgpAttrAggregator)

def aggregatorAddress : Bytes :=
  match IPAddress.v4OfText aggregator.ip with
  | .ok octets => octets
  | .error _ => []

def aggregatorAttr : WireAttr :=
  ⟨bgpAttrFlagOptional ||| bgpAttrFlagTransitive, .bgpAttrAggregator,
    intBE (asnLen as4byte) aggregator.asn ++ aggregatorAddress aggregator⟩

def communitiesAttr (communities : List BgpAttrCommunity) : WireAttr :=
  ⟨bgpAttrFlagOptional ||| bgpAttrFlagTransitive ||| bgpAttrFlagExtended, .bgpAttrCommunities,
    communities.flatMap encodeCommunity⟩

def originatorIdAttr (originatorId : Int) : WireAttr :=
  ⟨bgpAttrFlagOptional, .bgpAttrOriginatorId, intLE 4 originatorId⟩

def clusterListAttr (clusterList : List Int) : WireAttr :=
  ⟨bgpAttrFlagOptional ||| bgpAttrFlagExtended, .bgpAttrClusterList, clusterList.flatMap (intLE 4)⟩

def extCommunitiesAttr (extCommunities : List BgpAttrExtCommunity) : WireAttr :=
  ⟨bgpAttrFlagOptional ||| bgpAttrFlagTransitive ||| bgpAttrFlagExtended, .bgpAttrExtendedCommunities,
    extCommunities.flatMap encodeExtCommunity⟩

/-- An attribute that is written only under a condition. -/
def whenAttr (c : Prop) [Decidable c] (attr : WireAttr) : List WireAttr := if c then [attr] else []

/-- The attributes of an update, in the order they are written. -/
def wireAttrs (update : BgpUpdate2) (v4 : Bool) : List WireAttr :=
  let attrs := update.attrs
  [originAttr attrs.origin] ++ [asPathAttr as4byte attrs.asPath] ++ whenAttr (v4 = true) (nextHopAttr update.v4Nexthop) ++
    whenAttr (attrs.isMedSet = true) (medAttr attrs.med) ++
    (attrs.localPref.map localPrefAttr).toList ++ whenAttr (attrs.atomicAggregate = true) atomicAggregateAttr ++
    whenAttr (attrs.aggregator.asn ≠ 0 ∧ attrs.aggregator.ip ≠ []) (aggregatorAttr as4byte attrs.aggregator) ++
    whenAttr (attrs.communities ≠ []) (communitiesAttr attrs.communities) ++
    whenAttr (attrs.originatorId ≠ 0) (originatorIdAttr attrs.originatorId) ++
    whenAttr (attrs.clusterList ≠ []) (clusterListAttr attrs.clusterList) ++
    whenAttr (attrs.extCommunities ≠ []) (extCommunitiesAttr attrs.extCommunities)

/-- What the serializer checks in the attributes. -/
structure Writable (update : BgpUpdate2) (v4 : Bool) : Prop where
  segments : ∀ segment ∈ update.attrs.asPath, numUsedSegmentTypes segment = 1
  nexthop : v4 = true → ∃ nh, IPAddress.fromBinary update.v4Nexthop = .ok nh
  aggregator : update.attrs.aggregator.asn ≠ 0 → update.attrs.aggregator.ip ≠ [] →
    ∃ octets, IPAddress.v4OfText update.attrs.aggregator.ip = .ok octets

end

section

abbrev WritesAttrs (write : Bytes → Except Exception Bytes) (attrs : List WireAttr) : Prop :=
  Writes overflow kMaxBgpUpdateVarLen write (attrs.flatMap WireAttr.encode)

theorem WritesAttrs.bind {write write' : Bytes → Except Exception Bytes} {attrs attrs' : List WireAttr}
    (h : WritesAttrs write attrs) (h' : WritesAttrs write' attrs') :
    WritesAttrs (fun written => write written >>= write') (attrs ++ attrs') := by
  rw [WritesAttrs, flatMap_append]
  exact Writes.bind h h'

variable {write : Bytes → Except Exception Bytes} {attr : WireAttr}

theorem WritesAttrs.writeIf {c : Prop} [Decidable c]
    (h : c → WritesAttrs write [attr]) : WritesAttrs (writeIf c write) (whenAttr c attr) := by
  have hwrites := Writes.writeIf h
  rw [whenAttr]
  split
  · rwa [if_pos ‹c›] at hwrites
  · rwa [if_neg ‹¬c›] at hwrites

theorem writesAttrs_of_writes
    (h : Writes overflow kMaxBgpUpdateVarLen write attr.encode) : WritesAttrs write [attr] := by
  rw [WritesAttrs, flatMap_singleton]
  exact h

theorem writes_pushAttr (bytes : Bytes) : Writes overflow kMaxBgpUpdateVarLen (pushAttr bytes) bytes :=
  writes_push overflow kMaxBgpUpdateVarLen bytes

theorem writesAttrs_pushAttr {bytes : Bytes} (h : attr.encode = bytes) : WritesAttrs (pushAttr bytes) [attr] :=
  writesAttrs_of_writes (h ▸ writes_pushAttr attr.encode)

variable (as4byte : Bool) {asPath : List BgpAttrAsPathSegment}

theorem writes_serializeSegment {segment : BgpAttrAsPathSegment} (h : numUsedSegmentTypes segment = 1) :
    Writes overflow kMaxBgpUpdateVarLen (serializeSegment as4byte segment) (encodeSegment as4byte segment) := by
  have hasns := Writes.foldlM (segmentEntries segment).2 fun asn _ => writes_pushAttr (intBE (asnLen as4byte) asn)
  have hboth := (writes_pushAttr [(segmentEntries segment).1, UInt8.ofNat (segmentEntries segment).2.length]).bind hasns
  intro written hwrt
  rw [serializeSegment, if_neg (not_not.mpr h)]
  exact hboth written hwrt

theorem writesAttrs_writeAsPath
    (h : ∀ segment ∈ asPath, numUsedSegmentTypes segment = 1) :
    WritesAttrs (writeAsPath as4byte asPath) [asPathAttr as4byte asPath] := by
  have hsegs := Writes.foldlM asPath fun segment hmem => writes_serializeSegment as4byte (h segment hmem)
  apply writesAttrs_of_writes
  intro written hwrt
  have hall := ((writes_pushAttr [bgpAttrFlagTransitive ||| bgpAttrFlagExtended,
    BgpAttrCode.bgpAttrAsPath.code]).bind (hsegs.withLength 2)) written hwrt
  have hencode : (asPathAttr as4byte asPath).encode =
      [bgpAttrFlagTransitive ||| bgpAttrFlagExtended, BgpAttrCode.bgpAttrAsPath.code] ++
        (toBE 2 (asPath.flatMap (encodeSegment as4byte)).length ++ asPath.flatMap (encodeSegment as4byte)) := by
    rw [asPathAttr, WireAttr.encode_extended (bgpAttrFlagTransitive ||| bgpAttrFlagExtended) _ _ (by decide),
      append_assoc]
  dsimp only at hall
  rw [← hencode] at hall
  rw [writeAsPath]
  cases hheader : pushAttr [bgpAttrFlagTransitive ||| bgpAttrFlagExtended, BgpAttrCode.bgpAttrAsPath.code] written with
  | error e =>
    rw [hheader] at hall
    exact hall
  | ok pcursor =>
    rw [hheader] at hall
    change (withLength overflow kMaxBgpUpdateVarLen 2 _ pcursor >>= _) = _
    change withLength overflow kMaxBgpUpdateVarLen 2 _ pcursor = _ at hall
    rw [hall]
    cases hpush : push overflow kMaxBgpUpdateVarLen (asPathAttr as4byte asPath).encode written with
    | error e => rfl
    | ok out =>
      -- the check never fires: the whole buffer is shorter than the length it refuses
      obtain ⟨hfits, rfl⟩ := push_eq_ok hpush
      rw [← length_append, kMaxBgpUpdateVarLen_eq] at hfits
      exact if_neg (by omega)

theorem writesAttrs_writeOrigin (origin : BgpAttrOrigin) : WritesAttrs (writeOrigin origin) [originAttr origin] := by
  apply writesAttrs_pushAttr
  rw [originAttr, WireAttr.encode_short bgpAttrFlagTransitive _ _ (by decide)]
  rfl

theorem writesAttrs_writeNextHop {v4Nexthop : BinaryAddress} {nh : IPAddress}
    (h : IPAddress.fromBinary v4Nexthop = .ok nh) : WritesAttrs (writeNextHop v4Nexthop) [nextHopAttr v4Nexthop] := by
  obtain ⟨hbytes, hfam⟩ := IPAddress.bytes_of_fromBinary h
  have hlen : (v4Nexthop.take 4).length = 4 := by
    rw [length_take]
    omega
  apply writesAttrs_of_writes
  intro written hwrt
  have hboth := ((writes_pushAttr [bgpAttrFlagTransitive, BgpAttrCode.bgpAttrNextHop.code, 4]).bind
    (writes_pushAttr (v4Nexthop.take 4))) written hwrt
  have hencode : (nextHopAttr v4Nexthop).encode =
      [bgpAttrFlagTransitive, BgpAttrCode.bgpAttrNextHop.code, 4] ++ v4Nexthop.take 4 := by
    rw [nextHopAttr, WireAttr.encode_short bgpAttrFlagTransitive _ _ (by decide), hlen]
    rfl
  rw [hencode, ← hboth, writeNextHop, h]
  simp only [← hbytes]
  rfl

theorem writesAttrs_writeAggregator {aggregator : BgpAttrAggregator} {octets : Bytes}
    (h : IPAddress.v4OfText aggregator.ip = .ok octets) :
    WritesAttrs (writeAggregator as4byte aggregator) [aggregatorAttr as4byte aggregator] := by
  have hlen := (IPAddress.v4OfText_eq_ok h).1
  have haddr : aggregatorAddress aggregator = octets := by rw [aggregatorAddress, h]
  apply writesAttrs_of_writes
  intro written hwrt
  have hboth := ((writes_pushAttr ([bgpAttrFlagOptional ||| bgpAttrFlagTransitive, BgpAttrCode.bgpAttrAggregator.code,
    UInt8.ofNat (4 + asnLen as4byte)] ++ intBE (asnLen as4byte) aggregator.asn)).bind (writes_pushAttr octets))
    written hwrt
  have hencode : (aggregatorAttr as4byte aggregator).encode = [bgpAttrFlagOptional ||| bgpAttrFlagTransitive,
      BgpAttrCode.bgpAttrAggregator.code, UInt8.ofNat (4 + asnLen as4byte)] ++
      intBE (asnLen as4byte) aggregator.asn ++ octets := by
    rw [aggregatorAttr, WireAttr.encode_short (bgpAttrFlagOptional ||| bgpAttrFlagTransitive) _ _ (by decide), haddr,
      length_append, length_intBE, hlen, Nat.add_comm, append_assoc]
  rw [hencode, ← hboth, writeAggregator, h]
  rfl

theorem writesAttrs_writeEntries {α : Type} {flags : UInt8} {code : BgpAttrCode} {size : Nat} {encode : α → Bytes}
    (hflags : flags &&& bgpAttrFlagExtended ≠ 0) (hsize : ∀ entry, (encode entry).length = size) (entries : List α) :
    WritesAttrs (writeEntries flags code size encode entries) [⟨flags, code, entries.flatMap encode⟩] := by
  have hlen := length_flatMap_of_size hsize entries
  have hents := Writes.foldlM entries fun entry _ => writes_pushAttr (encode entry)
  have hboth := (writes_pushAttr ([flags, code.code] ++ toBE 2 (size * entries.length))).bind hents
  apply writesAttrs_of_writes
  rw [WireAttr.encode_extended flags code _ hflags, hlen]
  exact hboth

theorem writesAttrs_writeMed (med : Int) : WritesAttrs (writeMed med) [medAttr med] := by
  apply writesAttrs_pushAttr
  rw [medAttr, WireAttr.encode_short bgpAttrFlagOptional _ _ (by decide)]
  rfl

theorem writesAttrs_writeLocalPref (localPref : Option Int) :
    WritesAttrs (writeSome writeLocalPref localPref) (localPref.map localPrefAttr).toList := by
  cases localPref with
  | none => exact writes_pure
  | some localPref =>
    apply writesAttrs_pushAttr
    rw [localPrefAttr, WireAttr.encode_short bgpAttrFlagTransitive _ _ (by decide)]
    rfl

theorem writesAttrs_writeAtomicAggregate : WritesAttrs writeAtomicAggregate [atomicAggregateAttr] := by
  apply writesAttrs_pushAttr
  rfl

theorem writesAttrs_writeOriginatorId (originatorId : Int) :
    WritesAttrs (writeOriginatorId originatorId) [originatorIdAttr originatorId] := by
  apply writesAttrs_pushAttr
  rw [originatorIdAttr, WireAttr.encode_short bgpAttrFlagOptional _ _ (by decide)]
  rfl

@[simp] theorem length_encodeCommunity (community : BgpAttrCommunity) : (encodeCommunity community).length = 4 := by
  rw [encodeCommunity, length_append, length_intBE, length_intBE]

@[simp] theorem length_encodeExtCommunity (community : BgpAttrExtCommunity) :
    (encodeExtCommunity community).length = 8 := by
  rw [encodeExtCommunity, length_append, length_intBE, length_intBE]

theorem writesAttrs_writeCommunities (communities : List BgpAttrCommunity) :
    WritesAttrs (writeCommunities communities) [communitiesAttr communities] :=
  writesAttrs_writeEntries (by decide) length_encodeCommunity communities

theorem writesAttrs_writeClusterList (clusterList : List Int) :
    WritesAttrs (writeClusterList clusterList) [clusterListAttr clusterList] :=
  writesAttrs_writeEntries (by decide) (length_intLE 4) clusterList

theorem writesAttrs_writeExtCommunities (extCommunities : List BgpAttrExtCommunity) :
    WritesAttrs (writeExtCommunities extCommunities) [extCommunitiesAttr extCommunities] :=
  writesAttrs_writeEntries (by decide) length_encodeExtCommunity extCommunities

variable {update : BgpUpdate2} {v4 : Bool} {out : Bytes}

/-- Attributes that pass the serializer's checks are written as they stand on the wire. -/
theorem serializePathAttrs_writes (h : Writable update v4) : serializePathAttrs update as4byte v4 =
    push overflow kMaxBgpUpdateVarLen ((wireAttrs as4byte update v4).flatMap WireAttr.encode) [] := by
  have horigin := writesAttrs_writeOrigin update.attrs.origin
  have hnh := WritesAttrs.writeIf (c := v4 = true) fun hv4 => writesAttrs_writeNextHop (h.nexthop hv4).choose_spec
  have hmed := WritesAttrs.writeIf (c := update.attrs.isMedSet = true) fun _ => writesAttrs_writeMed update.attrs.med
  have hlocal := writesAttrs_writeLocalPref update.attrs.localPref
  have hatomic := WritesAttrs.writeIf (c := update.attrs.atomicAggregate = true) fun _ => writesAttrs_writeAtomicAggregate
  have haggregator := WritesAttrs.writeIf (c := update.attrs.aggregator.asn ≠ 0 ∧ update.attrs.aggregator.ip ≠ [])
    fun hagg => writesAttrs_writeAggregator as4byte (h.aggregator hagg.1 hagg.2).choose_spec
  have hcomm := WritesAttrs.writeIf (c := update.attrs.communities ≠ [])
    fun _ => writesAttrs_writeCommunities update.attrs.communities
  have horiginator := WritesAttrs.writeIf (c := update.attrs.originatorId ≠ 0)
    fun _ => writesAttrs_writeOriginatorId update.attrs.originatorId
  have hcluster := WritesAttrs.writeIf (c := update.attrs.clusterList ≠ [])
    fun _ => writesAttrs_writeClusterList update.attrs.clusterList
  have hext := WritesAttrs.writeIf (c := update.attrs.extCommunities ≠ [])
    fun _ => writesAttrs_writeExtCommunities update.attrs.extCommunities
  have hall := ((((((((((horigin.bind (writesAttrs_writeAsPath as4byte h.segments)).bind hnh).bind hmed).bind
    hlocal).bind hatomic).bind haggregator).bind hcomm).bind horiginator).bind hcluster).bind hext) []
    (Nat.zero_le _)
  simp only [bind_assoc] at hall
  exact hall

theorem segments_of_writeAsPath {as4byte : Bool} {pcursor : Bytes}
    (h : writeAsPath as4byte asPath pcursor = .ok out) : ∀ segment ∈ asPath, numUsedSegmentTypes segment = 1 := by
  rw [writeAsPath, bind_eq_ok] at h
  obtain ⟨_, -, h⟩ := h
  rw [bind_eq_ok] at h
  obtain ⟨_, hlen, -⟩ := h
  obtain ⟨_, _, hloop⟩ := exists_of_withLength_eq_ok hlen
  intro segment hmem
  obtain ⟨before, after, hsegment⟩ := exists_of_foldlM_eq_ok hloop segment hmem
  by_contra hused
  rw [serializeSegment, if_pos hused] at hsegment
  cases hsegment

/-- What the serializer has written has passed its checks. -/
theorem writable_of_serializePathAttrs {as4byte : Bool}
    (h : serializePathAttrs update as4byte v4 = .ok out) : Writable update v4 := by
  simp only [serializePathAttrs, bind_eq_ok] at h
  obtain ⟨_, -, _, hpath, _, hnexthop, _, -, _, -, _, -, _, hagg, -⟩ := h
  refine ⟨segments_of_writeAsPath hpath, fun hv4 => ?_, fun hasn hip => ?_⟩
  · have hwrite := exists_of_writeIf_eq_ok hnexthop hv4
    simp only [writeNextHop, bind_eq_ok] at hwrite
    obtain ⟨_, -, nh, hnh, -⟩ := hwrite
    exact ⟨nh, hnh⟩
  · have hwrite := exists_of_writeIf_eq_ok hagg ⟨hasn, hip⟩
    simp only [writeAggregator, bind_eq_ok] at hwrite
    obtain ⟨_, -, octets, hoctets, -⟩ := hwrite
    exact ⟨octets, hoctets⟩

/-- The attributes are on the wire exactly when they pass the checks and fit the buffer. -/
theorem serializePathAttrs_eq_ok_iff {as4byte : Bool} :
    serializePathAttrs update as4byte v4 = .ok out ↔ Writable update v4 ∧
      out = (wireAttrs as4byte update v4).flatMap WireAttr.encode ∧ out.length ≤ kMaxBgpUpdateVarLen := by
  constructor
  · intro h
    have hwr := writable_of_serializePathAttrs h
    rw [serializePathAttrs_writes as4byte hwr] at h
    obtain ⟨hfits, rfl⟩ := push_eq_ok h
    exact ⟨hwr, rfl, by simpa using hfits⟩
  · rintro ⟨hwr, rfl, hfits⟩
    rw [serializePathAttrs_writes as4byte hwr, push_of_le (by simpa using hfits)]
    rfl

theorem length_wireAttrs_v4 (h : Writable update true) :
    ((wireAttrs as4byte update true).flatMap WireAttr.encode).length =
      ((wireAttrs as4byte update false).flatMap WireAttr.encode).length + 7 := by
  obtain ⟨nh, hnh⟩ := h.nexthop rfl
  obtain ⟨-, hfam⟩ := IPAddress.bytes_of_fromBinary hnh
  have hnexthop : (nextHopAttr update.v4Nexthop).encode.length = 7 := by
    rw [nextHopAttr, WireAttr.encode_short bgpAttrFlagTransitive _ _ (by decide), length_append, length_take]
    simp only [length_cons, length_nil]
    omega
  simp only [wireAttrs, flatMap_append, length_append, whenAttr, if_true, flatMap_singleton,
    Bool.false_eq_true, if_false, flatMap_nil, length_nil]
  omega

end

end FbossBgp.BgpLib
