import FbossBgp.BgpLib.Nlri

/-! Parsing the withdrawn routes, the path attributes and the announced routes of an UPDATE message. -/

namespace FbossBgp.BgpLib

open Bytes Outcome Reader

structure UpdateMsgParsingState where
  attrs : BgpAttributes := {}
  v4Announced : List BgpPrefix := []
  v4Withdrawn : List BgpPrefix := []
  mpAnnouncedAfi : BgpUpdateAfi := .ofInt 0
  mpAnnouncedSafi : BgpUpdateSafi := .ofInt 0
  mpAnnounced : List BgpPrefix := []
  mpWithdrawnAfi : BgpUpdateAfi := .ofInt 0
  mpWithdrawnSafi : BgpUpdateSafi := .ofInt 0
  mpWithdrawn : List BgpPrefix := []
  v4WithdrawnLen : Nat := 0
  paLen : Nat := 0
  eor : Option BgpEndOfRib := none
  v4Nexthop : IPAddress := .empty
  mpNexthop : IPAddress := .empty
  hasOriginAttr : Bool := false
  hasAsPathAttr : Bool := false

def kBgpAttrCodesToFlags : BgpAttrCode → UInt8
  | .bgpAttrOrigin => bgpAttrFlagTransitive
  | .bgpAttrAsPath => bgpAttrFlagTransitive
  | .bgpAttrNextHop => bgpAttrFlagTransitive
  | .bgpAttrMed => bgpAttrFlagOptional
  | .bgpAttrLocalPref => bgpAttrFlagTransitive
  | .bgpAttrAtomicAggregate => bgpAttrFlagTransitive
  | .bgpAttrAggregator => bgpAttrFlagOptionalTransitive
  | .bgpAttrCommunities => bgpAttrFlagOptionalTransitive
  | .bgpAttrOriginatorId => bgpAttrFlagOptional
  | .bgpAttrClusterList => bgpAttrFlagOptional
  | .bgpAttrMpReachNlri => bgpAttrFlagOptional
  | .bgpAttrMpUnreachNlri => bgpAttrFlagOptional
  | .bgpAttrExtendedCommunities => bgpAttrFlagOptionalTransitive
  | .bgpAttrLinkState => bgpAttrFlagOptional
  | .bgpAttrLargeCommunities => bgpAttrFlagOptionalTransitive

def addAsn (segmentType : Nat) (seg : BgpAttrAsPathSegment) (asn : Int) : Except Exception BgpAttrAsPathSegment :=
  match segmentType with
  | 1 => .ok { seg with asSet := insert asn seg.asSet }
  | 2 => .ok { seg with asSequence := seg.asSequence ++ [asn] }
  | 3 => .ok { seg with asConfedSequence := seg.asConfedSequence ++ [asn] }
  | 4 => .ok { seg with asConfedSet := insert asn seg.asConfedSet }
  | _ => .error (.bgpUpdateMsgException .bnUmMalformedAsPath []
      ⟨"Unknown as segment type: {}", [.num segmentType]⟩)

/-- The bytes of an AS number on the session. -/
def asnLen (as4byte : Bool) : Nat := if as4byte then 4 else 2

def readAsns (as4byte : Bool) (segmentType : Nat) : Nat → BgpAttrAsPathSegment → Bytes →
    Except Exception (BgpAttrAsPathSegment × Bytes)
  | 0, seg, cursor => .ok (seg, cursor)
  | asCnt + 1, seg, cursor => do
      let (asn, cursor) ← readBE underflow (asnLen as4byte) cursor
      let seg ← addAsn segmentType seg asn
      readAsns as4byte segmentType asCnt seg cursor

/-- One turn of the loop of `parseAsPathAttr`. -/
def parseSegment (capa : BgpCapabilities) (attrBeingParsed : Bytes) (asPath : List BgpAttrAsPathSegment)
    (cursor : Bytes) : Except Exception (List BgpAttrAsPathSegment × Bytes) := do
  if cursor.length < 2 then
    throw (.bgpUpdateMsgException .bnUmAttrLenErr attrBeingParsed ⟨"Invalid path attribute length", []⟩)
  let (segmentType, cursor) ← readBE underflow 1 cursor
  let (asCnt, cursor) ← readBE underflow 1 cursor
  let expectedLength := asnLen capa.as4byte * asCnt
  if cursor.length < expectedLength then
    throw (.bgpUpdateMsgException .bnUmAttrLenErr attrBeingParsed
      ⟨"The length of attributes exceeds the remaining message length. Remaining message length: {}, " ++
        "expected AS PATH attributes length: {}, as4cap: {}",
        [.num cursor.length, .num expectedLength, .bool capa.as4byte]⟩)
  let (seg, cursor) ← readAsns capa.as4byte segmentType asCnt {} cursor
  return (asPath ++ [seg], cursor)

def parseAsPathAttr (cursor : Bytes) (capa : BgpCapabilities) (attrBeingParsed : Bytes) :
    Except Exception (List BgpAttrAsPathSegment) :=
  untilEmpty (parseSegment capa attrBeingParsed) [] cursor

def readCommunity (communities : List BgpAttrCommunity) (cursor : Bytes) :
    Except Exception (List BgpAttrCommunity × Bytes) := do
  let (asn, cursor) ← readBE underflow 2 cursor
  let (value, cursor) ← readBE underflow 2 cursor
  return (communities ++ [⟨asn, value⟩], cursor)

/-- The cluster ids are kept in network byte order. -/
def readClusterId (clusterList : List Int) (cursor : Bytes) : Except Exception (List Int × Bytes) := do
  let (clusterId, cursor) ← pull underflow 4 cursor
  return (clusterList ++ [↑(ofLE clusterId)], cursor)

def readExtCommunity (extCommunities : List BgpAttrExtCommunity) (cursor : Bytes) :
    Except Exception (List BgpAttrExtCommunity × Bytes) := do
  let (firstWord, cursor) ← readBE underflow 4 cursor
  let (secondWord, cursor) ← readBE underflow 4 cursor
  return (extCommunities ++ [⟨firstWord, secondWord⟩], cursor)

def readLargeCommunity (largeCommunities : List BgpAttrLargeCommunity) (cursor : Bytes) :
    Except Exception (List BgpAttrLargeCommunity × Bytes) := do
  let (asn, cursor) ← readBE underflow 4 cursor
  let (localData1, cursor) ← readBE underflow 4 cursor
  let (localData2, cursor) ← readBE underflow 4 cursor
  return (largeCommunities ++ [⟨asn, localData1, localData2⟩], cursor)

/-- The flags, type and length in front of the body of an attribute. -/
structure AttrHeader where
  flags : UInt8
  type : UInt8
  bodyLen : Nat
  lengthSize : Nat

def readAttrHeader (cursor : Bytes) : Except Exception (AttrHeader × Bytes) := do
  let (flags, cursor) ← readBE underflow 1 cursor
  let (type, cursor) ← readBE underflow 1 cursor
  let lengthSize := if UInt8.ofNat flags &&& bgpAttrFlagExtended ≠ 0 then 2 else 1
  let (bodyLen, cursor) ← readBE underflow lengthSize cursor
  return (⟨UInt8.ofNat flags, UInt8.ofNat type, bodyLen, lengthSize⟩, cursor)

variable (attr : AttrHeader)

/-- `rawAttrLen`: the type, the length and the body, as far as there is input. -/
def AttrHeader.rawAttrLen (rest : Bytes) : Nat :=
  min attr.bodyLen rest.length + attr.lengthSize + 1

/-- The bytes quoted in an error: the flags and what follows them. -/
def AttrHeader.attrBeingParsed (cursor rest : Bytes) : Bytes :=
  attr.flags :: (cursor.drop 1).take (attr.rawAttrLen rest)

def checkPathAttributeFlag (attrFlags attrType : UInt8) (attrBeingParsed : Bytes) : Except Exception Unit :=
  match BgpAttrCode.ofCode attrType with
  | some code =>
    if kBgpAttrCodesToFlags code ≠ attrFlags &&& 0xc0 then
      .error (.bgpUpdateMsgException .bnUmAttrFlagsErr attrBeingParsed
        ⟨"Wrong attribute flags for attribute 0x{0:02x} type, expected: 0x{1:02x}, received: 0x{2:02x}",
          [.num attrType.toNat, .num (kBgpAttrCodesToFlags code).toNat, .num (attrFlags &&& 0xc0).toNat]⟩)
    else .ok ()
  | none => .ok ()

section

variable (capa : BgpCapabilities) (attrBeingParsed : Bytes) (attrType : UInt8) (cursor : Bytes)

def optionalAttrError (what : What) : Exception :=
  .bgpUpdateMsgException .bnUmOptionalAttrError attrBeingParsed what

/-- The global next hop, and past the link-local one if there is one. -/
def readV6Nexthop (nextHopLen : Nat) (cursor : Bytes) : Except Exception (IPAddress × Bytes) := do
  let (buf, cursor) ← pull underflow 16 cursor
  let nexthop ← IPAddress.fromBinary buf
  if nextHopLen = 32 then do
    let (_, cursor) ← pull underflow 16 cursor
    return (nexthop, cursor)
  else return (nexthop, cursor)

def readMpV4Nexthop : Except Exception (IPAddress × Bytes) := do
  let (nextHopLen, cursor) ← readBE underflow 1 cursor
  let extNhEncoding := decide (capa.extNHEncodingCapabilities.length > 0)
  if extNhEncoding = false ∧ nextHopLen ≠ 4 then
    throw (optionalAttrError attrBeingParsed
      ⟨"Unexpected length of mpNexthop. expected: 4 received: {}, extended nexthop encoding disabled",
        [.num nextHopLen]⟩)
  if extNhEncoding = true ∧ nextHopLen ≠ 4 ∧ nextHopLen ≠ 16 ∧ nextHopLen ≠ 32 then
    throw (optionalAttrError attrBeingParsed
      ⟨"Unexpected length of mpNexthop. expected: 4, 16 or 32, received: {}", [.num nextHopLen]⟩)
  if nextHopLen = 4 then do
    let (nexthop, cursor) ← readBE underflow 4 cursor
    return (.fromLongHBO nexthop, cursor)
  else readV6Nexthop nextHopLen cursor

def readMpV6Nexthop : Except Exception (IPAddress × Bytes) := do
  let (nextHopLen, cursor) ← readBE underflow 1 cursor
  if nextHopLen ≠ 16 ∧ nextHopLen ≠ 32 then
    throw (optionalAttrError attrBeingParsed
      ⟨"Unexpected length of mpNexthop. expected: 16 or 32, received: {}", [.num nextHopLen]⟩)
  readV6Nexthop nextHopLen cursor

/-- The announced prefixes of a family: the next hop, a reserved byte and the prefixes. -/
def parseMpAnnounced (readNexthop : Bytes → Except Exception (IPAddress × Bytes)) (afi : BgpUpdateAfi)
    (state : UpdateMsgParsingState) (cursor : Bytes) : Except Exception UpdateMsgParsingState := do
  let (mpNexthop, cursor) ← readNexthop cursor
  let (_, cursor) ← pull underflow 1 cursor
  let mpAnnounced ← parseMpNlri cursor afi state.mpAnnouncedSafi capa attrBeingParsed attrType
  return { state with mpNexthop := mpNexthop, mpAnnounced := mpAnnounced }

def parseMpReachNlri (state : UpdateMsgParsingState) (cursor : Bytes) : Except Exception UpdateMsgParsingState := do
  let (afi, cursor) ← readBE underflow 2 cursor
  let (safi, cursor) ← readBE underflow 1 cursor
  let state := { state with mpAnnouncedAfi := .ofInt afi, mpAnnouncedSafi := .ofInt safi }
  if state.mpAnnouncedAfi = .afiIPv4 then
    parseMpAnnounced capa attrBeingParsed attrType (readMpV4Nexthop capa attrBeingParsed) .afiIPv4 state cursor
  else if state.mpAnnouncedAfi = .afiIPv6 then
    parseMpAnnounced capa attrBeingParsed attrType (readMpV6Nexthop attrBeingParsed) .afiIPv6 state cursor
  else return state

/-- The withdrawn prefixes of a family; none at all is an end of RIB. -/
def parseMpWithdrawn (afi : BgpUpdateAfi) (state : UpdateMsgParsingState) (cursor : Bytes) :
    Except Exception UpdateMsgParsingState := do
  if cursor.length = 0 then return { state with eor := some ⟨true, afi, state.mpWithdrawnSafi⟩ }
  let mpWithdrawn ← parseMpNlri cursor afi state.mpWithdrawnSafi capa attrBeingParsed attrType
  return { state with mpWithdrawn := mpWithdrawn }

def parseMpUnreachNlri (state : UpdateMsgParsingState) (cursor : Bytes) : Except Exception UpdateMsgParsingState := do
  let (afi, cursor) ← readBE underflow 2 cursor
  let (safi, cursor) ← readBE underflow 1 cursor
  let state := { state with mpWithdrawnAfi := .ofInt afi, mpWithdrawnSafi := .ofInt safi }
  if state.mpWithdrawnAfi = .afiIPv4 then
    parseMpWithdrawn capa attrBeingParsed attrType .afiIPv4 state cursor
  else if state.mpWithdrawnAfi = .afiIPv6 then
    parseMpWithdrawn capa attrBeingParsed attrType .afiIPv6 state cursor
  else
    -- the text names the announced family, which this attribute does not set
    throw (optionalAttrError attrBeingParsed ⟨"unsupported afi: {}", [.num (state.mpAnnouncedAfi.toInt % 2 ^ 32)]⟩)

end

section

variable (capa : BgpCapabilities) (attr : AttrHeader) (attrBeingParsed : Bytes) (rawAttrLen : Nat)
  (state : UpdateMsgParsingState) (body : Bytes)

def parseOrigin : Except Exception UpdateMsgParsingState := do
  let (originCode, _) ← readBE underflow 1 body
  if originCode > 2 then
    throw (.bgpUpdateMsgException .bnUmInvalidOriginAttr attrBeingParsed ⟨"Unknown origin code: {}", [.num originCode]⟩)
  return { state with attrs.origin := .ofInt originCode, hasOriginAttr := true }

def parseNextHop : Except Exception UpdateMsgParsingState := do
  if body.length ≠ 4 then
    throw (.bgpUpdateMsgException .bnUmInvalidNextHopAttr attrBeingParsed
      ⟨"Unexpected length of v4-nexthop. expected: 4, received: {}", [.num body.length]⟩)
  let (nexthop, _) ← readBE underflow 4 body
  let v4Nexthop := IPAddress.fromLongHBO nexthop
  return { state with v4Nexthop := v4Nexthop, attrs.nexthop := IPAddress.str v4Nexthop.bytes }

def parseAggregator : Except Exception UpdateMsgParsingState := do
  let (asn, body) ← readBE underflow (asnLen capa.as4byte) body
  let (ip, body) ← readBE underflow 4 body
  if body.length ≠ 0 then
    throw (.bgpUpdateMsgException .bnUmOptionalAttrError attrBeingParsed
      ⟨"Unexpected length of bgp attr AGGREGATOR. expected: {}, received: {}", [.num 4, .num rawAttrLen]⟩)
  return { state with attrs.aggregator := ⟨asn, IPAddress.str (IPAddress.fromLongHBO ip).bytes⟩ }

/-- The originator is kept in network byte order. -/
def parseOriginatorId : Except Exception UpdateMsgParsingState := do
  let (originatorId, body) ← pull underflow 4 body
  if body.length ≠ 0 then
    throw (.bgpUpdateMsgException .bnUmAttrLenErr attrBeingParsed
      ⟨"Unexpected length of bgp attr ORIGINATOR_ID. expected: {}, received: {}", [.num 4, .num rawAttrLen]⟩)
  return { state with attrs.originatorId := ofLE originatorId }

/-- The `switch` on the type of an attribute: an unknown type is skipped. -/
def parseAttrBody : Except Exception UpdateMsgParsingState :=
  match BgpAttrCode.ofCode attr.type with
  | some .bgpAttrOrigin => parseOrigin attrBeingParsed state body
  | some .bgpAttrAsPath => do
      let asPath ← parseAsPathAttr body capa attrBeingParsed
      return { state with attrs.asPath := asPath, hasAsPathAttr := true }
  | some .bgpAttrNextHop => parseNextHop attrBeingParsed state body
  | some .bgpAttrMed => do
      let (med, _) ← readBE underflow 4 body
      return { state with attrs.med := med, attrs.isMedSet := true }
  | some .bgpAttrLocalPref => do
      let (localPref, _) ← readBE underflow 4 body
      return { state with attrs.localPref := some localPref }
  | some .bgpAttrAtomicAggregate => return { state with attrs.atomicAggregate := true }
  | some .bgpAttrAggregator => parseAggregator capa attrBeingParsed rawAttrLen state body
  | some .bgpAttrCommunities => do
      let communities ← untilEmpty readCommunity state.attrs.communities body
      return { state with attrs.communities := communities }
  | some .bgpAttrOriginatorId => parseOriginatorId attrBeingParsed rawAttrLen state body
  | some .bgpAttrClusterList => do
      let clusterList ← untilEmpty readClusterId state.attrs.clusterList body
      return { state with attrs.clusterList := clusterList }
  | some .bgpAttrMpReachNlri => parseMpReachNlri capa attrBeingParsed attr.type state body
  | some .bgpAttrMpUnreachNlri => parseMpUnreachNlri capa attrBeingParsed attr.type state body
  | some .bgpAttrExtendedCommunities => do
      let extCommunities ← untilEmpty readExtCommunity state.attrs.extCommunities body
      return { state with attrs.extCommunities := extCommunities }
  | some .bgpAttrLargeCommunities => do
      let largeCommunities ← untilEmpty readLargeCommunity state.attrs.largeCommunities body
      return { state with attrs.largeCommunities := largeCommunities }
  | some .bgpAttrLinkState => return state
  | none => return state

end

def malformedAttributeList (what : What) : Exception := .bgpUpdateMsgException .bnUmMalformedAttributeList [] what

/-- The checks of an attribute's flags and length, in front of its body. -/
def checkAttr (attrBeingParsed rest : Bytes) : Except Exception Unit := do
  checkPathAttributeFlag attr.flags attr.type attrBeingParsed
  if attr.bodyLen > rest.length then
    throw (malformedAttributeList
      ⟨"The length of the attribute exceeds the remaining message length. Remaining message length: {}, " ++
        "attribute {} has length: {}", [.num rest.length, .num attr.type.toNat, .num attr.bodyLen]⟩)
  if attr.flags &&& bgpAttrFlagOptional = 0 ∧ attr.flags &&& bgpAttrFlagTransitive = 0 then
    throw (.bgpUpdateMsgException .bnUmAttrFlagsErr attrBeingParsed
      ⟨"For well-known attributes, the Transitive bit MUST be set to 1.", []⟩)
  if (attr.flags &&& bgpAttrFlagOptional = 0 ∨ attr.flags &&& bgpAttrFlagTransitive = 0) ∧
      attr.flags &&& bgpAttrFlagPartial ≠ 0 then
    throw (.bgpUpdateMsgException .bnUmAttrFlagsErr attrBeingParsed
      ⟨"For well-known attributes and for optional non-transitive attributes, the partial bit MUST be set to 0.", []⟩)

variable (capa : BgpCapabilities) (state : UpdateMsgParsingState) (cursor : Bytes)

/-- One attribute, inside the `try` block. -/
def parseAttr : Except Exception (UpdateMsgParsingState × Bytes) := do
  let (attr, rest) ← readAttrHeader cursor
  let attrBeingParsed := attr.attrBeingParsed cursor rest
  checkAttr attr attrBeingParsed rest
  let (body, after) ← pull underflow attr.bodyLen rest
  let state ← parseAttrBody capa attr attrBeingParsed (attr.rawAttrLen rest) state body
  return (state, after)

/-- One turn of the loop of `parsePathAttributes`: a read past the end is a malformed list. -/
def parsePathAttribute : Except Exception (UpdateMsgParsingState × Bytes) :=
  catchOutOfRange (fun what => malformedAttributeList
    ⟨"out_of_range exception happened when parsing bgp attributes: {}", [.str what]⟩) (parseAttr capa state cursor)

/-- The length in front of a field of the message, and what follows it. -/
def readFieldLen (tooShort : String) (cursor : Bytes) : Except Exception (Nat × Bytes) :=
  if 2 > cursor.length then throw (malformedAttributeList ⟨tooShort, [.num cursor.length, .num 2]⟩)
  else readBE underflow 2 cursor

def parsePathAttributes : Except Exception (UpdateMsgParsingState × Bytes) := do
  let (paLen, cursor) ← readFieldLen
    "Failed to read the byte size of path attrs Remaining message length {}, Expected field size {}" cursor
  let state := { state with attrs.isMedSet := false, paLen := paLen }
  if paLen = 0 then return (state, cursor)
  if paLen > cursor.length then
    throw (malformedAttributeList
      ⟨"The length of attributes exceeds the remaining message length. Remaining message length: {}, " ++
        "path attributes length: {}", [.num cursor.length, .num paLen]⟩)
  let (paBuf, cursor) ← pull underflow paLen cursor
  let state ← untilEmpty (parsePathAttribute capa) state paBuf
  return (state, cursor)

variable (capabilities : BgpCapabilities)

def parseV4Withdrawn (state : UpdateMsgParsingState) (cursor : Bytes) :
    Except Exception (UpdateMsgParsingState × Bytes) := do
  let (v4WithdrawnLen, cursor) ← readFieldLen
    "Failed to read the byte size of withdraw update Remaining message length {}, Expected field size {}" cursor
  let state := { state with v4WithdrawnLen := v4WithdrawnLen }
  if v4WithdrawnLen = 0 then return (state, cursor)
  if v4WithdrawnLen > cursor.length then
    throw (malformedAttributeList
      ⟨"The length of withdrawn routes exceeds the remaining message length. Remaining message length {}, " ++
        "withdrawn length: {} ", [.num cursor.length, .num v4WithdrawnLen]⟩)
  let (withdrawnBuf, cursor) ← pull underflow v4WithdrawnLen cursor
  let v4Withdrawn ← catchOutOfRange (fun _ => invalidNetworkField
    ⟨"Withdrawn NLRI: Unhandled parsing error, withdrawn length: {} ", [.num withdrawnBuf.length]⟩)
    (parseNlri withdrawnBuf .afiIPv4 .safiUnicast capabilities)
  return ({ state with v4Withdrawn := v4Withdrawn }, cursor)

/-- The announced prefixes have an implied length: they are all that is left of the message. -/
def parseV4Announced (state : UpdateMsgParsingState) (cursor : Bytes) :
    Except Exception UpdateMsgParsingState := do
  if cursor.length = 0 then return state
  let v4Announced ← parseNlri cursor .afiIPv4 .safiUnicast capabilities
  return { state with v4Announced := v4Announced }

def missingWellKnownAttr (attrType : BgpAttrCode) : Exception :=
  .bgpUpdateMsgException .bnUmMissingWellKnownAttr [attrType.code]
    ⟨"Missing mandatory bgp-attributes in update message.", []⟩

def doSanityChecks : Except Exception Unit := do
  if (state.v4Announced ≠ [] ∨ state.mpAnnounced ≠ []) ∧
      (state.hasOriginAttr = false ∨ state.hasAsPathAttr = false) then
    throw (missingWellKnownAttr (if state.hasOriginAttr then .bgpAttrAsPath else .bgpAttrOrigin))
  if state.v4Announced ≠ [] ∧ state.v4Nexthop = .empty then throw (missingWellKnownAttr .bgpAttrNextHop)

end FbossBgp.BgpLib
