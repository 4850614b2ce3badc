import FbossBgp.BgpLib.PathAttributes
import FbossBgp.Lib.Writer
import FbossBgp.BgpLib.Capabilities

/-! Serializing messages. The prefixes of an update are packed into as many messages as they need, in four
sections; each is a loop that may not end, so it runs on fuel: `none` is a loop that is still running. The
capabilities of an OPEN message go into one optional parameter; every length inside it is a single byte, cut to
its low bits when it is written. -/

namespace FbossBgp.BgpLib

open Bytes Outcome Writer

/-- Write to the buffer of the attributes. -/
def pushAttr : Bytes → Bytes → Except Exception Bytes := push overflow kMaxBgpUpdateVarLen

section

variable (segment : BgpAttrAsPathSegment) (as4byte : Bool)

/-- How many of the four parts of a segment are in use. -/
def numUsedSegmentTypes : Nat :=
  (if segment.asSequence ≠ [] then 1 else 0) + (if segment.asSet ≠ ∅ then 1 else 0) +
    (if segment.asConfedSequence ≠ [] then 1 else 0) + (if segment.asConfedSet ≠ ∅ then 1 else 0)

/-- The type of a segment on the wire, and its AS numbers in the order they are written. -/
def segmentEntries : UInt8 × List Int :=
  if segment.asSet ≠ ∅ then (1, sortedAsns segment.asSet)
  else if segment.asSequence ≠ [] then (2, segment.asSequence)
  else if segment.asConfedSequence ≠ [] then (3, segment.asConfedSequence)
  else (4, sortedAsns segment.asConfedSet)

def serializeSegment (segment : BgpAttrAsPathSegment) (pcursor : Bytes) :
    Except Exception Bytes := do
  if numUsedSegmentTypes segment ≠ 1 then
    throw (.bgpSerializerException .invalidAspathInfo
      ⟨"Invalid AsPathSegment asSet {} asSeq {} asConfedSeq {} asConfedSet {}",
        [.num segment.asSet.card, .num segment.asSequence.length, .num segment.asConfedSequence.length,
          .num segment.asConfedSet.card]⟩)
  let (type, asns) := segmentEntries segment
  let pcursor ← pushAttr [type, UInt8.ofNat asns.length] pcursor
  asns.foldlM (fun pcursor asn => pushAttr (intBE (asnLen as4byte) asn) pcursor) pcursor

def writeAsPath (asPath : List BgpAttrAsPathSegment) (pcursor : Bytes) : Except Exception Bytes := do
  let pcursor ← pushAttr [bgpAttrFlagTransitive ||| bgpAttrFlagExtended, BgpAttrCode.bgpAttrAsPath.code] pcursor
  let asPathCursor ← withLength overflow kMaxBgpUpdateVarLen 2
    (fun pcursor => asPath.foldlM (fun pcursor segment => serializeSegment as4byte segment pcursor) pcursor) pcursor
  if asPathCursor.length - pcursor.length - 2 > 0xFFF then
    throw (.bgpSerializerException .exceededMaxSize ⟨"too large as path length", []⟩)
  return asPathCursor

end

def writeOrigin (origin : BgpAttrOrigin) : Bytes → Except Exception Bytes :=
  pushAttr ([bgpAttrFlagTransitive, BgpAttrCode.bgpAttrOrigin.code, 1] ++ intBE 1 origin.toInt)

/-- The first four bytes of the address are written, whatever its family. -/
def writeNextHop (v4Nexthop : BinaryAddress) (pcursor : Bytes) : Except Exception Bytes := do
  let pcursor ← pushAttr [bgpAttrFlagTransitive, BgpAttrCode.bgpAttrNextHop.code, 4] pcursor
  let nexthop ← IPAddress.fromBinary v4Nexthop
  pushAttr (nexthop.bytes.take 4) pcursor

def writeMed (med : Int) : Bytes → Except Exception Bytes :=
  pushAttr ([bgpAttrFlagOptional, BgpAttrCode.bgpAttrMed.code, 4] ++ intBE 4 med)

def writeLocalPref (localPref : Int) : Bytes → Except Exception Bytes :=
  pushAttr ([bgpAttrFlagTransitive, BgpAttrCode.bgpAttrLocalPref.code, 4] ++ intBE 4 localPref)

def writeAtomicAggregate : Bytes → Except Exception Bytes :=
  pushAttr [bgpAttrFlagTransitive, BgpAttrCode.bgpAttrAtomicAggregate.code, 0]

def writeAggregator (as4byte : Bool) (aggregator : BgpAttrAggregator) (pcursor : Bytes) : Except Exception Bytes := do
  let pcursor ← pushAttr ([bgpAttrFlagOptional ||| bgpAttrFlagTransitive, BgpAttrCode.bgpAttrAggregator.code,
    UInt8.ofNat (4 + asnLen as4byte)] ++ intBE (asnLen as4byte) aggregator.asn) pcursor
  let aggIp ← IPAddress.v4OfText aggregator.ip
  pushAttr aggIp pcursor

/-- An attribute that is a list of entries of one size, with a length of two bytes. -/
def writeEntries {α : Type} (flags : UInt8) (code : BgpAttrCode) (size : Nat) (encode : α → Bytes)
    (entries : List α) (pcursor : Bytes) : Except Exception Bytes := do
  let pcursor ← pushAttr ([flags, code.code] ++ toBE 2 (size * entries.length)) pcursor
  entries.foldlM (fun pcursor entry => pushAttr (encode entry) pcursor) pcursor

def encodeCommunity (community : BgpAttrCommunity) : Bytes := intBE 2 community.asn ++ intBE 2 community.value

def encodeExtCommunity (community : BgpAttrExtCommunity) : Bytes :=
  intBE 4 community.firstWord ++ intBE 4 community.secondWord

def writeCommunities : List BgpAttrCommunity → Bytes → Except Exception Bytes :=
  writeEntries (bgpAttrFlagOptional ||| bgpAttrFlagTransitive ||| bgpAttrFlagExtended) .bgpAttrCommunities 4
    encodeCommunity

/-- The originator is kept in network byte order. -/
def writeOriginatorId (originatorId : Int) : Bytes → Except Exception Bytes :=
  pushAttr ([bgpAttrFlagOptional, BgpAttrCode.bgpAttrOriginatorId.code, 4] ++ intLE 4 originatorId)

def writeClusterList : List Int → Bytes → Except Exception Bytes :=
  writeEntries (bgpAttrFlagOptional ||| bgpAttrFlagExtended) .bgpAttrClusterList 4 (intLE 4)

def writeExtCommunities : List BgpAttrExtCommunity → Bytes → Except Exception Bytes :=
  writeEntries (bgpAttrFlagOptional ||| bgpAttrFlagTransitive ||| bgpAttrFlagExtended) .bgpAttrExtendedCommunities 8
    encodeExtCommunity

def serializePathAttrs (update : BgpUpdate2) (as4byte v4 : Bool) : Except Exception Bytes := do
  let attrs := update.attrs
  let pcursor ← writeOrigin attrs.origin []
  let pcursor ← writeAsPath as4byte attrs.asPath pcursor
  let pcursor ← writeIf (v4 = true) (writeNextHop update.v4Nexthop) pcursor
  let pcursor ← writeIf (attrs.isMedSet = true) (writeMed attrs.med) pcursor
  let pcursor ← writeSome writeLocalPref attrs.localPref pcursor
  let pcursor ← writeIf (attrs.atomicAggregate = true) writeAtomicAggregate pcursor
  let pcursor ← writeIf (attrs.aggregator.asn ≠ 0 ∧ attrs.aggregator.ip ≠ [])
    (writeAggregator as4byte attrs.aggregator) pcursor
  let pcursor ← writeIf (attrs.communities ≠ []) (writeCommunities attrs.communities) pcursor
  let pcursor ← writeIf (attrs.originatorId ≠ 0) (writeOriginatorId attrs.originatorId) pcursor
  let pcursor ← writeIf (attrs.clusterList ≠ []) (writeClusterList attrs.clusterList) pcursor
  writeIf (attrs.extCommunities ≠ []) (writeExtCommunities attrs.extCommunities) pcursor

def kMpAnnouncedAttrLen : Nat := 25

def serializerException (code : BgpSerializerExceptionCode) (what : What) : Exception :=
  .bgpSerializerException code what

/-- Write the header of a message over the first bytes of its buffer. -/
def serializeBgpHeader (buf : Bytes) (msgType : BgpMessageType) : Except Exception Bytes :=
  let msgLen := buf.length % 2 ^ 16
  if msgLen > kMaxBgpMsgLen then
    .error (serializerException .exceededMaxSize
      ⟨"Message size exceeded the max alowed BGP message length. allowed: {}, msgLen: {}",
        [.num kMaxBgpMsgLen, .num msgLen]⟩)
  else .ok (kBgpMarker ++ toBE 2 msgLen ++ [msgType.code] ++ buf.drop kBgpMsgHeaderLen)

def getMaxPrefixLen (hasPathId v4 : Bool) : Nat :=
  if v4 then if hasPathId then kMaxV4prefixLen + kMaxPathIdLen else kMaxV4prefixLen
  else if hasPathId then kMaxV6PrefixLen + kMaxPathIdLen else kMaxV6PrefixLen

/-- Three bytes for each label, with the bottom of the stack marked. -/
def encodeLabels : List Int → Bytes
  | [] => []
  | [label] => intBE 3 (label * 16 + 1)
  | label :: labels => intBE 3 (label * 16) ++ encodeLabels labels

/-- The first bytes of an address, as many as its length in bits needs. -/
def addressBytes (addr : Bytes) (length : Nat) : Bytes := (zeroPad (prefixBytes length) addr).take (prefixBytes length)

/-- The writes of one prefix: `room` is what the buffer holds from the first prefix on. -/
def writePrefix (safi : BgpUpdateSafi) (room : Nat) (rigged : RiggedIPPrefix) (addr : Bytes) (length : Nat)
    (cursor : Bytes) : Except Exception Bytes := do
  let prefixLenBits := if safi = .safiLabeledUnicast then length + rigged.labels.length * 24 else length
  let cursor ← writeSome (fun pathId => push overflow room (intBE 4 pathId)) rigged.pathId cursor
  let cursor ← push overflow room [UInt8.ofNat prefixLenBits] cursor
  let cursor ← writeIf (safi = .safiLabeledUnicast) (push overflow room (encodeLabels rigged.labels)) cursor
  push overflow room (addressBytes addr length) cursor

/-- One turn of the loop of `serializeNlri`. -/
def serializePrefix (afi : BgpUpdateAfi) (safi : BgpUpdateSafi) (room : Nat) (rigged : RiggedIPPrefix)
    (cursor : Bytes) : Except Exception Bytes := do
  let addr ← IPAddress.fromBinary rigged.ipPrefix.prefixAddress
  let length := (rigged.ipPrefix.prefixLength % 2 ^ 8).toNat
  if addr.isV4 = true ∧ afi ≠ .afiIPv4 ∨ addr.isV6 = true ∧ afi ≠ .afiIPv6 then
    throw (serializerException .afiMismatch
      ⟨"AFI value mismatch. AFI {}, Prefix {}", [.str afi.nameSafe, .network addr.bytes length]⟩)
  if safi = .safiLabeledUnicast ∧ rigged.labels = [] ∨ safi = .safiUnicast ∧ rigged.labels ≠ [] then
    throw (serializerException .invalidNlriLabelInfo
      ⟨"Invalid label info: SAFI {} label stack size {}", [.str safi.nameSafe, .num rigged.labels.length]⟩)
  writePrefix safi room rigged addr.bytes length cursor

/-- Pack prefixes while there is space for one of the greatest length, and count them. -/
def serializeNlri (afi : BgpUpdateAfi) (safi : BgpUpdateSafi) (room bufSize maxPrefixLen : Nat) :
    List RiggedIPPrefix → Bytes → Except Exception (Bytes × Nat)
  | [], cursor => .ok (cursor, 0)
  | rigged :: prefixes, cursor =>
    if cursor.length + (maxPrefixLen + 1) < bufSize then do
      let cursor ← serializePrefix afi safi room rigged cursor
      let (cursor, count) ← serializeNlri afi safi room bufSize maxPrefixLen prefixes cursor
      return (cursor, count + 1)
    else .ok (cursor, 0)

section

/-- An UPDATE message on the wire, with the prefixes that were packed into it. -/
structure UpdateMessage where
  bytes : Bytes
  prefixes : List RiggedIPPrefix
  deriving DecidableEq

/-- Put the header in front of a message and fill in the two length fields. -/
def finishUpdate (withdrawn pathAttrs nlri : Bytes) : Except Exception Bytes := do
  let buf ← push overflow kMaxBgpMsgLen
    (toBE 2 withdrawn.length ++ withdrawn ++ toBE 2 pathAttrs.length ++ pathAttrs ++ nlri)
    (List.replicate kBgpMsgHeaderLen 0)
  serializeBgpHeader buf .bgpMsgTypeUpdate

variable (afi : BgpUpdateAfi) (safi : BgpUpdateSafi)

/-- One turn of the loop of a section: pack prefixes, and put the message around them. -/
def packMessage (room bufSize maxPrefixLen : Nat)
    (finish : Bytes → Except Exception Bytes) (prefixes : List RiggedIPPrefix) : Except Exception (Bytes × Nat) := do
  let (nlri, count) ← serializeNlri afi safi room bufSize maxPrefixLen prefixes []
  let msg ← finish nlri
  return (msg, count)

/-- A message of withdrawn v4 prefixes; two bytes are kept for the length of the attributes. -/
def v4WithdrawnMessage (maxV4PrefixLen : Nat) (prefixes : List RiggedIPPrefix) : Except Exception (Bytes × Nat) :=
  let wcursor := kBgpMsgHeaderLen + 2
  let bufSize := kMaxBgpMsgLen - wcursor - 2
  packMessage .afiIPv4 .safiUnicast (kMaxBgpMsgLen - wcursor) bufSize maxV4PrefixLen
    (fun nlri => finishUpdate nlri [] []) prefixes

def mpUnreachAttr (nlri : Bytes) : Bytes :=
  [bgpAttrFlagOptional ||| bgpAttrFlagExtended, BgpAttrCode.bgpAttrMpUnreachNlri.code] ++ toBE 2 (3 + nlri.length) ++
    intBE 2 afi.toInt ++ intBE 1 safi.toInt ++ nlri

def mpWithdrawnMessage (mpWithdrawn : BgpNlri) (maxV6PrefixLen : Nat) (prefixes : List RiggedIPPrefix) :
    Except Exception (Bytes × Nat) :=
  let wcursor := kBgpMsgHeaderLen + 4 + (mpUnreachAttr mpWithdrawn.afi mpWithdrawn.safi []).length
  let bufSize := kMaxBgpMsgLen - wcursor
  packMessage mpWithdrawn.afi mpWithdrawn.safi bufSize bufSize maxV6PrefixLen
    (fun nlri => finishUpdate [] (mpUnreachAttr mpWithdrawn.afi mpWithdrawn.safi nlri) []) prefixes

def mpReachAttr (nexthop nlri : Bytes) : Bytes :=
  [bgpAttrFlagOptional ||| bgpAttrFlagExtended, BgpAttrCode.bgpAttrMpReachNlri.code] ++
    toBE 2 (5 + nexthop.length + nlri.length) ++ intBE 2 afi.toInt ++ intBE 1 safi.toInt ++
    [UInt8.ofNat nexthop.length] ++ nexthop ++ [0] ++ nlri

def mpAnnouncedMessage (mpAnnounced : BgpNlri) (attrs : Bytes) (maxV6PrefixLen : Nat)
    (prefixes : List RiggedIPPrefix) : Except Exception (Bytes × Nat) := do
  let nh ← IPAddress.fromBinary mpAnnounced.nexthop
  let wcursor := kBgpMsgHeaderLen + 4 + attrs.length + (mpReachAttr mpAnnounced.afi mpAnnounced.safi nh.bytes []).length
  let bufSize := kMaxBgpMsgLen - wcursor
  packMessage mpAnnounced.afi mpAnnounced.safi bufSize bufSize maxV6PrefixLen
    (fun nlri => finishUpdate [] (attrs ++ mpReachAttr mpAnnounced.afi mpAnnounced.safi nh.bytes nlri) []) prefixes

def v4AnnouncedMessage (attrs : Bytes) (maxV4PrefixLen : Nat) (prefixes : List RiggedIPPrefix) :
    Except Exception (Bytes × Nat) :=
  let wcursor := kBgpMsgHeaderLen + 4 + attrs.length
  let bufSize := kMaxBgpMsgLen - wcursor
  packMessage .afiIPv4 .safiUnicast bufSize bufSize maxV4PrefixLen (fun nlri => finishUpdate [] attrs nlri) prefixes

/-- The loop of a section: messages until no prefix is left. -/
def packMessages (message : List RiggedIPPrefix → Except Exception (Bytes × Nat)) :
    Nat → List RiggedIPPrefix → ExceptT Exception Option (List UpdateMessage)
  | _, [] => pure []
  | 0, _ :: _ => ExceptT.mk none
  | fuel + 1, rigged :: prefixes => do
      let (bytes, count) ← ExceptT.mk (some (message (rigged :: prefixes)))
      let messages ← packMessages message fuel ((rigged :: prefixes).drop count)
      return ⟨bytes, (rigged :: prefixes).take count⟩ :: messages

end

section

def firstHasPathId (prefixes : List RiggedIPPrefix) : Bool :=
  match prefixes with
  | rigged :: _ => rigged.pathId.isSome
  | [] => false

variable (update : BgpUpdate2) (as4byte : Bool) (fuel : Nat)

/-- The announced v4 prefixes, from whichever of the two fields is in use. -/
def BgpUpdate2.announced : List RiggedIPPrefix :=
  if update.v4Announced2 = [] then update.v4Announced.map fun prf => { ipPrefix := prf } else update.v4Announced2

/-- The withdrawn v4 prefixes, from whichever of the two fields is in use. -/
def BgpUpdate2.withdrawn : List RiggedIPPrefix :=
  if update.v4Withdrawn2 = [] then update.v4Withdrawn.map fun prf => { ipPrefix := prf } else update.v4Withdrawn2

/-- The checks of `serializeBgpUpdate2` before it writes anything. -/
def checkUpdate (extNhEncoding : Bool) : Except Exception Unit := do
  if update.v4Announced2 ≠ [] ∧ update.v4Announced ≠ [] ∨ update.v4Withdrawn2 ≠ [] ∧ update.v4Withdrawn ≠ [] then
    throw (serializerException .versionError ⟨"Client use both version for v4 announcement/withdrawn", []⟩)
  if update.announced = [] ∧ update.withdrawn = [] ∧ update.mpAnnounced.prefixes = [] ∧
      update.mpWithdrawn.prefixes = [] then
    throw (serializerException .missingNlriInfo ⟨"Missing NLRI information.", []⟩)
  if update.mpAnnounced.prefixes ≠ [] then do
    let nh ← IPAddress.fromBinary update.mpAnnounced.nexthop
    if extNhEncoding = false ∧ update.mpAnnounced.afi = .afiIPv4 ∧ nh.isV6 = true then
      throw (serializerException .extNhEncodingNotSupportted
        ⟨"V4 announcement has v6 nexthop, but extended nexthop encoding is not negotiated.", []⟩)

def tooLargePathAttr : Exception := serializerException .exceededMaxSize ⟨"too large Path Attr length", []⟩

def v4WithdrawnSection : ExceptT Exception Option (List UpdateMessage) :=
  packMessages (v4WithdrawnMessage (getMaxPrefixLen (firstHasPathId update.withdrawn) true)) fuel update.withdrawn

def mpWithdrawnSection : ExceptT Exception Option (List UpdateMessage) :=
  packMessages (mpWithdrawnMessage update.mpWithdrawn
    (getMaxPrefixLen (firstHasPathId update.mpWithdrawn.prefixes) false)) fuel update.mpWithdrawn.prefixes

/-- All messages of announced prefixes have the attributes, which must leave space for another `needed` bytes. -/
def announcedSection (prefixes : List RiggedIPPrefix) (attrs : Except Exception Bytes) (needed : Nat)
    (message : Bytes → List RiggedIPPrefix → Except Exception (Bytes × Nat)) :
    ExceptT Exception Option (List UpdateMessage) := do
  if prefixes = [] then return []
  let attrs ← ExceptT.mk (some attrs)
  if attrs.length + needed > kMaxBgpUpdateVarLen then throw tooLargePathAttr
  packMessages (message attrs) fuel prefixes

def mpAnnouncedSection : ExceptT Exception Option (List UpdateMessage) :=
  let maxV6PrefixLen := getMaxPrefixLen (firstHasPathId update.mpAnnounced.prefixes) false
  announcedSection fuel update.mpAnnounced.prefixes (serializePathAttrs update as4byte false)
    (kMpAnnouncedAttrLen + maxV6PrefixLen) fun attrs => mpAnnouncedMessage update.mpAnnounced attrs maxV6PrefixLen

def v4AnnouncedSection : ExceptT Exception Option (List UpdateMessage) :=
  let maxV4PrefixLen := getMaxPrefixLen (firstHasPathId update.announced) true
  announcedSection fuel update.announced (serializePathAttrs update as4byte true) maxV4PrefixLen
    fun attrs => v4AnnouncedMessage attrs maxV4PrefixLen

def serializeBgpUpdate2 (as4byte extNhEncoding : Bool) (fuel : Nat) :
    ExceptT Exception Option (List UpdateMessage) := do
  ExceptT.mk (some (checkUpdate update extNhEncoding))
  let v4Withdrawn ← v4WithdrawnSection update fuel
  let mpWithdrawn ← mpWithdrawnSection update fuel
  let mpAnnounced ← mpAnnouncedSection update as4byte fuel
  let v4Announced ← v4AnnouncedSection update as4byte fuel
  return v4Withdrawn ++ mpWithdrawn ++ mpAnnounced ++ v4Announced

end

def capabilityHeader (capability : BgpCapability) (cLen : Nat) : Bytes :=
  [UInt8.ofNat capability.code, UInt8.ofNat cLen]

variable (capa : BgpCapabilities) (msg : BgpOpenMsg)

/-- The families of the multiprotocol capabilities, in the order they are written. -/
def mpCaps : List (BgpUpdateAfi × BgpUpdateSafi) :=
  (if capa.mpExtV4Unicast then [(.afiIPv4, .safiUnicast)] else []) ++
  (if capa.mpExtV6Unicast then [(.afiIPv6, .safiUnicast)] else []) ++
  (if capa.mpExtV4LU then [(.afiIPv4, .safiLabeledUnicast)] else []) ++
  (if capa.mpExtV6LU then [(.afiIPv6, .safiLabeledUnicast)] else []) ++
  (if capa.mpExtLs then [(.afiLs, .safiLs)] else [])

def mpExtBytes (family : BgpUpdateAfi × BgpUpdateSafi) : Bytes :=
  capabilityHeader .capaMpExt 4 ++ (intBE 2 family.1.toInt ++ [0] ++ intBE 1 family.2.toInt)

def as4ByteBytes : Bytes := capabilityHeader .capaAs4Byte 4 ++ intBE 4 capa.asn

/-- The restart time in the low bits, the flags in the two highest. -/
def grValue : Nat :=
  (capa.restartTime % 2 ^ 12).toNat ||| (if capa.isRestarting then kGrRestartStateBit else 0) |||
    (if capa.grNotification then kGrNotificationBit else 0)

def grCapabilityBytes (grCapa : BgpGrCapability) : Bytes :=
  intBE 2 grCapa.afi.toInt ++ intBE 1 grCapa.safi.toInt ++ [if grCapa.forwardingState then 0x80 else 0]

def grBytes : Bytes :=
  capabilityHeader .capaGr (2 + 4 * capa.grCapabilities.length) ++
    (toBE 2 (grValue capa) ++ capa.grCapabilities.flatMap grCapabilityBytes)

def addPathCapabilityBytes (addPathCapa : BgpAddPathCapability) : Bytes :=
  intBE 2 addPathCapa.afi.toInt ++ intBE 1 addPathCapa.safi.toInt ++ intBE 1 addPathCapa.sor.toInt

def addPathBytes : Bytes :=
  capabilityHeader .capaAddPath (4 * capa.addPathCapabilities.length) ++
    capa.addPathCapabilities.flatMap addPathCapabilityBytes

def extNHEncodingCapabilityBytes (extNHEncodingCapability : BgpExtNHEncodingCapability) : Bytes :=
  intBE 2 extNHEncodingCapability.nlriAfi.toInt ++ intBE 2 extNHEncodingCapability.nlriSafi.toInt ++
    intBE 2 extNHEncodingCapability.nhAfi.toInt

def extNHEncodingBytes : Bytes :=
  capabilityHeader .capaExtNhEncoding (6 * capa.extNHEncodingCapabilities.length) ++
    capa.extNHEncodingCapabilities.flatMap extNHEncodingCapabilityBytes

/-- All capabilities, in the order of the source. -/
def capabilityBytes : Bytes :=
  (mpCaps capa).flatMap mpExtBytes ++
  (if capa.as4byte then as4ByteBytes capa else []) ++
  (if capa.gracefulRestart then grBytes capa else []) ++
  (if capa.addPathCapabilities.length > 0 then addPathBytes capa else []) ++
  (if capa.extNHEncodingCapabilities.length > 0 then extNHEncodingBytes capa else []) ++
  (if capa.routeRefresh then capabilityHeader .capaRouteRefresh 0 else []) ++
  (if capa.enhancedRouteRefresh then capabilityHeader .capaEnhancedRouteRefresh 0 else [])

/-- What follows the header: the fixed fields, and one parameter of type 2 with the capabilities. -/
def openBody : Bytes :=
  intBE 1 msg.version ++ intBE 2 msg.asn ++ intBE 2 msg.holdTime ++ intBE 4 msg.bgpID ++
    toBE 1 (2 + (capabilityBytes msg.capabilities).length) ++ [2] ++
    toBE 1 (capabilityBytes msg.capabilities).length ++ capabilityBytes msg.capabilities

def serializeBgpOpenMsg : Except Exception Bytes := do
  let buf ← push overflow kMaxBgpMsgLen (openBody msg) (List.replicate kBgpMsgHeaderLen 0)
  serializeBgpHeader buf .bgpMsgTypeOpen

end FbossBgp.BgpLib
