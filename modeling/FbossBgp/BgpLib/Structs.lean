import FbossBgp.Lib.OpenEnum
import Mathlib.Data.Finset.Sort
import FbossBgp.Lib.Reader

/-! The constants, enumerations and structures of a BGP message, and the exceptions of the library with the codes of
a NOTIFICATION message that they carry. A variable of a thrift enumeration may hold a number that none of its names
stands for. -/

namespace FbossBgp.BgpLib

abbrev Bytes := List UInt8

def kBgpMsgHeaderLen : Nat := 19

def kMaxBgpMsgLen : Nat := 4096

def kMinBgpUpdateMsgLen : Nat := 23

def kMaxBgpUpdateVarLen : Nat := kMaxBgpMsgLen - kMinBgpUpdateMsgLen

theorem kMaxBgpUpdateVarLen_eq : kMaxBgpUpdateVarLen = 4073 := rfl

def kMaxV6PrefixLen : Nat := 17

def kMaxV4prefixLen : Nat := 5

def kMaxPathIdLen : Nat := 4

def kBgpMarker : Bytes := List.replicate 16 0xff

def kBgpVersion : UInt8 := 4

def kGrRestartStateBit : Nat := 0x8000

def kGrNotificationBit : Nat := 0x4000

def kGrRestartTimeMask : Nat := 0x0fff

inductive BgpMessageType
  | bgpMsgTypeOpen
  | bgpMsgTypeUpdate
  | bgpMsgTypeNotification
  | bgpMsgTypeKeepalive
  | bgpMsgTypeRouteRefresh
  deriving DecidableEq, Repr

def BgpMessageType.code : BgpMessageType → UInt8
  | .bgpMsgTypeOpen => 1
  | .bgpMsgTypeUpdate => 2
  | .bgpMsgTypeNotification => 3
  | .bgpMsgTypeKeepalive => 4
  | .bgpMsgTypeRouteRefresh => 5

def bgpAttrFlagOptionalTransitive : UInt8 := 0xc0

def bgpAttrFlagOptional : UInt8 := 0x80

def bgpAttrFlagTransitive : UInt8 := 0x40

def bgpAttrFlagPartial : UInt8 := 0x20

def bgpAttrFlagExtended : UInt8 := 0x10

/-- The attribute codes the library knows; any other byte is left as it is. -/
inductive BgpAttrCode
  | bgpAttrOrigin
  | bgpAttrAsPath
  | bgpAttrNextHop
  | bgpAttrMed
  | bgpAttrLocalPref
  | bgpAttrAtomicAggregate
  | bgpAttrAggregator
  | bgpAttrCommunities
  | bgpAttrOriginatorId
  | bgpAttrClusterList
  | bgpAttrMpReachNlri
  | bgpAttrMpUnreachNlri
  | bgpAttrExtendedCommunities
  | bgpAttrLinkState
  | bgpAttrLargeCommunities
  deriving DecidableEq, Repr

def BgpAttrCode.code : BgpAttrCode → UInt8
  | .bgpAttrOrigin => 1
  | .bgpAttrAsPath => 2
  | .bgpAttrNextHop => 3
  | .bgpAttrMed => 4
  | .bgpAttrLocalPref => 5
  | .bgpAttrAtomicAggregate => 6
  | .bgpAttrAggregator => 7
  | .bgpAttrCommunities => 8
  | .bgpAttrOriginatorId => 9
  | .bgpAttrClusterList => 10
  | .bgpAttrMpReachNlri => 14
  | .bgpAttrMpUnreachNlri => 15
  | .bgpAttrExtendedCommunities => 16
  | .bgpAttrLinkState => 29
  | .bgpAttrLargeCommunities => 32

/-- The attribute a type byte stands for, if any. -/
def BgpAttrCode.ofCode (code : UInt8) : Option BgpAttrCode :=
  [bgpAttrOrigin, bgpAttrAsPath, bgpAttrNextHop, bgpAttrMed, bgpAttrLocalPref, bgpAttrAtomicAggregate,
    bgpAttrAggregator, bgpAttrCommunities, bgpAttrOriginatorId, bgpAttrClusterList, bgpAttrMpReachNlri,
    bgpAttrMpUnreachNlri, bgpAttrExtendedCommunities, bgpAttrLinkState, bgpAttrLargeCommunities].find?
      fun attr => attr.code == code

@[simp] theorem BgpAttrCode.ofCode_code (attr : BgpAttrCode) : ofCode attr.code = some attr := by
  cases attr <;> rfl

inductive BgpUpdateAfi.Name
  | afiIPv4
  | afiIPv6
  | afiLs
  deriving DecidableEq, Repr

instance : EnumTexts BgpUpdateAfi.Name where
  names := [.afiIPv4, .afiIPv6, .afiLs]
  code
    | .afiIPv4 => 1
    | .afiIPv6 => 2
    | .afiLs => 16388
  text
    | .afiIPv4 => "AFI_IPv4"
    | .afiIPv6 => "AFI_IPv6"
    | .afiLs => "AFI_LS"

abbrev BgpUpdateAfi := OpenEnum BgpUpdateAfi.Name

namespace BgpUpdateAfi

@[match_pattern] abbrev afiIPv4 : BgpUpdateAfi := .named .afiIPv4

@[match_pattern] abbrev afiIPv6 : BgpUpdateAfi := .named .afiIPv6

@[match_pattern] abbrev afiLs : BgpUpdateAfi := .named .afiLs

end BgpUpdateAfi

inductive BgpUpdateSafi.Name
  | safiUnicast
  | safiLabeledUnicast
  | safiLs
  deriving DecidableEq, Repr

instance : EnumTexts BgpUpdateSafi.Name where
  names := [.safiUnicast, .safiLabeledUnicast, .safiLs]
  code
    | .safiUnicast => 1
    | .safiLabeledUnicast => 4
    | .safiLs => 71
  text
    | .safiUnicast => "SAFI_UNICAST"
    | .safiLabeledUnicast => "SAFI_LABELED_UNICAST"
    | .safiLs => "SAFI_LS"

abbrev BgpUpdateSafi := OpenEnum BgpUpdateSafi.Name

namespace BgpUpdateSafi

@[match_pattern] abbrev safiUnicast : BgpUpdateSafi := .named .safiUnicast

@[match_pattern] abbrev safiLabeledUnicast : BgpUpdateSafi := .named .safiLabeledUnicast

@[match_pattern] abbrev safiLs : BgpUpdateSafi := .named .safiLs

end BgpUpdateSafi

inductive BgpAttrOrigin.Name
  | bgpOriginIgp
  | bgpOriginEgp
  | bgpOriginIncomplete
  deriving DecidableEq, Repr

instance : EnumNames BgpAttrOrigin.Name where
  names := [.bgpOriginIgp, .bgpOriginEgp, .bgpOriginIncomplete]
  code
    | .bgpOriginIgp => 0
    | .bgpOriginEgp => 1
    | .bgpOriginIncomplete => 2

abbrev BgpAttrOrigin := OpenEnum BgpAttrOrigin.Name

namespace BgpAttrOrigin

@[match_pattern] abbrev bgpOriginIgp : BgpAttrOrigin := .named .bgpOriginIgp

@[match_pattern] abbrev bgpOriginEgp : BgpAttrOrigin := .named .bgpOriginEgp

@[match_pattern] abbrev bgpOriginIncomplete : BgpAttrOrigin := .named .bgpOriginIncomplete

end BgpAttrOrigin

inductive BgpAddPathSendRec.Name
  | receive
  | send
  | both
  deriving DecidableEq, Repr

instance : EnumNames BgpAddPathSendRec.Name where
  names := [.receive, .send, .both]
  code
    | .receive => 1
    | .send => 2
    | .both => 3

abbrev BgpAddPathSendRec := OpenEnum BgpAddPathSendRec.Name

namespace BgpAddPathSendRec

@[match_pattern] abbrev receive : BgpAddPathSendRec := .named .receive

@[match_pattern] abbrev send : BgpAddPathSendRec := .named .send

@[match_pattern] abbrev both : BgpAddPathSendRec := .named .both

end BgpAddPathSendRec

inductive BgpRouteRefreshMessageSubtype.Name
  | routeRefreshRequest
  | beginningOfRouteRefresh
  | endOfRouteRefresh
  deriving DecidableEq, Repr

instance : EnumNames BgpRouteRefreshMessageSubtype.Name where
  names := [.routeRefreshRequest, .beginningOfRouteRefresh, .endOfRouteRefresh]
  code
    | .routeRefreshRequest => 0
    | .beginningOfRouteRefresh => 1
    | .endOfRouteRefresh => 2

abbrev BgpRouteRefreshMessageSubtype := OpenEnum BgpRouteRefreshMessageSubtype.Name

namespace BgpRouteRefreshMessageSubtype

@[match_pattern] abbrev routeRefreshRequest : BgpRouteRefreshMessageSubtype := .named .routeRefreshRequest

@[match_pattern] abbrev beginningOfRouteRefresh : BgpRouteRefreshMessageSubtype := .named .beginningOfRouteRefresh

@[match_pattern] abbrev endOfRouteRefresh : BgpRouteRefreshMessageSubtype := .named .endOfRouteRefresh

end BgpRouteRefreshMessageSubtype

/-- The bytes of an address in network order: none, four or sixteen where it is valid. -/
abbrev BinaryAddress := Bytes

structure IPPrefix where
  prefixAddress : BinaryAddress := []
  prefixLength : Int := 0
  deriving DecidableEq, Repr

structure RiggedIPPrefix where
  ipPrefix : IPPrefix := {}
  labels : List Int := []
  pathId : Option Int := none
  deriving DecidableEq, Repr

structure BgpNlri where
  afi : BgpUpdateAfi := .ofInt 0
  safi : BgpUpdateSafi := .ofInt 0
  prefixes : List RiggedIPPrefix := []
  nexthop : BinaryAddress := []
  deriving DecidableEq

structure BgpAttrAsPathSegment where
  asSet : Finset Int := ∅
  asSequence : List Int := []
  asConfedSequence : List Int := []
  asConfedSet : Finset Int := ∅
  deriving DecidableEq

/-- The AS numbers of a set in the order of the source's ordered sets. -/
abbrev sortedAsns (asns : Finset Int) : List Int := asns.sort

structure BgpAttrAggregator where
  asn : Int := 0
  ip : List Char := []
  deriving DecidableEq, Repr

structure BgpAttrCommunity where
  asn : Int := 0
  value : Int := 0
  deriving DecidableEq, Repr

structure BgpAttrExtCommunity where
  firstWord : Int := 0
  secondWord : Int := 0
  deriving DecidableEq, Repr

structure BgpAttrLargeCommunity where
  asn : Int := 0
  localData1 : Int := 0
  localData2 : Int := 0
  deriving DecidableEq, Repr

@[ext] structure BgpAttributes where
  origin : BgpAttrOrigin := .bgpOriginIgp
  asPath : List BgpAttrAsPathSegment := []
  nexthop : List Char := []
  med : Int := 0
  localPref : Option Int := none
  atomicAggregate : Bool := false
  aggregator : BgpAttrAggregator := {}
  communities : List BgpAttrCommunity := []
  originatorId : Int := 0
  clusterList : List Int := []
  extCommunities : List BgpAttrExtCommunity := []
  largeCommunities : List BgpAttrLargeCommunity := []
  isMedSet : Bool := false
  deriving DecidableEq

structure BgpUpdate2 where
  attrs : BgpAttributes := {}
  mpAnnounced : BgpNlri := {}
  mpWithdrawn : BgpNlri := {}
  v4Announced : List IPPrefix := []
  v4Withdrawn : List IPPrefix := []
  v4Nexthop : BinaryAddress := []
  v4Announced2 : List RiggedIPPrefix := []
  v4Withdrawn2 : List RiggedIPPrefix := []
  deriving DecidableEq

structure BgpEndOfRib where
  isMpEor : Bool
  afi : BgpUpdateAfi
  safi : BgpUpdateSafi
  deriving DecidableEq

structure BgpGrCapability where
  afi : BgpUpdateAfi
  safi : BgpUpdateSafi
  forwardingState : Bool
  deriving DecidableEq

structure BgpAddPathCapability where
  afi : BgpUpdateAfi
  safi : BgpUpdateSafi
  sor : BgpAddPathSendRec
  deriving DecidableEq

structure BgpExtNHEncodingCapability where
  nlriAfi : BgpUpdateAfi
  nlriSafi : BgpUpdateSafi
  nhAfi : BgpUpdateAfi
  deriving DecidableEq

structure BgpCapabilities where
  mpExtV4Unicast : Bool := false
  mpExtV6Unicast : Bool := false
  mpExtV4LU : Bool := false
  mpExtV6LU : Bool := false
  as4byte : Bool := false
  asn : Int := 0
  gracefulRestart : Bool := false
  isRestarting : Bool := false
  restartTime : Int := 0
  grCapabilities : List BgpGrCapability := []
  mpExtLs : Bool := false
  mpExtExist : Bool := false
  addPathCapabilities : List BgpAddPathCapability := []
  extNHEncodingCapabilities : List BgpExtNHEncodingCapability := []
  enhancedRouteRefresh : Bool := false
  routeRefresh : Bool := false
  grNotification : Bool := false
  deriving DecidableEq

structure BgpOpenMsg where
  version : Int := 0
  asn : Int := 0
  holdTime : Int := 0
  bgpID : Int := 0
  capabilities : BgpCapabilities := {}
  deriving DecidableEq

structure BgpRouteRefresh where
  afi : BgpUpdateAfi
  msgSubType : BgpRouteRefreshMessageSubtype
  safi : BgpUpdateSafi
  deriving DecidableEq

structure BgpMessageHeader where
  length : Nat
  type : UInt8
  deriving DecidableEq, Repr

inductive BgpNotifErrCode.Name
  | bnMsgHdrErr
  | bnOpenMsgErr
  | bnUpdateMsgErr
  | bnHoldTimerExpired
  | bnFsmError
  | bnCease
  | bnRouteRefreshMsgErr
  deriving DecidableEq, Repr

instance : EnumNames BgpNotifErrCode.Name where
  names := [.bnMsgHdrErr, .bnOpenMsgErr, .bnUpdateMsgErr, .bnHoldTimerExpired, .bnFsmError, .bnCease,
    .bnRouteRefreshMsgErr]
  code
    | .bnMsgHdrErr => 1
    | .bnOpenMsgErr => 2
    | .bnUpdateMsgErr => 3
    | .bnHoldTimerExpired => 4
    | .bnFsmError => 5
    | .bnCease => 6
    | .bnRouteRefreshMsgErr => 7

abbrev BgpNotifErrCode := OpenEnum BgpNotifErrCode.Name

inductive BgpNotifMsgHdrErrSubCode.Name
  | bnMhConnectionNotSynchronized
  | bnMhBadMsgLen
  | bnMhBadMsgType
  deriving DecidableEq, Repr

instance : EnumTexts BgpNotifMsgHdrErrSubCode.Name where
  names := [.bnMhConnectionNotSynchronized, .bnMhBadMsgLen, .bnMhBadMsgType]
  code
    | .bnMhConnectionNotSynchronized => 1
    | .bnMhBadMsgLen => 2
    | .bnMhBadMsgType => 3
  text
    | .bnMhConnectionNotSynchronized => "BN_MH_CONNECTION_NOT_SYNCHRONIZED"
    | .bnMhBadMsgLen => "BN_MH_BAD_MSG_LEN"
    | .bnMhBadMsgType => "BN_MH_BAD_MSG_TYPE"

abbrev BgpNotifMsgHdrErrSubCode := OpenEnum BgpNotifMsgHdrErrSubCode.Name

inductive BgpNotifOpenMsgErrSubCode.Name
  | bnOmUnspecific
  | bnOmUnsupportedVersionNumber
  | bnOmBadPeerAs
  | bnOmBagBgpIdentifier
  | bnOmUnsupportedOptionalParam
  | bnOmAuthenticationFailureDeprecated
  | bnOmUnacceptableHoldTime
  | bnOmUnsupportedCapability
  deriving DecidableEq, Repr

instance : EnumTexts BgpNotifOpenMsgErrSubCode.Name where
  names := [.bnOmUnspecific, .bnOmUnsupportedVersionNumber, .bnOmBadPeerAs, .bnOmBagBgpIdentifier,
    .bnOmUnsupportedOptionalParam, .bnOmAuthenticationFailureDeprecated, .bnOmUnacceptableHoldTime,
    .bnOmUnsupportedCapability]
  code
    | .bnOmUnspecific => 0
    | .bnOmUnsupportedVersionNumber => 1
    | .bnOmBadPeerAs => 2
    | .bnOmBagBgpIdentifier => 3
    | .bnOmUnsupportedOptionalParam => 4
    | .bnOmAuthenticationFailureDeprecated => 5
    | .bnOmUnacceptableHoldTime => 6
    | .bnOmUnsupportedCapability => 7
  text
    | .bnOmUnspecific => "BN_OM_UNSPECIFIC"
    | .bnOmUnsupportedVersionNumber => "BN_OM_UNSUPPORTED_VERSION_NUMBER"
    | .bnOmBadPeerAs => "BN_OM_BAD_PEER_AS"
    | .bnOmBagBgpIdentifier => "BN_OM_BAG_BGP_IDENTIFIER"
    | .bnOmUnsupportedOptionalParam => "BN_OM_UNSUPPORTED_OPTIONAL_PARAM"
    | .bnOmAuthenticationFailureDeprecated => "BN_OM_AUTHENTICATION_FAILURE_DEPRECATED"
    | .bnOmUnacceptableHoldTime => "BN_OM_UNACCEPTABLE_HOLD_TIME"
    | .bnOmUnsupportedCapability => "BN_OM_UNSUPPORTED_CAPABILITY"

abbrev BgpNotifOpenMsgErrSubCode := OpenEnum BgpNotifOpenMsgErrSubCode.Name

inductive BgpNotifUpdateMsgErrSubCode.Name
  | bnUmUnspecific
  | bnUmMalformedAttributeList
  | bnUmUnrecognizedWellKnownAttr
  | bnUmMissingWellKnownAttr
  | bnUmAttrFlagsErr
  | bnUmAttrLenErr
  | bnUmInvalidOriginAttr
  | bnUmDeprecated
  | bnUmInvalidNextHopAttr
  | bnUmOptionalAttrError
  | bnUmInvalidNetworkField
  | bnUmMalformedAsPath
  deriving DecidableEq, Repr

instance : EnumTexts BgpNotifUpdateMsgErrSubCode.Name where
  names := [.bnUmUnspecific, .bnUmMalformedAttributeList, .bnUmUnrecognizedWellKnownAttr,
    .bnUmMissingWellKnownAttr, .bnUmAttrFlagsErr, .bnUmAttrLenErr, .bnUmInvalidOriginAttr, .bnUmDeprecated,
    .bnUmInvalidNextHopAttr, .bnUmOptionalAttrError, .bnUmInvalidNetworkField, .bnUmMalformedAsPath]
  code
    | .bnUmUnspecific => 0
    | .bnUmMalformedAttributeList => 1
    | .bnUmUnrecognizedWellKnownAttr => 2
    | .bnUmMissingWellKnownAttr => 3
    | .bnUmAttrFlagsErr => 4
    | .bnUmAttrLenErr => 5
    | .bnUmInvalidOriginAttr => 6
    | .bnUmDeprecated => 7
    | .bnUmInvalidNextHopAttr => 8
    | .bnUmOptionalAttrError => 9
    | .bnUmInvalidNetworkField => 10
    | .bnUmMalformedAsPath => 11
  text
    | .bnUmUnspecific => "BN_UM_UNSPECIFIC"
    | .bnUmMalformedAttributeList => "BN_UM_MALFORMED_ATTRIBUTE_LIST"
    | .bnUmUnrecognizedWellKnownAttr => "BN_UM_UNRECOGNIZED_WELL_KNOWN_ATTR"
    | .bnUmMissingWellKnownAttr => "BN_UM_MISSING_WELL_KNOWN_ATTR"
    | .bnUmAttrFlagsErr => "BN_UM_ATTR_FLAGS_ERR"
    | .bnUmAttrLenErr => "BN_UM_ATTR_LEN_ERR"
    | .bnUmInvalidOriginAttr => "BN_UM_INVALID_ORIGIN_ATTR"
    | .bnUmDeprecated => "BN_UM_DEPRECATED"
    | .bnUmInvalidNextHopAttr => "BN_UM_INVALID_NEXT_HOP_ATTR"
    | .bnUmOptionalAttrError => "BN_UM_OPTIONAL_ATTR_ERROR"
    | .bnUmInvalidNetworkField => "BN_UM_INVALID_NETWORK_FIELD"
    | .bnUmMalformedAsPath => "BN_UM_MALFORMED_AS_PATH"

abbrev BgpNotifUpdateMsgErrSubCode := OpenEnum BgpNotifUpdateMsgErrSubCode.Name

inductive BgpNotifCeaseErrSubCode.Name
  | bnCeaseMaxPrefixLimit
  | bnCeaseAdminShutdown
  | bnCeasePeerDeConfigured
  | bnCeaseAdminReset
  | bnCeaseConnRejected
  | bnCeaseConfigChange
  | bnCeaseConnCollisionRes
  | bnCeaseOutOfResources
  | bnCeaseHardReset
  deriving DecidableEq, Repr

instance : EnumTexts BgpNotifCeaseErrSubCode.Name where
  names := [.bnCeaseMaxPrefixLimit, .bnCeaseAdminShutdown, .bnCeasePeerDeConfigured, .bnCeaseAdminReset,
    .bnCeaseConnRejected, .bnCeaseConfigChange, .bnCeaseConnCollisionRes, .bnCeaseOutOfResources,
    .bnCeaseHardReset]
  code
    | .bnCeaseMaxPrefixLimit => 1
    | .bnCeaseAdminShutdown => 2
    | .bnCeasePeerDeConfigured => 3
    | .bnCeaseAdminReset => 4
    | .bnCeaseConnRejected => 5
    | .bnCeaseConfigChange => 6
    | .bnCeaseConnCollisionRes => 7
    | .bnCeaseOutOfResources => 8
    | .bnCeaseHardReset => 9
  text
    | .bnCeaseMaxPrefixLimit => "BN_CEASE_MAX_PREFIX_LIMIT"
    | .bnCeaseAdminShutdown => "BN_CEASE_ADMIN_SHUTDOWN"
    | .bnCeasePeerDeConfigured => "BN_CEASE_PEER_DE_CONFIGURED"
    | .bnCeaseAdminReset => "BN_CEASE_ADMIN_RESET"
    | .bnCeaseConnRejected => "BN_CEASE_CONN_REJECTED"
    | .bnCeaseConfigChange => "BN_CEASE_CONFIG_CHANGE"
    | .bnCeaseConnCollisionRes => "BN_CEASE_CONN_COLLISION_RES"
    | .bnCeaseOutOfResources => "BN_CEASE_OUT_OF_RESOURCES"
    | .bnCeaseHardReset => "BN_CEASE_HARD_RESET"

abbrev BgpNotifCeaseErrSubCode := OpenEnum BgpNotifCeaseErrSubCode.Name

inductive BgpNotificationRouteRefreshErrSubCode.Name
  | bnInvalidMsgLen
  deriving DecidableEq, Repr

instance : EnumTexts BgpNotificationRouteRefreshErrSubCode.Name where
  names := [.bnInvalidMsgLen]
  code
    | .bnInvalidMsgLen => 1
  text
    | .bnInvalidMsgLen => "BN_INVALID_MSG_LEN"
  mem_names name := by cases name; simp
  code_injective a b _ := by cases a; cases b; rfl

abbrev BgpNotificationRouteRefreshErrSubCode := OpenEnum BgpNotificationRouteRefreshErrSubCode.Name

structure BgpNotification where
  errCode : BgpNotifErrCode
  errSubCode : Int
  errSubCodeStr : String
  data : Bytes
  deriving DecidableEq

inductive BgpSerializerExceptionCode
  | afiMismatch
  | exceededMaxSize
  | missingNlriInfo
  | unknownBgpUpdateType
  | invalidAspathInfo
  | invalidNlriLabelInfo
  | pathidPathNotMatch
  | versionError
  | extNhEncodingNotSupportted
  deriving DecidableEq, Repr

/-- An argument of a formatted text. -/
inductive FmtArg
  | num (value : Int)
  | bool (value : Bool)
  | str (value : String)
  | network (addr : Bytes) (length : Nat)
  | hexDump (bytes : Bytes)
  deriving DecidableEq, Repr

/-- The text of an exception: a format and its arguments. -/
structure What where
  format : String
  args : List FmtArg := []
  deriving DecidableEq, Repr

inductive Exception
  | bgpException (what : What)
  | bgpHeaderException (subcode : BgpNotifMsgHdrErrSubCode.Name) (data : Bytes) (what : What)
  | bgpOpenMsgException (subcode : BgpNotifOpenMsgErrSubCode.Name) (data : Bytes) (what : What)
  | bgpUpdateMsgException (subcode : BgpNotifUpdateMsgErrSubCode.Name) (data : Bytes) (what : What)
  | bgpRouteRefreshMsgException (subcode : BgpNotificationRouteRefreshErrSubCode.Name) (data : Bytes) (what : What)
  | bgpFsmException (what : What)
  | bgpSerializerException (code : BgpSerializerExceptionCode) (what : What)
  | outOfRange (what : String)
  | ipAddressException
  deriving DecidableEq

/-- What a cursor throws when it is read past its end. -/
def underflow : Exception := .outOfRange "underflow"

/-- What a cursor throws when it is written past its end. -/
def overflow : Exception := .outOfRange "overflow"

variable {α : Type}

/-- `try { .. } catch (std::out_of_range const& err) { throw .. }`. -/
def catchOutOfRange (handler : String → Exception) : Except Exception α → Except Exception α
  | .error (.outOfRange what) => .error (handler what)
  | result => result

open Outcome Reader

/-- An exception of the given kind, or a read past the end. -/
def OrRange (P : Exception → Prop) (e : Exception) : Prop := P e ∨ e = underflow

variable {P : Exception → Prop} {Q : α → Prop} {x : Except Exception α}

theorem OrRange.of {e : Exception} (h : P e) : OrRange P e := .inl h

theorem ensures_read_bind {k : Nat} {cursor : Bytes} {f : Nat × Bytes → Except Exception α}
    (hf : ∀ n, k ≤ cursor.length → Ensures Q (OrRange P) (f (n, cursor.drop k))) :
    Ensures Q (OrRange P) (readBE underflow k cursor >>= f) :=
  ensures_readBE_bind (.inr rfl) hf

theorem catchOutOfRange_ensures {handler : String → Exception}
    (hhandler : ∀ what, P (handler what)) (hx : Ensures Q (OrRange P) x) :
    Ensures Q P (catchOutOfRange handler x) := by
  cases x with
  | ok a => exact hx
  | error e =>
    cases e with
    | outOfRange what => exact hhandler what
    | _ => exact hx.resolve_right nofun

theorem catchOutOfRange_of_ensures
    (hx : Ensures Q P x) (hP : ∀ what, ¬P (.outOfRange what)) (handler : String → Exception) :
    catchOutOfRange handler x = x := by
  cases x with
  | ok a => rfl
  | error e =>
    cases e with
    | outOfRange what => exact absurd hx (hP what)
    | _ => rfl

theorem untilEmpty_ensures {σ : Type} {body : σ → Bytes → Except Exception (σ × Bytes)}
    (hbody : ConsumesOr body P) (s : σ) (cursor : Bytes) : FailsOnly P (untilEmpty body s cursor) :=
  ensures_untilEmpty (fun s b bytes _ => (hbody s (b :: bytes)).mono (fun _ _ => trivial) fun _ h => h) trivial cursor

end FbossBgp.BgpLib
