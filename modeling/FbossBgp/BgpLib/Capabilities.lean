import FbossBgp.BgpLib.Structs

/-! The capabilities of an OPEN message: parsing them, and negotiating those of a session. -/

namespace FbossBgp.BgpLib

open Bytes Outcome Reader List

def openUnspecific (what : What) : Exception := .bgpOpenMsgException .bnOmUnspecific [] what

def unknownFamily (afi safi : Nat) : Exception :=
  openUnspecific ⟨"Unknown afi-{}, safi-{}.", [.num afi, .num safi]⟩

/-- One turn of the loop over the families of a graceful restart capability. -/
def readGrCapability (grCapabilities : List BgpGrCapability) (cursor : Bytes) :
    Except Exception (List BgpGrCapability × Bytes) := do
  let (afi, cursor) ← readBE underflow 2 cursor
  let (safi, cursor) ← readBE underflow 1 cursor
  if (OpenEnum.ofInt afi : BgpUpdateAfi).isNamed = false ∨ (OpenEnum.ofInt safi : BgpUpdateSafi).isNamed = false then
    throw (unknownFamily afi safi)
  let (flags, cursor) ← readBE underflow 1 cursor
  return (grCapabilities ++ [⟨.ofInt afi, .ofInt safi, decide (flags / 2 ^ 7 ≠ 0)⟩], cursor)

/-- One turn of the loop over the entries of an add-path capability: an unknown mode is skipped. -/
def readAddPathCapability (addPathCapabilities : List BgpAddPathCapability) (cursor : Bytes) :
    Except Exception (List BgpAddPathCapability × Bytes) := do
  let (afi, cursor) ← readBE underflow 2 cursor
  let (safi, cursor) ← readBE underflow 1 cursor
  let (sor, cursor) ← readBE underflow 1 cursor
  if (OpenEnum.ofInt sor : BgpAddPathSendRec).isNamed = false then return (addPathCapabilities, cursor)
  if (OpenEnum.ofInt afi : BgpUpdateAfi).isNamed = false ∨ (OpenEnum.ofInt safi : BgpUpdateSafi).isNamed = false then
    throw (unknownFamily afi safi)
  return (addPathCapabilities ++ [⟨.ofInt afi, .ofInt safi, .ofInt sor⟩], cursor)

/-- One turn of the loop over the entries of an extended next hop capability: only v4 prefixes with a v6
next hop are kept. -/
def readExtNHEncodingCapability (extNHEncodingCapabilities : List BgpExtNHEncodingCapability) (cursor : Bytes) :
    Except Exception (List BgpExtNHEncodingCapability × Bytes) := do
  let (nlriAfi, cursor) ← readBE underflow 2 cursor
  let (nlriSafi, cursor) ← readBE underflow 2 cursor
  let (nhAfi, cursor) ← readBE underflow 2 cursor
  if OpenEnum.ofInt nlriAfi ≠ BgpUpdateAfi.afiIPv4 then return (extNHEncodingCapabilities, cursor)
  if (OpenEnum.ofInt nlriSafi : BgpUpdateSafi).isNamed = false then return (extNHEncodingCapabilities, cursor)
  if OpenEnum.ofInt nhAfi ≠ BgpUpdateAfi.afiIPv6 then return (extNHEncodingCapabilities, cursor)
  return (extNHEncodingCapabilities ++ [⟨.ofInt nlriAfi, .ofInt nlriSafi, .ofInt nhAfi⟩], cursor)

def unknownSafi (safi : Nat) : Exception := openUnspecific ⟨"Unknown safi value: {}.", [.num safi]⟩

variable (capa : BgpCapabilities) (cLen : Nat) (cursor : Bytes)

def parseMpExt : Except Exception BgpCapabilities := do
  if cLen ≠ 4 then
    throw (openUnspecific ⟨"Unexpected length of MP-Extension capability. expected 4, received: {}", [.num cLen]⟩)
  let (afi, cursor) ← readBE underflow 2 cursor
  let (_, cursor) ← pull underflow 1 cursor
  let (safi, _) ← readBE underflow 1 cursor
  if (afi : Int) = BgpUpdateAfi.afiIPv4.toInt then
    if (safi : Int) = BgpUpdateSafi.safiUnicast.toInt then
      return { capa with mpExtV4Unicast := true, mpExtExist := true }
    else if (safi : Int) = BgpUpdateSafi.safiLabeledUnicast.toInt then
      return { capa with mpExtV4LU := true, mpExtExist := true }
    else throw (unknownSafi safi)
  else if (afi : Int) = BgpUpdateAfi.afiIPv6.toInt then
    if (safi : Int) = BgpUpdateSafi.safiUnicast.toInt then
      return { capa with mpExtV6Unicast := true, mpExtExist := true }
    else if (safi : Int) = BgpUpdateSafi.safiLabeledUnicast.toInt then
      return { capa with mpExtV6LU := true, mpExtExist := true }
    else throw (unknownSafi safi)
  else throw (openUnspecific ⟨"Unknown afi value: {}.", [.num afi]⟩)

def parseAs4Byte : Except Exception BgpCapabilities := do
  if cLen ≠ 4 then
    throw (openUnspecific ⟨"Unexpected length of 4-octet ASN capability. expected 4, received: {}", [.num cLen]⟩)
  let (asn, _) ← readBE underflow 4 cursor
  return { capa with as4byte := true, asn := asn }

def parseGr : Except Exception BgpCapabilities := do
  if cLen % 4 < 2 then
    throw (openUnspecific ⟨"Unexpected length of BGP graceful restart capability.", []⟩)
  let (value, cursor) ← readBE underflow 2 cursor
  let grCapabilities ← untilEmpty readGrCapability [] cursor
  return { capa with
    gracefulRestart := true
    isRestarting := decide (value &&& kGrRestartStateBit ≠ 0)
    grNotification := decide (value &&& kGrNotificationBit ≠ 0)
    restartTime := ↑(value &&& kGrRestartTimeMask)
    grCapabilities := grCapabilities }

def parseAddPath : Except Exception BgpCapabilities := do
  if cLen % 4 ≠ 0 then throw (openUnspecific ⟨"Unexpected length of BGP add path capability.", []⟩)
  let addPathCapabilities ← untilEmpty readAddPathCapability [] cursor
  return { capa with addPathCapabilities := addPathCapabilities }

def parseExtNHEncoding : Except Exception BgpCapabilities := do
  if cLen % 6 ≠ 0 then
    throw (openUnspecific ⟨"Unexpected length of BGP Extended Next Hop Encoding Capability.", []⟩)
  let extNHEncodingCapabilities ← untilEmpty readExtNHEncodingCapability [] cursor
  return { capa with extNHEncodingCapabilities := extNHEncodingCapabilities }

/-- A capability whose length must be zero. -/
def parseFlag (tooLong : String) (cLen : Nat) (capa : BgpCapabilities) : Except Exception BgpCapabilities :=
  if cLen ≠ 0 then .error (openUnspecific ⟨tooLong, [.num cLen]⟩) else .ok capa

inductive BgpCapability
  | capaMpExt
  | capaRouteRefresh
  | capaExtNhEncoding
  | capaGr
  | capaAs4Byte
  | capaAddPath
  | capaEnhancedRouteRefresh
  deriving DecidableEq, Repr

def BgpCapability.code : BgpCapability → Nat
  | .capaMpExt => 1
  | .capaRouteRefresh => 2
  | .capaExtNhEncoding => 5
  | .capaGr => 64
  | .capaAs4Byte => 65
  | .capaAddPath => 69
  | .capaEnhancedRouteRefresh => 70

def BgpCapability.ofCode (code : Nat) : Option BgpCapability :=
  [capaMpExt, capaRouteRefresh, capaExtNhEncoding, capaGr, capaAs4Byte, capaAddPath, capaEnhancedRouteRefresh].find?
    fun capability => capability.code == code

/-- The `switch` on the code of a capability: an unknown one is skipped. -/
def parseCapabilityBody (cCode cLen : Nat) (cursor : Bytes) : Except Exception BgpCapabilities :=
  match BgpCapability.ofCode cCode with
  | some .capaMpExt => parseMpExt capa cLen cursor
  | some .capaAs4Byte => parseAs4Byte capa cLen cursor
  | some .capaGr => parseGr capa cLen cursor
  | some .capaAddPath => parseAddPath capa cLen cursor
  | some .capaExtNhEncoding => parseExtNHEncoding capa cLen cursor
  | some .capaRouteRefresh =>
    parseFlag "RFC 2918 Route Refresh capability must have length 0, got {}" cLen { capa with routeRefresh := true }
  | some .capaEnhancedRouteRefresh =>
    parseFlag "RFC 7313 Enhanced Route Refresh capability must have length 0, got {}" cLen
      { capa with enhancedRouteRefresh := true }
  | none => .ok capa

/-- One capability, inside the `try` block. -/
def parseCapabilityItem : Except Exception (BgpCapabilities × Bytes) := do
  let (cCode, cursor) ← readBE underflow 1 cursor
  let (cLen, cursor) ← readBE underflow 1 cursor
  if cLen > cursor.length then
    throw (openUnspecific
      ⟨"The length of capability exceeds the remaining message length. Remaining message length: {}, " ++
        "capability length: {}", [.num cursor.length, .num cLen]⟩)
  let (subCursor, cursor) ← pull underflow cLen cursor
  let capa ← parseCapabilityBody capa cCode cLen subCursor
  return (capa, cursor)

/-- One turn of the loop of `parseBgpCapabilities`. -/
def parseCapability : Except Exception (BgpCapabilities × Bytes) :=
  catchOutOfRange (fun what => openUnspecific
    ⟨"out_of_range exception happened when parsing bgp capabilities: {}", [.str what]⟩)
    (parseCapabilityItem capa cursor)

def parseBgpCapabilities (capa : BgpCapabilities) : Except Exception BgpCapabilities :=
  untilEmpty parseCapability capa cursor

/-- The text for optional parameters that do not fit what is left of the buffer. -/
def optParamsTooLong : String := "Incomplete BgpOpenMessage. OptParam length {} but cursor has only {} left"

/-- An exception about one of the optional parameters of an OPEN message. -/
def IsOpenParamException : Exception → Prop
  | .bgpOpenMsgException _ _ what => what.format ≠ optParamsTooLong
  | _ => False

abbrev OpenOrRange : Exception → Prop := OrRange IsOpenParamException

theorem isOpenParamException {what : What} (h : what.format ≠ optParamsTooLong := by simp [optParamsTooLong]) :
    IsOpenParamException (openUnspecific what) :=
  h

theorem readGrCapability_ensures : ConsumesOr readGrCapability OpenOrRange := by
  intro grCapabilities cursor
  refine ensures_read_bind fun afi hread₁ => ?_
  refine ensures_read_bind fun safi hread₂ => ?_
  refine ensures_ite (fun _ => .inl isOpenParamException) fun _ => ?_
  refine ensures_read_bind fun flags hread₃ => ?_
  rw [ensures_pure, length_drop, length_drop, length_drop]
  omega

theorem readAddPathCapability_ensures : ConsumesOr readAddPathCapability OpenOrRange := by
  intro addPathCapabilities cursor
  refine ensures_read_bind fun afi hread₁ => ?_
  refine ensures_read_bind fun safi hread₂ => ?_
  refine ensures_read_bind fun sor hread₃ => ?_
  have hless : (((cursor.drop 2).drop 1).drop 1).length < cursor.length := by
    rw [length_drop, length_drop, length_drop]
    omega
  exact ensures_ite (fun _ => hless) fun _ => ensures_ite (fun _ => .inl isOpenParamException) fun _ => hless

theorem readExtNHEncodingCapability_ensures : ConsumesOr readExtNHEncodingCapability OpenOrRange := by
  intro extNHEncodingCapabilities cursor
  refine ensures_read_bind fun nlriAfi hread₁ => ?_
  refine ensures_read_bind fun nlriSafi hread₂ => ?_
  refine ensures_read_bind fun nhAfi hread₃ => ?_
  have hless : (((cursor.drop 2).drop 2).drop 2).length < cursor.length := by
    rw [length_drop, length_drop, length_drop]
    omega
  exact ensures_ite (fun _ => hless) fun _ => ensures_ite (fun _ => hless) fun _ =>
    ensures_ite (fun _ => hless) fun _ => hless

theorem parseMpExt_ensures (capa : BgpCapabilities) (cLen : Nat) (cursor : Bytes) :
    FailsOnly OpenOrRange (parseMpExt capa cLen cursor) := by
  refine ensures_ite (fun _ => .inl isOpenParamException) fun _ => ?_
  refine ensures_read_bind fun next₁ _ => ?_
  refine (ensures_pull fun _ => .inr rfl).bind fun next₂ _ => ?_
  refine ensures_read_bind fun next₃ _ => ?_
  refine ensures_ite (fun _ => ?_) fun _ => ensures_ite (fun _ => ?_) fun _ => .inl isOpenParamException
  · exact ensures_ite (fun _ => trivial) fun _ => ensures_ite (fun _ => trivial) fun _ => .inl isOpenParamException
  · exact ensures_ite (fun _ => trivial) fun _ => ensures_ite (fun _ => trivial) fun _ => .inl isOpenParamException

theorem parseCapabilityBody_ensures (capa : BgpCapabilities) (cCode cLen : Nat) (cursor : Bytes) :
    FailsOnly OpenOrRange (parseCapabilityBody capa cCode cLen cursor) := by
  rw [parseCapabilityBody]
  split
  · exact parseMpExt_ensures capa cLen cursor
  · refine ensures_ite (fun _ => .inl isOpenParamException) fun _ => ?_
    exact ensures_read_bind fun _ _ => trivial
  · refine ensures_ite (fun _ => .inl isOpenParamException) fun _ => ?_
    refine ensures_read_bind fun next _ => ?_
    exact (untilEmpty_ensures readGrCapability_ensures _ _).bind fun _ _ => trivial
  · refine ensures_ite (fun _ => .inl isOpenParamException) fun _ => ?_
    exact (untilEmpty_ensures readAddPathCapability_ensures _ _).bind fun _ _ => trivial
  · refine ensures_ite (fun _ => .inl isOpenParamException) fun _ => ?_
    exact (untilEmpty_ensures readExtNHEncodingCapability_ensures _ _).bind fun _ _ => trivial
  · exact ensures_ite (fun _ => .inl isOpenParamException) fun _ => trivial
  · exact ensures_ite (fun _ => .inl isOpenParamException) fun _ => trivial
  · trivial

theorem parseCapability_ensures : ConsumesOr parseCapability IsOpenParamException := by
  intro capa cursor
  refine catchOutOfRange_ensures (fun _ => isOpenParamException) ?_
  refine ensures_read_bind fun cCode hread₁ => ?_
  refine ensures_read_bind fun cLen hread₂ => ?_
  refine ensures_ite (fun _ => .inl isOpenParamException) fun _ => ?_
  refine (ensures_pull fun _ => .inr rfl).bind ?_
  rintro ⟨subCursor, cursor₃⟩ ⟨-, rfl, -⟩
  refine (parseCapabilityBody_ensures capa cCode cLen subCursor).bind fun _ _ => ?_
  rw [ensures_pure, length_drop, length_drop, length_drop]
  omega

theorem parseCapability_consumes : Consumes parseCapability := parseCapability_ensures.consumes

/-- What one of our entries and the peer's first entry for the same family agree on. -/
def negotiateAddPath (myCapa peerCapa : BgpAddPathCapability) : Option BgpAddPathCapability :=
  match peerCapa.sor with
  | .both => some myCapa
  | .send =>
    if myCapa.sor = .receive ∨ myCapa.sor = .both then some { myCapa with sor := .receive } else none
  | .receive =>
    if myCapa.sor = .send ∨ myCapa.sor = .both then some { myCapa with sor := .send } else none
  | .unnamed _ _ => none

def negotiateBgpAddPathCapabilities (myCapas peerCapas : List BgpAddPathCapability) : List BgpAddPathCapability :=
  myCapas.filterMap fun myCapa =>
    (peerCapas.find? fun peerCapa => decide (myCapa.afi = peerCapa.afi ∧ myCapa.safi = peerCapa.safi)).bind
      (negotiateAddPath myCapa)

/-- The order of the entries, field by field. -/
def BgpExtNHEncodingCapability.less (a b : BgpExtNHEncodingCapability) : Bool :=
  decide (a.nlriAfi.toInt < b.nlriAfi.toInt ∨ a.nlriAfi.toInt = b.nlriAfi.toInt ∧
    (a.nlriSafi.toInt < b.nlriSafi.toInt ∨ a.nlriSafi.toInt = b.nlriSafi.toInt ∧ a.nhAfi.toInt < b.nhAfi.toInt))

/-- `std::set_intersection` of two sorted lists. -/
def setIntersection : List BgpExtNHEncodingCapability → List BgpExtNHEncodingCapability →
    List BgpExtNHEncodingCapability
  | [], _ => []
  | _ :: _, [] => []
  | a :: as, b :: bs =>
    if a.less b then setIntersection as (b :: bs)
    else if b.less a then setIntersection (a :: as) bs
    else a :: setIntersection as bs
termination_by as bs => as.length + bs.length

def negotiateExtNHEncodingCapabilities (myC peerC : List BgpExtNHEncodingCapability) :
    List BgpExtNHEncodingCapability :=
  setIntersection (myC.mergeSort fun a b => !b.less a) (peerC.mergeSort fun a b => !b.less a)

/-- Our capabilities, restricted to what the peer sent; a peer without any multiprotocol capability is
taken to support v4. -/
def negotiateCapabilities (myCapa peerCapa : BgpCapabilities) : BgpCapabilities :=
  { myCapa with
    mpExtV4Unicast := myCapa.mpExtV4Unicast && (peerCapa.mpExtV4Unicast || !peerCapa.mpExtExist)
    mpExtV6Unicast := myCapa.mpExtV6Unicast && peerCapa.mpExtV6Unicast
    mpExtV4LU := myCapa.mpExtV4LU && peerCapa.mpExtV4LU
    mpExtV6LU := myCapa.mpExtV6LU && peerCapa.mpExtV6LU
    mpExtLs := myCapa.mpExtLs && peerCapa.mpExtLs
    as4byte := myCapa.as4byte && peerCapa.as4byte
    gracefulRestart := myCapa.gracefulRestart && peerCapa.gracefulRestart
    isRestarting := peerCapa.isRestarting
    grNotification := myCapa.grNotification && peerCapa.grNotification
    extNHEncodingCapabilities :=
      negotiateExtNHEncodingCapabilities myCapa.extNHEncodingCapabilities peerCapa.extNHEncodingCapabilities
    routeRefresh := myCapa.routeRefresh && peerCapa.routeRefresh
    enhancedRouteRefresh := myCapa.enhancedRouteRefresh && peerCapa.enhancedRouteRefresh
    addPathCapabilities := negotiateBgpAddPathCapabilities myCapa.addPathCapabilities peerCapa.addPathCapabilities }

end FbossBgp.BgpLib
