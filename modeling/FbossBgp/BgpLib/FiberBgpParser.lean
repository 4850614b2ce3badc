import FbossBgp.BgpLib.Capabilities
import FbossBgp.BgpLib.PathAttributes
import FbossBgp.Lib.Chunks

/-! The parser of a session: one message at the front of a buffer and the callback that is told about it, buffers as
they come from the socket, messages and errors as they are pushed to the receive queue. -/

namespace FbossBgp.BgpLib

open Bytes Outcome Reader Chunks

section

def badMsgLen (length : Nat) (what : What) : Exception := .bgpHeaderException .bnMhBadMsgLen (toBE 2 length) what

variable (cursor : Bytes) (msgType : Option BgpMessageType)

/-- The header at the front of the buffer. -/
def parseBgpMsgHdr : Except Exception BgpMessageHeader := do
  if cursor.length < kBgpMsgHeaderLen then
    throw (badMsgLen cursor.length ⟨"Invalid BGP message size: {}", [.num cursor.length]⟩)
  let (marker, cursor) ← pull underflow 16 cursor
  if kBgpMarker ≠ marker then
    throw (.bgpHeaderException .bnMhConnectionNotSynchronized [] ⟨"Synchronization error", []⟩)
  let (length, cursor) ← readBE underflow 2 cursor
  let (type, _) ← readBE underflow 1 cursor
  if length < kBgpMsgHeaderLen ∨ length > kMaxBgpMsgLen then
    throw (badMsgLen length ⟨"Invalid BGP header length: {}", [.num length]⟩)
  match msgType with
  | some expected =>
    if type ≠ expected.code.toNat then
      throw (.bgpHeaderException .bnMhBadMsgType [UInt8.ofNat type]
        ⟨"Unexpected message type: {}, expected: {}", [.num type, .num expected.code.toNat]⟩)
    else return ⟨length, UInt8.ofNat type⟩
  | none => return ⟨length, UInt8.ofNat type⟩

/-- The header and what follows it; the whole message is in the buffer. -/
def consumeBgpMsgHdr :
    Except Exception (BgpMessageHeader × Bytes) := do
  let hdr ← parseBgpMsgHdr cursor msgType
  let (_, rest) ← pull underflow kBgpMsgHeaderLen cursor
  if hdr.length > cursor.length then
    throw (badMsgLen hdr.length ⟨"Invalid BGP header length: {} (have: {})", [.num hdr.length, .num cursor.length]⟩)
  return (hdr, rest)

/-- One turn of the loop over the optional parameters. `cursorLen` is what the buffer holds from the
parameters on. -/
def parseOpenParam (cursorLen : Nat) (capa : BgpCapabilities) (paramCursor : Bytes) :
    Except Exception (BgpCapabilities × Bytes) := do
  if paramCursor.length < 2 then
    throw (openUnspecific ⟨"Optional Capability Parameter, expected >= 2, cursor has only {} left", [.num cursorLen]⟩)
  let (pType, paramCursor) ← readBE underflow 1 paramCursor
  let (pLen, paramCursor) ← readBE underflow 1 paramCursor
  if pLen > paramCursor.length then
    throw (openUnspecific
      ⟨"The length of parameter exceeds the remaining message length. Remaining message length: {}, " ++
        "parameter length: {}", [.num paramCursor.length, .num pLen]⟩)
  let (subCursor, paramCursor) ← pull underflow pLen paramCursor
  let capa ← catchOutOfRange (fun _ => .bgpUpdateMsgException .bnUmMalformedAttributeList []
    ⟨"The length of parameter exceeds the remaining message length. Remaining message length: {}, " ++
      "parameter length: {}", [.num subCursor.length, .num pLen]⟩)
    (if pType = 2 then parseBgpCapabilities subCursor capa
    else throw (.bgpOpenMsgException .bnOmUnsupportedOptionalParam [UInt8.ofNat pType]
      ⟨"Unknown open msg param type-{}", [.num pType]⟩))
  return (capa, paramCursor)

/-- What follows the header of an OPEN message. -/
def parseOpenBody : Except Exception BgpOpenMsg := do
  let (version, cursor) ← readBE underflow 1 cursor
  if version ≠ kBgpVersion.toNat then
    throw (.bgpOpenMsgException .bnOmUnsupportedVersionNumber [kBgpVersion]
      ⟨"Only BGP version-4 is supported. Got version-{}.", [.num ((version : Int).bmod (2 ^ 8))]⟩)
  let (asn, cursor) ← readBE underflow 2 cursor
  let (holdTime, cursor) ← readBE underflow 2 cursor
  if holdTime ≠ 0 ∧ holdTime < 3 then
    throw (.bgpOpenMsgException .bnOmUnacceptableHoldTime []
      ⟨"Hold time must be 0 or at least 3 seconds. Received {}s", [.num holdTime]⟩)
  let (bgpID, cursor) ← readBE underflow 4 cursor
  let (paramsLen, cursor) ← readBE underflow 1 cursor
  if paramsLen > cursor.length then
    throw (openUnspecific ⟨"Incomplete BgpOpenMessage. OptParam length {} but cursor has only {} left",
        [.num paramsLen, .num cursor.length]⟩)
  let capabilities ← untilEmpty (parseOpenParam cursor.length) {} (cursor.take paramsLen)
  return ⟨version, asn, holdTime, bgpID, capabilities⟩

variable (buf : Bytes) (capabilities : Option BgpCapabilities)

def parseBgpOpenMsgRaw : Except Exception BgpOpenMsg := do
  let (hdr, cursor) ← consumeBgpMsgHdr buf (some .bgpMsgTypeOpen)
  if hdr.length < kBgpMsgHeaderLen + 10 then
    throw (badMsgLen hdr.length ⟨"Incomplete BgpOpenMessage. Minimum length of BgpOpenMessage must be 29. Got {} ({}).",
        [.num hdr.length, .num buf.length]⟩)
  parseOpenBody cursor

/-- A subcode up to a limit, and its name; zero has none. -/
def checkSubCode (limit : Nat) (unknown : String) (name : Int → String) (code subCode : Nat) :
    Except Exception String :=
  if subCode > limit then .error (.bgpException ⟨unknown, [.num code, .num subCode]⟩)
  else if subCode > 0 then .ok (name subCode)
  else .ok "NA"

def notifSubCodeStr (code subCode : Nat) : Except Exception String :=
  match (OpenEnum.ofInt code : BgpNotifErrCode) with
  | .named .bnMsgHdrErr =>
    checkSubCode 3 "Unknown BgpNotification message header subcode. code: {}, subcode: {}."
      (fun subCode => (OpenEnum.ofInt subCode : BgpNotifMsgHdrErrSubCode).nameSafe) code subCode
  | .named .bnOpenMsgErr =>
    checkSubCode 7 "Unknown BgpNotification open msg error subcode. code: {}, subcode: {}."
      (fun subCode => (OpenEnum.ofInt subCode : BgpNotifOpenMsgErrSubCode).nameSafe) code subCode
  | .named .bnUpdateMsgErr =>
    checkSubCode 11 "Unknown BgpNotification update msg error subcode. code: {}, subcode: {}."
      (fun subCode => (OpenEnum.ofInt subCode : BgpNotifUpdateMsgErrSubCode).nameSafe) code subCode
  | .named .bnCease =>
    checkSubCode 9 "Unknown BgpNotification cease msg error subcode. code: {}, subcode: {}."
      (fun subCode => (OpenEnum.ofInt subCode : BgpNotifCeaseErrSubCode).nameSafe) code subCode
  | .named .bnHoldTimerExpired => .ok "NA"
  | .named .bnFsmError => .ok "NA"
  | .named .bnRouteRefreshMsgErr =>
    -- zero is the only subcode, and its text is the number, since the enumeration starts at one
    if subCode ≠ 0 then
      .error (.bgpException ⟨"Unknown BgpNotification update msg error subcode. code: {}, subcode: {}.",
        [.num code, .num subCode]⟩)
    else .ok (OpenEnum.ofInt subCode : BgpNotificationRouteRefreshErrSubCode).nameSafe
  | .unnamed _ _ => .error (.bgpException ⟨"Unknown BgpNotification error code. code: {}", [.num code]⟩)

/-- The data is all that is left in the buffer. -/
def consumeBgpNotificationBody : Except Exception BgpNotification := do
  let (code, cursor) ← readBE underflow 1 cursor
  let (subCode, cursor) ← readBE underflow 1 cursor
  let errSubCodeStr ← notifSubCodeStr code subCode
  return ⟨.ofInt code, subCode, errSubCodeStr, cursor⟩

def parseBgpNotificationRaw : Except Exception BgpNotification := do
  let (hdr, cursor) ← consumeBgpMsgHdr buf (some .bgpMsgTypeNotification)
  if hdr.length < kBgpMsgHeaderLen + 2 then
    throw (badMsgLen hdr.length
      ⟨"Incomplete BgpNotification mesg. Minimum length of BgpNotification must be 21. Got {} ({}).",
        [.num hdr.length, .num buf.length]⟩)
  consumeBgpNotificationBody cursor

def parseBgpKeepAliveRaw : Except Exception Unit := do
  let (hdr, _) ← consumeBgpMsgHdr buf (some .bgpMsgTypeKeepalive)
  if hdr.length ≠ kBgpMsgHeaderLen then
    throw (badMsgLen hdr.length ⟨"Unexpected length of KeepAlive msg. Got {}, expected 19", [.num hdr.length]⟩)

def parseBgpRouteRefreshRaw : Except Exception BgpRouteRefresh := do
  let (hdr, cursor) ← consumeBgpMsgHdr buf (some .bgpMsgTypeRouteRefresh)
  let (afi, cursor) ← readBE underflow 2 cursor
  let (msgSubType, cursor) ← readBE underflow 1 cursor
  let (safi, _) ← readBE underflow 1 cursor
  if hdr.length ≠ kBgpMsgHeaderLen + 4 ∧ (msgSubType = 1 ∨ msgSubType = 2) then
    throw (.bgpRouteRefreshMsgException .bnInvalidMsgLen (toBE 2 hdr.length)
      ⟨"Unexpected length of Route Refresh msg. Got {}, expected 4", [.num hdr.length]⟩)
  return ⟨.ofInt afi, .ofInt msgSubType, .ofInt safi⟩

section

variable (bgpPrefix : BgpPrefix)

def BgpPrefix.toIPPrefix : IPPrefix := ⟨bgpPrefix.network.1.bytes, bgpPrefix.network.2⟩

/-- A classical v4 prefix, with its path id if add-path is in use. -/
def BgpPrefix.toV4 (addPathCap : Bool) : RiggedIPPrefix :=
  ⟨bgpPrefix.toIPPrefix, [], if addPathCap then bgpPrefix.pathId else none⟩

def BgpPrefix.toRigged : RiggedIPPrefix :=
  ⟨bgpPrefix.toIPPrefix, bgpPrefix.labels, bgpPrefix.pathId⟩

/-- Whether the v4 prefixes of an update carry path ids. -/
def hasAddPathCap (capabilities : BgpCapabilities) : Bool :=
  capabilities.addPathCapabilities.any fun cap =>
    decide (cap.afi = .afiIPv4 ∧ (cap.sor = .receive ∨ cap.sor = .both))

/-- The update that the fields of the message make. -/
def UpdateMsgParsingState.toUpdate (state : UpdateMsgParsingState) (capabilities : BgpCapabilities) : BgpUpdate2 :=
  let addPathCap := hasAddPathCap capabilities
  { attrs := state.attrs
    v4Announced := if addPathCap then [] else state.v4Announced.map BgpPrefix.toIPPrefix
    v4Withdrawn := if addPathCap then [] else state.v4Withdrawn.map BgpPrefix.toIPPrefix
    v4Announced2 := state.v4Announced.map fun bgpPrefix => bgpPrefix.toV4 addPathCap
    v4Withdrawn2 := state.v4Withdrawn.map fun bgpPrefix => bgpPrefix.toV4 addPathCap
    v4Nexthop := state.v4Nexthop.bytes
    mpWithdrawn := ⟨state.mpWithdrawnAfi, state.mpWithdrawnSafi, state.mpWithdrawn.map BgpPrefix.toRigged, []⟩
    mpAnnounced := ⟨state.mpAnnouncedAfi, state.mpAnnouncedSafi, state.mpAnnounced.map BgpPrefix.toRigged,
      state.mpNexthop.bytes⟩ }

/-- What follows the header of an UPDATE message, up to its end. -/
def parseUpdateBody (cursor : Bytes) (capabilities : BgpCapabilities) :
    Except Exception (BgpUpdate2 ⊕ BgpEndOfRib) := do
  let (state, cursor) ← parseV4Withdrawn capabilities {} cursor
  let (state, cursor) ← parsePathAttributes capabilities state cursor
  if state.v4WithdrawnLen = 0 ∧ state.paLen = 0 then
    if cursor.length ≠ 0 then
      throw (malformedAttributeList ⟨"End-of-RIB message with non-empty NLRI field.", []⟩)
    else return .inr ⟨false, .afiIPv4, .safiUnicast⟩
  else do
    let state ← parseV4Announced capabilities state cursor
    doSanityChecks state
    match state.eor with
    | some eor => return .inr eor
    | none => return .inl (state.toUpdate capabilities)

def parseBgpUpdateRaw (buf : Bytes) (capabilities : BgpCapabilities) :
    Except Exception (BgpUpdate2 ⊕ BgpEndOfRib) := do
  let (hdr, cursor) ← consumeBgpMsgHdr buf (some .bgpMsgTypeUpdate)
  -- the cursor is fixed to the end of this message
  let cursor := cursor.take (hdr.length - kBgpMsgHeaderLen)
  if hdr.length < kBgpMsgHeaderLen + 4 then
    throw (badMsgLen hdr.length ⟨"Incomplete BgpUpdateMessage. Minimum length of BgpUpdate msg must be 23. Got {} ({})",
        [.num hdr.length, .num buf.length]⟩)
  parseUpdateBody cursor capabilities

end

inductive Callback
  | rcvdBgpOpenMsg (msg : BgpOpenMsg)
  | rcvdBgpNotification (msg : BgpNotification)
  | rcvdBgpKeepAlive
  | rcvdBgpUpdate (msg : BgpUpdate2)
  | rcvdBgpEndOfRib (msg : BgpEndOfRib)
  | rcvdBgpRouteRefresh (msg : BgpRouteRefresh)
  | handleBgpException (ex : Exception)
  | handleBgpFsmException (ex : Exception)
  | handleBgpHeaderException (ex : Exception)
  | handleBgpOpenMsgException (ex : Exception)
  | handleBgpUpdateMsgException (ex : Exception)
  | handleBgpRouteRefreshMsgException (ex : Exception)
  deriving DecidableEq

/-- The callbacks that were called, in order, and the exception that left the parser, if any. -/
structure ParseResult where
  calls : List Callback
  escaped : Option Exception
  deriving DecidableEq

/-- The `try` block of `parseBgpMessage`: the message and the callback for it. -/
def receiveMessage : Except Exception Callback := do
  let hdr ← parseBgpMsgHdr buf none
  if hdr.type = BgpMessageType.bgpMsgTypeOpen.code then
    let msg ← parseBgpOpenMsgRaw buf
    return .rcvdBgpOpenMsg msg
  else if hdr.type = BgpMessageType.bgpMsgTypeUpdate.code then
    match capabilities with
    | none => throw (.bgpFsmException ⟨"No capabilities given to parse UPDATE message with.", []⟩)
    | some capabilities => do
        match ← parseBgpUpdateRaw buf capabilities with
        | .inl msg => return .rcvdBgpUpdate msg
        | .inr msg => return .rcvdBgpEndOfRib msg
  else if hdr.type = BgpMessageType.bgpMsgTypeNotification.code then
    let msg ← parseBgpNotificationRaw buf
    return .rcvdBgpNotification msg
  else if hdr.type = BgpMessageType.bgpMsgTypeKeepalive.code then
    parseBgpKeepAliveRaw buf
    return .rcvdBgpKeepAlive
  else if hdr.type = BgpMessageType.bgpMsgTypeRouteRefresh.code then
    let msg ← parseBgpRouteRefreshRaw buf
    return .rcvdBgpRouteRefresh msg
  else throw (.bgpException ⟨"Unsupported BGP Message type: {}\n{}\n\n", [.num hdr.type.toNat, .hexDump buf]⟩)

/-- The `catch` clauses of `parseBgpMessage`; any other exception leaves it. -/
def handleException (ex : Exception) : ParseResult :=
  match ex with
  | .bgpOpenMsgException _ _ _ => ⟨[.handleBgpOpenMsgException ex], none⟩
  | .bgpUpdateMsgException _ _ _ => ⟨[.handleBgpUpdateMsgException ex], none⟩
  | .bgpFsmException _ => ⟨[.handleBgpFsmException ex], none⟩
  | .bgpHeaderException _ _ _ => ⟨[.handleBgpHeaderException ex], none⟩
  | .bgpException _ => ⟨[.handleBgpException ex], none⟩
  | .bgpRouteRefreshMsgException _ _ _ => ⟨[.handleBgpRouteRefreshMsgException ex], none⟩
  | .bgpSerializerException _ _ => ⟨[], some ex⟩
  | .outOfRange _ => ⟨[], some ex⟩
  | .ipAddressException => ⟨[], some ex⟩

def parseBgpMessage : ParseResult :=
  match receiveMessage buf capabilities with
  | .ok call => ⟨[call], none⟩
  | .error ex => handleException ex

end

variable (buf : Bytes)

def headerMarker : Bytes := buf.take 16

def headerLength : Nat := fieldAt buf 16 2

def headerType : UInt8 := buf.getD 18 0

/-- What the parser says about the fields of a header. -/
def checkHeader (marker : Bytes) (length : Nat) (type : UInt8) (msgType : Option BgpMessageType) :
    Except Exception BgpMessageHeader :=
  if kBgpMarker ≠ marker then
    .error (.bgpHeaderException .bnMhConnectionNotSynchronized [] ⟨"Synchronization error", []⟩)
  else if length < kBgpMsgHeaderLen ∨ length > kMaxBgpMsgLen then
    .error (badMsgLen length ⟨"Invalid BGP header length: {}", [.num length]⟩)
  else match msgType with
    | some expected =>
      if type ≠ expected.code then
        .error (.bgpHeaderException .bnMhBadMsgType [type]
          ⟨"Unexpected message type: {}, expected: {}", [.num type.toNat, .num expected.code.toNat]⟩)
      else .ok ⟨length, type⟩
    | none => .ok ⟨length, type⟩

section

variable {buf : Bytes}

section

variable (h : kBgpMsgHeaderLen ≤ buf.length)
include h

theorem drop_eq_headerType : buf.drop 18 = headerType buf :: buf.drop kBgpMsgHeaderLen := by
  rw [kBgpMsgHeaderLen] at h
  rw [List.drop_eq_getElem_cons (by omega), headerType, List.getD_eq_getElem?_getD, List.getElem?_eq_getElem (by omega)]
  rfl

theorem parseBgpMsgHdr_eq (msgType : Option BgpMessageType) :
    parseBgpMsgHdr buf msgType = checkHeader (headerMarker buf) (headerLength buf) (headerType buf) msgType := by
  have hlen := h
  rw [kBgpMsgHeaderLen] at hlen
  rw [parseBgpMsgHdr, if_neg (by omega), pull_of_le (by omega)]
  dsimp only
  refine ite_congr rfl (fun _ => rfl) fun _ => ?_
  rw [readBE_drop rfl (by omega), ok_bind]
  rw [drop_eq_headerType h, readBE_one_cons, ok_bind]
  rw [UInt8.ofNat_toNat]
  refine ite_congr rfl (fun _ => rfl) fun _ => ?_
  cases msgType with
  | none => rfl
  | some expected => exact if_congr (not_congr UInt8.toNat_inj) rfl rfl

theorem parseBgpMsgHdr_append (more : Bytes) (msgType : Option BgpMessageType) :
    parseBgpMsgHdr (buf ++ more) msgType = parseBgpMsgHdr buf msgType := by
  rw [parseBgpMsgHdr_eq h, parseBgpMsgHdr_eq (by rw [List.length_append]; omega)]
  rw [kBgpMsgHeaderLen] at h
  have hmk : headerMarker (buf ++ more) = headerMarker buf := List.take_append_of_le_length (by omega)
  have hlen : headerLength (buf ++ more) = headerLength buf := fieldAt_append more (by omega)
  have htype : headerType (buf ++ more) = headerType buf := by
    rw [headerType, headerType, List.getD_eq_getElem?_getD, List.getD_eq_getElem?_getD,
      List.getElem?_append_left (by omega)]
  rw [hmk, hlen, htype]

theorem parseBgpMsgHdr_take {n : Nat} (hn : kBgpMsgHeaderLen ≤ n)
    (msgType : Option BgpMessageType) : parseBgpMsgHdr (buf.take n) msgType = parseBgpMsgHdr buf msgType := by
  have hlen : kBgpMsgHeaderLen ≤ (buf.take n).length := by
    rw [List.length_take]
    omega
  rw [← parseBgpMsgHdr_append hlen (buf.drop n), List.take_append_drop]

end

end

/-- The buffer begins with a whole message. -/
structure HoldsMessage (buf : Bytes) (hdr : BgpMessageHeader) : Prop where
  header : parseBgpMsgHdr buf none = .ok hdr
  length_le : hdr.length ≤ buf.length

namespace HoldsMessage

variable {buf : Bytes} {hdr : BgpMessageHeader}

section

variable (h : HoldsMessage buf hdr)
include h

theorem headerLen_le : kBgpMsgHeaderLen ≤ buf.length := by
  by_contra hshort
  have herror := h.header
  rw [parseBgpMsgHdr, if_pos (by omega)] at herror
  cases herror

theorem check : kBgpMarker = headerMarker buf ∧ kBgpMsgHeaderLen ≤ headerLength buf ∧ headerLength buf ≤ kMaxBgpMsgLen ∧
      hdr = ⟨headerLength buf, headerType buf⟩ := by
  have hok := h.header
  rw [parseBgpMsgHdr_eq h.headerLen_le] at hok
  unfold checkHeader at hok
  split at hok
  · cases hok
  · split at hok
    · cases hok
    next hmk hlen =>
      exact ⟨not_not.mp hmk, by omega, by omega, (Except.ok.inj hok).symm⟩

theorem bounds : kBgpMsgHeaderLen ≤ hdr.length ∧ hdr.length ≤ kMaxBgpMsgLen := by
  obtain ⟨-, hmin, hmax, rfl⟩ := h.check
  exact ⟨hmin, hmax⟩

theorem append (more : Bytes) : HoldsMessage (buf ++ more) hdr :=
  ⟨by rw [parseBgpMsgHdr_append h.headerLen_le, h.header], by rw [List.length_append]; have := h.length_le; omega⟩

theorem consume {type : BgpMessageType} (htype : hdr.type = type.code) :
    consumeBgpMsgHdr buf (some type) = .ok (hdr, buf.drop kBgpMsgHeaderLen) := by
  obtain ⟨hmk, hmin, hmax, rfl⟩ := h.check
  have hheader : parseBgpMsgHdr buf (some type) = .ok ⟨headerLength buf, headerType buf⟩ := by
    rw [parseBgpMsgHdr_eq h.headerLen_le]
    unfold checkHeader
    rw [if_neg (not_not.mpr hmk), if_neg (by omega)]
    exact if_neg (not_not.mpr htype)
  rw [consumeBgpMsgHdr, hheader, pull_of_le h.headerLen_le]
  have hle := h.length_le
  exact if_neg (by omega)

end

end HoldsMessage

/-- The alternatives of an entry that the parser makes. -/
inductive BgpMessageT
  | bgpOpenMsg (msg : BgpOpenMsg)
  | bgpNotification (msg : BgpNotification)
  | bgpKeepAlive
  | bgpUpdate2 (msg : BgpUpdate2)
  | bgpEndOfRib (msg : BgpEndOfRib)
  | bgpRouteRefresh (msg : BgpRouteRefresh)
  deriving DecidableEq

structure FiberParserCallbacks where
  caps : BgpCapabilities
  wqueue : List (Except Exception BgpMessageT) := []
  pendingError : Option Exception := none

namespace FiberParserCallbacks

variable (cb : FiberParserCallbacks)

def fiberPush (entry : Except Exception BgpMessageT) : FiberParserCallbacks :=
  { cb with wqueue := cb.wqueue ++ [entry] }

/-- A callback of the parser: a message is pushed, an error is recorded. -/
def call : Callback → FiberParserCallbacks
  | .rcvdBgpOpenMsg msg =>
    { cb with caps := negotiateCapabilities cb.caps msg.capabilities }.fiberPush (.ok (.bgpOpenMsg msg))
  | .rcvdBgpNotification msg => cb.fiberPush (.ok (.bgpNotification msg))
  | .rcvdBgpKeepAlive => cb.fiberPush (.ok .bgpKeepAlive)
  | .rcvdBgpUpdate msg => cb.fiberPush (.ok (.bgpUpdate2 msg))
  | .rcvdBgpEndOfRib msg => cb.fiberPush (.ok (.bgpEndOfRib msg))
  | .rcvdBgpRouteRefresh msg => cb.fiberPush (.ok (.bgpRouteRefresh msg))
  | .handleBgpException ex => { cb with pendingError := some ex }
  | .handleBgpFsmException ex => { cb with pendingError := some ex }
  | .handleBgpHeaderException ex => { cb with pendingError := some ex }
  | .handleBgpOpenMsgException ex => { cb with pendingError := some ex }
  | .handleBgpUpdateMsgException ex => { cb with pendingError := some ex }
  | .handleBgpRouteRefreshMsgException ex => { cb with pendingError := some ex }

/-- The error that was recorded is taken and pushed. -/
def pushPendingError : FiberParserCallbacks :=
  match cb.pendingError with
  | some ex => { cb with pendingError := none }.fiberPush (.error ex)
  | none => cb

end FiberParserCallbacks

namespace FiberBgpParser

/-- The header and the length of what is buffered decide whether a message can be parsed. -/
def nextMessage (cur : Bytes) : Front Exception :=
  if cur.length < kBgpMsgHeaderLen then .incomplete
  else match parseBgpMsgHdr cur none with
    | .error ex => .broken ex
    | .ok msgHdr => if cur.length < msgHdr.length then .incomplete else .message msgHdr.length

variable (negotiatedCaps : BgpCapabilities)

/-- The message at the front of the buffer is parsed, with the buffer as a whole. -/
def handleMessage (buf : Bytes) : Turn BgpCapabilities BgpMessageT Exception :=
  let result := parseBgpMessage buf (some negotiatedCaps)
  let parserCb := result.calls.foldl FiberParserCallbacks.call { caps := negotiatedCaps }
  match result.escaped with
  | some ex => ⟨parserCb.caps, parserCb.wqueue, some ex⟩
  | none => ⟨parserCb.pushPendingError.caps, parserCb.pushPendingError.wqueue, none⟩

section

variable {cur : Bytes} {n : Nat}

theorem nextMessage_eq_message : nextMessage cur = .message n ↔ ∃ hdr, HoldsMessage cur hdr ∧ hdr.length = n := by
  constructor
  · intro h
    unfold nextMessage at h
    split at h
    · cases h
    · split at h
      · cases h
      next hdr hheader =>
        split at h
        · cases h
        · exact ⟨hdr, ⟨hheader, by omega⟩, Front.message.inj h⟩
  · rintro ⟨hdr, hholds, rfl⟩
    unfold nextMessage
    rw [if_neg (by have := hholds.headerLen_le; omega), hholds.header]
    exact if_neg (by have := hholds.length_le; omega)

theorem nextMessage_append (h : nextMessage cur ≠ .incomplete) (more : Bytes) :
    nextMessage (cur ++ more) = nextMessage cur := by
  cases hnext : nextMessage cur with
  | incomplete => exact absurd hnext h
  | message n =>
    obtain ⟨hdr, hholds, hn⟩ := nextMessage_eq_message.mp hnext
    exact nextMessage_eq_message.mpr ⟨hdr, hholds.append more, hn⟩
  | broken ex =>
    unfold nextMessage at hnext ⊢
    split at hnext
    · cases hnext
    next hlen =>
      rw [if_neg (by rw [List.length_append]; omega), parseBgpMsgHdr_append (by omega)]
      split at hnext
      · exact hnext
      · split at hnext <;> cases hnext

theorem nextMessage_take (h : nextMessage cur = .message n) : nextMessage (cur.take n) = .message n := by
  obtain ⟨hdr, hholds, rfl⟩ := nextMessage_eq_message.mp h
  refine nextMessage_eq_message.mpr ⟨hdr, ⟨?_, ?_⟩, rfl⟩
  · rw [parseBgpMsgHdr_take hholds.headerLen_le hholds.bounds.1, hholds.header]
  · rw [List.length_take_of_le hholds.length_le]

end

/-- The loop of `processBgpMsgBuf`, as a machine over the capabilities in use. -/
def machine : Machine UInt8 BgpCapabilities BgpMessageT Exception where
  front := nextMessage
  handle := handleMessage
  front_nil := rfl
  front_append := nextMessage_append
  front_message h := by
    obtain ⟨hdr, hholds, rfl⟩ := nextMessage_eq_message.mp h
    have hmin := hholds.bounds.1
    rw [kBgpMsgHeaderLen] at hmin
    exact ⟨by omega, hholds.length_le⟩
  front_take := nextMessage_take

/-- A buffer from the socket is appended to what is left, and all complete messages are parsed. -/
def processBgpMsgBuf (kept buf : Bytes) :
    Session UInt8 BgpCapabilities BgpMessageT Exception :=
  process machine negotiatedCaps (kept ++ buf)

/-- Buffers of a session, one after the other; an exception that leaves the parser ends it. -/
def processBuffersFrom (negotiatedCaps : BgpCapabilities) (kept : Bytes) :
    List Bytes → Session UInt8 BgpCapabilities BgpMessageT Exception
  | [] => ⟨negotiatedCaps, kept, [], none⟩
  | buf :: bufs =>
    let session := processBgpMsgBuf negotiatedCaps kept buf
    match session.escaped with
    | some _ => session
    | none => (processBuffersFrom session.state session.buf bufs).after session.entries

theorem processBuffersFrom_eq_receive (negotiatedCaps : BgpCapabilities) (kept : Bytes) (bufs : List Bytes) :
    processBuffersFrom negotiatedCaps kept bufs = receive machine negotiatedCaps kept bufs := by
  induction bufs generalizing negotiatedCaps kept with
  | nil => rfl
  | cons buf bufs ih =>
    simp only [processBuffersFrom, receive, processBgpMsgBuf, ih]
    cases (process machine negotiatedCaps (kept ++ buf)).escaped <;> rfl

/-- The buffers of a session, from the first one on. -/
def processBuffers (myCaps : BgpCapabilities) (bufs : List Bytes) :
    Session UInt8 BgpCapabilities BgpMessageT Exception :=
  processBuffersFrom myCaps [] bufs

end FiberBgpParser

end FbossBgp.BgpLib
