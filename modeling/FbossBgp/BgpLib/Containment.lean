import FbossBgp.BgpLib.FiberBgpParser

/-! Which messages are parsed alike with and without the bytes that follow them in the buffer, and what this
means for a session: its entries do not depend on how the stream was cut into buffers. -/

namespace FbossBgp.BgpLib

open Bytes Outcome Reader Chunks List

section

/-- The optional parameters are accepted up to a last one that has a single byte. -/
inductive Dangles : BgpCapabilities → Bytes → Prop
  | here (capa : BgpCapabilities) (b : UInt8) : Dangles capa [b]
  | next {capa capa' : BgpCapabilities} {pLen : UInt8} {rest : Bytes} : pLen.toNat ≤ rest.length →
      parseBgpCapabilities (rest.take pLen.toNat) capa = .ok capa' → Dangles capa' (rest.drop pLen.toNat) →
      Dangles capa (2 :: pLen :: rest)

variable (m : Bytes)

/-- The optional parameters of an OPEN message, by the length that it gives for them. -/
def openParams : Bytes := (m.drop 29).take (fieldAt m 28 1)

/-- The version and the hold time of an OPEN message are acceptable. -/
def OpenFieldsAccepted : Prop := fieldAt m 19 1 = kBgpVersion.toNat ∧ (fieldAt m 22 2 ≠ 0 → 3 ≤ fieldAt m 22 2)

/-- The parser of an OPEN message stays inside the message, and no text of its exceptions tells what follows. -/
def OpenContained : Prop :=
  29 ≤ m.length ∧ (OpenFieldsAccepted m → 29 + fieldAt m 28 1 ≤ m.length ∧ ¬Dangles {} (openParams m))

/-- The error code of a NOTIFICATION message is rejected before its data is read. -/
def NotificationContained : Prop :=
  21 ≤ m.length ∧ ∃ ex, notifSubCodeStr (fieldAt m 19 1) (fieldAt m 20 1) = .error ex

/-- The messages whose parser does not see what follows them. -/
def SelfContained : Prop :=
  if headerType m = BgpMessageType.bgpMsgTypeOpen.code then OpenContained m
  else if headerType m = BgpMessageType.bgpMsgTypeUpdate.code then kMinBgpUpdateMsgLen ≤ m.length
  else if headerType m = BgpMessageType.bgpMsgTypeNotification.code then NotificationContained m
  else if headerType m = BgpMessageType.bgpMsgTypeKeepalive.code then True
  else if headerType m = BgpMessageType.bgpMsgTypeRouteRefresh.code then kBgpMsgHeaderLen + 4 ≤ m.length
  else False

end

section

/-- The value of a parameter: only capabilities are known. -/
def openParamValue (capa : BgpCapabilities) (pType : UInt8) (value : Bytes) : Except Exception BgpCapabilities :=
  if pType = 2 then parseBgpCapabilities value capa
  else .error (.bgpOpenMsgException .bnOmUnsupportedOptionalParam [pType]
    ⟨"Unknown open msg param type-{}", [.num pType.toNat]⟩)

theorem openParamValue_ensures (capa : BgpCapabilities) (pType : UInt8) (value : Bytes) :
    FailsOnly IsOpenParamException (openParamValue capa pType value) :=
  ensures_ite (fun _ => untilEmpty_ensures parseCapability_ensures _ _) fun _ => by
    simp [IsOpenParamException, optParamsTooLong]

variable (cursorLen : Nat) {capa : BgpCapabilities} {params : Bytes}

/-- A parameter with a type and a length: the size of the buffer is not looked at. -/
theorem parseOpenParam_cons (capa : BgpCapabilities) (pType pLen : UInt8) (rest : Bytes) :
    parseOpenParam cursorLen capa (pType :: pLen :: rest) = if pLen.toNat > rest.length then
        .error (openUnspecific
          ⟨"The length of parameter exceeds the remaining message length. Remaining message length: {}, " ++
            "parameter length: {}", [.num rest.length, .num pLen.toNat]⟩)
      else openParamValue capa pType (rest.take pLen.toNat) >>= fun capa => .ok (capa, rest.drop pLen.toNat) := by
  rw [parseOpenParam, if_neg (by rw [length_cons, length_cons]; omega), readBE_one_cons, ok_bind]
  dsimp only
  rw [readBE_one_cons, ok_bind]
  dsimp only
  refine ite_congr rfl (fun _ => rfl) fun hlen => ?_
  rw [pull_of_le (by omega), ok_bind]
  have hval : (if pType.toNat = 2 then parseBgpCapabilities (rest.take pLen.toNat) capa
      else throw (.bgpOpenMsgException .bnOmUnsupportedOptionalParam [UInt8.ofNat pType.toNat]
        ⟨"Unknown open msg param type-{}", [.num pType.toNat]⟩)) =
      openParamValue capa pType (rest.take pLen.toNat) := by
    rw [UInt8.ofNat_toNat]
    exact if_congr (UInt8.toNat_inj (b := 2)) rfl rfl
  -- the capabilities' own parser has turned every read past the end into an exception of its own
  rw [hval, catchOutOfRange_of_ensures (openParamValue_ensures _ _ _) fun _ h => h]
  rfl

theorem parseOpenParam_ensures : ConsumesOr (parseOpenParam cursorLen) IsOpenParamException := by
  intro capa paramCursor
  match paramCursor with
  | [] => exact isOpenParamException
  | [b] => exact isOpenParamException
  | pType :: pLen :: rest =>
    rw [parseOpenParam_cons]
    refine ensures_ite (fun _ => isOpenParamException) fun _ => ?_
    refine (openParamValue_ensures _ _ _).bind fun _ _ => ?_
    rw [ensures_ok, length_drop, length_cons, length_cons]
    omega

theorem parseOpenParam_consumes : Consumes (parseOpenParam cursorLen) := (parseOpenParam_ensures cursorLen).consumes

/-- A dangling parameter is told with the length of the buffer. -/
theorem Dangles.untilEmpty_eq (h : Dangles capa params) (cursorLen : Nat) :
    untilEmpty (parseOpenParam cursorLen) capa params = .error (openUnspecific
        ⟨"Optional Capability Parameter, expected >= 2, cursor has only {} left", [.num cursorLen]⟩) := by
  induction h with
  | here capa b => rfl
  | next hlen hcapa _ ih =>
    rw [untilEmpty_of_ne_nil (parseOpenParam_consumes cursorLen) (cons_ne_nil _ _), parseOpenParam_cons,
      if_neg (by omega), openParamValue, if_pos rfl, hcapa, ok_bind, ok_bind, ih]

/-- Without one, the length of the buffer does not matter. -/
theorem untilEmpty_parseOpenParam_congr (h : ¬Dangles capa params) (cursorLen cursorLen' : Nat) :
    untilEmpty (parseOpenParam cursorLen) capa params = untilEmpty (parseOpenParam cursorLen') capa params := by
  induction hsize : params.length using Nat.strong_induction_on generalizing capa params with
  | _ size ih =>
    match params with
    | [] => rfl
    | [b] => exact absurd (.here capa b) h
    | pType :: pLen :: rest =>
      rw [untilEmpty_of_ne_nil (parseOpenParam_consumes cursorLen) (cons_ne_nil _ _),
        untilEmpty_of_ne_nil (parseOpenParam_consumes cursorLen') (cons_ne_nil _ _), parseOpenParam_cons,
        parseOpenParam_cons]
      by_cases hlen : pLen.toNat > rest.length
      · rw [if_pos hlen]
        rfl
      · rw [if_neg hlen]
        cases hval : openParamValue capa pType (rest.take pLen.toNat) with
        | error ex => rfl
        | ok capa' =>
          have hnext : ¬Dangles capa' (rest.drop pLen.toNat) := by
            intro hdangles
            unfold openParamValue at hval
            split at hval
            next htype =>
              subst htype
              exact h (.next (by omega) hval hdangles)
            · cases hval
          refine ih (rest.drop pLen.toNat).length ?_ hnext rfl
          rw [length_drop, ← hsize, length_cons, length_cons]
          omega

end

section

variable {buf : Bytes} {m : Bytes}

def badVersion (version : Nat) : Exception :=
  .bgpOpenMsgException .bnOmUnsupportedVersionNumber [kBgpVersion]
    ⟨"Only BGP version-4 is supported. Got version-{}.", [.num ((version : Int).bmod (2 ^ 8))]⟩

def badHoldTime (holdTime : Nat) : Exception :=
  .bgpOpenMsgException .bnOmUnacceptableHoldTime []
    ⟨"Hold time must be 0 or at least 3 seconds. Received {}s", [.num holdTime]⟩

/-- An OPEN message read as fields at fixed places. -/
theorem parseOpenBody_eq (h : 29 ≤ buf.length) : parseOpenBody (buf.drop kBgpMsgHeaderLen) =
    if fieldAt buf 19 1 ≠ kBgpVersion.toNat then .error (badVersion (fieldAt buf 19 1))
    else if fieldAt buf 22 2 ≠ 0 ∧ fieldAt buf 22 2 < 3 then .error (badHoldTime (fieldAt buf 22 2))
    else if fieldAt buf 28 1 > buf.length - 29 then
      .error (openUnspecific ⟨optParamsTooLong, [.num (fieldAt buf 28 1), .num ↑(buf.length - 29)]⟩)
    else untilEmpty (parseOpenParam (buf.length - 29)) {} (openParams buf) >>= fun capabilities =>
      .ok ⟨fieldAt buf 19 1, fieldAt buf 20 2, fieldAt buf 22 2, fieldAt buf 24 4, capabilities⟩ := by
  rw [parseOpenBody, kBgpMsgHeaderLen, readBE_drop rfl (by omega)]
  dsimp only
  refine ite_congr rfl (fun _ => rfl) fun _ => ?_
  rw [readBE_drop rfl (by omega), ok_bind]
  rw [readBE_drop rfl (by omega)]
  refine ite_congr rfl (fun _ => rfl) fun _ => ?_
  rw [readBE_drop rfl (by omega), ok_bind]
  rw [readBE_drop rfl (by omega), ok_bind]
  rw [length_drop]
  exact ite_congr rfl (fun _ => rfl) fun _ => rfl

theorem parseBgpOpenMsgRaw_eq {hdr : BgpMessageHeader} (h : HoldsMessage buf hdr)
    (htype : hdr.type = BgpMessageType.bgpMsgTypeOpen.code) : parseBgpOpenMsgRaw buf = if hdr.length < 29 then
        .error (badMsgLen hdr.length
          ⟨"Incomplete BgpOpenMessage. Minimum length of BgpOpenMessage must be 29. Got {} ({}).",
            [.num hdr.length, .num buf.length]⟩)
      else parseOpenBody (buf.drop kBgpMsgHeaderLen) := by
  rw [parseBgpOpenMsgRaw, h.consume htype]
  rfl

theorem openParams_append (more : Bytes) (h : 29 + fieldAt m 28 1 ≤ m.length) :
    openParams (m ++ more) = openParams m := by
  rw [openParams, openParams, fieldAt_append more (by omega), drop_append_of_le_length (by omega),
    take_append_of_le_length (by rw [length_drop]; omega)]

theorem OpenContained.parseOpenBody_append (h : OpenContained m) (more : Bytes) :
    parseOpenBody ((m ++ more).drop kBgpMsgHeaderLen) = parseOpenBody (m.drop kBgpMsgHeaderLen) := by
  obtain ⟨hlen, hparams⟩ := h
  rw [parseOpenBody_eq hlen, parseOpenBody_eq (by rw [length_append]; omega), fieldAt_append more (by omega),
    fieldAt_append more (by omega), fieldAt_append more (by omega), fieldAt_append more (by omega),
    fieldAt_append more (by omega)]
  refine ite_congr rfl (fun _ => rfl) fun hver => ite_congr rfl (fun _ => rfl) fun hholdTime => ?_
  obtain ⟨hfits, hdangles⟩ := hparams ⟨not_not.mp hver, by omega⟩
  rw [if_neg (by rw [length_append]; omega), if_neg (by omega), openParams_append more hfits,
    untilEmpty_parseOpenParam_congr hdangles _ (m.length - 29)]

theorem openUnspecific_args {α : Type} {what what' : What}
    (h : (.error (openUnspecific what) : Except Exception α) = .error (openUnspecific what')) :
    what.args = what'.args :=
  congrArg What.args (Exception.bgpOpenMsgException.inj (Except.error.inj h)).2.2

/-- A message that is not contained shows one more byte behind it. -/
theorem openContained_of_append (hlen : 29 ≤ m.length)
    (h : parseOpenBody ((m ++ [0]).drop kBgpMsgHeaderLen) = parseOpenBody (m.drop kBgpMsgHeaderLen)) :
    OpenContained m := by
  refine ⟨hlen, fun ⟨hver, hholdTime⟩ => ?_⟩
  have hlen' : (m ++ [0]).length = m.length + 1 := length_append
  have hshort : ¬(fieldAt m 22 2 ≠ 0 ∧ fieldAt m 22 2 < 3) := by omega
  rw [parseOpenBody_eq hlen, parseOpenBody_eq (by omega), fieldAt_append _ (by omega), fieldAt_append _ (by omega),
    fieldAt_append _ (by omega), fieldAt_append _ (by omega), fieldAt_append _ (by omega),
    if_neg (not_not.mpr hver), if_neg hshort, if_neg (not_not.mpr hver), if_neg hshort, hlen'] at h
  have hfits : 29 + fieldAt m 28 1 ≤ m.length := by
    by_contra hlong
    rw [if_pos (by omega : fieldAt m 28 1 > m.length - 29)] at h
    split at h
    · have hargs := openUnspecific_args h
      simp only [List.cons.injEq, FmtArg.num.injEq] at hargs
      omega
    · have hensures := (untilEmpty_ensures (parseOpenParam_ensures (m.length + 1 - 29)) {}
        (openParams (m ++ [0]))).bind (f := fun capabilities => .ok
          (⟨fieldAt m 19 1, fieldAt m 20 2, fieldAt m 22 2, fieldAt m 24 4, capabilities⟩ : BgpOpenMsg))
          (R := fun _ => True) fun _ _ => trivial
      exact hensures.of_error h rfl
  refine ⟨hfits, fun hdangles => ?_⟩
  rw [if_neg (by omega), if_neg (by omega), openParams_append _ hfits, hdangles.untilEmpty_eq,
    hdangles.untilEmpty_eq] at h
  have hargs := openUnspecific_args h
  simp only [List.cons.injEq, FmtArg.num.injEq] at hargs
  omega

end

section

variable {buf : Bytes} {hdr : BgpMessageHeader}

section

variable (h : HoldsMessage buf hdr)
include h

theorem parseBgpUpdateRaw_eq (htype : hdr.type = BgpMessageType.bgpMsgTypeUpdate.code)
    (capabilities : BgpCapabilities) : parseBgpUpdateRaw buf capabilities = if hdr.length < kMinBgpUpdateMsgLen then
        .error (badMsgLen hdr.length
          ⟨"Incomplete BgpUpdateMessage. Minimum length of BgpUpdate msg must be 23. Got {} ({})",
            [.num hdr.length, .num buf.length]⟩)
      else parseUpdateBody ((buf.drop kBgpMsgHeaderLen).take (hdr.length - kBgpMsgHeaderLen)) capabilities := by
  rw [parseBgpUpdateRaw, h.consume htype]
  rfl

theorem parseBgpNotificationRaw_eq
    (htype : hdr.type = BgpMessageType.bgpMsgTypeNotification.code) : parseBgpNotificationRaw buf =
      if hdr.length < 21 then
        .error (badMsgLen hdr.length
          ⟨"Incomplete BgpNotification mesg. Minimum length of BgpNotification must be 21. Got {} ({}).",
            [.num hdr.length, .num buf.length]⟩)
      else notifSubCodeStr (fieldAt buf 19 1) (fieldAt buf 20 1) >>= fun errSubCodeStr =>
        .ok ⟨.ofInt (fieldAt buf 19 1), fieldAt buf 20 1, errSubCodeStr, buf.drop 21⟩ := by
  have hle := h.length_le
  rw [parseBgpNotificationRaw, h.consume htype]
  refine ite_congr rfl (fun _ => rfl) fun hlen => ?_
  rw [kBgpMsgHeaderLen, consumeBgpNotificationBody, readBE_drop rfl (by omega), ok_bind]
  dsimp only
  rw [readBE_drop rfl (by omega)]
  rfl

theorem parseBgpKeepAliveRaw_eq
    (htype : hdr.type = BgpMessageType.bgpMsgTypeKeepalive.code) : parseBgpKeepAliveRaw buf =
      if hdr.length ≠ kBgpMsgHeaderLen then
        .error (badMsgLen hdr.length ⟨"Unexpected length of KeepAlive msg. Got {}, expected 19", [.num hdr.length]⟩)
      else .ok () := by
  rw [parseBgpKeepAliveRaw, h.consume htype]
  rfl

theorem parseBgpRouteRefreshRaw_eq
    (htype : hdr.type = BgpMessageType.bgpMsgTypeRouteRefresh.code) : parseBgpRouteRefreshRaw buf =
      if buf.length < 23 then .error underflow
      else if hdr.length ≠ 23 ∧ (fieldAt buf 21 1 = 1 ∨ fieldAt buf 21 1 = 2) then
        .error (.bgpRouteRefreshMsgException .bnInvalidMsgLen (toBE 2 hdr.length)
          ⟨"Unexpected length of Route Refresh msg. Got {}, expected 4", [.num hdr.length]⟩)
      else .ok ⟨.ofInt (fieldAt buf 19 2), .ofInt (fieldAt buf 21 1), .ofInt (fieldAt buf 22 1)⟩ := by
  rw [parseBgpRouteRefreshRaw, h.consume htype, ok_bind]
  dsimp only
  split
  next hlen =>
    refine eq_error_of_ensures ?_
    refine ensures_readBE_bind (by rfl) fun afi _ => ?_
    refine ensures_readBE_bind (by rfl) fun msgSubType _ => ?_
    refine (ensures_readBE fun _ => by rfl).bind ?_
    rintro ⟨safi, cursor₃⟩ ⟨-, -, hread⟩
    rw [length_drop, length_drop, length_drop, kBgpMsgHeaderLen] at hread
    omega
  · rw [kBgpMsgHeaderLen, readBE_drop rfl (by omega), ok_bind]
    rw [readBE_drop rfl (by omega), ok_bind]
    rw [readBE_drop rfl (by omega)]
    rfl

/-- The parser of a message of each type, and the callback for its result. -/
theorem receiveMessage_eq (capabilities : Option BgpCapabilities) : receiveMessage buf capabilities =
    if hdr.type = BgpMessageType.bgpMsgTypeOpen.code then
      parseBgpOpenMsgRaw buf >>= fun msg => .ok (.rcvdBgpOpenMsg msg)
    else if hdr.type = BgpMessageType.bgpMsgTypeUpdate.code then
      match capabilities with
      | none => .error (.bgpFsmException ⟨"No capabilities given to parse UPDATE message with.", []⟩)
      | some capabilities =>
        parseBgpUpdateRaw buf capabilities >>= fun msg => .ok (msg.elim .rcvdBgpUpdate .rcvdBgpEndOfRib)
    else if hdr.type = BgpMessageType.bgpMsgTypeNotification.code then
      parseBgpNotificationRaw buf >>= fun msg => .ok (.rcvdBgpNotification msg)
    else if hdr.type = BgpMessageType.bgpMsgTypeKeepalive.code then
      parseBgpKeepAliveRaw buf >>= fun _ => .ok .rcvdBgpKeepAlive
    else if hdr.type = BgpMessageType.bgpMsgTypeRouteRefresh.code then
      parseBgpRouteRefreshRaw buf >>= fun msg => .ok (.rcvdBgpRouteRefresh msg)
    else .error (.bgpException
      ⟨"Unsupported BGP Message type: {}\n{}\n\n", [.num hdr.type.toNat, .hexDump buf]⟩) := by
  unfold receiveMessage
  rw [h.header]
  refine ite_congr rfl (fun _ => rfl) fun _ => ite_congr rfl (fun _ => ?_) fun _ => rfl
  cases capabilities with
  | none => rfl
  | some capabilities =>
    dsimp only
    cases parseBgpUpdateRaw buf capabilities with
    | error ex => rfl
    | ok msg => cases msg <;> rfl

end

end

section

theorem badMsgLen_append_ne {α : Type} (length : Nat) (format : String) (m : Bytes) :
    (.error (badMsgLen length ⟨format, [.num length, .num (m ++ [0]).length]⟩) : Except Exception α) ≠
      .error (badMsgLen length ⟨format, [.num length, .num m.length]⟩) := by
  intro h
  have hargs := congrArg What.args (Exception.bgpHeaderException.inj (Except.error.inj h)).2.2
  simp only [length_append, length_cons, List.cons.injEq, FmtArg.num.injEq] at hargs
  omega

variable {m : Bytes} {hdr : BgpMessageHeader} (h : HoldsMessage m hdr) (hlen : hdr.length = m.length)

include h hlen

theorem parseBgpOpenMsgRaw_append_iff (htype : hdr.type = BgpMessageType.bgpMsgTypeOpen.code) :
    (∀ more, parseBgpOpenMsgRaw (m ++ more) = parseBgpOpenMsgRaw m) ↔ OpenContained m := by
  constructor
  · intro hall
    have hone := hall [0]
    rw [parseBgpOpenMsgRaw_eq h htype, parseBgpOpenMsgRaw_eq (h.append [0]) htype] at hone
    split at hone
    · exact absurd hone (badMsgLen_append_ne _ _ _)
    · exact openContained_of_append (by omega) hone
  · intro hcontained more
    have hshort : ¬hdr.length < 29 := by
      have := hcontained.1
      omega
    rw [parseBgpOpenMsgRaw_eq h htype, parseBgpOpenMsgRaw_eq (h.append more) htype, if_neg hshort, if_neg hshort,
      hcontained.parseOpenBody_append more]

theorem parseBgpUpdateRaw_append_iff (htype : hdr.type = BgpMessageType.bgpMsgTypeUpdate.code)
    (capabilities : BgpCapabilities) :
    (∀ more, parseBgpUpdateRaw (m ++ more) capabilities = parseBgpUpdateRaw m capabilities) ↔
      kMinBgpUpdateMsgLen ≤ m.length := by
  constructor
  · intro hall
    have hone := hall [0]
    rw [parseBgpUpdateRaw_eq h htype, parseBgpUpdateRaw_eq (h.append [0]) htype] at hone
    split at hone
    · exact absurd hone (badMsgLen_append_ne _ _ _)
    · omega
  · intro hmin more
    have hshort : ¬hdr.length < kMinBgpUpdateMsgLen := by omega
    rw [parseBgpUpdateRaw_eq h htype, parseBgpUpdateRaw_eq (h.append more) htype, if_neg hshort, if_neg hshort,
      drop_append_of_le_length h.headerLen_le,
      take_append_of_le_length (by rw [length_drop, hlen])]

theorem parseBgpNotificationRaw_append_iff (htype : hdr.type = BgpMessageType.bgpMsgTypeNotification.code) :
    (∀ more, parseBgpNotificationRaw (m ++ more) = parseBgpNotificationRaw m) ↔ NotificationContained m := by
  constructor
  · intro hall
    have hone := hall [0]
    rw [parseBgpNotificationRaw_eq h htype, parseBgpNotificationRaw_eq (h.append [0]) htype] at hone
    split at hone
    · exact absurd hone (badMsgLen_append_ne _ _ _)
    · rw [fieldAt_append _ (by omega), fieldAt_append _ (by omega)] at hone
      refine ⟨by omega, ?_⟩
      cases hsub : notifSubCodeStr (fieldAt m 19 1) (fieldAt m 20 1) with
      | error ex => exact ⟨ex, rfl⟩
      | ok errSubCodeStr =>
        -- the data of the longer buffer has one more byte
        rw [hsub] at hone
        have hdata := congrArg (fun msg => msg.data.length) (Except.ok.inj hone)
        rw [length_drop, length_drop, length_append, length_cons] at hdata
        omega
  · rintro ⟨hmin, ex, hex⟩ more
    have hshort : ¬hdr.length < 21 := by omega
    rw [parseBgpNotificationRaw_eq h htype, parseBgpNotificationRaw_eq (h.append more) htype, if_neg hshort,
      if_neg hshort, fieldAt_append _ (by omega), fieldAt_append _ (by omega), hex]
    rfl

omit hlen in
theorem parseBgpRouteRefreshRaw_append_iff (htype : hdr.type = BgpMessageType.bgpMsgTypeRouteRefresh.code) :
    (∀ more, parseBgpRouteRefreshRaw (m ++ more) = parseBgpRouteRefreshRaw m) ↔ kBgpMsgHeaderLen + 4 ≤ m.length := by
  rw [kBgpMsgHeaderLen]
  have hheader := h.headerLen_le
  rw [kBgpMsgHeaderLen] at hheader
  constructor
  · intro hall
    by_contra hshort
    -- four more bytes are enough for the fields to be read
    have hfour := hall [0, 0, 0, 0]
    have hlen' : (m ++ [0, 0, 0, 0]).length = m.length + 4 := length_append
    rw [parseBgpRouteRefreshRaw_eq h htype, parseBgpRouteRefreshRaw_eq (h.append _) htype,
      if_pos (by omega : m.length < 23), if_neg (by omega)] at hfour
    split at hfour <;> cases hfour
  · intro hmin more
    rw [parseBgpRouteRefreshRaw_eq h htype, parseBgpRouteRefreshRaw_eq (h.append more) htype,
      if_neg (by rw [length_append]; omega), if_neg (by omega : ¬m.length < 23), fieldAt_append _ (by omega),
      fieldAt_append _ (by omega), fieldAt_append _ (by omega)]

theorem receiveMessage_append_iff (capabilities : BgpCapabilities) :
    (∀ more, receiveMessage (m ++ more) (some capabilities) = receiveMessage m (some capabilities)) ↔
      SelfContained m := by
  obtain ⟨-, -, -, hhdr⟩ := h.check
  have htypes : hdr.type = headerType m := by rw [hhdr]
  simp only [receiveMessage_eq h, receiveMessage_eq (h.append _), SelfContained, ← htypes]
  split
  next htype =>
    rw [← parseBgpOpenMsgRaw_append_iff h hlen htype]
    exact forall_congr' fun more => bind_ok_inj fun a b hab => Callback.rcvdBgpOpenMsg.inj hab
  split
  next htype =>
    rw [← parseBgpUpdateRaw_append_iff h hlen htype capabilities]
    refine forall_congr' fun more => bind_ok_inj fun a b hab => ?_
    cases a <;> cases b <;> cases hab <;> rfl
  split
  next htype =>
    rw [← parseBgpNotificationRaw_append_iff h hlen htype]
    exact forall_congr' fun more => bind_ok_inj fun a b hab => Callback.rcvdBgpNotification.inj hab
  split
  · next htype =>
    refine iff_true_intro fun more => ?_
    rw [parseBgpKeepAliveRaw_eq h htype, parseBgpKeepAliveRaw_eq (h.append more) htype]
  split
  next htype =>
    rw [← parseBgpRouteRefreshRaw_append_iff h htype]
    exact forall_congr' fun more => bind_ok_inj fun a b hab => Callback.rcvdBgpRouteRefresh.inj hab
  -- the text of the exception shows the whole buffer
  · refine iff_false_intro fun hall => ?_
    have hargs := congrArg What.args (Exception.bgpException.inj (Except.error.inj (hall [0])))
    simp at hargs

end

section

def Callback.IsReceived : Callback → Prop
  | .rcvdBgpOpenMsg _ => True
  | .rcvdBgpNotification _ => True
  | .rcvdBgpKeepAlive => True
  | .rcvdBgpUpdate _ => True
  | .rcvdBgpEndOfRib _ => True
  | .rcvdBgpRouteRefresh _ => True
  | _ => False

variable {hdr : BgpMessageHeader} {buf : Bytes}

theorem receiveMessage_isReceived (h : HoldsMessage buf hdr) (capabilities : BgpCapabilities) :
    Ensures Callback.IsReceived (fun _ => True) (receiveMessage buf (some capabilities)) := by
  rw [receiveMessage_eq h]
  refine ensures_ite (fun _ => (ensures_self _).bind fun _ _ => trivial) fun _ => ?_
  refine ensures_ite (fun _ => (ensures_self _).bind fun msg _ => by cases msg <;> trivial) fun _ => ?_
  refine ensures_ite (fun _ => (ensures_self _).bind fun _ _ => trivial) fun _ => ?_
  refine ensures_ite (fun _ => (ensures_self _).bind fun _ _ => trivial) fun _ => ?_
  exact ensures_ite (fun _ => (ensures_self _).bind fun _ _ => trivial) fun _ => trivial

/-- What a result of the parser was made from. -/
def ParseResult.origin (result : ParseResult) : Option (Except Exception Callback) :=
  match result.escaped, result.calls with
  | some ex, _ => some (.error ex)
  | none, [.handleBgpException ex] => some (.error ex)
  | none, [.handleBgpFsmException ex] => some (.error ex)
  | none, [.handleBgpHeaderException ex] => some (.error ex)
  | none, [.handleBgpOpenMsgException ex] => some (.error ex)
  | none, [.handleBgpUpdateMsgException ex] => some (.error ex)
  | none, [.handleBgpRouteRefreshMsgException ex] => some (.error ex)
  | none, [call] => some (.ok call)
  | none, _ => none

theorem origin_parseBgpMessage {capabilities : Option BgpCapabilities}
    (h : Ensures Callback.IsReceived (fun _ => True) (receiveMessage buf capabilities)) :
    (parseBgpMessage buf capabilities).origin = some (receiveMessage buf capabilities) := by
  rw [parseBgpMessage]
  cases hreceive : receiveMessage buf capabilities with
  | error ex => cases ex <;> rfl
  | ok call =>
    rw [hreceive] at h
    cases call <;> first | rfl | exact h.elim

theorem parseBgpMessage_append_iff {m : Bytes} (h : HoldsMessage m hdr)
    (hlen : hdr.length = m.length) (capabilities : BgpCapabilities) :
    (∀ more, parseBgpMessage (m ++ more) (some capabilities) = parseBgpMessage m (some capabilities)) ↔
      SelfContained m := by
  rw [← receiveMessage_append_iff h hlen capabilities]
  refine forall_congr' fun more => ⟨fun heq => ?_, fun heq => ?_⟩
  · have horigin := congrArg ParseResult.origin heq
    rwa [origin_parseBgpMessage (receiveMessage_isReceived h capabilities),
      origin_parseBgpMessage (receiveMessage_isReceived (h.append more) capabilities), Option.some.injEq] at horigin
  · rw [parseBgpMessage, heq, parseBgpMessage]

end

namespace FiberBgpParser

/-- A self-contained message is handled alike whatever follows it. -/
theorem handleMessage_append {m : Bytes} (hfront : nextMessage m = .message m.length) (h : SelfContained m)
    (negotiatedCaps : BgpCapabilities) (more : Bytes) :
    handleMessage negotiatedCaps (m ++ more) = handleMessage negotiatedCaps m := by
  obtain ⟨hdr, hholds, hlen⟩ := nextMessage_eq_message.mp hfront
  rw [handleMessage, (parseBgpMessage_append_iff hholds hlen negotiatedCaps).mpr h more]
  rfl

/-- The result of a message depends on what follows it unless it is self-contained; and where every message
that something follows is, the entries of a session up to the first error do not depend on how the stream
was cut into buffers. -/
theorem processBuffers_of_contained (myCaps : BgpCapabilities) :
    (∀ (m : Bytes) (hdr : BgpMessageHeader), HoldsMessage m hdr → hdr.length = m.length →
      ((∀ more, parseBgpMessage (m ++ more) (some myCaps) = parseBgpMessage m (some myCaps)) ↔ SelfContained m)) ∧
    ∀ bufs bufs' : List Bytes, bufs.flatten = bufs'.flatten → Contained machine SelfContained bufs.flatten →
      upToError (processBuffers myCaps bufs).entries = upToError (processBuffers myCaps bufs').entries := by
  refine ⟨fun m hdr h hlen => parseBgpMessage_append_iff h hlen myCaps, ?_⟩
  intro bufs bufs' hflatten hcontained
  rw [processBuffers, processBuffers, processBuffersFrom_eq_receive, processBuffersFrom_eq_receive]
  exact hcontained.receive_eq (fun m hfront hm caps more => handleMessage_append hfront hm caps more) myCaps rfl
    hflatten.symm

def keepAlive : Bytes := kBgpMarker ++ [0, 19, 4]

/-- An administrative shutdown, without data. -/
def ceaseNotification : Bytes := kBgpMarker ++ [0, 21, 3, 6, 2]

theorem processBuffers_of_contained_keepAlive : SelfContained keepAlive ∧
      (∀ more, parseBgpMessage (keepAlive ++ more) (some {}) = parseBgpMessage keepAlive (some {})) ∧
      upToError (processBuffers {} [keepAlive ++ keepAlive]).entries =
        upToError (processBuffers {} [keepAlive, keepAlive]).entries := by
  have hself : SelfContained keepAlive := trivial
  have hcontained : Contained machine SelfContained [keepAlive ++ keepAlive].flatten :=
    .next (n := 19) rfl (fun _ => hself) (.next (n := 19) rfl (fun _ => hself) (.stop fun _ => nofun))
  exact ⟨hself, ((processBuffers_of_contained {}).1 keepAlive ⟨19, 4⟩ ⟨rfl, by decide⟩ rfl).mpr hself,
    (processBuffers_of_contained {}).2 _ _ rfl hcontained⟩

/-- The data of a notification takes in the message that follows it in the buffer. -/
theorem processBuffers_ceaseNotification :
    [ceaseNotification ++ keepAlive].flatten = [ceaseNotification, keepAlive].flatten ∧
      upToError (processBuffers {} [ceaseNotification ++ keepAlive]).entries =
        [.ok (.bgpNotification ⟨.named .bnCease, 2, "BN_CEASE_ADMIN_SHUTDOWN", keepAlive⟩), .ok .bgpKeepAlive] ∧
      upToError (processBuffers {} [ceaseNotification, keepAlive]).entries =
        [.ok (.bgpNotification ⟨.named .bnCease, 2, "BN_CEASE_ADMIN_SHUTDOWN", []⟩), .ok .bgpKeepAlive] := by
  exact ⟨rfl, rfl, rfl⟩

end FiberBgpParser

end FbossBgp.BgpLib
