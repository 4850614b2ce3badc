import FbossBgp.BgpLib.Containment

/-! Every message in the buffer is answered by one callback, for a message of its type or for an exception that a
message of its type can cause: the fields of an UPDATE message fail only with an UPDATE error. A ROUTE_REFRESH
message that is too short for its fields is the exception. -/

namespace FbossBgp.BgpLib

open Bytes Outcome Reader List

section

variable {capa : BgpCapabilities} {attrBeingParsed : Bytes}

theorem addAsn_ensures (segmentType : Nat) (seg : BgpAttrAsPathSegment) (asn : Int) :
    FailsOnly UpdateOrRange (addAsn segmentType seg asn) := by
  unfold addAsn
  split
  all_goals first | trivial | exact .inl trivial

/-- By induction on the AS numbers left. -/
theorem readAsns_ensures (as4byte : Bool) (segmentType asCnt : Nat) (seg : BgpAttrAsPathSegment) (cursor : Bytes) :
    Ensures (fun next => next.2.length ≤ cursor.length) UpdateOrRange
      (readAsns as4byte segmentType asCnt seg cursor) := by
  induction asCnt generalizing seg cursor with
  | zero => exact le_rfl
  | succ asCnt ih =>
    refine ensures_read_bind fun asn _ => ?_
    refine (addAsn_ensures segmentType seg _).bind fun seg₁ _ => (ih seg₁ _).mono ?_ fun _ h => h
    rintro ⟨seg₂, cursor₂⟩ hless
    rw [length_drop] at hless
    exact hless.trans (Nat.sub_le _ _)

/-- Each turn over the AS path takes a segment off. -/
theorem parseSegment_ensures : ConsumesOr (parseSegment capa attrBeingParsed) UpdateOrRange := by
  intro asPath cursor
  refine ensures_ite (fun _ => .inl trivial) fun hlen => ?_
  refine ensures_read_bind fun segmentType hread₁ => ?_
  refine ensures_read_bind fun asCnt hread₂ => ?_
  refine ensures_ite (fun _ => .inl trivial) fun _ => ?_
  refine (readAsns_ensures capa.as4byte segmentType asCnt {} _).bind ?_
  rintro ⟨seg, cursor₃⟩ hless
  rw [ensures_pure]
  simp only [length_drop] at hless ⊢
  omega

theorem parseSegment_consumes : Consumes (parseSegment capa attrBeingParsed) := parseSegment_ensures.consumes

end

theorem readCommunity_ensures : ConsumesOr readCommunity UpdateOrRange := by
  intro communities cursor
  refine ensures_read_bind fun asn hread₁ => ?_
  refine ensures_read_bind fun value hread₂ => ?_
  rw [ensures_pure, length_drop, length_drop]
  omega

theorem readClusterId_ensures : ConsumesOr readClusterId UpdateOrRange := by
  intro clusterList cursor
  refine (ensures_pull fun _ => .inr rfl).bind ?_
  rintro ⟨clusterId, cursor₁⟩ ⟨-, rfl, hread⟩
  rw [ensures_pure, length_drop]
  omega

theorem readExtCommunity_ensures : ConsumesOr readExtCommunity UpdateOrRange := by
  intro extCommunities cursor
  refine ensures_read_bind fun firstWord hread₁ => ?_
  refine ensures_read_bind fun secondWord hread₂ => ?_
  rw [ensures_pure, length_drop, length_drop]
  omega

theorem readLargeCommunity_ensures : ConsumesOr readLargeCommunity UpdateOrRange := by
  intro largeCommunities cursor
  refine ensures_read_bind fun asn hread₁ => ?_
  refine ensures_read_bind fun localData1 hread₂ => ?_
  refine ensures_read_bind fun localData2 hread₃ => ?_
  rw [ensures_pure, length_drop, length_drop, length_drop]
  omega

section

variable {capa : BgpCapabilities} {attrBeingParsed : Bytes} {attrType : UInt8} (cursor : Bytes)

theorem readV6Nexthop_ensures (nextHopLen : Nat) (cursor : Bytes) :
    FailsOnly UpdateOrRange (readV6Nexthop nextHopLen cursor) := by
  refine (ensures_pull fun _ => .inr rfl).bind ?_
  rintro ⟨buf, cursor₁⟩ ⟨rfl, rfl, hread⟩
  dsimp only
  rw [IPAddress.fromBinary_v6 (by rw [length_take]; omega)]
  refine ensures_ite (fun _ => ?_) fun _ => trivial
  exact (ensures_pull fun _ => .inr rfl).bind fun _ _ => trivial

theorem readMpV4Nexthop_ensures : FailsOnly UpdateOrRange (readMpV4Nexthop capa attrBeingParsed cursor) := by
  refine ensures_read_bind fun next₁ _ => ?_
  refine ensures_ite (fun _ => .inl trivial) fun _ => ensures_ite (fun _ => .inl trivial) fun _ => ?_
  refine ensures_ite (fun _ => ?_) fun _ => readV6Nexthop_ensures _ _
  exact ensures_read_bind fun _ _ => trivial

theorem readMpV6Nexthop_ensures : FailsOnly UpdateOrRange (readMpV6Nexthop attrBeingParsed cursor) := by
  refine ensures_read_bind fun next₁ _ => ?_
  exact ensures_ite (fun _ => .inl trivial) fun _ => readV6Nexthop_ensures _ _

theorem parseMpAnnounced_ensures {readNexthop : Bytes → Except Exception (IPAddress × Bytes)}
    (hnh : ∀ cursor, FailsOnly UpdateOrRange (readNexthop cursor)) (afi : BgpUpdateAfi)
    (state : UpdateMsgParsingState) (cursor : Bytes) : FailsOnly UpdateOrRange
      (parseMpAnnounced capa attrBeingParsed attrType readNexthop afi state cursor) := by
  refine (hnh cursor).bind fun next₁ _ => ?_
  refine (ensures_pull fun _ => .inr rfl).bind fun next₂ _ => ?_
  exact (parseMpNlri_ensures _ afi _ capa attrBeingParsed attrType).bind fun _ _ => trivial

variable (state : UpdateMsgParsingState)

theorem parseMpReachNlri_ensures (cursor : Bytes) :
    FailsOnly UpdateOrRange (parseMpReachNlri capa attrBeingParsed attrType state cursor) := by
  refine ensures_read_bind fun next₁ _ => ?_
  refine ensures_read_bind fun next₂ _ => ?_
  refine ensures_ite (fun _ => parseMpAnnounced_ensures readMpV4Nexthop_ensures _ _ _) fun _ => ?_
  exact ensures_ite (fun _ => parseMpAnnounced_ensures readMpV6Nexthop_ensures _ _ _) fun _ => trivial

theorem parseMpWithdrawn_ensures (afi : BgpUpdateAfi) (state : UpdateMsgParsingState) (cursor : Bytes) :
    FailsOnly UpdateOrRange
      (parseMpWithdrawn capa attrBeingParsed attrType afi state cursor) := by
  refine ensures_ite (fun _ => trivial) fun _ => ?_
  exact (parseMpNlri_ensures _ afi _ capa attrBeingParsed attrType).bind fun _ _ => trivial

theorem parseMpUnreachNlri_ensures (cursor : Bytes) :
    FailsOnly UpdateOrRange (parseMpUnreachNlri capa attrBeingParsed attrType state cursor) := by
  refine ensures_read_bind fun next₁ _ => ?_
  refine ensures_read_bind fun next₂ _ => ?_
  refine ensures_ite (fun _ => parseMpWithdrawn_ensures _ _ _) fun _ => ?_
  exact ensures_ite (fun _ => parseMpWithdrawn_ensures _ _ _) fun _ => .inl trivial

end

section

variable {capa : BgpCapabilities} {attr : AttrHeader} {attrBeingParsed : Bytes} {rawAttrLen : Nat}
  (state : UpdateMsgParsingState)

/-- An attribute fails as an UPDATE or runs past its end. -/
theorem parseAttrBody_ensures (body : Bytes) :
    FailsOnly UpdateOrRange (parseAttrBody capa attr attrBeingParsed rawAttrLen state body) := by
  rw [parseAttrBody]
  split
  · refine ensures_read_bind fun _ _ => ?_
    exact ensures_ite (fun _ => .inl trivial) fun _ => trivial
  · exact (untilEmpty_ensures parseSegment_ensures [] body).bind fun _ _ => trivial
  · refine ensures_ite (fun _ => .inl trivial) fun _ => ?_
    exact ensures_read_bind fun _ _ => trivial
  · exact ensures_read_bind fun _ _ => trivial
  · exact ensures_read_bind fun _ _ => trivial
  · trivial
  · refine ensures_read_bind fun _ _ => ?_
    refine ensures_read_bind fun _ _ => ?_
    exact ensures_ite (fun _ => .inl trivial) fun _ => trivial
  · exact (untilEmpty_ensures readCommunity_ensures _ body).bind fun _ _ => trivial
  · refine (ensures_pull fun _ => .inr rfl).bind fun _ _ => ?_
    exact ensures_ite (fun _ => .inl trivial) fun _ => trivial
  · exact (untilEmpty_ensures readClusterId_ensures _ body).bind fun _ _ => trivial
  · exact parseMpReachNlri_ensures state body
  · exact parseMpUnreachNlri_ensures state body
  · exact (untilEmpty_ensures readExtCommunity_ensures _ body).bind fun _ _ => trivial
  · exact (untilEmpty_ensures readLargeCommunity_ensures _ body).bind fun _ _ => trivial
  · trivial
  · trivial

variable (cursor : Bytes)

theorem readAttrHeader_ensures :
    Ensures (fun next => next.2.length < cursor.length) UpdateOrRange (readAttrHeader cursor) := by
  refine ensures_read_bind fun flags hread₁ => ?_
  refine ensures_read_bind fun type hread₂ => ?_
  refine ensures_read_bind fun bodyLen hread₃ => ?_
  rw [ensures_pure]
  simp only [length_drop]
  omega

theorem checkAttr_ensures (rest : Bytes) : FailsOnly UpdateOrRange (checkAttr attr attrBeingParsed rest) := by
  have hflag : FailsOnly UpdateOrRange
      (checkPathAttributeFlag attr.flags attr.type attrBeingParsed) := by
    rw [checkPathAttributeFlag]
    split
    · exact ensures_ite (fun _ => .inl trivial) fun _ => trivial
    · trivial
  refine hflag.bind fun _ _ => ensures_ite (fun _ => .inl trivial) fun _ => ?_
  exact ensures_ite (fun _ => .inl trivial) fun _ => ensures_ite (fun _ => .inl trivial) fun _ => trivial

/-- Each turn over the attributes takes a header off. -/
theorem parseAttr_ensures : ConsumesOr (parseAttr capa) UpdateOrRange := by
  intro state cursor
  refine (readAttrHeader_ensures cursor).bind ?_
  rintro ⟨attr, rest⟩ hheader
  refine (checkAttr_ensures rest).bind fun _ _ => ?_
  refine (ensures_pull fun _ => .inr rfl).bind ?_
  rintro ⟨body, after⟩ ⟨-, rfl, -⟩
  refine (parseAttrBody_ensures state body).bind fun _ _ => ?_
  rw [ensures_pure, length_drop]
  dsimp only at hheader
  omega

/-- A read past the end counts as a malformed list. -/
theorem parsePathAttribute_ensures : ConsumesOr (parsePathAttribute capa) IsUpdateMsgException :=
  fun state cursor => catchOutOfRange_ensures (fun _ => trivial) (parseAttr_ensures state cursor)

theorem parsePathAttribute_consumes : Consumes (parsePathAttribute capa) := parsePathAttribute_ensures.consumes

theorem readFieldLen_ensures (tooShort : String) (cursor : Bytes) :
    Ensures (fun next => next.2.length < cursor.length) IsUpdateMsgException (readFieldLen tooShort cursor) := by
  refine ensures_ite (fun _ => trivial) fun hlen => ?_
  refine (ensures_readBE fun hlt => absurd hlt hlen).mono ?_ fun _ h => h
  rintro ⟨n, rest⟩ ⟨-, rfl, hread⟩
  rw [length_drop]
  omega

section

variable (state : UpdateMsgParsingState)

theorem parsePathAttributes_ensures (cursor : Bytes) :
    FailsOnly IsUpdateMsgException (parsePathAttributes capa state cursor) := by
  refine (readFieldLen_ensures _ cursor).bind fun next _ => ?_
  refine ensures_ite (fun _ => trivial) fun _ => ensures_ite (fun _ => trivial) fun hfits => ?_
  refine (ensures_pull fun hlt => absurd hlt hfits).bind fun next _ => ?_
  exact (untilEmpty_ensures parsePathAttribute_ensures _ _).bind fun _ _ => trivial

theorem parseV4Withdrawn_ensures (cursor : Bytes) :
    FailsOnly IsUpdateMsgException (parseV4Withdrawn capa state cursor) := by
  refine (readFieldLen_ensures _ cursor).bind fun next _ => ?_
  refine ensures_ite (fun _ => trivial) fun _ => ensures_ite (fun _ => trivial) fun hfits => ?_
  refine (ensures_pull fun hlt => absurd hlt hfits).bind fun next _ => ?_
  have hnlri := (parseNlri_ensures next.1 .afiIPv4 .safiUnicast capa).mono_error fun _ => OrRange.of
  refine Ensures.bind (catchOutOfRange_ensures (fun _ => ?_) hnlri) fun _ _ => trivial
  trivial

theorem parseV4Announced_ensures (cursor : Bytes) :
    FailsOnly IsUpdateMsgException (parseV4Announced capa state cursor) := by
  refine ensures_ite (fun _ => trivial) fun _ => ?_
  exact (parseNlri_ensures cursor .afiIPv4 .safiUnicast capa).bind fun _ _ => trivial

theorem doSanityChecks_ensures : FailsOnly IsUpdateMsgException (doSanityChecks state) := by
  exact ensures_ite (fun _ => trivial) fun _ => ensures_ite (fun _ => trivial) fun _ => trivial

end

end

def BadLength (type : UInt8) (length : Nat) : Prop :=
  type = BgpMessageType.bgpMsgTypeOpen.code ∧ length < 29 ∨
    type = BgpMessageType.bgpMsgTypeUpdate.code ∧ length < kMinBgpUpdateMsgLen ∨
    type = BgpMessageType.bgpMsgTypeNotification.code ∧ length < 21 ∨
    type = BgpMessageType.bgpMsgTypeKeepalive.code ∧ length ≠ kBgpMsgHeaderLen

def Unsupported (type : UInt8) : Prop := ∀ known : BgpMessageType, type ≠ known.code

variable (buf : Bytes) (capabilities : Option BgpCapabilities)

/-- The callbacks for the message at the front of a buffer: what was received has the type that the header
gives, and an exception has the class that goes with it. -/
def Callback.Matches : Callback → Prop
  | .rcvdBgpOpenMsg _ => headerType buf = BgpMessageType.bgpMsgTypeOpen.code
  | .rcvdBgpNotification _ => headerType buf = BgpMessageType.bgpMsgTypeNotification.code
  | .rcvdBgpKeepAlive => headerType buf = BgpMessageType.bgpMsgTypeKeepalive.code
  | .rcvdBgpUpdate _ => headerType buf = BgpMessageType.bgpMsgTypeUpdate.code
  | .rcvdBgpEndOfRib _ => headerType buf = BgpMessageType.bgpMsgTypeUpdate.code
  | .rcvdBgpRouteRefresh _ => headerType buf = BgpMessageType.bgpMsgTypeRouteRefresh.code
  | .handleBgpException (.bgpException _) =>
    headerType buf = BgpMessageType.bgpMsgTypeNotification.code ∨ Unsupported (headerType buf)
  | .handleBgpFsmException (.bgpFsmException _) =>
    headerType buf = BgpMessageType.bgpMsgTypeUpdate.code ∧ capabilities = none
  | .handleBgpHeaderException (.bgpHeaderException _ _ _) =>
    kBgpMarker ≠ headerMarker buf ∨ BadLength (headerType buf) (headerLength buf)
  | .handleBgpOpenMsgException (.bgpOpenMsgException _ _ _) =>
    headerType buf = BgpMessageType.bgpMsgTypeOpen.code
  | .handleBgpUpdateMsgException (.bgpUpdateMsgException _ _ _) =>
    headerType buf = BgpMessageType.bgpMsgTypeUpdate.code
  | .handleBgpRouteRefreshMsgException (.bgpRouteRefreshMsgException _ _ _) =>
    headerType buf = BgpMessageType.bgpMsgTypeRouteRefresh.code
  | _ => False

/-- The parser returns after one callback, which matches the message. -/
def AnsweredOnce (result : ParseResult) : Prop :=
  ∃ call, result = ⟨[call], none⟩ ∧ call.Matches buf capabilities

section

variable {buf : Bytes} {capabilities : Option BgpCapabilities} {hdr : BgpMessageHeader}

/-- The exceptions that are caught, by a callback that matches the message. -/
def Answered (buf : Bytes) (capabilities : Option BgpCapabilities) (ex : Exception) : Prop :=
  AnsweredOnce buf capabilities (handleException ex)

theorem answered_open (htype : headerType buf = BgpMessageType.bgpMsgTypeOpen.code)
    (subcode : BgpNotifOpenMsgErrSubCode.Name) (data : Bytes) (what : What) :
    Answered buf capabilities (.bgpOpenMsgException subcode data what) :=
  ⟨_, rfl, htype⟩

/-- UPDATE exceptions are answered for UPDATE messages. -/
theorem answered_update (htype : headerType buf = BgpMessageType.bgpMsgTypeUpdate.code) {ex : Exception}
    (h : IsUpdateMsgException ex) : Answered buf capabilities ex := by
  cases ex with
  | bgpUpdateMsgException subcode data what => exact ⟨_, rfl, htype⟩
  | _ => exact h.elim

theorem answered_badLength (hlen : BadLength (headerType buf) (headerLength buf)) (what : What) :
    Answered buf capabilities (badMsgLen (headerLength buf) what) :=
  ⟨_, rfl, .inr hlen⟩

theorem answered_notification (htype : headerType buf = BgpMessageType.bgpMsgTypeNotification.code) (what : What) :
    Answered buf capabilities (.bgpException what) :=
  ⟨_, rfl, .inl htype⟩

theorem parseOpenBody_ensures (htype : headerType buf = BgpMessageType.bgpMsgTypeOpen.code) (h : 29 ≤ buf.length) :
    FailsOnly (Answered buf capabilities) (parseOpenBody (buf.drop kBgpMsgHeaderLen)) := by
  rw [parseOpenBody_eq h]
  refine ensures_ite (fun _ => answered_open htype _ _ _) fun _ => ?_
  refine ensures_ite (fun _ => answered_open htype _ _ _) fun _ => ?_
  refine ensures_ite (fun _ => answered_open htype _ _ _) fun _ => ?_
  have hparams := untilEmpty_ensures (parseOpenParam_ensures (buf.length - 29)) {} (openParams buf)
  refine (hparams.mono_error fun ex hex => ?_).bind fun _ _ => trivial
  cases ex with
  | bgpOpenMsgException subcode data what => exact answered_open htype subcode data what
  | _ => exact hex.elim

/-- An UPDATE fails with UPDATE exceptions only. -/
theorem parseUpdateBody_ensures (cursor : Bytes) (capa : BgpCapabilities) :
    FailsOnly IsUpdateMsgException (parseUpdateBody cursor capa) := by
  refine (parseV4Withdrawn_ensures {} cursor).bind fun next _ => ?_
  refine (parsePathAttributes_ensures next.1 next.2).bind fun next' _ => ?_
  refine ensures_ite (fun _ => ensures_ite (fun _ => trivial) fun _ => trivial) fun _ => ?_
  refine (parseV4Announced_ensures next'.1 next'.2).bind fun state _ => ?_
  refine (doSanityChecks_ensures state).bind fun _ _ => ?_
  cases state.eor with
  | some eor => trivial
  | none => trivial

theorem checkSubCode_ensures (htype : headerType buf = BgpMessageType.bgpMsgTypeNotification.code) (limit : Nat)
    (unknown : String) (name : Int → String) (code subCode : Nat) :
    FailsOnly (Answered buf capabilities) (checkSubCode limit unknown name code subCode) := by
  exact ensures_ite (fun _ => answered_notification htype _) fun _ =>
    ensures_ite (fun _ => trivial) fun _ => trivial

theorem notifSubCodeStr_ensures (htype : headerType buf = BgpMessageType.bgpMsgTypeNotification.code)
    (code subCode : Nat) : FailsOnly (Answered buf capabilities) (notifSubCodeStr code subCode) := by
  unfold notifSubCodeStr
  split
  · exact checkSubCode_ensures htype _ _ _ _ _
  · exact checkSubCode_ensures htype _ _ _ _ _
  · exact checkSubCode_ensures htype _ _ _ _ _
  · exact checkSubCode_ensures htype _ _ _ _ _
  · trivial
  · trivial
  · exact ensures_ite (fun _ => answered_notification htype _) fun _ => trivial
  · exact answered_notification htype _

/-- Every message but a short ROUTE_REFRESH is parsed, or rejected as its type allows. -/
theorem receiveMessage_ensures (h : HoldsMessage buf hdr)
    (hrefresh : ¬(headerType buf = BgpMessageType.bgpMsgTypeRouteRefresh.code ∧ buf.length < kBgpMsgHeaderLen + 4)) :
    Ensures (Callback.Matches buf capabilities) (Answered buf capabilities) (receiveMessage buf capabilities) := by
  obtain ⟨-, -, -, rfl⟩ := h.check
  have hle := h.length_le
  rw [receiveMessage_eq h]
  refine ensures_ite (fun htype => ?_) fun hopen => ?_
  · have hraw : FailsOnly (Answered buf capabilities) (parseBgpOpenMsgRaw buf) := by
      rw [parseBgpOpenMsgRaw_eq h htype]
      refine ensures_ite (fun hshort => answered_badLength (.inl ⟨htype, hshort⟩) _) fun hlong => ?_
      exact parseOpenBody_ensures htype (by omega)
    exact hraw.bind fun _ _ => htype
  refine ensures_ite (fun htype => ?_) fun hupd => ?_
  · cases capabilities with
    | none => exact ⟨_, rfl, htype, rfl⟩
    | some capa =>
      have hraw : FailsOnly (Answered buf (some capa)) (parseBgpUpdateRaw buf capa) := by
        rw [parseBgpUpdateRaw_eq h htype]
        refine ensures_ite (fun hshort => answered_badLength (.inr (.inl ⟨htype, hshort⟩)) _) fun _ => ?_
        exact (parseUpdateBody_ensures _ capa).mono_error fun _ => answered_update htype
      exact hraw.bind fun msg _ => by cases msg <;> exact htype
  refine ensures_ite (fun htype => ?_) fun hnotification => ?_
  · have hraw : FailsOnly (Answered buf capabilities) (parseBgpNotificationRaw buf) := by
      rw [parseBgpNotificationRaw_eq h htype]
      refine ensures_ite (fun hshort => answered_badLength (.inr (.inr (.inl ⟨htype, hshort⟩))) _) fun _ => ?_
      exact (notifSubCodeStr_ensures htype _ _).bind fun _ _ => trivial
    exact hraw.bind fun _ _ => htype
  refine ensures_ite (fun htype => ?_) fun hkeepalive => ?_
  · rw [parseBgpKeepAliveRaw_eq h htype]
    refine Ensures.bind (Q := fun _ => True) (ensures_ite (fun hbad => ?_) fun _ => trivial) fun _ _ => htype
    exact answered_badLength (.inr (.inr (.inr ⟨htype, hbad⟩))) _
  refine ensures_ite (fun htype => ?_) fun hroute => ?_
  · rw [parseBgpRouteRefreshRaw_eq h htype, if_neg fun hshort : buf.length < 23 => hrefresh ⟨htype, hshort⟩]
    refine Ensures.bind (Q := fun _ => True) (ensures_ite (fun _ => ?_) fun _ => trivial) fun _ _ => htype
    exact ⟨_, rfl, htype⟩
  · refine ⟨_, rfl, .inr fun known => ?_⟩
    cases known <;> assumption

/-- What is thrown is answered by its handler. -/
theorem answeredOnce_of_ensures
    (h : Ensures (Callback.Matches buf capabilities) (Answered buf capabilities) (receiveMessage buf capabilities)) :
    AnsweredOnce buf capabilities (parseBgpMessage buf capabilities) := by
  rw [parseBgpMessage]
  cases hreceive : receiveMessage buf capabilities with
  | ok call => exact ⟨call, rfl, h.of_ok hreceive⟩
  | error ex => exact h.of_error hreceive

/-- The short ROUTE_REFRESH message: the read past the end is caught nowhere. -/
theorem parseBgpMessage_routeRefresh (h : HoldsMessage buf hdr)
    (htype : hdr.type = BgpMessageType.bgpMsgTypeRouteRefresh.code) (hshort : buf.length < kBgpMsgHeaderLen + 4) :
    parseBgpMessage buf capabilities = ⟨[], some underflow⟩ := by
  have hreceive : receiveMessage buf capabilities = .error underflow := by
    rw [receiveMessage_eq h, htype, parseBgpRouteRefreshRaw_eq h htype, if_pos (show buf.length < 23 from hshort)]
    rfl
  rw [parseBgpMessage, hreceive]
  rfl

end

/-- Exactly one callback is called and nothing escapes, unless a ROUTE_REFRESH message ends the buffer before
its fields do. -/
theorem parseBgpMessage_answeredOnce_iff
    (hmin : kBgpMsgHeaderLen ≤ headerLength buf) (hmax : headerLength buf ≤ kMaxBgpMsgLen)
    (hlen : headerLength buf ≤ buf.length) : AnsweredOnce buf capabilities (parseBgpMessage buf capabilities) ↔
      ¬(kBgpMarker = headerMarker buf ∧ headerType buf = BgpMessageType.bgpMsgTypeRouteRefresh.code ∧
        buf.length < kBgpMsgHeaderLen + 4) := by
  have hheader := parseBgpMsgHdr_eq (hmin.trans hlen) none
  unfold checkHeader at hheader
  by_cases hmk : kBgpMarker = headerMarker buf
  · rw [if_neg (not_not.mpr hmk), if_neg (by omega)] at hheader
    have hholds : HoldsMessage buf ⟨headerLength buf, headerType buf⟩ := ⟨hheader, hlen⟩
    constructor
    · rintro ⟨call, hres, -⟩ ⟨-, htype, hshort⟩
      rw [parseBgpMessage_routeRefresh hholds htype hshort] at hres
      cases hres
    · intro hrefresh
      exact answeredOnce_of_ensures (receiveMessage_ensures hholds fun hshort => hrefresh ⟨hmk, hshort⟩)
  · rw [if_pos hmk] at hheader
    refine iff_of_true (answeredOnce_of_ensures ?_) fun hrefresh => hmk hrefresh.1
    unfold receiveMessage
    rw [hheader]
    exact ⟨_, rfl, .inl hmk⟩

theorem parseBgpMessage_answeredOnce_iff_keepAlive : headerLength FiberBgpParser.keepAlive = 19 ∧
      AnsweredOnce FiberBgpParser.keepAlive none (parseBgpMessage FiberBgpParser.keepAlive none) :=
  ⟨rfl, (parseBgpMessage_answeredOnce_iff FiberBgpParser.keepAlive none (by decide) (by decide) (by decide)).mpr
    (by decide)⟩

def shortRouteRefresh : Bytes := kBgpMarker ++ [0, 19, 5]

theorem shortRouteRefresh_escapes : headerLength shortRouteRefresh = 19 ∧ shortRouteRefresh.length = 19 ∧
      parseBgpMessage shortRouteRefresh (some {}) = ⟨[], some underflow⟩ :=
  ⟨rfl, rfl, rfl⟩

end FbossBgp.BgpLib
