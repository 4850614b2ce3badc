import FbossBgp.BgpLib.Containment
import FbossBgp.BgpLib.Packing
import Mathlib.Data.Nat.Bitwise

/-! An OPEN message that can be told on the wire is read back as it was written: its fields, and the
capabilities that it advertises. -/

namespace FbossBgp.BgpLib

open Bytes Outcome Reader Writer List

variable (msg : BgpOpenMsg)

/-- The AS number of the sender: that of the capability, where there is one. -/
def effectiveAsn : Int := if msg.capabilities.as4byte then msg.capabilities.asn else msg.asn

/-- What of a set of capabilities is told to the peer: values that belong to a capability which is not
advertised are left out, and the peer notes whether there was any multiprotocol capability. -/
def advertised (capa : BgpCapabilities) : BgpCapabilities :=
  { capa with
    mpExtExist := capa.mpExtV4Unicast || capa.mpExtV6Unicast || capa.mpExtV4LU || capa.mpExtV6LU
    asn := if capa.as4byte then capa.asn else 0
    isRestarting := capa.gracefulRestart && capa.isRestarting
    grNotification := capa.gracefulRestart && capa.grNotification
    restartTime := if capa.gracefulRestart then capa.restartTime else 0
    grCapabilities := if capa.gracefulRestart then capa.grCapabilities else [] }

/-- The capabilities have a form on the wire that the parser knows, and fit the length of their parameter. -/
structure Advertisable (capa : BgpCapabilities) : Prop where
  noLs : capa.mpExtLs = false
  asn : capa.as4byte = true → Fits 4 capa.asn
  restartTime : capa.gracefulRestart = true → 0 ≤ capa.restartTime ∧ capa.restartTime < 2 ^ 12
  grCapabilities : capa.gracefulRestart = true → ∀ gr ∈ capa.grCapabilities, gr.afi.isNamed ∧ gr.safi.isNamed
  addPathCapabilities : ∀ addPath ∈ capa.addPathCapabilities,
    addPath.afi.isNamed ∧ addPath.safi.isNamed ∧ addPath.sor.isNamed
  extNHEncodingCapabilities : ∀ extNH ∈ capa.extNHEncodingCapabilities,
    extNH.nlriAfi = .afiIPv4 ∧ extNH.nlriSafi.isNamed ∧ extNH.nhAfi = .afiIPv6
  size : (capabilityBytes capa).length ≤ 253

/-- The fixed fields are those of version 4 and fit their places. -/
structure Encodable (msg : BgpOpenMsg) : Prop where
  version : msg.version = 4
  asn : msg.capabilities.as4byte = false → Fits 2 msg.asn
  holdTime : Fits 2 msg.holdTime
  acceptable : msg.holdTime = 0 ∨ 3 ≤ msg.holdTime
  bgpID : Fits 4 msg.bgpID
  capabilities : Advertisable msg.capabilities

section

/-- One capability with a value that its parser accepts. -/
theorem takes_capability (capability : BgpCapability) (value : Bytes) {effect : BgpCapabilities → BgpCapabilities}
    (hlen : value.length < 256)
    (hbody : ∀ capa, parseCapabilityBody capa capability.code value.length value = .ok (effect capa)) :
    Takes parseCapability (capabilityHeader capability value.length ++ value) effect := by
  refine takes_of_turn parseCapability_consumes fun capa rest => ?_
  have hcode : (UInt8.ofNat capability.code).toNat = capability.code := by cases capability <;> rfl
  have hcLen : (UInt8.ofNat value.length).toNat = value.length := UInt8.toNat_ofNat_of_lt hlen
  have hbytes : capabilityHeader capability value.length ++ value ++ rest =
      UInt8.ofNat capability.code :: UInt8.ofNat value.length :: (value ++ rest) := rfl
  have hitem : parseCapabilityItem capa (capabilityHeader capability value.length ++ value ++ rest) =
      .ok (effect capa, rest) := by
    rw [hbytes, parseCapabilityItem, readBE_one_cons, ok_bind]
    dsimp only
    rw [readBE_one_cons, ok_bind, hcode, hcLen]
    rw [if_neg (by rw [length_append]; omega), pull_append underflow rest rfl, ok_bind]
    rw [hbody]
    rfl
  rw [parseCapability, hitem]
  rfl

theorem takes_ite {bytes : Bytes} {effect effect' : BgpCapabilities → BgpCapabilities} {c : Prop} [Decidable c]
    (h : c → Takes parseCapability bytes effect) (htrue : c → effect = effect') (hfalse : ¬c → id = effect') :
    Takes parseCapability (if c then bytes else []) effect' := by
  split
  next hc =>
    rw [← htrue hc]
    exact h hc
  next hc =>
    rw [← hfalse hc]
    exact takes_nil

/-- The families whose multiprotocol capability is known, and what each one sets. -/
def setMpExt : BgpUpdateAfi × BgpUpdateSafi → BgpCapabilities → BgpCapabilities
  | (.afiIPv4, .safiUnicast), capa => { capa with mpExtV4Unicast := true, mpExtExist := true }
  | (.afiIPv6, .safiUnicast), capa => { capa with mpExtV6Unicast := true, mpExtExist := true }
  | (.afiIPv4, .safiLabeledUnicast), capa => { capa with mpExtV4LU := true, mpExtExist := true }
  | (.afiIPv6, .safiLabeledUnicast), capa => { capa with mpExtV6LU := true, mpExtExist := true }
  | _, capa => capa

variable {family : BgpUpdateAfi × BgpUpdateSafi}

theorem takes_mpExtBytes
    (h : family ∈ [(.afiIPv4, .safiUnicast), (.afiIPv6, .safiUnicast), (.afiIPv4, .safiLabeledUnicast),
      (.afiIPv6, .safiLabeledUnicast)]) :
    Takes parseCapability (mpExtBytes family) (setMpExt family) := by
  simp only [mem_cons, not_mem_nil, or_false] at h
  obtain rfl | rfl | rfl | rfl := h <;>
    exact takes_capability .capaMpExt (intBE 2 _ ++ [0] ++ intBE 1 _) (by decide) fun _ => rfl

variable {capa : BgpCapabilities}

theorem mem_of_mem_mpCaps (hls : capa.mpExtLs = false) (h : family ∈ mpCaps capa) :
    family ∈ [(.afiIPv4, .safiUnicast), (.afiIPv6, .safiUnicast), (.afiIPv4, .safiLabeledUnicast),
      (.afiIPv6, .safiLabeledUnicast)] := by
  rw [mpCaps, hls] at h
  simp only [mem_append, mem_ite_nil_right, mem_singleton] at h
  simp only [mem_cons]
  tauto

theorem foldl_setMpExt (hls : capa.mpExtLs = false) (c : BgpCapabilities) :
    (mpCaps capa).foldl (fun c family => setMpExt family c) c =
      { c with
        mpExtV4Unicast := c.mpExtV4Unicast || capa.mpExtV4Unicast
        mpExtV6Unicast := c.mpExtV6Unicast || capa.mpExtV6Unicast
        mpExtV4LU := c.mpExtV4LU || capa.mpExtV4LU
        mpExtV6LU := c.mpExtV6LU || capa.mpExtV6LU
        mpExtExist := c.mpExtExist || capa.mpExtV4Unicast || capa.mpExtV6Unicast || capa.mpExtV4LU ||
          capa.mpExtV6LU } := by
  rw [mpCaps, hls]
  cases capa.mpExtV4Unicast <;> cases capa.mpExtV6Unicast <;> cases capa.mpExtV4LU <;> cases capa.mpExtV6LU <;>
    simp [setMpExt]

theorem takes_as4Byte (h : Fits 4 capa.asn) :
    Takes parseCapability (as4ByteBytes capa) fun c => { c with as4byte := true, asn := capa.asn } := by
  refine takes_capability .capaAs4Byte (intBE 4 capa.asn) (by simp) fun c => ?_
  change parseAs4Byte c (intBE 4 capa.asn).length (intBE 4 capa.asn) = _
  have hread := readBE_intBE underflow 4 capa.asn []
  rw [append_nil] at hread
  have hasn : ((capa.asn % 256 ^ 4).toNat : Int) = capa.asn := wrap_of_fits h
  rw [parseAs4Byte, hread, ok_bind]
  dsimp only
  rw [hasn]
  rfl

theorem untilEmpty_openEntries {α : Type} {body : List α → Bytes → Except Exception (List α × Bytes)}
    (hbody : ConsumesOr body OpenOrRange) {encode : α → Bytes} {items : List α}
    (hread : ∀ a ∈ items, ∀ values rest, body values (encode a ++ rest) = .ok (values ++ [a], rest)) :
    untilEmpty body [] (items.flatMap encode) = .ok items := by
  rw [untilEmpty_flatMap hbody.consumes hread, map_id', nil_append]

theorem ofInt_wrap {ν : Type} [EnumNames ν] {k : Nat} {a : OpenEnum ν} (h : Fits k a.toInt) :
    OpenEnum.ofInt ((a.toInt % 256 ^ k).toNat : Int) = a := by
  have hwrap : ((a.toInt % 256 ^ k).toNat : Int) = a.toInt := wrap_of_fits h
  rw [hwrap, OpenEnum.ofInt_toInt]

theorem fits_afi {afi : BgpUpdateAfi} (h : afi.isNamed) : Fits 2 afi.toInt := by
  cases afi with
  | named name => cases name <;> decide
  | unnamed value hval => cases h

theorem fits_safi {safi : BgpUpdateSafi} (h : safi.isNamed) : Fits 1 safi.toInt := by
  cases safi with
  | named name => cases name <;> decide
  | unnamed value hval => cases h

theorem fits_sor {sor : BgpAddPathSendRec} (h : sor.isNamed) : Fits 1 sor.toInt := by
  cases sor with
  | named name => cases name <;> decide
  | unnamed value hval => cases h

theorem readGrCapability_bytes {gr : BgpGrCapability} (h : gr.afi.isNamed ∧ gr.safi.isNamed)
    (grCapabilities : List BgpGrCapability) (rest : Bytes) :
    readGrCapability grCapabilities (grCapabilityBytes gr ++ rest) = .ok (grCapabilities ++ [gr], rest) := by
  rw [readGrCapability, grCapabilityBytes, append_assoc, append_assoc, readBE_intBE, ok_bind]
  dsimp only
  rw [readBE_intBE, ok_bind]
  rw [ofInt_wrap (fits_afi h.1), ofInt_wrap (fits_safi h.2), if_neg (by simp [h.1, h.2]), cons_append,
    readBE_one_cons, ok_bind]
  have hflag : decide ((if gr.forwardingState then 0x80 else 0 : UInt8).toNat / 2 ^ 7 ≠ 0) = gr.forwardingState := by
    cases gr.forwardingState <;> decide
  rw [hflag]
  rfl

theorem readAddPathCapability_bytes {addPath : BgpAddPathCapability}
    (h : addPath.afi.isNamed ∧ addPath.safi.isNamed ∧ addPath.sor.isNamed)
    (addPathCapabilities : List BgpAddPathCapability) (rest : Bytes) :
    readAddPathCapability addPathCapabilities (addPathCapabilityBytes addPath ++ rest) =
      .ok (addPathCapabilities ++ [addPath], rest) := by
  rw [readAddPathCapability, addPathCapabilityBytes, append_assoc, append_assoc, readBE_intBE, ok_bind]
  dsimp only
  rw [readBE_intBE, ok_bind]
  rw [readBE_intBE, ok_bind]
  rw [ofInt_wrap (fits_afi h.1), ofInt_wrap (fits_safi h.2.1), ofInt_wrap (fits_sor h.2.2),
    if_neg (by simp [h.2.2]), if_neg (by simp [h.1, h.2.1])]
  rfl

theorem readExtNHEncodingCapability_bytes {extNH : BgpExtNHEncodingCapability}
    (h : extNH.nlriAfi = .afiIPv4 ∧ extNH.nlriSafi.isNamed ∧ extNH.nhAfi = .afiIPv6)
    (extNHEncodingCapabilities : List BgpExtNHEncodingCapability) (rest : Bytes) :
    readExtNHEncodingCapability extNHEncodingCapabilities (extNHEncodingCapabilityBytes extNH ++ rest) =
      .ok (extNHEncodingCapabilities ++ [extNH], rest) := by
  obtain ⟨nlriAfi, nlriSafi, nhAfi⟩ := extNH
  obtain ⟨rfl, hsafi, rfl⟩ := h
  have hsafi' : Fits 2 nlriSafi.toInt := by
    obtain ⟨hmin, hmax⟩ := fits_safi hsafi
    exact ⟨hmin, hmax.trans (by decide)⟩
  rw [readExtNHEncodingCapability, extNHEncodingCapabilityBytes, append_assoc, append_assoc, readBE_intBE,
    ok_bind]
  dsimp only
  rw [readBE_intBE, ok_bind]
  rw [readBE_intBE, ok_bind]
  rw [ofInt_wrap (by decide), ofInt_wrap hsafi', if_neg (by simp), if_neg (by simp [hsafi])]
  rfl

section

variable {capa : BgpCapabilities}

theorem toNat_restartTime_lt (capa : BgpCapabilities) : (capa.restartTime % 2 ^ 12).toNat < 2 ^ 12 := by omega

theorem grValue_lt : grValue capa < 256 ^ 2 := by
  rw [show 256 ^ 2 = 2 ^ 16 from rfl]
  refine Nat.or_lt_two_pow (Nat.or_lt_two_pow ?_ ?_) ?_
  · exact (toNat_restartTime_lt capa).trans (by decide)
  · split <;> decide
  · split <;> decide

theorem grValue_bits (capa : BgpCapabilities) : decide (grValue capa &&& kGrRestartStateBit ≠ 0) = capa.isRestarting ∧
    decide (grValue capa &&& kGrNotificationBit ≠ 0) = capa.grNotification ∧
    grValue capa &&& kGrRestartTimeMask = (capa.restartTime % 2 ^ 12).toNat := by
  have hlt := toNat_restartTime_lt capa
  unfold grValue
  generalize (capa.restartTime % 2 ^ 12).toNat = time at hlt
  have h15 : time &&& kGrRestartStateBit = 0 := by
    rw [show kGrRestartStateBit = 2 ^ 15 from rfl, Nat.and_two_pow, Nat.testBit_lt_two_pow (by omega)]
    rfl
  have h14 : time &&& kGrNotificationBit = 0 := by
    rw [show kGrNotificationBit = 2 ^ 14 from rfl, Nat.and_two_pow, Nat.testBit_lt_two_pow (by omega)]
    rfl
  have h12 : time &&& kGrRestartTimeMask = time := by
    rw [show kGrRestartTimeMask = 2 ^ 12 - 1 from rfl, Nat.and_two_pow_sub_one_eq_mod, Nat.mod_eq_of_lt hlt]
  simp only [Nat.and_or_distrib_right, h15, h14, h12]
  cases capa.isRestarting <;> cases capa.grNotification <;> simp [kGrRestartStateBit, kGrNotificationBit, kGrRestartTimeMask]

theorem length_grCapabilityBytes (gr : BgpGrCapability) : (grCapabilityBytes gr).length = 4 := by
  simp [grCapabilityBytes]

theorem takes_gr (hsize : 2 + 4 * capa.grCapabilities.length < 256) (htime : 0 ≤ capa.restartTime ∧ capa.restartTime < 2 ^ 12)
    (hnamed : ∀ gr ∈ capa.grCapabilities, gr.afi.isNamed ∧ gr.safi.isNamed) :
    Takes parseCapability (grBytes capa) fun c => { c with
      gracefulRestart := true
      isRestarting := capa.isRestarting
      grNotification := capa.grNotification
      restartTime := capa.restartTime
      grCapabilities := capa.grCapabilities } := by
  have hlen : (toBE 2 (grValue capa) ++ capa.grCapabilities.flatMap grCapabilityBytes).length =
      2 + 4 * capa.grCapabilities.length := by
    rw [length_append, length_toBE, length_flatMap_of_size length_grCapabilityBytes]
  rw [grBytes, ← hlen]
  refine takes_capability .capaGr _ (by omega) fun c => ?_
  change parseGr c _ _ = _
  have hread := untilEmpty_openEntries readGrCapability_ensures fun gr hgr => readGrCapability_bytes (hnamed gr hgr)
  have htime' : ((capa.restartTime % 2 ^ 12).toNat : Int) = capa.restartTime := by omega
  obtain ⟨hrestarting, hnotification, hmask⟩ := grValue_bits capa
  rw [parseGr, if_neg (by omega), readBE_toBE, ok_bind, Nat.mod_eq_of_lt grValue_lt]
  dsimp only
  rw [hread, hmask, htime', hrestarting, hnotification]
  rfl

end

section

variable {capa : BgpCapabilities}

theorem length_addPathCapabilityBytes (addPath : BgpAddPathCapability) :
    (addPathCapabilityBytes addPath).length = 4 := by
  simp [addPathCapabilityBytes]

theorem length_extNHEncodingCapabilityBytes (extNH : BgpExtNHEncodingCapability) :
    (extNHEncodingCapabilityBytes extNH).length = 6 := by
  simp [extNHEncodingCapabilityBytes]

theorem takes_addPath (hsize : 4 * capa.addPathCapabilities.length < 256)
    (hnamed : ∀ addPath ∈ capa.addPathCapabilities, addPath.afi.isNamed ∧ addPath.safi.isNamed ∧ addPath.sor.isNamed) :
    Takes parseCapability (addPathBytes capa) fun c => { c with addPathCapabilities := capa.addPathCapabilities } := by
  have hlen : (capa.addPathCapabilities.flatMap addPathCapabilityBytes).length = 4 * capa.addPathCapabilities.length :=
    length_flatMap_of_size length_addPathCapabilityBytes _
  rw [addPathBytes, ← hlen]
  refine takes_capability .capaAddPath _ (by omega) fun c => ?_
  change parseAddPath c _ _ = _
  have hread := untilEmpty_openEntries readAddPathCapability_ensures fun addPath hmem =>
    readAddPathCapability_bytes (hnamed addPath hmem)
  rw [parseAddPath, if_neg (by omega), hread]
  rfl

theorem takes_extNHEncoding (hsize : 6 * capa.extNHEncodingCapabilities.length < 256)
    (hknown : ∀ extNH ∈ capa.extNHEncodingCapabilities,
      extNH.nlriAfi = .afiIPv4 ∧ extNH.nlriSafi.isNamed ∧ extNH.nhAfi = .afiIPv6) :
    Takes parseCapability (extNHEncodingBytes capa) fun c =>
      { c with extNHEncodingCapabilities := capa.extNHEncodingCapabilities } := by
  have hlen : (capa.extNHEncodingCapabilities.flatMap extNHEncodingCapabilityBytes).length =
      6 * capa.extNHEncodingCapabilities.length :=
    length_flatMap_of_size length_extNHEncodingCapabilityBytes _
  rw [extNHEncodingBytes, ← hlen]
  refine takes_capability .capaExtNhEncoding _ (by omega) fun c => ?_
  change parseExtNHEncoding c _ _ = _
  have hread := untilEmpty_openEntries readExtNHEncodingCapability_ensures fun extNH hmem =>
    readExtNHEncodingCapability_bytes (hknown extNH hmem)
  rw [parseExtNHEncoding, if_neg (by omega), hread]
  rfl

end

end

section

variable {capa : BgpCapabilities}

theorem length_grBytes (capa : BgpCapabilities) : (grBytes capa).length = 4 + 4 * capa.grCapabilities.length := by
  rw [grBytes, length_append, length_append, length_toBE, length_flatMap_of_size length_grCapabilityBytes,
    capabilityHeader, length_cons, length_cons, length_nil]
  omega

theorem length_addPathBytes (capa : BgpCapabilities) :
    (addPathBytes capa).length = 2 + 4 * capa.addPathCapabilities.length := by
  rw [addPathBytes, length_append, length_flatMap_of_size length_addPathCapabilityBytes]
  rfl

theorem length_extNHEncodingBytes (capa : BgpCapabilities) :
    (extNHEncodingBytes capa).length = 2 + 6 * capa.extNHEncodingCapabilities.length := by
  rw [extNHEncodingBytes, length_append, length_flatMap_of_size length_extNHEncodingCapabilityBytes]
  rfl

section

variable (h : Advertisable capa)
include h

theorem Advertisable.lengths :
    (capa.gracefulRestart = true → 2 + 4 * capa.grCapabilities.length < 256) ∧
      4 * capa.addPathCapabilities.length < 256 ∧ 6 * capa.extNHEncodingCapabilities.length < 256 := by
  have hsize := h.size
  simp only [capabilityBytes, length_append] at hsize
  refine ⟨fun hgr => ?_, ?_, ?_⟩
  · rw [if_pos hgr, length_grBytes] at hsize
    omega
  · by_cases hpos : capa.addPathCapabilities.length > 0
    · rw [if_pos hpos, length_addPathBytes] at hsize
      omega
    · omega
  · by_cases hpos : capa.extNHEncodingCapabilities.length > 0
    · rw [if_pos hpos, length_extNHEncodingBytes] at hsize
      omega
    · omega

theorem Advertisable.takes_as4Byte :
    Takes parseCapability (if capa.as4byte then as4ByteBytes capa else []) fun c =>
      { c with as4byte := c.as4byte || capa.as4byte, asn := if capa.as4byte then capa.asn else c.asn } := by
  refine takes_ite (fun hb => BgpLib.takes_as4Byte (h.asn hb)) (fun hb => ?_) fun hb => ?_
  · simp [hb]
  · funext c
    simp [hb]

theorem Advertisable.takes_gr :
    Takes parseCapability (if capa.gracefulRestart then grBytes capa else []) fun c =>
      { c with
        gracefulRestart := c.gracefulRestart || capa.gracefulRestart
        isRestarting := if capa.gracefulRestart then capa.isRestarting else c.isRestarting
        grNotification := if capa.gracefulRestart then capa.grNotification else c.grNotification
        restartTime := if capa.gracefulRestart then capa.restartTime else c.restartTime
        grCapabilities := if capa.gracefulRestart then capa.grCapabilities else c.grCapabilities } := by
  refine takes_ite (fun hb => BgpLib.takes_gr (h.lengths.1 hb) (h.restartTime hb) (h.grCapabilities hb))
    (fun hb => ?_) fun hb => ?_
  · simp [hb]
  · funext c
    simp [hb]

theorem Advertisable.takes_addPath :
    Takes parseCapability (if capa.addPathCapabilities.length > 0 then addPathBytes capa else []) fun c =>
      { c with addPathCapabilities :=
          if capa.addPathCapabilities.length > 0 then capa.addPathCapabilities else c.addPathCapabilities } := by
  refine takes_ite (fun _ => BgpLib.takes_addPath h.lengths.2.1 h.addPathCapabilities) (fun hb => ?_) fun hb => ?_
  · simp only [if_pos hb]
  · simp only [if_neg hb]
    rfl

theorem Advertisable.takes_extNHEncoding :
    Takes parseCapability (if capa.extNHEncodingCapabilities.length > 0 then extNHEncodingBytes capa else []) fun c =>
      { c with extNHEncodingCapabilities :=
          if capa.extNHEncodingCapabilities.length > 0 then capa.extNHEncodingCapabilities
          else c.extNHEncodingCapabilities } := by
  refine takes_ite (fun _ => BgpLib.takes_extNHEncoding h.lengths.2.2 h.extNHEncodingCapabilities) (fun hb => ?_)
    fun hb => ?_
  · simp only [if_pos hb]
  · simp only [if_neg hb]
    rfl

end

theorem takes_routeRefresh (capa : BgpCapabilities) :
    Takes parseCapability (if capa.routeRefresh then capabilityHeader .capaRouteRefresh 0 else []) fun c =>
      { c with routeRefresh := c.routeRefresh || capa.routeRefresh } := by
  refine takes_ite (fun _ => takes_capability .capaRouteRefresh [] (by decide) fun _ => rfl) (fun hb => ?_) fun hb => ?_
  · simp [hb]
  · funext c
    simp [hb]

theorem takes_enhancedRouteRefresh (capa : BgpCapabilities) :
    Takes parseCapability (if capa.enhancedRouteRefresh then capabilityHeader .capaEnhancedRouteRefresh 0 else [])
      fun c => { c with enhancedRouteRefresh := c.enhancedRouteRefresh || capa.enhancedRouteRefresh } := by
  refine takes_ite (fun _ => takes_capability .capaEnhancedRouteRefresh [] (by decide) fun _ => rfl) (fun hb => ?_)
    fun hb => ?_
  · simp [hb]
  · funext c
    simp [hb]

theorem ite_length_pos {α : Type} (l : List α) : (if l.length > 0 then l else []) = l := by
  cases l <;> rfl

/-- All capabilities together: what is read is what was advertised. -/
theorem parseBgpCapabilities_bytes (h : Advertisable capa) :
    parseBgpCapabilities (capabilityBytes capa) {} = .ok (advertised capa) := by
  have hmp := takes_flatMap fun family hfam => takes_mpExtBytes (mem_of_mem_mpCaps h.noLs hfam)
  have hall := (((((hmp.append h.takes_as4Byte).append h.takes_gr).append h.takes_addPath).append
    h.takes_extNHEncoding).append (takes_routeRefresh capa)).append (takes_enhancedRouteRefresh capa)
  rw [parseBgpCapabilities, capabilityBytes, hall.untilEmpty_eq]
  simp only [Function.comp_apply, foldl_setMpExt h.noLs, ite_length_pos, advertised, h.noLs]
  cases capa.gracefulRestart <;> rfl

end

section

variable {msg : BgpOpenMsg}

theorem untilEmpty_openParam {value : Bytes} {capa : BgpCapabilities} (hsize : value.length < 256)
    (h : parseBgpCapabilities value {} = .ok capa) (cursorLen : Nat) :
    untilEmpty (parseOpenParam cursorLen) {} ([2] ++ (toBE 1 value.length ++ value)) = .ok capa := by
  have hpLen : (UInt8.ofNat value.length).toNat = value.length := UInt8.toNat_ofNat_of_lt hsize
  have hbytes : [2] ++ (toBE 1 value.length ++ value) = 2 :: UInt8.ofNat value.length :: value := by
    rw [toBE_one]
    rfl
  rw [hbytes, untilEmpty_of_ne_nil (parseOpenParam_consumes cursorLen) (cons_ne_nil _ _), parseOpenParam_cons,
    hpLen, if_neg (lt_irrefl _), openParamValue, if_pos rfl, take_length, h, ok_bind, ok_bind, drop_length,
    untilEmpty_nil]

theorem length_openBody (msg : BgpOpenMsg) :
    (openBody msg).length = 12 + (capabilityBytes msg.capabilities).length := by
  simp only [openBody, length_append, length_intBE, length_toBE, length_cons, length_nil]

theorem parseOpenBody_openBody (h : Encodable msg) : parseOpenBody (openBody msg) =
    .ok ⟨msg.version, wrap 2 msg.asn, msg.holdTime, msg.bgpID, advertised msg.capabilities⟩ := by
  have hsize := h.capabilities.size
  have hver : (msg.version % 256 ^ 1).toNat = 4 := by rw [h.version]; rfl
  have hholdTime : ((msg.holdTime % 256 ^ 2).toNat : Int) = msg.holdTime := wrap_of_fits h.holdTime
  have hbgpID : ((msg.bgpID % 256 ^ 4).toNat : Int) = msg.bgpID := wrap_of_fits h.bgpID
  have hacceptable := h.acceptable
  have hparamsLen : (2 + (capabilityBytes msg.capabilities).length) % 256 ^ 1 =
      2 + (capabilityBytes msg.capabilities).length := Nat.mod_eq_of_lt (by omega)
  rw [parseOpenBody, openBody]
  simp only [append_assoc]
  rw [readBE_intBE, ok_bind, hver]
  dsimp only
  rw [if_neg (by decide), readBE_intBE, ok_bind]
  rw [readBE_intBE, ok_bind]
  rw [if_neg (by omega), readBE_intBE, ok_bind]
  rw [readBE_toBE, ok_bind, hparamsLen]
  have hlen : ([2] ++ (toBE 1 (capabilityBytes msg.capabilities).length ++ capabilityBytes msg.capabilities)).length =
      2 + (capabilityBytes msg.capabilities).length := by
    simp only [length_append, length_toBE, length_cons, length_nil]
    omega
  rw [hlen, if_neg (lt_irrefl _), take_of_length_le hlen.le,
    untilEmpty_openParam (by omega) (parseBgpCapabilities_bytes h.capabilities), hholdTime, hbgpID, h.version]
  rfl

end

/-- An OPEN message that has a form on the wire is written without an exception and read back: the fields, the
AS number in effect and the advertised capabilities are the same. -/
theorem decode_serializeBgpOpenMsg (h : Encodable msg) :
    ∃ bytes decoded, serializeBgpOpenMsg msg = .ok bytes ∧ parseBgpOpenMsgRaw bytes = .ok decoded ∧
      decoded.version = msg.version ∧ decoded.holdTime = msg.holdTime ∧ decoded.bgpID = msg.bgpID ∧
      effectiveAsn decoded = effectiveAsn msg ∧ decoded.capabilities = advertised msg.capabilities := by
  have hsize := h.capabilities.size
  have hbody : kBgpMsgHeaderLen + (openBody msg).length ≤ kMaxBgpMsgLen := by
    rw [length_openBody, kBgpMsgHeaderLen, kMaxBgpMsgLen]
    omega
  refine ⟨frame .bgpMsgTypeOpen (openBody msg),
    ⟨msg.version, wrap 2 msg.asn, msg.holdTime, msg.bgpID, advertised msg.capabilities⟩, ?_, ?_, rfl, rfl, rfl, ?_, rfl⟩
  · rw [serializeBgpOpenMsg, push_of_le (by rw [length_replicate]; exact hbody), ok_bind,
      serializeBgpHeader_of_le hbody]
  · rw [parseBgpOpenMsgRaw, consumeBgpMsgHdr_frame hbody, ok_bind]
    dsimp only
    rw [if_neg (by rw [length_openBody]; omega), parseOpenBody_openBody h]
  · unfold effectiveAsn advertised
    dsimp only
    cases has4 : msg.capabilities.as4byte with
    | true => rfl
    | false => exact wrap_of_fits (h.asn has4)

/-- An OPEN message of a dual-stack speaker with a four-byte AS number. -/
def openWith (version : Int) : BgpOpenMsg where
  version := version
  asn := 23456
  holdTime := 90
  bgpID := 0x0a000001
  capabilities :=
    { mpExtV4Unicast := true
      mpExtV6Unicast := true
      as4byte := true
      asn := 4200000000
      gracefulRestart := true
      restartTime := 120
      grCapabilities := [⟨.afiIPv4, .safiUnicast, true⟩, ⟨.afiIPv6, .safiUnicast, false⟩]
      addPathCapabilities := [⟨.afiIPv6, .safiUnicast, .both⟩]
      extNHEncodingCapabilities := [⟨.afiIPv4, .safiUnicast, .afiIPv6⟩]
      routeRefresh := true }

theorem decode_serializeBgpOpenMsg_openWith :
    ∃ bytes decoded, serializeBgpOpenMsg (openWith 4) = .ok bytes ∧ parseBgpOpenMsgRaw bytes = .ok decoded ∧
      decoded.version = 4 ∧ decoded.holdTime = 90 ∧ decoded.bgpID = 0x0a000001 ∧
      effectiveAsn decoded = 4200000000 ∧ decoded.capabilities = advertised (openWith 4).capabilities := by
  have hcapabilities : Advertisable (openWith 4).capabilities := by
    refine ⟨rfl, fun _ => by decide, fun _ => by decide, fun _ => by decide, by decide, by decide, by decide⟩
  exact decode_serializeBgpOpenMsg (openWith 4) ⟨rfl, nofun, by decide, by decide, by decide, hcapabilities⟩

/-- The serializer writes any version; the parser takes only version 4. -/
theorem openWith_three_rejected :
    ∃ bytes, serializeBgpOpenMsg (openWith 3) = .ok bytes ∧ parseBgpOpenMsgRaw bytes = .error (badVersion 3) :=
  ⟨_, rfl, rfl⟩

end FbossBgp.BgpLib
