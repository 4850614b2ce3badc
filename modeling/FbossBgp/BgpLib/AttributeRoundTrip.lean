import FbossBgp.BgpLib.UpdateDecoding

/-! Which attributes come back from the wire: those that fit it, unless they are ones that the serializer
leaves out or cuts. -/

namespace FbossBgp.BgpLib

open Bytes Outcome Reader List Finset

section

variable (segment : BgpAttrAsPathSegment) {seg : BgpAttrAsPathSegment}

/-- The number of AS numbers of a segment, in all its parts. -/
def segmentSize : Nat :=
  segment.asSet.card + segment.asSequence.length + segment.asConfedSequence.length + segment.asConfedSet.card

theorem length_segmentEntries_le : (segmentEntries segment).2.length ≤ segmentSize segment := by
  rw [segmentEntries, segmentSize]
  split
  · simp only [length_sort]
    omega
  · split
    · dsimp only
      omega
    · split
      · dsimp only
        omega
      · simp only [length_sort]
        omega

/-- The AS numbers of a segment fit the width of the session's. -/
structure SegmentFits (k : Nat) (segment : BgpAttrAsPathSegment) : Prop where
  asSet : ∀ asn ∈ segment.asSet, Fits k asn
  asSequence : ∀ asn ∈ segment.asSequence, Fits k asn
  asConfedSequence : ∀ asn ∈ segment.asConfedSequence, Fits k asn
  asConfedSet : ∀ asn ∈ segment.asConfedSet, Fits k asn

structure PartOf (segmentType : Nat) (seg : BgpAttrAsPathSegment) : Prop where
  fits : SegmentFits 4 seg
  asSet : segmentType ≠ 1 → seg.asSet = ∅
  asSequence : segmentType ≠ 2 → seg.asSequence = []
  asConfedSequence : segmentType ≠ 3 → seg.asConfedSequence = []
  asConfedSet : segmentType ≠ 4 → seg.asConfedSet = ∅

theorem addAsn_partOf {segmentType : Nat} (h : PartOf segmentType seg) {asn : Int} (hasn : Fits 4 asn) :
    Ensures (fun next => PartOf segmentType next ∧ segmentSize next ≤ segmentSize seg + 1) (fun _ => True)
      (addAsn segmentType seg asn) := by
  unfold addAsn
  split
  · have hcard := card_insert_le asn seg.asSet
    refine ⟨⟨{ h.fits with asSet := (Finset.forall_mem_insert ..).mpr ⟨hasn, h.fits.asSet⟩ },
      fun hne => absurd rfl hne, h.asSequence, h.asConfedSequence, h.asConfedSet⟩, ?_⟩
    simp only [segmentSize]
    omega
  · refine ⟨⟨{ h.fits with asSequence := forall_mem_append.mpr ⟨h.fits.asSequence, forall_mem_singleton.mpr hasn⟩ },
      h.asSet, fun hne => absurd rfl hne, h.asConfedSequence, h.asConfedSet⟩, ?_⟩
    simp only [segmentSize, length_append, length_singleton]
    omega
  · refine ⟨⟨{ h.fits with asConfedSequence :=
        forall_mem_append.mpr ⟨h.fits.asConfedSequence, forall_mem_singleton.mpr hasn⟩ },
      h.asSet, h.asSequence, fun hne => absurd rfl hne, h.asConfedSet⟩, ?_⟩
    simp only [segmentSize, length_append, length_singleton]
    omega
  · have hcard := card_insert_le asn seg.asConfedSet
    refine ⟨⟨{ h.fits with asConfedSet := (Finset.forall_mem_insert ..).mpr ⟨hasn, h.fits.asConfedSet⟩ },
      h.asSet, h.asSequence, h.asConfedSequence, fun hne => absurd rfl hne⟩, ?_⟩
    simp only [segmentSize]
    omega
  · trivial

theorem readAsns_partOf (as4byte : Bool) (segmentType asCnt : Nat) (h : PartOf segmentType seg) (cursor : Bytes) :
    Ensures (fun next => PartOf segmentType next.1 ∧ segmentSize next.1 ≤ segmentSize seg + asCnt) (fun _ => True)
      (readAsns as4byte segmentType asCnt seg cursor) := by
  induction asCnt generalizing seg cursor with
  | zero => exact ⟨h, le_rfl⟩
  | succ asCnt ih =>
    apply (ensures_readBE fun _ => trivial).bind
    rintro ⟨asn, cursor'⟩ ⟨rfl, -, -⟩
    have hlen : (cursor.take (asnLen as4byte)).length ≤ 4 := by
      rw [asnLen]
      grind
    have hlt := (ofBE_lt (cursor.take (asnLen as4byte))).trans_le (Nat.pow_le_pow_right (by decide) hlen)
    apply (addAsn_partOf h ⟨Int.natCast_nonneg _, by exact_mod_cast hlt⟩).bind
    rintro seg' ⟨hpart, hsize⟩
    apply (ih hpart cursor').mono
    · exact fun last hlast => ⟨hlast.1, by omega⟩
    · exact fun _ _ => trivial

/-- The parser fills one part of each segment, with at most 255 AS numbers of at most four bytes. -/
theorem parseAsPathAttr_partOf (cursor : Bytes) (capa : BgpCapabilities) (quoted : Bytes) :
    Ensures (fun asPath => ∀ segment ∈ asPath,
        (∃ segmentType, PartOf segmentType segment) ∧ segmentSize segment ≤ 255) (fun _ => True)
      (parseAsPathAttr cursor capa quoted) := by
  apply ensures_untilEmpty
  · intro asPath b bytes hasPath
    apply ensures_ite
    · exact fun _ => trivial
    · intro _
      apply (ensures_readBE fun _ => trivial).bind
      intro next₁ _
      apply (ensures_readBE fun _ => trivial).bind
      rintro ⟨asCnt, cursor₂⟩ ⟨hcount, -, -⟩
      have hlt := ofBE_lt (next₁.2.take 1)
      have hlen : (next₁.2.take 1).length ≤ 1 := length_take_le ..
      have hpow := Nat.pow_le_pow_right (by decide : 0 < 256) hlen
      apply ensures_ite
      · exact fun _ => trivial
      · intro _
        have hempty : PartOf next₁.1 {} :=
          ⟨⟨by simp, by simp, by simp, by simp⟩, fun _ => rfl, fun _ => rfl, fun _ => rfl, fun _ => rfl⟩
        apply (readAsns_partOf capa.as4byte next₁.1 asCnt hempty cursor₂).bind
        rintro next₃ ⟨hpart, hsize⟩
        have hnone : segmentSize {} = 0 := rfl
        intro segment hmem
        rcases mem_append.mp hmem with hmem | hmem
        · exact hasPath segment hmem
        · rw [List.mem_singleton.mp hmem]
          exact ⟨⟨_, hpart⟩, by omega⟩
  · exact fun segment hmem => absurd hmem not_mem_nil

end

section

/-- Attributes whose fields fit their wire types. -/
structure FitsWire (as4byte v4 : Bool) (update : BgpUpdate2) : Prop where
  origin : update.attrs.origin.isNamed = true
  asPath : ∀ segment ∈ update.attrs.asPath, SegmentFits (asnLen as4byte) segment
  nexthop : v4 = true → update.v4Nexthop.length = 4
  med : Fits 4 update.attrs.med
  localPref : ∀ localPref ∈ update.attrs.localPref, Fits 4 localPref
  aggregator : Fits (asnLen as4byte) update.attrs.aggregator.asn
  communities : ∀ community ∈ update.attrs.communities, Fits 2 community.asn ∧ Fits 2 community.value
  originatorId : Fits 4 update.attrs.originatorId
  clusterList : ∀ clusterId ∈ update.attrs.clusterList, Fits 4 clusterId
  extCommunities : ∀ community ∈ update.attrs.extCommunities, Fits 4 community.firstWord ∧ Fits 4 community.secondWord
  largeCommunities : ∀ community ∈ update.attrs.largeCommunities,
    Fits 4 community.asn ∧ Fits 4 community.localData1 ∧ Fits 4 community.localData2

theorem map_eq_self {α : Type} {f : α → α} {items : List α} (h : ∀ a ∈ items, f a = a) : items.map f = items :=
  (map_congr_left h).trans (map_id items)

theorem image_wrap_of_fits {k : Nat} {asns : Finset Int} (h : ∀ asn ∈ asns, Fits k asn) : asns.image (wrap k) = asns := by
  calc asns.image (wrap k) = asns.image id := image_congr fun asn hmem => wrap_of_fits (h asn hmem)
    _ = asns := image_id

variable {segment : BgpAttrAsPathSegment} {as4byte : Bool}

theorem decodeSegment_of_fits
    (h : SegmentFits (asnLen as4byte) segment) : decodeSegment as4byte segment = segment := by
  rw [decodeSegment, image_wrap_of_fits h.asSet, image_wrap_of_fits h.asConfedSet,
    map_eq_self fun asn hmem => wrap_of_fits (h.asSequence asn hmem),
    map_eq_self fun asn hmem => wrap_of_fits (h.asConfedSequence asn hmem)]

theorem fits_wrap (k : Nat) (x : Int) : Fits k (wrap k x) := by
  have hpos : (0 : Int) < 256 ^ k := by positivity
  have hnonneg := Int.emod_nonneg x hpos.ne'
  rw [wrap, Int.toNat_of_nonneg hnonneg]
  exact ⟨hnonneg, Int.emod_lt_of_pos x hpos⟩

/-- Only AS numbers of the session's width come back. -/
theorem segmentFits_of_decodeSegment
    (h : decodeSegment as4byte segment = segment) : SegmentFits (asnLen as4byte) segment := by
  rw [← h]
  refine ⟨?_, ?_, ?_, ?_⟩
  · intro asn hmem
    obtain ⟨_, -, rfl⟩ := mem_image.mp hmem
    exact fits_wrap _ _
  · intro asn hmem
    obtain ⟨_, -, rfl⟩ := mem_map.mp hmem
    exact fits_wrap _ _
  · intro asn hmem
    obtain ⟨_, -, rfl⟩ := mem_map.mp hmem
    exact fits_wrap _ _
  · intro asn hmem
    obtain ⟨_, -, rfl⟩ := mem_image.mp hmem
    exact fits_wrap _ _

/-- Nothing of the attributes is left out or cut by the serializer: no large communities, no segment of more
than 255 AS numbers, an aggregator with both of its fields or none, and no MED that is not set. -/
structure Survives (attrs : BgpAttributes) : Prop where
  largeCommunities : attrs.largeCommunities = []
  segments : ∀ segment ∈ attrs.asPath, (segmentEntries segment).2.length ≤ 255
  aggregator : attrs.aggregator.asn = 0 ↔ attrs.aggregator.ip = []
  med : attrs.isMedSet = false → attrs.med = 0

/-- The parser's attributes are those of the update; the next hop is kept beside them. -/
structure SameAttributes (update : BgpUpdate2) (v4 : Bool) (state : UpdateMsgParsingState) : Prop where
  attrs : { state.attrs with nexthop := update.attrs.nexthop } = update.attrs
  nexthop : v4 = true → state.v4Nexthop.bytes = update.v4Nexthop

end

section

variable {capa : BgpCapabilities} {update : BgpUpdate2} {v4 : Bool} {state : UpdateMsgParsingState}

/-- Whatever the number of entries in its segments, the AS path is the only attribute whose parse can differ. -/
theorem exists_asPath_of_untilEmpty (hwr : Writable update v4) (horigin : update.attrs.origin.isNamed = true)
    (hlen : ((wireAttrs capa.as4byte update v4).flatMap WireAttr.encode).length ≤ kMaxBgpUpdateVarLen)
    {state' : UpdateMsgParsingState}
    (h : untilEmpty (parsePathAttribute capa) state ((wireAttrs capa.as4byte update v4).flatMap WireAttr.encode) =
      .ok state') :
    ∃ asPath, (∀ segment ∈ asPath, segmentSize segment ≤ 255) ∧
      state' = wireEffect capa.as4byte update v4 asPath state := by
  have hmem : asPathAttr capa.as4byte update.attrs.asPath ∈ wireAttrs capa.as4byte update v4 := by simp [wireAttrs]
  have hacc : (asPathAttr capa.as4byte update.attrs.asPath).Accepted :=
    accepted_extended (bgpAttrFlagTransitive ||| bgpAttrFlagExtended) .bgpAttrAsPath (by decide) (by decide)
      (length_body_lt hlen hmem)
  have hrest := takesAttrs_restAttrs hlen hwr
  rw [wireAttrs_eq, flatMap_append, takesAttrs_origin horigin, flatMap_append, flatMap_singleton,
    untilEmpty_of_ne_nil parsePathAttribute_consumes (by simp [WireAttr.encode])] at h
  obtain ⟨hdr, htype, attrBeingParsed, rawAttrLen, handler, hparse⟩ := parsePathAttribute_encode hacc
    { state with attrs.origin := update.attrs.origin, hasOriginAttr := true }
    ((restAttrs capa.as4byte update v4).flatMap WireAttr.encode)
  rw [hparse, parseAttrBody, htype] at h
  change (catchOutOfRange handler ((parseAsPathAttr (update.attrs.asPath.flatMap (encodeSegment capa.as4byte)) capa
    attrBeingParsed >>= _) >>= _) >>= _) = _ at h
  have hparsed := parseAsPathAttr_partOf (update.attrs.asPath.flatMap (encodeSegment capa.as4byte)) capa attrBeingParsed
  cases hasPath : parseAsPathAttr (update.attrs.asPath.flatMap (encodeSegment capa.as4byte)) capa attrBeingParsed with
  | error e =>
    rw [hasPath] at h
    cases e <;> cases h
  | ok asPath =>
    rw [hasPath] at h
    refine ⟨asPath, fun segment hmem => (hparsed.of_ok hasPath segment hmem).2, ?_⟩
    have hall := (hrest.untilEmpty_eq _).symm.trans h
    exact (Except.ok.inj hall).symm

/-- Attributes that fit the wire and survive the serializer come back as they were. -/
theorem sameAttributes_wireEffect (hfits : FitsWire capa.as4byte v4 update) (hsurvives : Survives update.attrs)
    (hstate : state.attrs = {}) :
    SameAttributes update v4 (wireEffect capa.as4byte update v4
      (update.attrs.asPath.map (decodeSegment capa.as4byte)) state) := by
  constructor
  · apply BgpAttributes.ext
    case origin => rfl
    case asPath => exact map_eq_self fun segment hmem => decodeSegment_of_fits (hfits.asPath segment hmem)
    case nexthop => rfl
    case med =>
      change (if update.attrs.isMedSet = true then wrap 4 update.attrs.med else state.attrs.med) = _
      split
      · exact wrap_of_fits hfits.med
      next hset => rw [hstate, hsurvives.med (Bool.eq_false_of_not_eq_true hset)]
    case localPref =>
      change (update.attrs.localPref.map (wrap 4)).or state.attrs.localPref = _
      rw [hstate]
      cases hlocal : update.attrs.localPref with
      | none => rfl
      | some localPref => exact congrArg some (wrap_of_fits (hfits.localPref localPref hlocal))
    case atomicAggregate =>
      change (update.attrs.atomicAggregate || state.attrs.atomicAggregate) = _
      rw [hstate, Bool.or_false]
    case aggregator =>
      change (if update.attrs.aggregator.asn ≠ 0 ∧ update.attrs.aggregator.ip ≠ [] then
        ⟨wrap (asnLen capa.as4byte) update.attrs.aggregator.asn, update.attrs.aggregator.ip⟩
        else state.attrs.aggregator) = _
      split
      · rw [wrap_of_fits hfits.aggregator]
      next hnone =>
        have hasn : update.attrs.aggregator.asn = 0 := by
          by_contra hne
          exact hnone ⟨hne, fun hip => hne (hsurvives.aggregator.mpr hip)⟩
        have hip := hsurvives.aggregator.mp hasn
        rw [hstate]
        exact (congrArg₂ BgpAttrAggregator.mk hasn hip).symm
    case communities =>
      change state.attrs.communities ++ update.attrs.communities.map decodeCommunity = _
      rw [hstate]
      apply map_eq_self
      intro community hmem
      obtain ⟨hasn, hval⟩ := hfits.communities community hmem
      rw [decodeCommunity, wrap_of_fits hasn, wrap_of_fits hval]
    case originatorId =>
      change (if update.attrs.originatorId ≠ 0 then wrap 4 update.attrs.originatorId else state.attrs.originatorId) = _
      split
      · exact wrap_of_fits hfits.originatorId
      next hzero => rw [hstate, not_not.mp hzero]
    case clusterList =>
      change state.attrs.clusterList ++ update.attrs.clusterList.map (wrap 4) = _
      rw [hstate]
      exact map_eq_self fun clusterId hmem => wrap_of_fits (hfits.clusterList clusterId hmem)
    case extCommunities =>
      change state.attrs.extCommunities ++ update.attrs.extCommunities.map decodeExtCommunity = _
      rw [hstate]
      apply map_eq_self
      intro community hmem
      obtain ⟨hfirst, hsecond⟩ := hfits.extCommunities community hmem
      rw [decodeExtCommunity, wrap_of_fits hfirst, wrap_of_fits hsecond]
    case largeCommunities =>
      change state.attrs.largeCommunities = _
      rw [hstate, hsurvives.largeCommunities]
    case isMedSet =>
      change (update.attrs.isMedSet || state.attrs.isMedSet) = _
      rw [hstate, Bool.or_false]
  · rintro rfl
    have hlen := hfits.nexthop rfl
    change (IPAddress.ofBytes (update.v4Nexthop.take 4)).bytes = update.v4Nexthop
    rw [take_of_length_le hlen.le, IPAddress.bytes_ofBytes (.inl hlen)]

/-- What comes back as it was has survived. -/
theorem survives_of_sameAttributes {asPath : List BgpAttrAsPathSegment}
    (hasPath : ∀ segment ∈ asPath, segmentSize segment ≤ 255)
    (hstate : state.attrs = {}) (h : SameAttributes update v4 (wireEffect capa.as4byte update v4 asPath state)) :
    Survives update.attrs := by
  have hattrs := h.attrs
  constructor
  · have hlarge := congrArg BgpAttributes.largeCommunities hattrs
    change state.attrs.largeCommunities = _ at hlarge
    rw [← hlarge, hstate]
  · have hpath := congrArg BgpAttributes.asPath hattrs
    rw [← hpath]
    exact fun segment hmem => (length_segmentEntries_le segment).trans (hasPath segment hmem)
  · have hagg := congrArg BgpAttributes.aggregator hattrs
    change (if update.attrs.aggregator.asn ≠ 0 ∧ update.attrs.aggregator.ip ≠ [] then
      ⟨wrap (asnLen capa.as4byte) update.attrs.aggregator.asn, update.attrs.aggregator.ip⟩
      else state.attrs.aggregator) = _ at hagg
    split at hagg
    next hboth => exact iff_of_false hboth.1 hboth.2
    · rw [hstate] at hagg
      rw [← hagg]
      exact iff_of_true rfl rfl
  · intro hset
    have hmed := congrArg BgpAttributes.med hattrs
    change (if update.attrs.isMedSet = true then wrap 4 update.attrs.med else state.attrs.med) = _ at hmed
    rw [hset, hstate] at hmed
    exact hmed.symm

/-- Of the attributes that fit the wire and were serialized, exactly those that survive come back. -/
theorem decode_serializePathAttrs_iff {bytes : Bytes} (hfits : FitsWire capa.as4byte v4 update)
    (h : serializePathAttrs update capa.as4byte v4 = .ok bytes) :
    (∃ state, parsePathAttributes capa {} (toBE 2 bytes.length ++ bytes) = .ok (state, []) ∧
      SameAttributes update v4 state) ↔ Survives update.attrs := by
  obtain ⟨hwr, rfl, hlen⟩ := serializePathAttrs_eq_ok_iff.mp h
  have hlt : ((wireAttrs capa.as4byte update v4).flatMap WireAttr.encode).length < 65536 := by
    rw [kMaxBgpUpdateVarLen_eq] at hlen
    omega
  have hparsed : parsePathAttributes capa _ _ = _ := parsePathAttributes_field hlt {} []
  rw [append_nil] at hparsed
  rw [hparsed]
  constructor
  · rintro ⟨state, hparse, hsame⟩
    obtain ⟨state', hloop, hstate⟩ := bind_eq_ok.mp hparse
    cases hstate
    obtain ⟨asPath, hasPath, rfl⟩ := exists_asPath_of_untilEmpty hwr hfits.origin hlen hloop
    exact survives_of_sameAttributes hasPath rfl hsame
  · intro hsurvives
    have htakes := takesAttrs_wireAttrs hlen hwr ⟨hfits.origin, hsurvives.segments⟩
    rw [htakes.untilEmpty_eq]
    exact ⟨_, rfl, sameAttributes_wireEffect hfits hsurvives rfl⟩

end

/-- An AS path with a four-byte AS number, a MED and a community, and the given large communities. -/
def updateWith (largeCommunities : List BgpAttrLargeCommunity) : BgpUpdate2 where
  attrs :=
    { asPath := [{ asSequence := [65001, 4200000000] }]
      med := 10
      isMedSet := true
      communities := [⟨65001, 7⟩]
      largeCommunities := largeCommunities }
  v4Nexthop := [192, 0, 2, 1]

def as4byteSession : BgpCapabilities := { as4byte := true }

theorem fitsWire_updateWith {largeCommunities : List BgpAttrLargeCommunity}
    (h : ∀ community ∈ largeCommunities, Fits 4 community.asn ∧ Fits 4 community.localData1 ∧ Fits 4 community.localData2) :
    FitsWire true true (updateWith largeCommunities) where
  origin := rfl
  asPath := by
    intro segment hmem
    obtain rfl := List.mem_singleton.mp hmem
    refine ⟨fun asn hasn => absurd hasn (Finset.notMem_empty asn), ?_, fun asn hasn => absurd hasn List.not_mem_nil,
      fun asn hasn => absurd hasn (notMem_empty asn)⟩
    decide
  nexthop := fun _ => rfl
  med := (by decide : Fits 4 10)
  localPref := nofun
  aggregator := (by decide : Fits 4 0)
  communities := by
    intro community hmem
    obtain rfl := List.mem_singleton.mp hmem
    decide
  originatorId := (by decide : Fits 4 0)
  clusterList := fun clusterId hmem => absurd hmem not_mem_nil
  extCommunities := fun community hmem => absurd hmem not_mem_nil
  largeCommunities := h

theorem decode_serializePathAttrs_iff_updateWith : ∃ bytes, serializePathAttrs (updateWith []) true true = .ok bytes ∧
      ∃ state, parsePathAttributes as4byteSession {} (toBE 2 bytes.length ++ bytes) = .ok (state, []) ∧
        SameAttributes (updateWith []) true state := by
  have hfits := fitsWire_updateWith fun community hmem => absurd hmem not_mem_nil
  have hserialize : ∃ bytes, serializePathAttrs (updateWith []) true true = .ok bytes := ⟨_, rfl⟩
  have hsurvives : Survives (updateWith []).attrs := ⟨rfl, by decide, iff_of_true rfl rfl, nofun⟩
  obtain ⟨bytes, hserialize⟩ := hserialize
  exact ⟨bytes, hserialize, (@decode_serializePathAttrs_iff as4byteSession _ _ _ hfits hserialize).mpr hsurvives⟩

/-- A large community is serialized to nothing. -/
theorem largeCommunity_dropped : (updateWith [⟨65001, 1, 2⟩]).attrs.largeCommunities ≠ [] ∧
      ∃ bytes state, serializePathAttrs (updateWith [⟨65001, 1, 2⟩]) true true = .ok bytes ∧
        parsePathAttributes as4byteSession {} (toBE 2 bytes.length ++ bytes) = .ok (state, []) ∧
        state.attrs.largeCommunities = [] :=
  ⟨cons_ne_nil _ _, _, _, rfl, rfl, rfl⟩

end FbossBgp.BgpLib
