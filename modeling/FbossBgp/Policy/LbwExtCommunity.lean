import FbossBgp.Policy.AsPathActions

/-! The link bandwidth action of a policy, which sets the non-transitive link bandwidth community of a path or
encodes values into the bits of it, and the inputs on which a policy gives a result. A failed `CHECK`, a shift by
the width of the word or more and a conversion out of range give none. -/

namespace FbossBgp.Policy

open Outcome Option

/-- Single precision numbers, as far as link bandwidths use them. A conversion to `size_t` out of its range is
undefined. -/
class LbwFloat (F : Type) where
  ofBits : BitVec 32 → F
  toBits : F → BitVec 32
  fltMax : F
  zero : F
  one : F
  mul : F → Nat → F
  isNegative : F → Bool
  isZero : F → Bool
  exceeds : F → F → Bool
  toSize : F → Option Nat

section

/-- A thrift union. Visiting one that is not set is undefined. -/
inductive NsfTeWeightEncoding where
  | unset
  | l2Encoding (rackId planeId remoteRackCapacity spineCapacity localRackCapacity : Int)
  | fpfL2Encoding (rackId spineId remoteRackCapacity : Int)

/-- A field of a scheme: its name, its width and the annotation `is_ucmp_capacity`. -/
structure EncodingField where
  name : String
  width : Int
  isUcmpCapacity : Bool := false

def NsfTeWeightEncoding.fields : NsfTeWeightEncoding → Option (List EncodingField)
  | .unset => none
  | .l2Encoding rackId planeId remoteRackCapacity spineCapacity localRackCapacity =>
    some [⟨"rack_id", rackId, false⟩, ⟨"plane_id", planeId, false⟩,
      ⟨"remote_rack_capacity", remoteRackCapacity, true⟩, ⟨"spine_capacity", spineCapacity, false⟩,
      ⟨"local_rack_capacity", localRackCapacity, false⟩]
  | .fpfL2Encoding rackId spineId remoteRackCapacity =>
    some [⟨"rack_id", rackId, false⟩, ⟨"spine_id", spineId, false⟩, ⟨"remote_rack_capacity", remoteRackCapacity, false⟩]

/-- The conversion of an `i32` to `size_t`. -/
def toSizeT (value : Int) : Nat := (value % 2 ^ 64).toNat

def encodingSchemeToVector (scheme : NsfTeWeightEncoding) : Option (List Nat) :=
  scheme.fields.map (List.map (toSizeT ·.width))

/-- What `1 << width` is when it is compared with a `size_t`: at width 31 the `int` is negative. -/
def fieldBound (width : Nat) : Nat := if width = 31 then 2 ^ 64 - 2 ^ 31 else 2 ^ width

def startingIdx (lengths : List Nat) (id : Nat) : Nat := (lengths.take id).sum % 2 ^ 64

variable (encodedLbw : BitVec 32) (scheme : NsfTeWeightEncoding)

def encodeValue (val id : Nat) (lengths : List Nat) : Option (BitVec 32) := do
  let width ← lengths[id]?
  let mask := BitVec.ofNat 32 (2 ^ width - 1)
  if width < 32 ∧ startingIdx lengths id < 32 ∧ val < fieldBound width then
    some (encodedLbw &&& ~~~(mask <<< startingIdx lengths id) |||
      BitVec.ofNat 32 (val % 2 ^ width * 2 ^ startingIdx lengths id))
  else none

def fieldRanges : Nat → List EncodingField → List (EncodingField × Nat × Nat)
  | _, [] => []
  | start, field :: fields =>
    let ending := (start + toSizeT field.width) % 2 ^ 64
    (field, start, ending) :: fieldRanges ending fields

/-- The bits of a range. The loop over them shifts by each of their positions. -/
def decodeBits (start ending : Nat) : Option Nat :=
  if start < ending → ending ≤ 32 then some (encodedLbw.toNat / 2 ^ start % 2 ^ (ending - start)) else none

def NsfTeWeightEncoding.ranges : Option (List (EncodingField × Nat × Nat)) :=
  scheme.fields.map (fieldRanges 0)

def decodeValues : Option (List (String × Nat)) := do
  (← scheme.ranges).foldlM (fun values range =>
    (decodeBits encodedLbw range.2.1 range.2.2).map fun value => values ++ [(range.1.name, value)]) []

def decodeAndAggregateCapacity (F : Type) [LbwFloat F] (encodedLbw : BitVec 32) (scheme : NsfTeWeightEncoding) :
    Option F := do
  ((← scheme.ranges).filter (·.1.isUcmpCapacity)).foldlM (fun aggregate range =>
    (decodeBits encodedLbw range.2.1 range.2.2).map (LbwFloat.mul aggregate)) LbwFloat.one

end

section

theorem getLsbD_setBits (w : BitVec 32) {start width v : Nat} (hend : start + width ≤ 32) (hv : v < 2 ^ width)
    (k : Nat) : (w &&& ~~~(BitVec.ofNat 32 (2 ^ width - 1) <<< start) ||| BitVec.ofNat 32 (v * 2 ^ start)).getLsbD k =
      if start ≤ k ∧ k < start + width then v.testBit (k - start) else w.getLsbD k := by
  have hhigh : width ≤ k - start → v.testBit (k - start) = false := fun hk =>
    Nat.testBit_lt_two_pow (hv.trans_le (Nat.pow_le_pow_right (by decide) hk))
  have hword : 32 ≤ k → w.getLsbD k = false := BitVec.getLsbD_of_ge w k
  simp only [BitVec.getLsbD_or, BitVec.getLsbD_and, BitVec.getLsbD_not, BitVec.getLsbD_shiftLeft,
    BitVec.getLsbD_ofNat, Nat.testBit_mul_two_pow]
  revert hhigh hword
  cases w.getLsbD k <;> cases v.testBit (k - start) <;> split_ifs <;> simp <;> omega

/-- The bits of a word in a field that starts where the ones before it end. -/
def fieldValue (lengths : List Nat) (w : BitVec 32) (i : Nat) : Nat :=
  w.toNat / 2 ^ (lengths.take i).sum % 2 ^ lengths.getD i 0

variable {lengths : List Nat} {fields : List EncodingField} {scheme : NsfTeWeightEncoding}

theorem ending_le_start {i j : Nat} (hi : i < lengths.length) (hij : i < j) :
    (lengths.take i).sum + lengths[i] ≤ (lengths.take j).sum := by
  rw [← List.sum_take_succ lengths i hi]
  exact List.monotone_sum_take lengths hij

/-- The field gets the value, and the other fields and the bits after them stay. -/
theorem exists_encodeValue (hsum : lengths.sum ≤ 32) (hwidth : ∀ width ∈ lengths, 0 < width ∧ width < 32)
    {i v : Nat} (hi : i < lengths.length) (hv : v < 2 ^ lengths[i]) (w : BitVec 32) :
    ∃ w', encodeValue w v i lengths = some w' ∧ (∀ k, lengths.sum ≤ k → w'.getLsbD k = w.getLsbD k) ∧
      ∀ j < lengths.length, fieldValue lengths w' j = if j = i then v else fieldValue lengths w j := by
  have hend : (lengths.take i).sum + lengths[i] ≤ (lengths.take lengths.length).sum := ending_le_start hi hi
  rw [List.take_length] at hend
  obtain ⟨hpos, hlt⟩ := hwidth _ (List.getElem_mem hi)
  have hstart : startingIdx lengths i = (lengths.take i).sum := Nat.mod_eq_of_lt (by omega)
  have hbound : v < fieldBound lengths[i] := hv.trans_le (by unfold fieldBound; split <;> simp_all)
  have hbits := getLsbD_setBits w (hend.trans hsum) hv
  rw [encodeValue, List.getElem?_eq_getElem hi, hstart]
  refine ⟨_, if_pos ⟨hlt, by omega, hbound⟩, fun k hk => ?_, fun j hj => Nat.eq_of_testBit_eq fun k => ?_⟩
  · rw [Nat.mod_eq_of_lt hv, hbits, if_neg (by omega)]
  · have htest : ∀ w : BitVec 32, (fieldValue lengths w j).testBit k =
        (decide (k < lengths[j]) && w.getLsbD ((lengths.take j).sum + k)) := fun w => by
      simp [fieldValue, hj, Nat.testBit_div_two_pow, Nat.add_comm, BitVec.getLsbD]
    rw [htest, Nat.mod_eq_of_lt hv, hbits]
    rcases Nat.lt_trichotomy j i with hji | rfl | hij
    · have := ending_le_start hj hji
      rw [if_neg hji.ne, htest]
      by_cases hk : k < lengths[j]
      · rw [if_neg (by omega)]
      · simp [hk]
    · by_cases hk : k < lengths[j]
      · simp [hk]
      · simp [hk, Nat.testBit_lt_two_pow (hv.trans_le (Nat.pow_le_pow_right (by decide) (Nat.le_of_not_lt hk)))]
    · have := ending_le_start hi hij
      rw [if_neg hij.ne', htest, if_neg (by omega)]

theorem foldlM_fieldRanges (w : BitVec 32) (start : Nat) (values : List (String × Nat))
    (hsum : start + (fields.map (toSizeT ·.width)).sum ≤ 32) :
    (fieldRanges start fields).foldlM (fun values range =>
      (decodeBits w range.2.1 range.2.2).map fun value => values ++ [(range.1.name, value)]) values =
    some (values ++ fields.mapIdx fun i field => (field.name,
      w.toNat / 2 ^ (start + ((fields.map (toSizeT ·.width)).take i).sum) % 2 ^ toSizeT field.width)) := by
  induction fields generalizing start values with
  | nil => simp [fieldRanges]
  | cons field fields ih =>
    rw [List.map_cons, List.sum_cons] at hsum
    have hin : start + toSizeT field.width ≤ 32 := by omega
    rw [fieldRanges, List.foldlM_cons, Nat.mod_eq_of_lt (by omega), decodeBits, if_pos fun _ => hin]
    simp [ih (start + toSizeT field.width) _ (by omega), Nat.add_assoc]

section

variable (hfields : scheme.fields = some fields) (hlengths : encodingSchemeToVector scheme = some lengths)
  (hpos : ∀ field ∈ fields, 0 < field.width) (hsum : (fields.map (·.width)).sum ≤ 32)
include hfields hlengths hpos hsum

/-- Each field is read from where the ones before it end. -/
theorem lengths_of_fields : lengths = fields.map (·.width.toNat) ∧ (∀ width ∈ lengths, 0 < width ∧ width < 32) ∧
    lengths.sum ≤ 32 ∧
      ∀ w, decodeValues w scheme = some (fields.mapIdx fun i field => (field.name, fieldValue lengths w i)) := by
  rw [encodingSchemeToVector, hfields] at hlengths
  obtain rfl := Option.some.inj hlengths
  have hwidths : fields.map (toSizeT ·.width) = fields.map (·.width.toNat) ∧
      (∀ width ∈ fields.map (toSizeT ·.width), 0 < width ∧ width < 32) ∧ (fields.map (toSizeT ·.width)).sum ≤ 32 := by
    cases scheme with
    | unset => exact nomatch hfields
    | l2Encoding | fpfL2Encoding =>
      obtain rfl := Option.some.inj hfields
      simp [toSizeT] at hpos hsum ⊢
      omega
  refine ⟨hwidths.1, hwidths.2.1, hwidths.2.2, fun w => ?_⟩
  rw [decodeValues, NsfTeWeightEncoding.ranges, hfields]
  refine (foldlM_fieldRanges w 0 [] (by omega)).trans ?_
  rw [List.nil_append]
  refine congrArg some (List.ext_getElem (by simp) fun i hi _ => ?_)
  rw [List.length_mapIdx] at hi
  simp [fieldValue, hi]

end

end

section

variable {F O : Type} [LbwFloat F]

inductive ExtCommunity where
  | nonTransitiveLbw (asn : Nat) (rawLbw : BitVec 32)
  | other (value : Nat)

/-- The parts of a path that the actions below read. `others` stands for the rest. -/
structure PolicyPath (O : Type) where
  asPath : BgpAttrAsPathC
  extCommunities : List ExtCommunity
  topologyInfo : List (String × Nat)
  others : O

namespace PolicyPath

/-- The community with the lowest bandwidth that is not negative, with its AS number. -/
def getNonTransitiveLbwExtCommunity (F : Type) [LbwFloat F] (path : PolicyPath O) : Option (Nat × BitVec 32) :=
  (path.extCommunities.foldl (fun (lowest : Option (Nat × BitVec 32) × F) community =>
    match community with
    | .nonTransitiveLbw asn rawLbw =>
      let lbwValue : F := LbwFloat.ofBits rawLbw
      if LbwFloat.isNegative lbwValue || LbwFloat.exceeds lbwValue lowest.2 then lowest
      else (some (asn, rawLbw), lbwValue)
    | .other _ => lowest) (none, LbwFloat.fltMax)).1

def getNonTransitiveRawLbwValue (F : Type) [LbwFloat F] (path : PolicyPath O) : Option (BitVec 32) :=
  (path.getNonTransitiveLbwExtCommunity F).map (·.2)

variable (path : PolicyPath O) (asn : Nat)

def pruneNonTransitiveLbwExtCommunity : PolicyPath O :=
  { path with
    extCommunities := path.extCommunities.filter fun community =>
      match community with
      | .nonTransitiveLbw _ _ => false
      | .other _ => true }

def setNonTransitiveRawLbwExtCommunity (rawLbw : BitVec 32) : PolicyPath O :=
  { path with
    extCommunities := path.pruneNonTransitiveLbwExtCommunity.extCommunities ++ [.nonTransitiveLbw (asn % 2 ^ 16) rawLbw] }

def setNonTransitiveLbwExtCommunity (lbwValue : F) : PolicyPath O :=
  path.setNonTransitiveRawLbwExtCommunity asn (LbwFloat.toBits lbwValue)

def setOrPrune : Option (Nat × F) → PolicyPath O
  | some (asn, lbwValue) => path.setNonTransitiveLbwExtCommunity asn lbwValue
  | none => path.pruneNonTransitiveLbwExtCommunity

end PolicyPath

structure LbwActionData (F : Type) where
  originalAsnLbw : Option (Nat × F)
  asn : Nat
  linkBandwidthBps : Option F
  aggregateReceivedUcmpWeight : Option F
  aggregateLocalUcmpWeight : Option F

/-- The part of the action data that actions only read. -/
structure BgpPolicyActionData (F : Type) where
  switchId : Option Nat
  multiPathSize : Option Nat
  lbwActionData : Option (LbwActionData F)

/-- What an AdjRib passes to a policy: `attrs` are the attributes before the configuration of the peer. -/
def createPolicyActionDataCommon (localAs : Nat) (linkBandwidthBps : Option F) (attrs : PolicyPath O)
    (switchId multiPathSize : Option Nat) (aggregateReceivedUcmpWeight aggregateLocalUcmpWeight : Option F) :
    BgpPolicyActionData F where
  switchId := switchId
  multiPathSize := multiPathSize
  lbwActionData := some {
    originalAsnLbw := (attrs.getNonTransitiveLbwExtCommunity F).map fun lbw => (lbw.1, LbwFloat.ofBits lbw.2)
    asn := localAs
    linkBandwidthBps
    aggregateReceivedUcmpWeight
    aggregateLocalUcmpWeight }

end

section

variable {F O : Type} [LbwFloat F]

inductive LbwExtCommunityActionType where
  | disable
  | setLinkBps
  | accept
  | bestPath
  | aggregateLocal
  | aggregateReceived
  | encodeAggregateReceivedOverwrite
  | encodeMultipath
  | encodeSwitchId
  | decodeAll
  | decodeAggregateCapacityOverwrite
  /-- A number that no name stands for, such as the default 0. -/
  | unnamed (value : Int)
  deriving DecidableEq

/-- The constructor has checked that what encodes has a scheme and a field. -/
structure LbwExtCommunityAction where
  type : LbwExtCommunityActionType
  encodingScheme : Option NsfTeWeightEncoding
  encodingId : Option Int
  encoding_checked : type ∈ [.encodeAggregateReceivedOverwrite, .encodeSwitchId, .encodeMultipath] →
    encodingScheme.isSome = true ∧ encodingId.isSome = true

abbrev ActionState (O : Type) := PolicyPath O × TransientActionData

def TransientActionData.rejectLbwIf (flags : TransientActionData) (reject : Bool) : TransientActionData :=
  { flags with isLbwRejected := flags.isLbwRejected || reject }

/-- The path with the original community restored if the path has lost its own. -/
def LbwActionData.restore (lbw : LbwActionData F) (path : PolicyPath O) : PolicyPath O :=
  if (path.getNonTransitiveRawLbwValue F).isNone && lbw.originalAsnLbw.isSome then path.setOrPrune lbw.originalAsnLbw
  else path

namespace LbwExtCommunityAction

variable (action : LbwExtCommunityAction)

/-- Encode a value into the field that the action names. -/
def encode (encodedLbw : BitVec 32) (val : Nat) : Option (BitVec 32) := do
  let lengths ← encodingSchemeToVector (← action.encodingScheme)
  encodeValue encodedLbw val (toSizeT (← action.encodingId)) lengths

def encodeInto (lbw : LbwActionData F) (val : Option Nat) (state : ActionState O) : Option (ActionState O) :=
  let path := lbw.restore state.1
  val.bind fun val =>
    (action.encode ((path.getNonTransitiveRawLbwValue F).getD 0) val).map fun encodedLbw =>
      (path.setNonTransitiveRawLbwExtCommunity lbw.asn encodedLbw, state.2.rejectLbwIf (encodedLbw == 0))

variable (data : BgpPolicyActionData F)

def applyLbwAction (lbw : LbwActionData F) (state : ActionState O) :
    Option (ActionState O) :=
  let (path, flags) := state
  match action.type with
  | .disable => some (path.pruneNonTransitiveLbwExtCommunity, flags)
  | .accept =>
    let path := path.setOrPrune lbw.originalAsnLbw
    some (path, flags.rejectLbwIf (action.encodingScheme.isSome && (path.getNonTransitiveRawLbwValue F).getD 0 == 0))
  | .decodeAll =>
    -- without an original community none is left, and the path is rejected
    let path := path.setOrPrune lbw.originalAsnLbw
    let encodedLbw := (path.getNonTransitiveRawLbwValue F).getD 0
    if encodedLbw = 0 then some (path, flags.rejectLbwIf true)
    else (action.encodingScheme.bind (decodeValues encodedLbw)).map fun values =>
      ({ path with topologyInfo := values }, flags)
  | .setLinkBps => lbw.linkBandwidthBps.map fun bps => (path.setNonTransitiveLbwExtCommunity lbw.asn bps, flags)
  | .bestPath =>
    some (if lbw.aggregateReceivedUcmpWeight.isNone then path.pruneNonTransitiveLbwExtCommunity
      else path.setOrPrune lbw.originalAsnLbw, flags)
  | .aggregateReceived => some (path.setOrPrune (lbw.aggregateReceivedUcmpWeight.map (lbw.asn, ·)), flags)
  | .aggregateLocal => some (path.setOrPrune (lbw.aggregateLocalUcmpWeight.map (lbw.asn, ·)), flags)
  | .encodeAggregateReceivedOverwrite =>
    match lbw.aggregateReceivedUcmpWeight.filter (!LbwFloat.isZero ·) with
    | none => some (path.pruneNonTransitiveLbwExtCommunity, flags.rejectLbwIf true)
    | some weight =>
      ((LbwFloat.toSize weight).bind (action.encode 0)).map fun encodedLbw =>
        (path.setNonTransitiveRawLbwExtCommunity lbw.asn encodedLbw, flags)
  | .encodeSwitchId => action.encodeInto lbw data.switchId state
  | .encodeMultipath => action.encodeInto lbw data.multiPathSize state
  | .decodeAggregateCapacityOverwrite =>
    let path := lbw.restore path
    let curLbwValue := path.getNonTransitiveRawLbwValue F
    let aggCapacity := curLbwValue.elim (some LbwFloat.zero) fun encodedLbw =>
      action.encodingScheme.bind (decodeAndAggregateCapacity F encodedLbw)
    aggCapacity.map fun aggCapacity =>
      (path.setNonTransitiveLbwExtCommunity lbw.asn aggCapacity, flags.rejectLbwIf (curLbwValue.getD 0 == 0))
  | .unnamed _ => none

/-- Without link bandwidth data the action does nothing. -/
def applyAction (state : ActionState O) : Option (ActionState O) :=
  match data.lbwActionData with
  | none => some state
  | some lbw => action.applyLbwAction data lbw state

end LbwExtCommunityAction

end

section

variable {F O : Type} [LbwFloat F]

namespace LbwExtCommunityAction

variable (action : LbwExtCommunityAction) {encodedLbw : BitVec 32}

/-- The width of the field that the action names and the bit that it starts at. -/
def field : Option (Nat × Nat) := do
  let lengths ← encodingSchemeToVector (← action.encodingScheme)
  let id := toSizeT (← action.encodingId)
  return (← lengths[id]?, startingIdx lengths id)

/-- The field is narrower than the word and starts in it. -/
def FieldInWord : Prop := ∃ field ∈ action.field, field.1 < 32 ∧ field.2 < 32

def Fits (val : Nat) : Prop := ∃ field ∈ action.field, field.1 < 32 ∧ field.2 < 32 ∧ val < fieldBound field.1

/-- The fields of the action's scheme that are decoded lie in the word. -/
def Decodable (decoded : EncodingField → Bool) : Prop :=
  ∃ scheme ∈ action.encodingScheme, ∃ ranges ∈ scheme.ranges,
    ∀ range ∈ ranges, decoded range.1 = true → range.2.1 < range.2.2 → range.2.2 ≤ 32

theorem isSome_encode_iff {val : Nat} : (action.encode encodedLbw val).isSome ↔ action.Fits val := by
  simp only [encode, Fits, field, encodeValue, bind_eq_bind, isSome_bind_iff, pure_def,
    isSome_ite, mem_def, bind_eq_some_iff, Option.some.injEq]
  constructor
  · rintro ⟨scheme, hscheme, lengths, hlengths, id, hid, width, hwidth, hfits⟩
    exact ⟨_, ⟨scheme, hscheme, lengths, hlengths, id, hid, width, hwidth, rfl⟩, hfits⟩
  · rintro ⟨_, ⟨scheme, hscheme, lengths, hlengths, id, hid, width, hwidth, rfl⟩, hfits⟩
    exact ⟨scheme, hscheme, lengths, hlengths, id, hid, width, hwidth, hfits⟩

theorem isSome_encodeInto_iff {lbw : LbwActionData F} {val : Option Nat} {state : ActionState O} :
    (action.encodeInto lbw val state).isSome ↔ ∃ val' ∈ val, action.Fits val' := by
  simp only [encodeInto, isSome_bind_iff, isSome_map, isSome_encode_iff]

theorem isSome_decodeValues_iff :
    (action.encodingScheme.bind (decodeValues encodedLbw)).isSome ↔ action.Decodable fun _ => true := by
  simp only [isSome_bind_iff, decodeValues, bind_eq_bind, Decodable, true_implies]
  refine exists_congr fun scheme => and_congr_right fun _ => exists_congr fun ranges => and_congr_right fun _ => ?_
  exact isSome_foldlM_iff_forall fun _ range => by rw [isSome_map, decodeBits, isSome_ite]

theorem isSome_decodeAndAggregateCapacity_iff :
    (action.encodingScheme.bind (decodeAndAggregateCapacity F encodedLbw)).isSome ↔
      action.Decodable (·.isUcmpCapacity) := by
  simp only [isSome_bind_iff, decodeAndAggregateCapacity, bind_eq_bind]
  refine exists_congr fun scheme => and_congr_right fun _ => exists_congr fun ranges => and_congr_right fun _ => ?_
  rw [isSome_foldlM_iff_forall fun _ range => by rw [isSome_map, decodeBits, isSome_ite]]
  simp only [List.mem_filter, and_imp]

variable (data : BgpPolicyActionData F)

/-- The inputs on which the action does not end the process. For the switch id the value was checked against the
width of its field when the configuration was accepted. -/
def Safe (path : PolicyPath O) : Prop :=
  ∀ lbw ∈ data.lbwActionData, match action.type with
    | .setLinkBps => lbw.linkBandwidthBps ≠ none
    | .encodeAggregateReceivedOverwrite => ∀ weight ∈ lbw.aggregateReceivedUcmpWeight,
        LbwFloat.isZero weight = false → ∃ val ∈ LbwFloat.toSize weight, action.Fits val
    | .encodeMultipath => ∃ val ∈ data.multiPathSize, action.Fits val
    | .encodeSwitchId => data.switchId.isSome = true ∧ action.FieldInWord
    | .decodeAll =>
      ((path.setOrPrune lbw.originalAsnLbw).getNonTransitiveRawLbwValue F).getD 0 ≠ 0 → action.Decodable fun _ => true
    | .decodeAggregateCapacityOverwrite =>
      (lbw.restore path).getNonTransitiveRawLbwValue F ≠ none → action.Decodable (·.isUcmpCapacity)
    | .unnamed _ => False
    | _ => True

/-- The check of an action that encodes the switch id, when the configuration is accepted. -/
def validateSwitchIdAction (policyName termName : String) (switchId : Option Nat) : Option (Except String Unit) :=
  let about := "Policy '" ++ policyName ++ "', term '" ++ termName ++ "' "
  match switchId, action.encodingScheme, action.encodingId with
  | none, _, _ => some (.error (about ++ "encodes switch_id, but the local switch ID is unavailable"))
  | some switchId, some encodingScheme, some encodingId =>
    (encodingSchemeToVector encodingScheme).map fun fieldWidths =>
      if encodingId < 0 ∨ fieldWidths.length ≤ toSizeT encodingId then
        .error (about ++ "has invalid switch_id encoding_id " ++ toString encodingId)
      else
        let fieldWidth := fieldWidths.getD (toSizeT encodingId) 0
        if fieldWidth < 64 ∧ 2 ^ fieldWidth ≤ switchId then
          .error (about ++ "allocates " ++ toString fieldWidth ++ " bits for switch_id, but switch ID " ++
            toString switchId ++ " does not fit")
        else .ok ()
  | some _, _, _ => some (.error (about ++ "has an incomplete switch_id encoding action"))

theorem fits_of_validated {policyName termName : String} {switchId : Nat}
    (h : action.validateSwitchIdAction policyName termName (some switchId) = some (.ok ()))
    (hword : action.FieldInWord) : action.Fits switchId := by
  obtain ⟨⟨width, start⟩, hfield, hwidth, hstart⟩ := hword
  refine ⟨_, hfield, hwidth, hstart, ?_⟩
  simp only [field, mem_def, bind_eq_bind, bind_eq_some_iff, pure_def, Option.some.injEq, Prod.mk.injEq] at hfield
  obtain ⟨scheme, hscheme, lengths, hlengths, id, hid, width', hget, heq, -⟩ := hfield
  rw [heq] at hget
  have hgetD : lengths.getD (toSizeT id) 0 = width := by rw [List.getD_eq_getElem?_getD, hget, getD_some]
  simp only [validateSwitchIdAction, hscheme, hid, hlengths, map_some, hgetD] at h
  split at h
  · cases h
  · split at h
    · cases h
    next hroom =>
      have hlt : switchId < 2 ^ width := Nat.lt_of_not_le fun hle => hroom ⟨by omega, hle⟩
      rw [fieldBound]
      split
      next hlast =>
        have hlast : width = 31 := hlast
        rw [hlast] at hlt
        omega
      · exact hlt

/-- An action returns exactly on the inputs that are safe, if it has passed the check for the switch id. -/
theorem isSome_applyAction_iff (hvalid : action.type = .encodeSwitchId →
      ∀ switchId ∈ data.switchId, ∃ policyName termName,
        action.validateSwitchIdAction policyName termName (some switchId) = some (.ok ()))
    (state : ActionState O) : (action.applyAction data state).isSome ↔ action.Safe data state.1 := by
  obtain ⟨path, flags⟩ := state
  rw [applyAction, Safe]
  cases data.lbwActionData with
  | none => exact ⟨fun _ => nofun, fun _ => rfl⟩
  | some lbw =>
    simp only [mem_some_iff, forall_eq', applyLbwAction]
    cases htype : action.type with
    | disable => simp
    | accept => simp
    | bestPath => simp
    | aggregateLocal => simp
    | aggregateReceived => simp
    | unnamed => simp
    | setLinkBps => simp [isSome_iff_ne_none]
    | encodeMultipath => exact isSome_encodeInto_iff action
    | encodeSwitchId =>
      rw [isSome_encodeInto_iff, isSome_iff_exists]
      constructor
      · rintro ⟨val, hval, field, hfield, hwidth, hstart, -⟩
        exact ⟨⟨val, hval⟩, field, hfield, hwidth, hstart⟩
      · rintro ⟨⟨val, hval⟩, hword⟩
        obtain ⟨_, _, hok⟩ := hvalid htype val hval
        exact ⟨val, hval, action.fits_of_validated hok hword⟩
    | encodeAggregateReceivedOverwrite =>
      cases lbw.aggregateReceivedUcmpWeight with
      | none => simp
      | some weight =>
        cases hzero : LbwFloat.isZero weight with
        | true => simp [Option.filter, hzero]
        | false => simp [Option.filter, hzero, isSome_bind_iff, isSome_encode_iff]
    | decodeAll =>
      dsimp only
      split
      next hzero => exact ⟨fun _ hne => absurd hzero hne, fun _ => rfl⟩
      next hne =>
        rw [isSome_map, isSome_decodeValues_iff]
        exact ⟨fun h _ => h, fun h => h hne⟩
    | decodeAggregateCapacityOverwrite =>
      rw [isSome_map]
      cases (lbw.restore path).getNonTransitiveRawLbwValue F with
      | none => simp
      | some encodedLbw =>
        rw [elim_some, isSome_decodeAndAggregateCapacity_iff]
        exact ⟨fun h _ => h, fun h => h nofun⟩

end LbwExtCommunityAction

inductive CommunityActionType where
  | add
  | set
  | remove
  | unnamed (value : Int)

inductive Origin where
  | igp
  | egp
  | incomplete
  | unnamed (value : Int)

/-- The actions of a policy. What a community action and the origin write to the rest of the path is any function
of it. `other` stands for the actions that neither check nor count: they change extended communities or set MED,
the local preference, the weight, the nexthop or the backup address, or turn the AS path into a set. -/
inductive PolicyAttributesAction (O : Type) where
  | lbwExtCommunity (action : LbwExtCommunityAction)
  | asPath (action : AsPathAction)
  | community (actionType : CommunityActionType) (update : O → O)
  | setOrigin (origin : Origin) (update : O → O)
  | other (update : ActionState O → ActionState O)

namespace PolicyAttributesAction

variable (data : BgpPolicyActionData F)

def applyAction (state : ActionState O) : PolicyAttributesAction O → Option (ActionState O)
  | .lbwExtCommunity action => action.applyAction data state
  | .asPath action => (action.applyAction state.1.asPath).map fun asPath => ({ state.1 with asPath }, state.2)
  -- the defaults of the two switches are failed checks
  | .community (.unnamed _) _ | .setOrigin (.unnamed _) _ => none
  | .community _ update | .setOrigin _ update => some ({ state.1 with others := update state.1.others }, state.2)
  | .other update => some (update state)

/-- The inputs on which an action does not end the process. -/
def Safe (state : ActionState O) : PolicyAttributesAction O → Prop
  | .lbwExtCommunity action => action.Safe data state.1
  | .asPath (.setAsPathPrepend _) => leadingSequence state.1.asPath ≤ kMaxAsPathSegmentSize
  | .community (.unnamed _) _ | .setOrigin (.unnamed _) _ => False
  | _ => True

end PolicyAttributesAction

theorem isSome_prepend_iff (action : SetAsPathPrependAction) (asPath : BgpAttrAsPathC) :
    (action.applyAction asPath).isSome ↔ leadingSequence asPath ≤ kMaxAsPathSegmentSize := by
  cases asPath with
  | nil => simp [SetAsPathPrependAction.applyAction, leadingSequence]
  | cons firstSegment rest =>
    by_cases hne : firstSegment.asSequence = []
    · simp [SetAsPathPrependAction.applyAction, leadingSequence, hne]
    · rw [applyAction_of_ne_nil action hne, SetAsPathPrependAction.firstSegmentToOccupy, insertFront]
      simp only [leadingSequence, List.head?_cons, elim_some]
      split
      next hneg => exact ⟨by simp, fun hle => by omega⟩
      next hroom => exact ⟨fun _ => by omega, fun _ => rfl⟩

variable {P M : Type}

/-- `validateSwitchIdEncoding` accepts the policy. -/
def SwitchIdValidated (policy : PolicyBase P M (PolicyAttributesAction O)) (switchId : Option Nat) : Prop :=
  ∀ term ∈ policy.policyTerms, ∀ action, .lbwExtCommunity action ∈ term.actions → action.type = .encodeSwitchId →
    action.validateSwitchIdAction policy.policyName term.termName switchId = some (.ok ())

/-- A policy that was accepted gives a result exactly when every action that it applies is safe. -/
theorem policy_returns_iff (holds : M → PolicyPath O → Bool) {policy : PolicyBase P M (PolicyAttributesAction O)}
    {switchId : Option Nat} (hvalid : SwitchIdValidated policy switchId) {data : BgpPolicyActionData F}
    (hdata : data.switchId = none ∨ data.switchId = switchId) (path : PolicyPath O)
    (actionData : TransientActionData) (pfx : P) :
    (evaluatePolicy holds (PolicyAttributesAction.applyAction data) policy path actionData pfx).isSome ↔
      PolicySafe holds (PolicyAttributesAction.applyAction data) (PolicyAttributesAction.Safe data) policy path
        actionData pfx := by
  rw [evaluatePolicy, Option.isSome_map]
  refine isSome_foldlM_iff fun term hterm =>
    isSome_evaluateTerm_iff (fun action haction state => ?_) policy.policyName pfx
  cases action with
  | other update => exact ⟨fun _ => trivial, fun _ => rfl⟩
  | community type update | setOrigin type update =>
    cases type <;> simp [PolicyAttributesAction.applyAction, PolicyAttributesAction.Safe]
  | asPath action =>
    cases action with
    | setAsPath action => exact ⟨fun _ => trivial, fun _ => rfl⟩
    | setAsPathPrepend action =>
      rw [PolicyAttributesAction.applyAction, isSome_map]
      exact isSome_prepend_iff action state.1.asPath
  | lbwExtCommunity action =>
    refine action.isSome_applyAction_iff data (fun htype id hid => ?_) state
    obtain hnone | heq := hdata
    · rw [hnone] at hid
      cases hid
    · have hsome : switchId = some id := heq ▸ hid
      exact ⟨_, _, hsome ▸ hvalid term hterm action haction htype⟩

/-- Whole numbers in the place of single precision ones. -/
instance : LbwFloat Nat where
  ofBits := BitVec.toNat
  toBits := BitVec.ofNat 32
  fltMax := 2 ^ 32
  zero := 0
  one := 1
  mul := (· * ·)
  isNegative _ := false
  isZero weight := weight == 0
  exceeds weight lowest := decide (lowest < weight)
  toSize := some

/-- Egress: the number of paths goes into a field of three bits, of which the path has eleven in use. -/
def multipathPolicy : PolicyBase Unit Unit (PolicyAttributesAction Unit) where
  policyName := "EGRESS"
  policyTerms := [{
    termName := "weight"
    attributesMatches := []
    prefixMatches := []
    actions := [.lbwExtCommunity {
      type := .encodeMultipath
      encodingScheme := some (.fpfL2Encoding 4 4 3)
      encodingId := some 2
      encoding_checked := fun _ => ⟨rfl, rfl⟩ }]
    termMissFlowControlAction := .continueAction
    termMatchFlowControlAction := .allow }]
  defaultAllow := false

/-- A path with an encoded link bandwidth, announced to a peer. -/
def encodedPath : PolicyPath Unit := ⟨[], [.nonTransitiveLbw 65001 0x21], [], ()⟩

def announcedData (multiPathSize : Nat) : BgpPolicyActionData Nat :=
  createPolicyActionDataCommon 65000 none encodedPath (some 1) (some multiPathSize) none none

theorem switchIdValidated_multipathPolicy : SwitchIdValidated multipathPolicy (some 1) := by
  intro term hterm action haction htype
  obtain rfl := List.mem_singleton.mp hterm
  cases List.mem_singleton.mp haction
  cases htype

theorem policy_returns_iff_multipath : SwitchIdValidated multipathPolicy (some 1) ∧
    ((evaluatePolicy (fun _ _ => true) (PolicyAttributesAction.applyAction (announcedData 7)) multipathPolicy
      encodedPath {} ()).isSome ↔ PolicySafe (fun _ _ => true) (PolicyAttributesAction.applyAction (announcedData 7))
        (PolicyAttributesAction.Safe (announcedData 7)) multipathPolicy encodedPath {} ()) :=
  ⟨switchIdValidated_multipathPolicy, policy_returns_iff _ switchIdValidated_multipathPolicy (.inr rfl) _ _ _⟩

/-- With seven paths the policy gives a result, with eight it ends the process. -/
theorem multipath_eight_aborts : SwitchIdValidated multipathPolicy (some 1) ∧
    (evaluatePolicy (fun _ _ => true) (PolicyAttributesAction.applyAction (announcedData 7)) multipathPolicy
      encodedPath {} ()).isSome = true ∧
    evaluatePolicy (fun _ _ => true) (PolicyAttributesAction.applyAction (announcedData 8)) multipathPolicy
      encodedPath {} () = none := by
  refine ⟨switchIdValidated_multipathPolicy, ?_, ?_⟩
  · decide
  · rfl

end

end FbossBgp.Policy
