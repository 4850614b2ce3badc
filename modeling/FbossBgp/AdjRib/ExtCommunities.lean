import FbossBgp.Rib.RibEntry

/-! The extended communities that are forwarded to a peer. Of the link bandwidths only the lowest are to stay, one that
is transitive and one that is not; the code compares both kinds with one threshold. -/

namespace FbossBgp.AdjRib

open List
open Rib (BgpSessionType)

/-- An extended community as its two raw words. -/
structure BgpAttrExtCommunityC where
  rawValHigh : BitVec 32
  rawValLow : BitVec 32
  deriving DecidableEq

namespace BgpAttrExtCommunityC

variable (comm : BgpAttrExtCommunityC)

def getType : Nat := comm.rawValHigh.toNat / 2 ^ 24

/-- AS-specific, IPv4-specific and opaque communities have a subtype. -/
def getSubType : Option Nat :=
  if comm.getType ∈ [0x40, 0x00, 0x02, 0x41, 0x01, 0x43, 0x03] then some (comm.rawValHigh.toNat / 2 ^ 16 % 2 ^ 8)
  else none

def isTransitive : Bool := !comm.getType.testBit 6

def isLinkBandwidthCommunity : Bool := comm.getSubType == some 4

def isNonTransitiveLinkBandwidthCommunity : Bool := comm.getType == 0x40 && comm.isLinkBandwidthCommunity

def ofKind (transitive : Bool) : Bool := comm.isLinkBandwidthCommunity && comm.isTransitive == transitive

/-- The bandwidth, `value` being the number that the bits of a float stand for. -/
def lbw {F : Type} (value : BitVec 32 → F) : F := value comm.rawValLow

end BgpAttrExtCommunityC

variable {F A : Type} [LinearOrder F] [Zero F] (value : BitVec 32 → F) (fltMax : F)
  (communities : List BgpAttrExtCommunityC)

/-- A step of the first pass, which finds the lowest bandwidth that is not negative and `shouldPrune`. -/
def scanLbw (state : F × Bool) (comm : BgpAttrExtCommunityC) : F × Bool :=
  if !comm.isLinkBandwidthCommunity then state
  else if comm.lbw value < 0 then (state.1, true)
  else (min state.1 (comm.lbw value), state.2 || decide (state.1 ≠ fltMax))

def lowestLbw : F × Bool := communities.foldl (scanLbw value fltMax) (fltMax, false)

def pruneLbwExtCommunitiesCommon : List BgpAttrExtCommunityC :=
  let lowest := lowestLbw value fltMax communities
  if !lowest.2 then communities
  else communities.filter fun comm =>
    !(comm.isLinkBandwidthCommunity && (decide (comm.lbw value > lowest.1) || decide (comm.lbw value < 0)))

variable (advertiseLinkBandwidth : Option A) (sessionType : BgpSessionType) (mask : Option Bool)

/-- `mask` is the flag `customizedLbwEnabled` of the mask, if there is one. -/
def allowedExtCommunities : List BgpAttrExtCommunityC :=
  let keepNonTransitiveLbw := mask == some true || advertiseLinkBandwidth.isSome
  if sessionType = .ebgp then
    communities.filter fun comm =>
      comm.isTransitive || (keepNonTransitiveLbw && comm.isNonTransitiveLinkBandwidthCommunity)
  else communities

def updateExtCommunitiesCommon : List BgpAttrExtCommunityC :=
  let newExtCommunities := pruneLbwExtCommunitiesCommon value fltMax
    (allowedExtCommunities communities advertiseLinkBandwidth sessionType mask)
  if newExtCommunities.length ≠ communities.length then newExtCommunities else communities

/-- Of each kind the lowest bandwidth that is not negative is kept, beside all that is no bandwidth. -/
structure ForwardsLowest (kept : List BgpAttrExtCommunityC) : Prop where
  lbw : ∀ transitive, (∀ comm ∈ communities, comm.ofKind transitive → comm.lbw value < 0) ∧
      kept.filter (·.ofKind transitive) = [] ∨
    ∃ lowest ∈ communities, kept.filter (·.ofKind transitive) = [lowest] ∧ 0 ≤ lowest.lbw value ∧
      ∀ comm ∈ communities, comm.ofKind transitive → 0 ≤ comm.lbw value → lowest.lbw value ≤ comm.lbw value
  others : kept.filter (!·.isLinkBandwidthCommunity) = communities.filter (!·.isLinkBandwidthCommunity)

/-- Not negative, and as low as all bandwidths of either kind that are not negative. -/
def IsLowest (comm : BgpAttrExtCommunityC) : Prop :=
  0 ≤ comm.lbw value ∧ ∀ other ∈ communities, other.isLinkBandwidthCommunity = true → 0 ≤ other.lbw value →
    comm.lbw value ≤ other.lbw value
  deriving Decidable

/-- Each kind that has bandwidths which are not negative has exactly one of the lowest bandwidth of both kinds. -/
def OneLowest : Prop :=
  ∀ transitive, (∃ comm ∈ communities, comm.ofKind transitive ∧ 0 ≤ comm.lbw value) →
    (communities.filter fun comm => comm.ofKind transitive ∧ IsLowest value communities comm).length = 1

section

variable {value fltMax communities}
  (hfinite : ∀ comm ∈ communities, comm.isLinkBandwidthCommunity = true → comm.lbw value < fltMax)
include hfinite

/-- The first pass finds the lowest bandwidth, and does not prune if there is at most one and none is negative. -/
theorem lowestLbw_spec : let lowest := lowestLbw value fltMax communities
    (∀ comm ∈ communities, comm.isLinkBandwidthCommunity = true → 0 ≤ comm.lbw value → lowest.1 ≤ comm.lbw value) ∧
      (lowest.1 = fltMax ∨
        ∃ comm ∈ communities, comm.isLinkBandwidthCommunity = true ∧ 0 ≤ comm.lbw value ∧ comm.lbw value = lowest.1) ∧
      (lowest.2 = false → ∀ comm ∈ communities, comm.isLinkBandwidthCommunity = true →
        IsLowest value communities comm) := by
  induction communities using reverseRecOn with
  | nil => simp [lowestLbw]
  | append_singleton communities last ih =>
    obtain ⟨hle, hattained, hsingle⟩ := ih fun comm hmem => hfinite comm (mem_append_left _ hmem)
    have hlast := hfinite last (mem_append_right _ mem_cons_self)
    simp only [lowestLbw, foldl_append, foldl_cons, foldl_nil, IsLowest, scanLbw] at *
    -- the last one is no bandwidth, a negative one, or one that is compared with the lowest before it
    grind

theorem filter_pruneLbwExtCommunitiesCommon (transitive : Bool) :
    (pruneLbwExtCommunitiesCommon value fltMax communities).filter (·.ofKind transitive) =
      communities.filter fun comm => comm.ofKind transitive ∧ IsLowest value communities comm := by
  obtain ⟨hle, hattained, hsingle⟩ := lowestLbw_spec hfinite
  rw [pruneLbwExtCommunitiesCommon]
  split
  · refine filter_congr fun comm hmem => ?_
    grind [BgpAttrExtCommunityC.ofKind]
  · rw [filter_filter]
    refine filter_congr fun comm hmem => ?_
    grind [BgpAttrExtCommunityC.ofKind, IsLowest]

end

theorem updateExtCommunitiesCommon_eq :
    updateExtCommunitiesCommon value fltMax communities advertiseLinkBandwidth sessionType mask =
      pruneLbwExtCommunitiesCommon value fltMax
        (allowedExtCommunities communities advertiseLinkBandwidth sessionType mask) := by
  have hprune : ∀ allowed, pruneLbwExtCommunitiesCommon value fltMax allowed <+ allowed := by
    intro allowed
    rw [pruneLbwExtCommunitiesCommon]
    split
    · exact .refl _
    · exact filter_sublist
  have hallowed : allowedExtCommunities communities advertiseLinkBandwidth sessionType mask <+ communities := by
    rw [allowedExtCommunities]
    split
    · exact filter_sublist
    · exact .refl _
  exact ite_eq_left_iff.mpr fun hlen => (((hprune _).trans hallowed).eq_of_length (not_not.mp hlen)).symm

end FbossBgp.AdjRib
