import FbossBgp.BgpLib.AttributeRoundTrip
import FbossBgp.Policy.AsPathActions
import FbossBgp.Rib.RibEntry

/-! The AS path on its way out: the egress update of a session, after the AS-path actions of its policy. Both
add AS numbers at the front, where a segment on the wire has room for 255. -/

namespace FbossBgp.AdjRib

open BgpLib Policy BgpAttrAsPathSegmentC
open Rib (BgpSessionType)

structure PeeringParams where
  localAs : Asn
  asConfedId : Option Asn := none
  removePrivateAs : Bool := false

def replaceZero (replaceValue asn : Asn) : Asn := if asn = 0 then replaceValue else asn

def replaceZerosInAsPath (replaceValue : Asn) (asPath : BgpAttrAsPathC) : BgpAttrAsPathC :=
  asPath.map fun asSegment => { asSegment with asSequence := asSegment.asSequence.map (replaceZero replaceValue) }

variable (asPath : BgpAttrAsPathC)

def removeConfedAsPathSegments : BgpAttrAsPathC :=
  asPath.filter fun seg => !seg.isConfedSegment

def removePrivateAsns : BgpAttrAsPathC :=
  if asPath.any hasPublicAsn then asPath else []

def prependAsPath (localAs : Asn) (isConfedPeer : Bool) (asPath : BgpAttrAsPathC) : BgpAttrAsPathC :=
  if isConfedPeer = false then
    match asPath with
    | [] => [{ asSequence := [localAs] }]
    | first :: rest =>
      if first.asSequence ≠ [] then { first with asSequence := localAs :: first.asSequence } :: rest
      else { asSequence := [localAs] } :: first :: rest
  else
    match asPath with
    | [] => [{ asConfedSequence := [localAs] }]
    | first :: rest =>
      if first.asConfedSequence ≠ [] then
        { first with asConfedSequence := localAs :: first.asConfedSequence } :: rest
      else { asConfedSequence := [localAs] } :: first :: rest

variable (peeringParams : PeeringParams)

/-- The AS number that the session prepends on an EBGP session. -/
def PeeringParams.asnToPrepend : Asn :=
  peeringParams.asConfedId.getD peeringParams.localAs

variable (sessionType : BgpSessionType)

def updateAsPathAttributesCommon (asPath : BgpAttrAsPathC) : BgpAttrAsPathC :=
  let newAsPath := replaceZerosInAsPath peeringParams.localAs asPath
  match sessionType with
  | .ebgp =>
    let newAsPath := removeConfedAsPathSegments newAsPath
    let newAsPath := if peeringParams.removePrivateAs then removePrivateAsns newAsPath else newAsPath
    prependAsPath peeringParams.asnToPrepend false newAsPath
  | .confedEbgp => prependAsPath peeringParams.localAs true newAsPath
  | .ibgp => newAsPath

/-- The path that a session advertises for a received one: its policy's actions, then its update. -/
def advertisedAsPath (actions : List AsPathAction)
    (received : BgpAttrAsPathC) : Option BgpAttrAsPathC :=
  (applyAsPathActions actions received).map (updateAsPathAttributesCommon peeringParams sessionType)

section

variable (peeringParams : PeeringParams) (sessionType : BgpSessionType) (actions : List AsPathAction)
  (received : BgpAttrAsPathC)

/-- The AS numbers of the received path that the session does not remove: confederation segments do not leave
the confederation. -/
def originalAsns : List Asn :=
  let received := replaceZerosInAsPath peeringParams.localAs received
  flattened (if sessionType = .ebgp then removeConfedAsPathSegments received else received)

/-- What an action makes of the AS numbers: they are replaced, or others are prepended. -/
def rewriteAsns (localAs : Asn) (asns : List Asn) : AsPathAction → List Asn
  | .setAsPath action => action.overwriteList.map (replaceZero localAs)
  | .setAsPathPrepend action => List.replicate action.repeatTimes (replaceZero localAs action.asn) ++ asns

/-- What the policy leaves of the received AS numbers, after those that it prepends. -/
def policyAsns : List Asn :=
  actions.foldl (rewriteAsns peeringParams.localAs) (originalAsns peeringParams sessionType received)

/-- Every AS number is a private one, and the session removes them. -/
def Cleared : Prop :=
  sessionType = .ebgp ∧ peeringParams.removePrivateAs = true ∧
    ∀ asn ∈ policyAsns peeringParams sessionType actions received, bgpPrivateAsStart ≤ asn.val

instance : Decidable (Cleared peeringParams sessionType actions received) := by
  unfold Cleared
  infer_instance

def sessionAsns : List Asn :=
  match sessionType with
  | .ebgp => [peeringParams.asnToPrepend]
  | .confedEbgp => [peeringParams.localAs]
  | .ibgp => []

/-- The prepended AS numbers and what is left of the original. -/
def expectedAsns : List Asn :=
  sessionAsns peeringParams sessionType ++ if Cleared peeringParams sessionType actions received then []
    else policyAsns peeringParams sessionType actions received

/-- What is asked of an advertised path: no segment outgrows its count on the wire, the AS numbers are the
expected ones, and the attribute that the serializer writes for it decodes to it. -/
structure Delivered (as4byte : Bool) (asPath : BgpAttrAsPathC) : Prop where
  segments : ∀ seg ∈ asPath, seg.asns.length ≤ kMaxAsPathSegmentSize
  asns : flattened asPath = expectedAsns peeringParams sessionType actions received
  written : ∀ written, writeAsPath as4byte (asPath.map toThrift) [] = .ok written →
    written = (asPathAttr as4byte (asPath.map toThrift)).encode
  decoded : ∀ capa : BgpCapabilities, capa.as4byte = as4byte → ∀ attrBeingParsed,
    parseAsPathAttr (asPathAttr as4byte (asPath.map toThrift)).body capa attrBeingParsed = .ok (asPath.map toThrift)

end

section

/-- The number of AS numbers in the confederation sequence that a path starts with. -/
def leadingConfedSequence (asPath : BgpAttrAsPathC) : Nat := (asPath.head?.elim [] (·.asConfedSequence)).length

variable (actions : List AsPathAction) (received : BgpAttrAsPathC)

/-- What the prepending actions work on: the path of the last `set_as_path`, or the received one. -/
def basePath : BgpAttrAsPathC :=
  actions.foldl (fun base action => match action with
    | .setAsPath action => action.asPath
    | .setAsPathPrepend _ => base) received

/-- The number of AS numbers that are prepended to it. -/
def prependCount : Nat :=
  actions.foldl (fun count action => match action with
    | .setAsPath _ => 0
    | .setAsPathPrepend action => count + action.repeatTimes) 0

/-- The prepending actions of a list find a first segment that is not too long. -/
def PrependsFit : Prop :=
  ∀ earlier action later, actions = earlier ++ .setAsPathPrepend action :: later →
    leadingSequence (basePath earlier received) ≤ kMaxAsPathSegmentSize

/-- The session's own AS number finds room: the segment it is put into is not full. Prepending fills segments
of 255. -/
def HasRoom (sessionType : BgpSessionType) (actions : List AsPathAction) (received : BgpAttrAsPathC) : Prop :=
  match sessionType with
  | .ebgp =>
    if prependCount actions = 0 then
      leadingSequence (removeConfedAsPathSegments (basePath actions received)) ≠ kMaxAsPathSegmentSize
    else (leadingSequence (basePath actions received) + prependCount actions) % kMaxAsPathSegmentSize ≠ 0
  | .confedEbgp =>
    prependCount actions = 0 → leadingConfedSequence (basePath actions received) ≠ kMaxAsPathSegmentSize
  | .ibgp => True

/-- The condition for a path to be delivered. -/
structure FitsSegments (peeringParams : PeeringParams) (sessionType : BgpSessionType) (actions : List AsPathAction)
    (received : BgpAttrAsPathC) (as4byte : Bool) : Prop where
  prepends : PrependsFit actions received
  room : Cleared peeringParams sessionType actions received ∨
    (∀ seg ∈ basePath actions received, seg.asns.length ≤ kMaxAsPathSegmentSize) ∧ HasRoom sessionType actions received
  width : as4byte = false → ∀ asn ∈ expectedAsns peeringParams sessionType actions received, asn.val < 2 ^ 16

end

end FbossBgp.AdjRib
