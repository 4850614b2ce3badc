import FbossBgp.AdjRib.AsPathUpdate

/-! How long the segments of an advertised AS path are. A prepending action fills the first segment and starts
another when it is full; the session's own AS number goes into the first segment whether it is full or not. -/

namespace FbossBgp.AdjRib

open BgpLib Bytes Outcome Policy BgpAttrAsPathSegmentC List Finset
open Rib (BgpSessionType)

section

variable {asPath : BgpAttrAsPathC} (hone : ∀ seg ∈ asPath, seg.OnePart)
include hone

theorem onePart_replaceZerosInAsPath (replaceValue : Asn) :
    ∀ seg ∈ replaceZerosInAsPath replaceValue asPath, seg.OnePart := by
  intro seg hmem
  obtain ⟨seg', hmem', rfl⟩ := mem_map.mp hmem
  rcases hone seg' hmem' with ⟨_, rfl⟩ | ⟨_, rfl⟩ | ⟨_, rfl⟩ | ⟨_, rfl⟩
  · exact .inl ⟨_, rfl⟩
  · exact onePart_asSequence _
  · exact onePart_asConfedSequence _
  · exact .inr (.inr (.inr ⟨_, rfl⟩))

theorem onePart_removeConfedAsPathSegments : ∀ seg ∈ removeConfedAsPathSegments asPath, seg.OnePart :=
  fun seg hmem => hone seg (mem_of_mem_filter hmem)

theorem any_hasPublicAsn_iff :
    asPath.any hasPublicAsn = true ↔ ∃ asn ∈ flattened asPath, asn.val < bgpPrivateAsStart := by
  rw [any_eq_true]
  constructor
  · rintro ⟨seg, hmem, hpublic⟩
    obtain ⟨asn, hasn, hlt⟩ := (hone seg hmem).hasPublicAsn_iff.mp hpublic
    exact ⟨asn, mem_flatMap.mpr ⟨seg, hmem, hasn⟩, hlt⟩
  · rintro ⟨asn, hasn, hlt⟩
    obtain ⟨seg, hmem, hasn⟩ := mem_flatMap.mp hasn
    exact ⟨seg, hmem, (hone seg hmem).hasPublicAsn_iff.mpr ⟨asn, hasn, hlt⟩⟩

end

section

/-- An AS number is put before the first segment, or into it when it is a segment of that part, with as many AS
numbers as the index says. -/
inductive PutFirst (part : List Asn → BgpAttrAsPathSegmentC) (asn : Asn) : Nat → BgpAttrAsPathC → BgpAttrAsPathC → Prop
  | segment {asPath : BgpAttrAsPathC} : PutFirst part asn 0 asPath (part [asn] :: asPath)
  | front {asns : List Asn} {rest : BgpAttrAsPathC} :
      PutFirst part asn asns.length (part asns :: rest) (part (asn :: asns) :: rest)

section

variable {part : List Asn → BgpAttrAsPathSegmentC} {asn : Asn} {leading : Nat} {asPath next : BgpAttrAsPathC}
  (h : PutFirst part asn leading asPath next)
include h

theorem PutFirst.onePart (hpart : ∀ asns, (part asns).OnePart) (hone : ∀ seg ∈ asPath, seg.OnePart) :
    ∀ seg ∈ next, seg.OnePart := by
  cases h with
  | segment => exact forall_mem_cons.mpr ⟨hpart _, hone⟩
  | front => exact forall_mem_cons.mpr ⟨hpart _, (forall_mem_cons.mp hone).2⟩

theorem PutFirst.flattened (hpart : ∀ asns, (part asns).asns = asns) :
    Policy.flattened next = asn :: Policy.flattened asPath := by
  cases h with
  | segment => rw [Policy.flattened, flatMap_cons, hpart, singleton_append, Policy.flattened]
  | front => rw [Policy.flattened, Policy.flattened, flatMap_cons, flatMap_cons, hpart, hpart, cons_append]

theorem PutFirst.segments_iff (hpart : ∀ asns, (part asns).asns = asns) :
    SegmentsFit next ↔ SegmentsFit asPath ∧ leading ≠ kMaxAsPathSegmentSize := by
  cases h with
  | segment =>
    rw [SegmentsFit, List.forall_mem_cons, hpart, List.length_singleton]
    exact ⟨fun h => ⟨h.2, by omega⟩, fun h => ⟨by omega, h.1⟩⟩
  | front =>
    rw [SegmentsFit, SegmentsFit, List.forall_mem_cons, List.forall_mem_cons, hpart, hpart, List.length_cons]
    exact ⟨fun h => ⟨⟨by omega, h.2⟩, by omega⟩, fun h => ⟨by omega, h.1.2⟩⟩

end

variable {asPath : BgpAttrAsPathC} (hone : ∀ seg ∈ asPath, seg.OnePart) (localAs : Asn)
include hone

theorem putFirst_sequence : PutFirst (fun asns => { asSequence := asns }) localAs (leadingSequence asPath) asPath
    (prependAsPath localAs false asPath) := by
  cases asPath with
  | nil => exact .segment
  | cons first rest =>
    rw [prependAsPath, if_pos rfl]
    split
    next hne =>
      have hfirst := (forall_mem_cons.mp hone).1.eq_of_asSequence hne
      rw [hfirst]
      exact .front
    next hnil =>
      have hlead : leadingSequence (first :: rest) = 0 := by simpa [leadingSequence] using hnil
      rw [hlead]
      exact .segment

theorem putFirst_confedSequence :
    PutFirst (fun asns => { asConfedSequence := asns }) localAs (leadingConfedSequence asPath) asPath
      (prependAsPath localAs true asPath) := by
  cases asPath with
  | nil => exact .segment
  | cons first rest =>
    rw [prependAsPath, if_neg (by decide)]
    split
    next hne =>
      have hfirst := (forall_mem_cons.mp hone).1.eq_of_asConfedSequence hne
      rw [hfirst]
      exact .front
    next hnil =>
      have hlead : leadingConfedSequence (first :: rest) = 0 := by simpa [leadingConfedSequence] using hnil
      rw [hlead]
      exact .segment

end

section

variable (params : PeeringParams) (sessionType : BgpSessionType) (action : SetAsPath)

@[simp] theorem originalAsns_nil : originalAsns params sessionType [] = [] := by
  cases sessionType <;> rfl

theorem originalAsns_asSequence_cons (asSequence : List Asn) (rest : BgpAttrAsPathC) :
    originalAsns params sessionType ({ asSequence } :: rest) =
      asSequence.map (replaceZero params.localAs) ++ originalAsns params sessionType rest := by
  rw [originalAsns, originalAsns]
  cases sessionType <;>
    simp [replaceZerosInAsPath, removeConfedAsPathSegments, flattened]

theorem originalAsns_asPath : originalAsns params sessionType action.asPath =
    action.overwriteList.map (replaceZero params.localAs) := by
  rw [SetAsPath.asPath]
  split
  · rw [originalAsns_asSequence_cons, originalAsns_nil, append_nil]
  next hnil => rw [not_not.mp hnil, originalAsns_nil, map_nil]

theorem originalAsns_prepended {asn : Asn} {count : Nat} {asPath next : BgpAttrAsPathC}
    (h : Prepended asn count asPath next) : originalAsns params sessionType next =
      List.replicate count (replaceZero params.localAs asn) ++ originalAsns params sessionType asPath := by
  cases h with
  | segment => rw [originalAsns_asSequence_cons, map_replicate]
  | front =>
    rw [originalAsns_asSequence_cons, originalAsns_asSequence_cons, map_append, map_replicate, append_assoc]
  | split hne hfull hleft hcount =>
    rw [originalAsns_asSequence_cons, originalAsns_asSequence_cons, originalAsns_asSequence_cons, map_append,
      map_replicate, map_replicate, append_assoc, ← append_assoc, replicate_append_replicate,
      Nat.add_comm, hcount]

/-- A path that a peer has sent, as the parser makes it. -/
structure Received (received : BgpAttrAsPathC) : Prop where
  onePart : ∀ seg ∈ received, seg.OnePart
  segments : SegmentsFit received

/-- What the actions of the policy have made of a received path. -/
structure Applied (actions : List AsPathAction) (received asPath : BgpAttrAsPathC) : Prop where
  onePart : ∀ seg ∈ asPath, seg.OnePart
  segments : SegmentsFit asPath ↔ SegmentsFit (basePath actions received)
  confed : ∀ seg ∈ asPath, seg.isConfedSegment = true → seg.asns.length ≤ kMaxAsPathSegmentSize
  base : prependCount actions = 0 → asPath = basePath actions received
  room : prependCount actions ≠ 0 → leadingSequence (basePath actions received) ≤ kMaxAsPathSegmentSize
  leading : prependCount actions ≠ 0 → leadingSequence asPath =
    (leadingSequence (basePath actions received) + prependCount actions - 1) % kMaxAsPathSegmentSize + 1
  asns : originalAsns params sessionType asPath = policyAsns params sessionType actions received

variable {params sessionType} {actions : List AsPathAction} {received asPath : BgpAttrAsPathC}

theorem applied_nil (h : Received received) : Applied params sessionType [] received received where
  onePart := h.onePart
  segments := Iff.rfl
  confed := fun seg hmem _ => h.segments seg hmem
  base := fun _ => rfl
  room := fun hne => absurd rfl hne
  leading := fun hne => absurd rfl hne
  asns := rfl

theorem onePart_asPath : ∀ seg ∈ action.asPath, seg.OnePart ∧ seg.isConfedSegment = false := by
  intro seg hmem
  rw [SetAsPath.asPath] at hmem
  split at hmem
  · rw [List.mem_singleton.mp hmem]
    exact ⟨onePart_asSequence _, isConfedSegment_asSequence _⟩
  · exact absurd hmem not_mem_nil

section

variable (actions : List AsPathAction) (action : SetAsPath)

@[simp] theorem basePath_setAsPath (received : BgpAttrAsPathC) :
    basePath (actions ++ [.setAsPath action]) received = action.asPath := by
  rw [basePath, foldl_append]
  rfl

@[simp] theorem prependCount_setAsPath : prependCount (actions ++ [.setAsPath action]) = 0 := by
  rw [prependCount, foldl_append]
  rfl

@[simp] theorem basePath_setAsPathPrepend (action : SetAsPathPrependAction) (received : BgpAttrAsPathC) :
    basePath (actions ++ [.setAsPathPrepend action]) received = basePath actions received := by
  rw [basePath, foldl_append]
  rfl

@[simp] theorem prependCount_setAsPathPrepend (action : SetAsPathPrependAction) :
    prependCount (actions ++ [.setAsPathPrepend action]) = prependCount actions + action.repeatTimes := by
  rw [prependCount, foldl_append]
  rfl

theorem policyAsns_append (action : AsPathAction) (received : BgpAttrAsPathC) :
    policyAsns params sessionType (actions ++ [action]) received =
      rewriteAsns params.localAs (policyAsns params sessionType actions received) action := by
  rw [policyAsns, foldl_append]
  rfl

theorem applied_setAsPath (received : BgpAttrAsPathC) :
    Applied params sessionType (actions ++ [.setAsPath action]) received action.asPath where
  onePart := fun seg hmem => (onePart_asPath action seg hmem).1
  segments := by rw [basePath_setAsPath]
  confed := by
    intro seg hmem hconfed
    rw [(onePart_asPath action seg hmem).2] at hconfed
    exact absurd hconfed Bool.false_ne_true
  base := fun _ => (basePath_setAsPath actions action received).symm
  room := fun hne => absurd (prependCount_setAsPath actions action) hne
  leading := fun hne => absurd (prependCount_setAsPath actions action) hne
  asns := by
    rw [policyAsns_append, originalAsns_asPath]
    rfl

end

theorem applied_setAsPathPrepend {action : SetAsPathPrependAction} {next : BgpAttrAsPathC}
    (h : Applied params sessionType actions received asPath)
    (hroom : leadingSequence asPath ≤ kMaxAsPathSegmentSize)
    (hnext : Prepended action.asn action.repeatTimes asPath next) :
    Applied params sessionType (actions ++ [.setAsPathPrepend action]) received next where
  onePart := hnext.onePart h.onePart
  segments := by rw [hnext.segments_iff action.repeatTimes_le, h.segments, basePath_setAsPathPrepend]
  confed := by
    intro seg hmem hconfed
    cases hnext with
    | segment =>
      rcases mem_cons.mp hmem with rfl | hmem
      · exact absurd hconfed (by simp)
      · exact h.confed seg hmem hconfed
    | front =>
      rcases mem_cons.mp hmem with rfl | hmem
      · exact absurd hconfed (by simp)
      · exact h.confed seg (mem_cons_of_mem _ hmem) hconfed
    | split =>
      rcases mem_cons.mp hmem with rfl | hmem
      · exact absurd hconfed (by simp)
      rcases mem_cons.mp hmem with rfl | hmem
      · exact absurd hconfed (by simp)
      · exact h.confed seg (mem_cons_of_mem _ hmem) hconfed
  base := by
    have hpos := action.repeatTimes_pos
    intro hcount
    rw [prependCount_setAsPathPrepend] at hcount
    omega
  room := by
    intro _
    rw [basePath_setAsPathPrepend]
    by_cases hcount : prependCount actions = 0
    · rw [← h.base hcount]
      exact hroom
    · exact h.room hcount
  leading := by
    have hpos := action.repeatTimes_pos
    intro _
    rw [hnext.leadingSequence hpos action.repeatTimes_le, basePath_setAsPathPrepend, prependCount_setAsPathPrepend]
    by_cases hcount : prependCount actions = 0
    · rw [h.base hcount, hcount, Nat.zero_add]
    · rw [h.leading hcount, kMaxAsPathSegmentSize]
      omega
  asns := by
    rw [policyAsns_append, originalAsns_prepended _ _ hnext, h.asns]
    rfl

theorem applyAsPathActions_append (actions : List AsPathAction) (action : AsPathAction) (received : BgpAttrAsPathC) :
    applyAsPathActions (actions ++ [action]) received =
      (applyAsPathActions actions received).bind action.applyAction := by
  simp [applyAsPathActions]

theorem prependsFit_append (action : AsPathAction) :
    PrependsFit (actions ++ [action]) received ↔ PrependsFit actions received ∧
      ∀ prepend, action = .setAsPathPrepend prepend →
        leadingSequence (basePath actions received) ≤ kMaxAsPathSegmentSize := by
  constructor
  · intro h
    refine ⟨fun earlier prepend later hsplit => ?_, fun prepend haction => ?_⟩
    · exact h earlier prepend (later ++ [action]) (by rw [hsplit, append_assoc, cons_append])
    · exact h actions prepend [] (by rw [haction])
  · rintro ⟨h, hlast⟩ earlier prepend later hsplit
    rcases eq_nil_or_concat later with rfl | ⟨later, last, rfl⟩
    · obtain ⟨hactions, haction⟩ := append_inj' hsplit rfl
      rw [← hactions]
      exact hlast prepend (List.cons.inj haction).1
    · rw [concat_eq_append, ← cons_append, ← append_assoc] at hsplit
      exact h earlier prepend later (append_inj' hsplit rfl).1

/-- The actions end the process exactly when one of them prepends to a segment that is too long. -/
theorem applied_of_prependsFit (hrec : Received received) (h : PrependsFit actions received) :
    ∃ asPath, applyAsPathActions actions received = some asPath ∧
      Applied params sessionType actions received asPath := by
  induction actions using List.reverseRecOn with
  | nil => exact ⟨received, rfl, applied_nil hrec⟩
  | append_singleton actions action ih =>
    rw [prependsFit_append] at h
    obtain ⟨asPath, hpath, happl⟩ := ih h.1
    rw [applyAsPathActions_append, hpath]
    cases action with
    | setAsPath action => exact ⟨_, rfl, applied_setAsPath actions action received⟩
    | setAsPathPrepend action =>
      have hroom : leadingSequence asPath ≤ kMaxAsPathSegmentSize := by
        by_cases hcount : prependCount actions = 0
        · rw [happl.base hcount]
          exact h.2 action rfl
        · rw [happl.leading hcount]
          exact Nat.mod_lt _ (by decide)
      obtain ⟨next, hnext, hprepended⟩ := exists_prepended action happl.onePart hroom
      exact ⟨next, hnext, applied_setAsPathPrepend happl hroom hprepended⟩

theorem prependsFit_of_eq_some (hrec : Received received) (h : applyAsPathActions actions received = some asPath) :
    PrependsFit actions received := by
  induction actions using List.reverseRecOn generalizing asPath with
  | nil =>
    intro earlier action later hsplit
    simp at hsplit
  | append_singleton actions action ih =>
    rw [applyAsPathActions_append, Option.bind_eq_some_iff] at h
    obtain ⟨before, hbef, hlast⟩ := h
    rw [prependsFit_append]
    refine ⟨ih hbef, ?_⟩
    rintro action rfl
    obtain ⟨before', hbef', happl⟩ :
        ∃ asPath, applyAsPathActions actions received = some asPath ∧ Applied ⟨0, none, false⟩ .ibgp actions received asPath :=
      applied_of_prependsFit hrec (ih hbef)
    obtain rfl : before' = before := Option.some.inj (hbef'.symm.trans hbef)
    by_cases hcount : prependCount actions = 0
    · rw [← happl.base hcount]
      by_contra hlead
      rw [AsPathAction.applyAction, applyAction_eq_none action (Nat.lt_of_not_le hlead)] at hlast
      cases hlast
    · exact happl.room hcount

end

section

variable {params : PeeringParams} {sessionType : BgpSessionType} {actions : List AsPathAction}
  {received asPath : BgpAttrAsPathC} (replaceValue : Asn)

/-- Replacing AS numbers changes no length. -/
theorem segments_replaceZerosInAsPath (asPath : BgpAttrAsPathC) :
    SegmentsFit (replaceZerosInAsPath replaceValue asPath) ↔ SegmentsFit asPath := by
  simp [SegmentsFit, replaceZerosInAsPath, asns]

theorem leadingSequence_replaceZerosInAsPath (asPath : BgpAttrAsPathC) :
    leadingSequence (replaceZerosInAsPath replaceValue asPath) = leadingSequence asPath := by
  cases asPath with
  | nil => rfl
  | cons first rest => simp [leadingSequence, replaceZerosInAsPath]

theorem leadingConfedSequence_replaceZerosInAsPath (asPath : BgpAttrAsPathC) :
    leadingConfedSequence (replaceZerosInAsPath replaceValue asPath) = leadingConfedSequence asPath := by
  cases asPath with
  | nil => rfl
  | cons first rest => rfl

theorem removeConfed_replaceZerosInAsPath (asPath : BgpAttrAsPathC) :
    removeConfedAsPathSegments (replaceZerosInAsPath replaceValue asPath) =
      replaceZerosInAsPath replaceValue (removeConfedAsPathSegments asPath) := by
  rw [removeConfedAsPathSegments, replaceZerosInAsPath, filter_map]
  rfl

/-- A path that starts with a sequence does so without its confederation segments too. -/
theorem leadingSequence_removeConfed (hone : ∀ seg ∈ asPath, seg.OnePart) (hlead : leadingSequence asPath ≠ 0) :
    leadingSequence (removeConfedAsPathSegments asPath) = leadingSequence asPath ∧ leadingConfedSequence asPath = 0 := by
  cases asPath with
  | nil => exact absurd rfl hlead
  | cons first rest =>
    have hne : first.asSequence ≠ [] := by simpa [leadingSequence] using hlead
    rw [(forall_mem_cons.mp hone).1.eq_of_asSequence hne]
    exact ⟨by simp [leadingSequence, removeConfedAsPathSegments], rfl⟩

section

variable (h : Applied params .ebgp actions received asPath)
include h

theorem removePrivateAsns_eq : (if params.removePrivateAs then
      removePrivateAsns (removeConfedAsPathSegments (replaceZerosInAsPath params.localAs asPath))
    else removeConfedAsPathSegments (replaceZerosInAsPath params.localAs asPath)) =
    if Cleared params .ebgp actions received then []
    else removeConfedAsPathSegments (replaceZerosInAsPath params.localAs asPath) := by
  have hpublic := any_hasPublicAsn_iff
    (onePart_removeConfedAsPathSegments (onePart_replaceZerosInAsPath h.onePart params.localAs))
  have hasns : flattened (removeConfedAsPathSegments (replaceZerosInAsPath params.localAs asPath)) =
      policyAsns params .ebgp actions received := h.asns
  rw [hasns] at hpublic
  by_cases hremove : params.removePrivateAs = true
  · rw [if_pos hremove, removePrivateAsns]
    by_cases hclr : Cleared params .ebgp actions received
    · rw [if_pos hclr, if_neg]
      rw [hpublic]
      rintro ⟨asn, hmem, hlt⟩
      exact absurd (hclr.2.2 asn hmem) (Nat.not_le_of_lt hlt)
    · rw [if_neg hclr, if_pos]
      rw [hpublic]
      by_contra hnone
      exact hclr ⟨rfl, hremove, fun asn hmem => Nat.le_of_not_lt fun hlt => hnone ⟨asn, hmem, hlt⟩⟩
  · rw [if_neg hremove, if_neg fun hclr => hremove hclr.2.1]

/-- The path of an EBGP session before its own AS number is put into it. -/
theorem updateAsPathAttributesCommon_ebgp : updateAsPathAttributesCommon params .ebgp asPath =
    prependAsPath params.asnToPrepend false
      (if Cleared params .ebgp actions received then []
      else removeConfedAsPathSegments (replaceZerosInAsPath params.localAs asPath)) := by
  rw [← removePrivateAsns_eq h]
  rfl

theorem onePart_ebgp : ∀ seg ∈ (if Cleared params .ebgp actions received then []
    else removeConfedAsPathSegments (replaceZerosInAsPath params.localAs asPath)), seg.OnePart := by
  split
  · exact fun seg hmem => absurd hmem not_mem_nil
  · exact onePart_removeConfedAsPathSegments (onePart_replaceZerosInAsPath h.onePart _)

end

theorem onePart_updateAsPath (h : Applied params sessionType actions received asPath) :
    ∀ seg ∈ updateAsPathAttributesCommon params sessionType asPath, seg.OnePart := by
  cases sessionType with
  | ebgp =>
    rw [updateAsPathAttributesCommon_ebgp h]
    exact (putFirst_sequence (onePart_ebgp h) _).onePart onePart_asSequence (onePart_ebgp h)
  | confedEbgp =>
    have hone := onePart_replaceZerosInAsPath h.onePart params.localAs
    exact (putFirst_confedSequence hone _).onePart onePart_asConfedSequence hone
  | ibgp => exact onePart_replaceZerosInAsPath h.onePart _

theorem not_cleared (h : sessionType ≠ .ebgp) : ¬Cleared params sessionType actions received := fun hclr => h hclr.1

section

variable (h : Applied params sessionType actions received asPath)
include h

theorem flattened_updateAsPath : flattened (updateAsPathAttributesCommon params sessionType asPath) =
    expectedAsns params sessionType actions received := by
  rw [expectedAsns, ← h.asns]
  cases sessionType with
  | ebgp =>
    rw [updateAsPathAttributesCommon_ebgp h, (putFirst_sequence (onePart_ebgp h) _).flattened asns_asSequence]
    split <;> rfl
  | confedEbgp =>
    exact (putFirst_confedSequence (onePart_replaceZerosInAsPath h.onePart _) _).flattened asns_asConfedSequence
  | ibgp =>
    rfl

/-- The leading segment is full exactly when the AS numbers prepended to the base fill a whole number of
segments. -/
theorem hasRoom_ebgp_iff :
    leadingSequence (removeConfedAsPathSegments asPath) ≠ kMaxAsPathSegmentSize ↔ HasRoom .ebgp actions received := by
  rw [HasRoom]
  by_cases hcount : prependCount actions = 0
  · rw [if_pos hcount, h.base hcount]
  · have hlead := h.leading hcount
    rw [if_neg hcount, (leadingSequence_removeConfed h.onePart (by omega)).1, hlead, kMaxAsPathSegmentSize]
    omega

theorem hasRoom_confedEbgp_iff :
    leadingConfedSequence asPath ≠ kMaxAsPathSegmentSize ↔ HasRoom .confedEbgp actions received := by
  by_cases hcount : prependCount actions = 0
  · rw [h.base hcount]
    exact ⟨fun h _ => h, fun h => h hcount⟩
  · have hlead := h.leading hcount
    rw [(leadingSequence_removeConfed h.onePart (by omega)).2]
    exact ⟨fun _ h => absurd h hcount, fun _ => by decide⟩

theorem segments_removeConfed_iff :
    SegmentsFit (removeConfedAsPathSegments asPath) ↔ SegmentsFit asPath := by
  constructor
  · intro hsegs seg hmem
    by_cases hconfed : seg.isConfedSegment = true
    · exact h.confed seg hmem hconfed
    · exact hsegs seg (mem_filter.mpr ⟨hmem, by simpa using hconfed⟩)
  · exact fun hsegs seg hmem => hsegs seg (mem_of_mem_filter hmem)

theorem segments_updateAsPath_iff :
    SegmentsFit (updateAsPathAttributesCommon params sessionType asPath) ↔
      Cleared params sessionType actions received ∨
        SegmentsFit (basePath actions received) ∧ HasRoom sessionType actions received := by
  rw [← h.segments]
  cases sessionType with
  | ebgp =>
    rw [updateAsPathAttributesCommon_ebgp h, (putFirst_sequence (onePart_ebgp h) _).segments_iff asns_asSequence]
    by_cases hclr : Cleared params .ebgp actions received
    · rw [if_pos hclr]
      exact ⟨fun _ => .inl hclr, fun _ => ⟨fun seg hmem => absurd hmem not_mem_nil, by decide⟩⟩
    · rw [if_neg hclr, or_iff_right hclr, removeConfed_replaceZerosInAsPath,
        segments_replaceZerosInAsPath, leadingSequence_replaceZerosInAsPath, segments_removeConfed_iff h,
        hasRoom_ebgp_iff h]
  | confedEbgp =>
    have hput := putFirst_confedSequence (onePart_replaceZerosInAsPath h.onePart params.localAs)
      params.localAs
    rw [or_iff_right (not_cleared (by decide)), ← hasRoom_confedEbgp_iff h,
      ← leadingConfedSequence_replaceZerosInAsPath params.localAs,
      ← segments_replaceZerosInAsPath params.localAs asPath]
    exact hput.segments_iff asns_asConfedSequence
  | ibgp =>
    rw [or_iff_right (not_cleared (by decide)), HasRoom, and_true]
    exact segments_replaceZerosInAsPath params.localAs asPath

end

end

section

variable {seg : BgpAttrAsPathSegmentC} {asPath : BgpAttrAsPathC} {as4byte : Bool}

theorem injective_toInt : Function.Injective fun asn : Asn => (asn.val : Int) :=
  fun _ _ h => Fin.ext (Int.ofNat_inj.mp h)

theorem numUsedSegmentTypes_toThrift (h : seg.OnePart) : numUsedSegmentTypes seg.toThrift ≤ 1 := by
  rcases h with ⟨_, rfl⟩ | ⟨_, rfl⟩ | ⟨_, rfl⟩ | ⟨_, rfl⟩ <;>
    · simp only [numUsedSegmentTypes, toThrift, map_nil, image_empty, ne_eq, not_true_eq_false, if_false]
      split <;> decide

theorem segmentSize_toThrift (seg : BgpAttrAsPathSegmentC) : segmentSize seg.toThrift = seg.asns.length := by
  simp only [segmentSize, toThrift, asns, card_image_of_injective _ injective_toInt, length_map,
    length_append, length_sort]

theorem segmentFits_toThrift_iff (k : Nat) (seg : BgpAttrAsPathSegmentC) :
    SegmentFits k seg.toThrift ↔ ∀ asn ∈ seg.asns, asn.val < 256 ^ k := by
  have hfits (asn : Asn) : Fits k (asn.val : Int) ↔ asn.val < 256 ^ k := by
    constructor
    · exact fun h => by exact_mod_cast h.2
    · exact fun h => ⟨Int.natCast_nonneg _, by exact_mod_cast h⟩
  constructor
  · intro h asn hmem
    rw [← hfits]
    simp only [asns, mem_append, mem_sort] at hmem
    rcases hmem with ((hmem | hmem) | hmem) | hmem
    · exact h.asSet _ (mem_image_of_mem _ hmem)
    · exact h.asSequence _ (mem_map_of_mem hmem)
    · exact h.asConfedSequence _ (mem_map_of_mem hmem)
    · exact h.asConfedSet _ (mem_image_of_mem _ hmem)
  · intro h
    refine ⟨?_, ?_, ?_, ?_⟩
    · simp only [toThrift, forall_mem_image, hfits]
      exact fun asn hmem => h asn (by simp [asns, hmem])
    · simp only [toThrift, List.forall_mem_map, hfits]
      exact fun asn hmem => h asn (by simp [asns, hmem])
    · simp only [toThrift, List.forall_mem_map, hfits]
      exact fun asn hmem => h asn (by simp [asns, hmem])
    · simp only [toThrift, Finset.forall_mem_image, hfits]
      exact fun asn hmem => h asn (by simp [asns, hmem])

theorem length_segmentEntries_toThrift (seg : BgpAttrAsPathSegmentC) :
    (segmentEntries seg.toThrift).2.length ≤ seg.asns.length := by
  rw [← segmentSize_toThrift]
  exact length_segmentEntries_le _

/-- Which paths come back from the wire, when no segment is too long for its count. -/
theorem decoded_iff (hone : ∀ seg ∈ asPath, seg.OnePart)
    (hsegs : SegmentsFit asPath) :
    (∀ capa : BgpCapabilities, capa.as4byte = as4byte → ∀ quoted,
        parseAsPathAttr (asPathAttr as4byte (asPath.map toThrift)).body capa quoted = .ok (asPath.map toThrift)) ↔
      ∀ asn ∈ flattened asPath, asn.val < 256 ^ asnLen as4byte := by
  have hparse (capa : BgpCapabilities) (hcapa : capa.as4byte = as4byte) (quoted : Bytes) :
      parseAsPathAttr (asPathAttr as4byte (asPath.map toThrift)).body capa quoted =
        .ok ((asPath.map toThrift).map (decodeSegment as4byte)) := by
    subst hcapa
    apply parseAsPathAttr_encode
    · rw [List.forall_mem_map]
      exact fun seg hmem => numUsedSegmentTypes_toThrift (hone seg hmem)
    · rw [List.forall_mem_map]
      exact fun seg hmem => (length_segmentEntries_toThrift seg).trans (hsegs seg hmem)
  constructor
  · intro hdecoded asn hasn
    have hself := Except.ok.inj ((hparse { as4byte } rfl []).symm.trans (hdecoded { as4byte } rfl []))
    obtain ⟨seg, hmem, hasn⟩ := mem_flatMap.mp hasn
    have hseg : decodeSegment as4byte seg.toThrift = seg.toThrift := by
      have := map_inj_left.mp (hself.trans (map_id _).symm)
      exact this _ (mem_map_of_mem hmem)
    exact (segmentFits_toThrift_iff _ seg).mp (segmentFits_of_decodeSegment hseg) asn hasn
  · intro hfits capa hcapa quoted
    rw [hparse capa hcapa, map_eq_self]
    rw [List.forall_mem_map]
    intro seg hmem
    apply decodeSegment_of_fits
    rw [segmentFits_toThrift_iff]
    exact fun asn hasn => hfits asn (mem_flatMap.mpr ⟨seg, hmem, hasn⟩)

theorem written_of_writeAsPath {written : Bytes} (h : writeAsPath as4byte (asPath.map toThrift) [] = .ok written) :
    written = (asPathAttr as4byte (asPath.map toThrift)).encode := by
  have hwrites := writesAttrs_writeAsPath as4byte (segments_of_writeAsPath h) [] (Nat.zero_le _)
  rw [h] at hwrites
  rw [(Writer.push_eq_ok hwrites.symm).2, nil_append, flatMap_cons, flatMap_nil, append_nil]

theorem onePart_of_partOf {segmentType : Nat} (h : PartOf segmentType seg.toThrift) : seg.OnePart := by
  obtain ⟨asSet, asSequence, asConfedSequence, asConfedSet⟩ := seg
  obtain ⟨-, hset, hseq, hcseq, hconfedSet⟩ := h
  simp only [toThrift, image_eq_empty, map_eq_nil_iff] at hset hseq hcseq hconfedSet
  by_cases h1 : segmentType = 1
  · rw [hseq (by omega), hcseq (by omega), hconfedSet (by omega)]
    exact .inl ⟨_, rfl⟩
  by_cases h2 : segmentType = 2
  · rw [hset (by omega), hcseq (by omega), hconfedSet (by omega)]
    exact onePart_asSequence _
  by_cases h3 : segmentType = 3
  · rw [hset (by omega), hseq (by omega), hconfedSet (by omega)]
    exact onePart_asConfedSequence _
  · rw [hset (by omega), hseq (by omega), hcseq (by omega)]
    exact .inr (.inr (.inr ⟨_, rfl⟩))

theorem exists_toThrift {segment : BgpLib.BgpAttrAsPathSegment} (h : SegmentFits 4 segment) :
    segment ∈ Set.range toThrift := by
  let toAsn (asn : Int) : Asn := Fin.ofNat (2 ^ 32) asn.toNat
  have hasn : ∀ asn, Fits 4 asn → ((toAsn asn).val : Int) = asn := by
    rintro asn ⟨hnonneg, hlt⟩
    change ((asn.toNat % 2 ^ 32 : Nat) : Int) = asn
    omega
  refine ⟨⟨segment.asSet.image toAsn, segment.asSequence.map toAsn, segment.asConfedSequence.map toAsn,
    segment.asConfedSet.image toAsn⟩, ?_⟩
  rw [toThrift, Finset.image_image, Finset.image_image, List.map_map, List.map_map]
  congr 1
  · exact (Finset.image_congr fun asn hmem => hasn asn (h.asSet asn hmem)).trans Finset.image_id
  · exact map_eq_self fun asn hmem => hasn asn (h.asSequence asn hmem)
  · exact map_eq_self fun asn hmem => hasn asn (h.asConfedSequence asn hmem)
  · exact (Finset.image_congr fun asn hmem => hasn asn (h.asConfedSet asn hmem)).trans Finset.image_id

/-- Paths from the parser are received ones. -/
theorem received_of_parseAsPathAttr {cursor quoted : Bytes} {capa : BgpCapabilities}
    {parsed : List BgpLib.BgpAttrAsPathSegment} (h : parseAsPathAttr cursor capa quoted = .ok parsed) :
    ∃ received : BgpAttrAsPathC, parsed = received.map toThrift ∧ Received received := by
  have hparsed := (parseAsPathAttr_partOf cursor capa quoted).of_ok h
  have hrange : parsed ∈ Set.range (map toThrift) := by
    rw [Set.range_list_map]
    intro segment hmem
    obtain ⟨⟨segmentType, hpart⟩, -⟩ := hparsed segment hmem
    exact exists_toThrift hpart.fits
  obtain ⟨received, rfl⟩ := hrange
  refine ⟨received, rfl, fun seg hmem => ?_, fun seg hmem => ?_⟩
  · obtain ⟨⟨segmentType, hpart⟩, -⟩ := hparsed _ (mem_map_of_mem hmem)
    exact onePart_of_partOf hpart
  · rw [← segmentSize_toThrift]
    exact (hparsed _ (mem_map_of_mem hmem)).2

theorem received_of_parseAsPathAttr_sequence : ∃ received : BgpAttrAsPathC,
    [({ asSequence := [65001] } : BgpLib.BgpAttrAsPathSegment)] = received.map toThrift ∧ Received received :=
  @received_of_parseAsPathAttr [2, 1, 0, 0, 253, 233] [] { as4byte := true } _ (by rfl)

end

section

variable {peeringParams : PeeringParams} {sessionType : BgpSessionType} {actions : List AsPathAction}
  {received asPath : BgpAttrAsPathC} (count : Nat)

theorem forall_lt_width_iff (as4byte : Bool) (asns : List Asn) :
    (∀ asn ∈ asns, asn.val < 256 ^ asnLen as4byte) ↔ (as4byte = false → ∀ asn ∈ asns, asn.val < 2 ^ 16) := by
  cases as4byte
  · exact ⟨fun h _ => h, fun h => h rfl⟩
  · exact ⟨fun _ h => absurd h (by decide), fun _ asn _ => asn.isLt⟩

theorem delivered_iff (h : Applied peeringParams sessionType actions received asPath) (as4byte : Bool) :
    Delivered peeringParams sessionType actions received as4byte
        (updateAsPathAttributesCommon peeringParams sessionType asPath) ↔
      (Cleared peeringParams sessionType actions received ∨
        SegmentsFit (basePath actions received) ∧ HasRoom sessionType actions received) ∧
      (as4byte = false → ∀ asn ∈ expectedAsns peeringParams sessionType actions received, asn.val < 2 ^ 16) := by
  rw [← segments_updateAsPath_iff h, ← forall_lt_width_iff, ← flattened_updateAsPath h]
  constructor
  · intro hdelivered
    exact ⟨hdelivered.segments, (decoded_iff (onePart_updateAsPath h) hdelivered.segments).mp hdelivered.decoded⟩
  · rintro ⟨hsegs, hwidth⟩
    exact ⟨hsegs, flattened_updateAsPath h, fun written => written_of_writeAsPath,
      (decoded_iff (onePart_updateAsPath h) hsegs).mpr hwidth⟩

/-- An advertised path is delivered exactly when its segments have room for what is put into them. -/
theorem advertisedAsPath_delivered_iff (peeringParams : PeeringParams) (sessionType : BgpSessionType)
    (actions : List AsPathAction) (received : BgpAttrAsPathC) (as4byte : Bool) (hreceived : Received received) :
    (∃ asPath, advertisedAsPath peeringParams sessionType actions received = some asPath ∧
        Delivered peeringParams sessionType actions received as4byte asPath) ↔
      FitsSegments peeringParams sessionType actions received as4byte := by
  constructor
  · rintro ⟨asPath, hadv, hdelivered⟩
    obtain ⟨policyPath, hpath, rfl⟩ := Option.map_eq_some_iff.mp hadv
    have hprepends := prependsFit_of_eq_some hreceived hpath
    obtain ⟨policyPath', hpath', happl⟩ := applied_of_prependsFit hreceived hprepends
    obtain rfl : policyPath' = policyPath := Option.some.inj (hpath'.symm.trans hpath)
    obtain ⟨hroom, hwidth⟩ := (delivered_iff happl as4byte).mp hdelivered
    exact ⟨hprepends, hroom, hwidth⟩
  · rintro ⟨hprepends, hroom, hwidth⟩
    obtain ⟨policyPath, hpath, happl⟩ := applied_of_prependsFit hreceived hprepends
    exact ⟨_, Option.map_eq_some_iff.mpr ⟨policyPath, hpath, rfl⟩, (delivered_iff happl as4byte).mpr ⟨hroom, hwidth⟩⟩

def sequenceOf : BgpAttrAsPathC := [{ asSequence := List.replicate count ⟨65001, by decide⟩ }]

theorem received_sequenceOf {count : Nat} (h : count ≤ kMaxAsPathSegmentSize) : Received (sequenceOf count) where
  onePart := forall_mem_singleton.mpr (onePart_asSequence _)
  segments := forall_mem_singleton.mpr (by rwa [asns_asSequence, length_replicate])

theorem leadingSequence_sequenceOf : leadingSequence (removeConfedAsPathSegments (sequenceOf count)) = count := by
  simp [leadingSequence, removeConfedAsPathSegments, sequenceOf]

theorem advertisedAsPath_delivered_iff_sequenceOf :
    ∃ asPath, advertisedAsPath { localAs := 65000 } .ebgp [.setAsPathPrepend ⟨65010, 3, by decide, by decide⟩]
        (sequenceOf 2) = some asPath ∧
      Delivered { localAs := 65000 } .ebgp [.setAsPathPrepend ⟨65010, 3, by decide, by decide⟩] (sequenceOf 2) true
        asPath := by
  refine (advertisedAsPath_delivered_iff _ _ _ _ _ (received_sequenceOf (by decide))).mpr ⟨?_, .inr ⟨?_, ?_⟩, ?_⟩
  · intro earlier action later hsplit
    obtain rfl : earlier = [] := by
      have hlen := congrArg List.length hsplit
      simp only [length_append, length_cons, length_nil] at hlen
      exact eq_nil_of_length_eq_zero (by omega)
    decide
  · exact (received_sequenceOf (by decide)).segments
  · rw [HasRoom]
    decide
  · exact fun h => absurd h (by decide)

/-- A sequence of 255 AS numbers is advertised to an EBGP peer as one of 256. -/
theorem full_sequence_not_delivered :
    ¬∃ asPath, advertisedAsPath { localAs := 65000 } .ebgp [] (sequenceOf 255) = some asPath ∧
      Delivered { localAs := 65000 } .ebgp [] (sequenceOf 255) true asPath := by
  rintro ⟨asPath, hadv, hdelivered⟩
  obtain ⟨_, hpath, rfl⟩ := Option.map_eq_some_iff.mp hadv
  obtain rfl := Option.some.inj hpath
  have happl : Applied { localAs := 65000 } .ebgp [] (sequenceOf 255) (sequenceOf 255) :=
    applied_nil (received_sequenceOf (by decide))
  rcases ((delivered_iff happl true).mp hdelivered).1 with hclr | ⟨-, hroom⟩
  · exact absurd hclr.2.1 (by decide)
  · exact hroom (leadingSequence_sequenceOf 255)

end

end FbossBgp.AdjRib
