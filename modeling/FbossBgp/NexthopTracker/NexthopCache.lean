import FbossBgp.Lib.Transition
import FbossBgp.Rib.RibEntry

/-! The cache of nexthop statuses, which several sources report to. While a nexthop is directly connected only the
source of the connected ones is listened to; an abstract record of who has the say tells what the cache stores. -/

namespace FbossBgp.NexthopTracker

structure NexthopStatus extends Rib.NexthopStatus where
  isConnected : Option Bool := none

/-- The status of each nexthop, and whether the RIB has registered it. -/
abbrev NexthopCache (N : Type) := N → Option (NexthopStatus × Bool)

inductive CacheEvent
  | report (status : NexthopStatus)
  | clear
  | register

namespace NexthopCache

def isNexthopStatusChanged (currentStatus nexthopStatus : NexthopStatus) : Bool :=
  currentStatus.isReachable != nexthopStatus.isReachable || currentStatus.igpCost != nexthopStatus.igpCost ||
    currentStatus.isResolvedForSelection != nexthopStatus.isResolvedForSelection

/-- The entry that a report leaves, and whether its status is to be pushed. -/
def addOrUpdate (nexthopStatus : NexthopStatus) : Option (NexthopStatus × Bool) → (NexthopStatus × Bool) × Bool
  | some (currentStatus, isRegisteredFromRib) =>
    if currentStatus.isConnected = some true ∧ nexthopStatus.isConnected ≠ some true then
      ((currentStatus, isRegisteredFromRib), false)
    else if !isNexthopStatusChanged currentStatus nexthopStatus then ((currentStatus, isRegisteredFromRib), false)
    else ((nexthopStatus, isRegisteredFromRib), isRegisteredFromRib)
  | none => ((nexthopStatus, false), false)

variable {N : Type} [DecidableEq N] (cache : NexthopCache N) (nexthopIp : N) (event : N × CacheEvent)

/-- The cache and the statuses to push. -/
def addOrUpdateNextHopStatus (nexthopStatusList : List (N × NexthopStatus)) :
    NexthopCache N × List (N × NexthopStatus) :=
  nexthopStatusList.foldl (fun state nexthopStatus =>
    let updated := addOrUpdate nexthopStatus.2 (state.1 nexthopStatus.1)
    (Function.update state.1 nexthopStatus.1 (some updated.1),
      if updated.2 then state.2 ++ [nexthopStatus] else state.2)) (cache, [])

/-- The cache, the status, and whether the nexthop has to be resolved. -/
def registerAndGetNexthopStatus : NexthopCache N × NexthopStatus × Bool :=
  let status := ((cache nexthopIp).map Prod.fst).getD { isReachable := false }
  (Function.update cache nexthopIp (some (status, true)), status, !status.isReachable || status.igpCost.isNone)

/-- The cache and the status to push. -/
def clearConnectedStatus : NexthopCache N × Option NexthopStatus :=
  match cache nexthopIp with
  | some (status, isRegisteredFromRib) =>
    if status.isConnected ≠ some true then (cache, none)
    else
      let cleared : NexthopStatus := { isReachable := false }
      (Function.update cache nexthopIp (some (cleared, isRegisteredFromRib)),
        if isRegisteredFromRib then some cleared else none)
  | none => (cache, none)

def exec : NexthopCache N :=
  match event.2 with
  | .report status => (addOrUpdateNextHopStatus cache [(event.1, status)]).1
  | .clear => (clearConnectedStatus cache event.1).1
  | .register => (registerAndGetNexthopStatus cache event.1).1

/-- A report that a nexthop is connected says something new, unless the nexthop is known to be connected. -/
def Distinguishes : Prop :=
  match event.2 with
  | .report status => status.isConnected = some true → ∀ entry ∈ cache event.1,
    entry.1.isConnected ≠ some true → isNexthopStatusChanged entry.1 status
  | _ => True

def system : Transition.System (NexthopCache N) (N × CacheEvent) := ⟨fun _ => none, Distinguishes, exec⟩

/-- Who has the say about a nexthop, the source of the connected ones or the others, and the last report that counts. -/
structure Authority where
  isConnected : Bool := false
  last : Option NexthopStatus := none

/-- The source of the connected nexthops takes over with a report; once it is cleared the others start anew. -/
def Authority.step (authority : Authority) : CacheEvent → Authority
  | .report status =>
    if authority.isConnected → status.isConnected = some true then ⟨status.isConnected == some true, some status⟩
    else authority
  | .clear => if authority.isConnected then {} else authority
  | .register => authority

def Authority.of (nexthopIp : N) (events : List (N × CacheEvent)) : Authority :=
  (events.filter (·.1 = nexthopIp)).foldl (fun authority event => authority.step event.2) {}

/-- Reachability and cost; a nexthop without a status is unreachable. -/
def statusOf (status : Option NexthopStatus) : Bool × Option Nat :=
  status.elim (false, none) fun status => (status.isReachable, status.igpCost)

/-- The entry stores what the authority says, and is marked as connected when it has to. -/
structure Agrees (entry : Option (NexthopStatus × Bool)) (authority : Authority) : Prop where
  status : statusOf (entry.map Prod.fst) = statusOf authority.last
  connected : (∃ e ∈ entry, e.1.isConnected = some true) ↔ authority.isConnected

variable {entry : Option (NexthopStatus × Bool)} {authority : Authority} {cache} {nexthopIp}
  {events : List (N × CacheEvent)}

omit [DecidableEq N] in
theorem Agrees.addOrUpdate (h : Agrees entry authority) {status : NexthopStatus}
    (hnew : status.isConnected = some true → ∀ e ∈ entry, e.1.isConnected ≠ some true →
      isNexthopStatusChanged e.1 status) : Agrees (some (addOrUpdate status entry).1)
        (if authority.isConnected → status.isConnected = some true then
          ⟨status.isConnected == some true, some status⟩ else authority) := by
  obtain ⟨hstatus, hconn⟩ := h
  cases entry with
  | none =>
    have hother : authority.isConnected = false := by simpa using hconn
    rw [if_pos (by simp [hother])]
    exact ⟨rfl, by simp [NexthopCache.addOrUpdate]⟩
  | some entry =>
    simp only [Option.mem_some_iff, exists_eq_left'] at hconn
    rw [NexthopCache.addOrUpdate]
    by_cases hignored : entry.1.isConnected = some true ∧ status.isConnected ≠ some true
    · rw [if_pos hignored, if_neg fun hcounts => hignored.2 (hcounts (hconn.mp hignored.1))]
      exact ⟨hstatus, by simpa using hconn⟩
    · have hcounts : authority.isConnected → status.isConnected = some true := by tauto
      split_ifs with hsame
      · rw [Bool.not_eq_true'] at hsame
        simp only [isNexthopStatusChanged, Bool.or_eq_false_iff, bne_eq_false_iff_eq] at hsame hnew
        refine ⟨by simp [statusOf, hsame.1.1, hsame.1.2], ?_⟩
        simp_all
        tauto
      · exact ⟨rfl, by simp⟩

theorem Agrees.exec (h : Agrees (cache nexthopIp) authority) {event : CacheEvent}
    (hnew : Distinguishes cache (nexthopIp, event)) :
    Agrees (exec cache (nexthopIp, event) nexthopIp) (authority.step event) := by
  obtain ⟨hstatus, hconn⟩ := id h
  cases event with
  | report status =>
    simpa [NexthopCache.exec, addOrUpdateNextHopStatus, Authority.step] using h.addOrUpdate hnew
  | clear =>
    rw [NexthopCache.exec, clearConnectedStatus, Authority.step]
    cases hentry : cache nexthopIp with
    | none => simp_all
    | some entry =>
      have hsay : entry.1.isConnected = some true ↔ authority.isConnected := by simpa [hentry] using hconn
      by_cases hclear : entry.1.isConnected = some true
      · simp only [hclear, hsay.mp hclear]
        exact ⟨by simp [statusOf], by simp⟩
      · simp_all
  | register =>
    simp only [NexthopCache.exec, registerAndGetNexthopStatus, Authority.step]
    cases hentry : cache nexthopIp with
    | none => exact ⟨by simpa [hentry, statusOf] using hstatus, by simpa [hentry] using hconn⟩
    | some entry => exact ⟨by simpa [hentry] using hstatus, by simpa [hentry] using hconn⟩

theorem exec_of_ne {event : N × CacheEvent} (hne : event.1 ≠ nexthopIp) : exec cache event nexthopIp = cache nexthopIp := by
  obtain ⟨other, event⟩ := event
  cases event with
  | report status => exact Function.update_of_ne (Ne.symm hne) _ _
  | register => exact Function.update_of_ne (Ne.symm hne) _ _
  | clear =>
    simp only [exec, clearConnectedStatus]
    split
    · split_ifs <;> simp [Ne.symm hne]
    · rfl

theorem Agrees.run (h : Agrees (cache nexthopIp) authority)
    (hadm : Transition.Admits system cache events) : Agrees (Transition.run system cache events nexthopIp)
      ((events.filter (·.1 = nexthopIp)).foldl (fun authority event => authority.step event.2) authority) := by
  induction events generalizing cache authority with
  | nil => exact h
  | cons event events ih =>
    by_cases heq : event.1 = nexthopIp
    · subst heq
      rw [List.filter_cons_of_pos (by simp)]
      exact ih (h.exec hadm.1) hadm.2
    · rw [List.filter_cons_of_neg (by simpa using heq)]
      have hsame : system.exec cache event nexthopIp = cache nexthopIp := exec_of_ne heq
      exact ih (hsame ▸ h) hadm.2

/-- The cache stores the last report of the source of the connected nexthops since it was cleared, or else the last
of the others since then, if no report that a nexthop is connected repeats what the others said. The others change
nothing while the nexthop is connected. -/
theorem statusOf_run_eq (nexthopIp : N)
    (hadmits : Transition.Admits system (fun _ => none) events) :
    let cache := Transition.run system (fun _ => none) events
    let authority := Authority.of nexthopIp events
    statusOf ((cache nexthopIp).map Prod.fst) = statusOf authority.last ∧
      (authority.isConnected → ∀ status : NexthopStatus, status.isConnected ≠ some true →
        exec cache (nexthopIp, .report status) = cache) := by
  have h : Agrees (Transition.run system (fun _ => none) events nexthopIp) (Authority.of nexthopIp events) :=
    Agrees.run ⟨rfl, by simp⟩ hadmits
  refine ⟨h.status, fun hconn status hstatus => ?_⟩
  obtain ⟨entry, hentry, hmarked⟩ := h.connected.mpr hconn
  rw [Option.mem_def] at hentry
  simp [exec, addOrUpdateNextHopStatus, hentry, addOrUpdate, hmarked, hstatus]

def reachableAt (igpCost : Nat) (isConnected : Option Bool) : NexthopStatus :=
  { isReachable := true, igpCost := some igpCost, isConnected := isConnected }

/-- The other sources report cost 10, then the nexthop is connected at cost 5. -/
def sampleReports : List (Nat × CacheEvent) := [(0, .report (reachableAt 10 none)), (0, .report (reachableAt 5 true))]

theorem statusOf_run_sampleReports : Transition.Admits system (fun _ => none) sampleReports ∧
    statusOf ((Transition.run system (fun _ => none) sampleReports 0).map Prod.fst) = (true, some 5) := by
  have hadm : Transition.Admits system (fun _ => none) sampleReports :=
    ⟨nofun, fun _ entry hentry _ => by cases hentry; rfl, trivial⟩
  exact ⟨hadm, (statusOf_run_eq 0 hadm).1⟩

/-- When the source of the connected nexthops is cleared, what the others had said before is not taken up again. -/
theorem not_last_report_of_cleared :
    let stored := (Transition.run system (fun _ => none) (sampleReports ++ [(0, .clear)]) 0).map Prod.fst
    statusOf stored = (false, none) ∧ statusOf stored ≠ statusOf (some (reachableAt 10 none)) :=
  ⟨rfl, by decide⟩

end NexthopCache

end FbossBgp.NexthopTracker
