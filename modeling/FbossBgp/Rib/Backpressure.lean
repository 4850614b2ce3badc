import FbossBgp.Lib.Transition
import Mathlib.Data.Finset.Basic

/-! Pausing of best-path selection and FIB programming. The RIB thread pushes onto `ribOutQ` and
pauses itself above the high watermark; the peer manager's thread pops and asks for a resume when
it reads the low watermark. A push and a pop each take several steps, and the other thread may move
between any two of them. -/

namespace FbossBgp.Rib

open Transition Finset

inductive RibPauseResumeCause where
  | SAFE_MODE
  | ROUTE_CHURN
  | ROUTE_FILTER_POLICY_UPDATE
  | ROUTING_POLICY_UPDATE
  | BACKPRESSURE
  deriving DecidableEq, Repr

def kRibOutQueueSizePauseThreshold : Nat := 200

def kRibOutQueueSizeResumeThreshold : Nat := 100

/-- The messages of `ribInQ`; only the pause and resume requests are told apart. -/
inductive RibInRequest where
  | PauseBestPathAndFibProgramming (taskName : RibPauseResumeCause)
  | ResumeBestPathAndFibProgramming (taskName : RibPauseResumeCause)
  | other
  deriving DecidableEq, Repr

/-- Where the RIB thread is in `ribOutQPushAndMayPauseBestPathAndFibProgramming`. -/
inductive PushProgress where
  | idle
  | pushed
  | aboveHighWatermark
  deriving DecidableEq, Repr

/-- Where the peer manager's thread is in one turn of `processRibOutMsgLoop`. -/
inductive PopProgress where
  | idle
  | popped
  | atLowWatermark
  deriving DecidableEq, Repr

/-- Both queues, the RIB's pause bookkeeping and the two threads. -/
structure PauseState (M : Type) where
  ribOutQ : List M := []
  ribInQ : List RibInRequest := []
  bestPathAndFibProgrammingPausedBy : Finset RibPauseResumeCause := ∅
  pauseBestPathAndFibProgramming : Bool := false
  fibBatchTimerScheduled : Bool := false
  ribPauseTimerScheduled : Bool := false
  ribEoRReceived : Bool := false
  fibSyncReqPending : Bool := false
  push : PushProgress := .idle
  pop : PopProgress := .idle

namespace PauseState

variable {M : Type} (s : PauseState M)

def stopProgramming : PauseState M :=
  if s.pauseBestPathAndFibProgramming then s
  else { s with pauseBestPathAndFibProgramming := true, fibBatchTimerScheduled := false }

variable (taskName : RibPauseResumeCause)

def processPauseBestPathAndFibProgramming : PauseState M :=
  if taskName ∈ s.bestPathAndFibProgrammingPausedBy then s
  else
    let paused := stopProgramming
      { s with bestPathAndFibProgrammingPausedBy := insert taskName s.bestPathAndFibProgrammingPausedBy }
    -- back-pressure has no time limit, the other causes start or extend the pause timer
    if taskName = .BACKPRESSURE then paused else { paused with ribPauseTimerScheduled := true }

def schedulePrepareFibProgrammingTimer : PauseState M :=
  if s.pauseBestPathAndFibProgramming then s else { s with fibBatchTimerScheduled := true }

/-- The programming pass of the resume pushes its messages in later steps. -/
def resumeProgramming : PauseState M :=
  let resumed := { s with pauseBestPathAndFibProgramming := false }
  if s.ribEoRReceived then schedulePrepareFibProgrammingTimer { resumed with fibSyncReqPending := false } else resumed

def mayResumeBestPathAndFibProgramming (cause : Option RibPauseResumeCause) : PauseState M :=
  if !s.pauseBestPathAndFibProgramming then s
  else
    match cause with
    | some _ => resumeProgramming s
    | none =>
      if .BACKPRESSURE ∈ s.bestPathAndFibProgrammingPausedBy then
        { s with bestPathAndFibProgrammingPausedBy := {.BACKPRESSURE} }
      else resumeProgramming { s with bestPathAndFibProgrammingPausedBy := ∅ }

def processResumeBestPathAndFibProgramming : PauseState M :=
  let erased := { s with bestPathAndFibProgrammingPausedBy := s.bestPathAndFibProgrammingPausedBy.erase taskName }
  if erased.bestPathAndFibProgrammingPausedBy.Nonempty then erased
  else mayResumeBestPathAndFibProgramming erased (some taskName)

/-- One message of `processRibInMsgLoop`. -/
def processRibInMsg : RibInRequest → PauseState M
  | .PauseBestPathAndFibProgramming taskName => s.processPauseBestPathAndFibProgramming taskName
  | .ResumeBestPathAndFibProgramming taskName => s.processResumeBestPathAndFibProgramming taskName
  | .other => s

def popRibIn : PauseState M :=
  match s.ribInQ with
  | [] => s
  | msg :: rest => processRibInMsg { s with ribInQ := rest } msg

/-- One round of `monitorRouteChurn`. -/
def monitorRouteChurn (routeChurnDetected : Bool) : PauseState M :=
  if routeChurnDetected then s.processPauseBestPathAndFibProgramming .ROUTE_CHURN
  else if .ROUTE_CHURN ∈ s.bestPathAndFibProgrammingPausedBy then
    s.processResumeBestPathAndFibProgramming .ROUTE_CHURN
  else s

def handleFibSyncReq : PauseState M :=
  if s.ribEoRReceived && s.pauseBestPathAndFibProgramming then { s with fibSyncReqPending := true } else s

def checkHighWatermark : PauseState M :=
  { s with push := if s.ribOutQ.length > kRibOutQueueSizePauseThreshold then .aboveHighWatermark else .idle }

def checkLowWatermark : PauseState M :=
  { s with pop := if s.ribOutQ.length = kRibOutQueueSizeResumeThreshold then .atLowWatermark else .idle }

end PauseState

/-- The steps of the two threads. The RIB thread takes one of its own only between two pushes. -/
inductive PauseAction (M : Type) where
  | pushRibOut (msg : M)
  | pushRibInitialAnnouncementStart (msg : M)
  | checkHighWatermark
  | pauseByBackpressure
  | popRibIn
  | monitorRouteChurn (routeChurnDetected : Bool)
  | ribPauseTimerExpired
  | fibBatchTimerExpired
  | schedulePrepareFibProgrammingTimer
  | handleFibSyncReq
  | runInitialPathComputation
  | popRibOut
  | checkLowWatermark
  | pushBackpressureResume
  | pushRibIn (msg : RibInRequest)

namespace PauseState

variable {M : Type} (s : PauseState M)

def Enabled : PauseAction M → Prop
  | .checkHighWatermark => s.push = .pushed
  | .pauseByBackpressure => s.push = .aboveHighWatermark
  | .popRibIn => s.push = .idle ∧ s.ribInQ ≠ []
  | .ribPauseTimerExpired => s.push = .idle ∧ s.ribPauseTimerScheduled
  | .fibBatchTimerExpired => s.push = .idle ∧ s.fibBatchTimerScheduled
  | .pushRibOut _ | .pushRibInitialAnnouncementStart _ | .monitorRouteChurn _ | .schedulePrepareFibProgrammingTimer
  | .handleFibSyncReq | .runInitialPathComputation => s.push = .idle
  | .popRibOut => s.pop = .idle ∧ s.ribOutQ.length ≠ 0
  | .checkLowWatermark => s.pop = .popped
  | .pushBackpressureResume => s.pop = .atLowWatermark
  -- a back-pressure pause is never requested by message
  | .pushRibIn msg => msg ≠ .PauseBestPathAndFibProgramming .BACKPRESSURE

instance (s : PauseState M) (action : PauseAction M) : Decidable (s.Enabled action) := by
  cases action <;> dsimp only [Enabled] <;> infer_instance

def exec : PauseAction M → PauseState M
  | .pushRibOut msg => { s with ribOutQ := s.ribOutQ ++ [msg], push := .pushed }
  | .pushRibInitialAnnouncementStart msg => { s with ribOutQ := s.ribOutQ ++ [msg] }
  | .checkHighWatermark => s.checkHighWatermark
  | .pauseByBackpressure => { s.processPauseBestPathAndFibProgramming .BACKPRESSURE with push := .idle }
  | .popRibIn => s.popRibIn
  | .monitorRouteChurn routeChurnDetected => s.monitorRouteChurn routeChurnDetected
  | .ribPauseTimerExpired => { s with ribPauseTimerScheduled := false }.mayResumeBestPathAndFibProgramming none
  | .fibBatchTimerExpired => { s with fibBatchTimerScheduled := false }
  | .schedulePrepareFibProgrammingTimer => s.schedulePrepareFibProgrammingTimer
  | .handleFibSyncReq => s.handleFibSyncReq
  | .runInitialPathComputation => { s with ribEoRReceived := true }
  | .popRibOut => { s with ribOutQ := s.ribOutQ.tail, pop := .popped }
  | .checkLowWatermark => s.checkLowWatermark
  | .pushBackpressureResume =>
    { s with ribInQ := s.ribInQ ++ [.ResumeBestPathAndFibProgramming .BACKPRESSURE], pop := .idle }
  | .pushRibIn msg => { s with ribInQ := s.ribInQ ++ [msg] }

end PauseState

def pauseSystem (M : Type) : System (PauseState M) (PauseAction M) where
  init := {}
  enabled := PauseState.Enabled
  exec := PauseState.exec

namespace PauseState

variable {M : Type}

/-- The flag is set exactly while some cause is outstanding, and a paused RIB has no batch timer. -/
structure Consistent (s : PauseState M) : Prop where
  paused_iff : s.pauseBestPathAndFibProgramming = true ↔ s.bestPathAndFibProgrammingPausedBy.Nonempty
  timer_off : s.pauseBestPathAndFibProgramming = true → s.fibBatchTimerScheduled = false

/-- Pausing and resuming move no message and leave both threads where they are. -/
structure SameQueues (s s' : PauseState M) : Prop where
  ribOutQ : s'.ribOutQ = s.ribOutQ
  ribInQ : s'.ribInQ = s.ribInQ
  push : s'.push = s.push
  pop : s'.pop = s.pop

theorem pausedBy_stopProgramming (s : PauseState M) :
    s.stopProgramming.bestPathAndFibProgrammingPausedBy = s.bestPathAndFibProgrammingPausedBy := by
  unfold stopProgramming
  split <;> rfl

theorem paused_stopProgramming (s : PauseState M) : s.stopProgramming.pauseBestPathAndFibProgramming = true := by
  unfold stopProgramming
  split
  · assumption
  · rfl

variable {s : PauseState M}

theorem timer_stopProgramming (h : s.pauseBestPathAndFibProgramming = true → s.fibBatchTimerScheduled = false) :
    s.stopProgramming.fibBatchTimerScheduled = false := by
  unfold stopProgramming
  split
  next hpaused => exact h hpaused
  · rfl

theorem sameQueues_stopProgramming (s : PauseState M) : SameQueues s s.stopProgramming := by
  unfold stopProgramming
  split <;> exact ⟨rfl, rfl, rfl, rfl⟩

theorem sameQueues_processPause (s : PauseState M) (taskName : RibPauseResumeCause) :
    SameQueues s (s.processPauseBestPathAndFibProgramming taskName) := by
  unfold processPauseBestPathAndFibProgramming
  have hstop := sameQueues_stopProgramming
    { s with bestPathAndFibProgrammingPausedBy := insert taskName s.bestPathAndFibProgrammingPausedBy }
  split_ifs
  · exact ⟨rfl, rfl, rfl, rfl⟩
  · exact ⟨hstop.1, hstop.2, hstop.3, hstop.4⟩
  · exact ⟨hstop.1, hstop.2, hstop.3, hstop.4⟩

theorem mem_pausedBy_processPause (s : PauseState M) (taskName cause : RibPauseResumeCause) :
    cause ∈ (s.processPauseBestPathAndFibProgramming taskName).bestPathAndFibProgrammingPausedBy ↔
      cause = taskName ∨ cause ∈ s.bestPathAndFibProgrammingPausedBy := by
  unfold processPauseBestPathAndFibProgramming
  split_ifs with hmem
  · exact ⟨.inr, fun h => h.elim (fun heq => heq ▸ hmem) id⟩
  · rw [pausedBy_stopProgramming, mem_insert]
  · rw [pausedBy_stopProgramming, mem_insert]

theorem Consistent.processPause (h : s.Consistent) (taskName : RibPauseResumeCause) :
    (s.processPauseBestPathAndFibProgramming taskName).Consistent := by
  unfold processPauseBestPathAndFibProgramming
  set inserted : PauseState M :=
    { s with bestPathAndFibProgrammingPausedBy := insert taskName s.bestPathAndFibProgrammingPausedBy }
  have hnonempty : inserted.stopProgramming.bestPathAndFibProgrammingPausedBy.Nonempty := by
    rw [pausedBy_stopProgramming]
    exact insert_nonempty _ _
  have hpaused : inserted.stopProgramming.pauseBestPathAndFibProgramming = true := paused_stopProgramming _
  have htimer : inserted.stopProgramming.fibBatchTimerScheduled = false := timer_stopProgramming h.timer_off
  split_ifs
  · exact h
  · exact ⟨iff_of_true hpaused hnonempty, fun _ => htimer⟩
  · exact ⟨iff_of_true hpaused hnonempty, fun _ => htimer⟩

theorem sameQueues_resumeProgramming (s : PauseState M) : SameQueues s s.resumeProgramming := by
  unfold resumeProgramming schedulePrepareFibProgrammingTimer
  split_ifs <;> exact ⟨rfl, rfl, rfl, rfl⟩

theorem pausedBy_resumeProgramming (s : PauseState M) :
    s.resumeProgramming.bestPathAndFibProgrammingPausedBy = s.bestPathAndFibProgrammingPausedBy := by
  unfold resumeProgramming schedulePrepareFibProgrammingTimer
  split_ifs <;> rfl

theorem paused_resumeProgramming (s : PauseState M) : s.resumeProgramming.pauseBestPathAndFibProgramming = false := by
  unfold resumeProgramming schedulePrepareFibProgrammingTimer
  split_ifs <;> rfl

theorem consistent_resumeProgramming (h : s.bestPathAndFibProgrammingPausedBy = ∅) :
    s.resumeProgramming.Consistent := by
  have hpaused := paused_resumeProgramming s
  have hcauses : ¬s.resumeProgramming.bestPathAndFibProgrammingPausedBy.Nonempty := by
    rw [pausedBy_resumeProgramming, h]
    exact not_nonempty_empty
  exact ⟨iff_of_false (by simp [hpaused]) hcauses, fun hset => by simp [hpaused] at hset⟩

theorem sameQueues_mayResume (s : PauseState M) (cause : Option RibPauseResumeCause) :
    SameQueues s (s.mayResumeBestPathAndFibProgramming cause) := by
  unfold mayResumeBestPathAndFibProgramming
  cases cause with
  | some taskName =>
    split
    · exact ⟨rfl, rfl, rfl, rfl⟩
    · exact sameQueues_resumeProgramming s
  | none =>
    split_ifs
    · exact ⟨rfl, rfl, rfl, rfl⟩
    · exact ⟨rfl, rfl, rfl, rfl⟩
    · have hsame := sameQueues_resumeProgramming { s with bestPathAndFibProgrammingPausedBy := ∅ }
      exact ⟨hsame.1, hsame.2, hsame.3, hsame.4⟩

/-- The pause timer clears every cause but back-pressure. -/
theorem backpressure_mem_mayResume_none (s : PauseState M)
    (h : .BACKPRESSURE ∈ (s.mayResumeBestPathAndFibProgramming none).bestPathAndFibProgrammingPausedBy) :
    .BACKPRESSURE ∈ s.bestPathAndFibProgrammingPausedBy := by
  unfold mayResumeBestPathAndFibProgramming at h
  split_ifs at h with hpaused hmem
  · exact h
  · exact hmem
  · rw [pausedBy_resumeProgramming] at h
    exact absurd h (notMem_empty _)

theorem Consistent.mayResume_none (h : s.Consistent) : (s.mayResumeBestPathAndFibProgramming none).Consistent := by
  unfold mayResumeBestPathAndFibProgramming
  split_ifs with hpaused hmem
  · exact h
  · exact ⟨iff_of_true (by simpa using hpaused) (singleton_nonempty _), h.timer_off⟩
  · exact consistent_resumeProgramming rfl

theorem sameQueues_processResume (s : PauseState M) (taskName : RibPauseResumeCause) :
    SameQueues s (s.processResumeBestPathAndFibProgramming taskName) := by
  unfold processResumeBestPathAndFibProgramming
  dsimp only
  split
  · exact ⟨rfl, rfl, rfl, rfl⟩
  · have hsame := sameQueues_mayResume
      { s with bestPathAndFibProgrammingPausedBy := s.bestPathAndFibProgrammingPausedBy.erase taskName } (some taskName)
    exact ⟨hsame.1, hsame.2, hsame.3, hsame.4⟩

theorem pausedBy_processResume (s : PauseState M) (taskName : RibPauseResumeCause) :
    (s.processResumeBestPathAndFibProgramming taskName).bestPathAndFibProgrammingPausedBy =
      s.bestPathAndFibProgrammingPausedBy.erase taskName := by
  unfold processResumeBestPathAndFibProgramming mayResumeBestPathAndFibProgramming
  dsimp only
  split_ifs
  · rfl
  · rfl
  · exact pausedBy_resumeProgramming _

theorem Consistent.processResume (h : s.Consistent) (taskName : RibPauseResumeCause) :
    (s.processResumeBestPathAndFibProgramming taskName).Consistent := by
  unfold processResumeBestPathAndFibProgramming mayResumeBestPathAndFibProgramming
  dsimp only
  split_ifs with hleft hpaused
  · -- causes are left, so there were causes before
    have hbef : s.bestPathAndFibProgrammingPausedBy.Nonempty := hleft.mono (erase_subset _ _)
    exact ⟨iff_of_true (h.paused_iff.mpr hbef) hleft, h.timer_off⟩
  · have hoff : s.pauseBestPathAndFibProgramming = false := by simpa using hpaused
    exact ⟨iff_of_false (by simp [hoff]) hleft, h.timer_off⟩
  · exact consistent_resumeProgramming (not_nonempty_iff_eq_empty.mp hleft)

/-- Enough messages to pop, or a resume that is sent or about to be. -/
def ResumeOnItsWay (s : PauseState M) : Prop :=
  kRibOutQueueSizeResumeThreshold < s.ribOutQ.length ∨
    (s.ribOutQ.length = kRibOutQueueSizeResumeThreshold ∧ s.pop = .popped) ∨ s.pop = .atLowWatermark ∨
    .ResumeBestPathAndFibProgramming .BACKPRESSURE ∈ s.ribInQ

/-- Back-pressure is outstanding, or the RIB thread has read a size that makes it so. -/
def Backpressured (s : PauseState M) : Prop :=
  .BACKPRESSURE ∈ s.bestPathAndFibProgrammingPausedBy ∨ s.push = .aboveHighWatermark

structure Invariant (s : PauseState M) : Prop where
  consistent : s.Consistent
  -- only the RIB thread itself pauses for back-pressure
  requests : .PauseBestPathAndFibProgramming .BACKPRESSURE ∉ s.ribInQ
  resume : s.Backpressured → s.ResumeOnItsWay

theorem SameQueues.resumeOnItsWay {s' : PauseState M} (h : SameQueues s s') (hs : s.ResumeOnItsWay) :
    s'.ResumeOnItsWay := by
  rw [ResumeOnItsWay, h.ribOutQ, h.ribInQ, h.pop]
  exact hs

theorem ResumeOnItsWay.push (h : s.ResumeOnItsWay) (msg : M) (push : PushProgress) :
    ResumeOnItsWay { s with ribOutQ := s.ribOutQ ++ [msg], push := push } := by
  have hlen : (s.ribOutQ ++ [msg]).length = s.ribOutQ.length + 1 := by simp
  rcases h with hmore | ⟨hlow, -⟩ | hsnd | hsent
  · exact .inl (by rw [hlen]; omega)
  · exact .inl (by rw [hlen]; omega)
  · exact .inr (.inr (.inl hsnd))
  · exact .inr (.inr (.inr hsent))

/-- A pop either leaves the queue above the low watermark or brings it there and is then checked. -/
theorem ResumeOnItsWay.pop (h : s.ResumeOnItsWay) (hidle : s.pop = .idle) :
    ResumeOnItsWay { s with ribOutQ := s.ribOutQ.tail, pop := .popped } := by
  have hlen : s.ribOutQ.tail.length = s.ribOutQ.length - 1 := List.length_tail
  rcases h with hmore | ⟨-, hpopped⟩ | hsnd | hsent
  · by_cases hlow : s.ribOutQ.length - 1 = kRibOutQueueSizeResumeThreshold
    · exact .inr (.inl ⟨hlen.trans hlow, rfl⟩)
    · exact .inl (by rw [hlen]; omega)
  · simp [hidle] at hpopped
  · simp [hidle] at hsnd
  · exact .inr (.inr (.inr hsent))

theorem ResumeOnItsWay.checkLowWatermark (h : s.ResumeOnItsWay) (hpopped : s.pop = .popped) :
    s.checkLowWatermark.ResumeOnItsWay := by
  rcases h with hmore | ⟨hlow, -⟩ | hsnd | hsent
  · exact .inl hmore
  · exact .inr (.inr (.inl (if_pos hlow)))
  · simp [hpopped] at hsnd
  · exact .inr (.inr (.inr hsent))

section

variable (h : s.Invariant)
include h

/-- What the RIB thread does between two pushes keeps the invariant if it neither moves a message
nor adds back-pressure. -/
theorem Invariant.of_sameQueues {s' : PauseState M} (hsame : SameQueues s s')
    (hcons : s'.Consistent) (hcause : .BACKPRESSURE ∈ s'.bestPathAndFibProgrammingPausedBy →
      .BACKPRESSURE ∈ s.bestPathAndFibProgrammingPausedBy) : s'.Invariant := by
  refine ⟨hcons, hsame.ribInQ ▸ h.requests, fun hpress => hsame.resumeOnItsWay (h.resume ?_)⟩
  rcases hpress with hmem | habove
  · exact .inl (hcause hmem)
  · exact .inr (hsame.push ▸ habove)

theorem Invariant.processPause {taskName : RibPauseResumeCause}
    (hcause : taskName ≠ .BACKPRESSURE) : (s.processPauseBestPathAndFibProgramming taskName).Invariant := by
  refine h.of_sameQueues (sameQueues_processPause s taskName) (h.consistent.processPause taskName) fun hmem => ?_
  rcases (mem_pausedBy_processPause s taskName _).mp hmem with heq | hbef
  · exact absurd heq.symm hcause
  · exact hbef

theorem Invariant.processResume (taskName : RibPauseResumeCause) :
    (s.processResumeBestPathAndFibProgramming taskName).Invariant := by
  refine h.of_sameQueues (sameQueues_processResume s taskName) (h.consistent.processResume taskName) fun hmem => ?_
  rw [pausedBy_processResume] at hmem
  exact mem_of_mem_erase hmem

theorem Invariant.monitorRouteChurn (routeChurnDetected : Bool) :
    (s.monitorRouteChurn routeChurnDetected).Invariant := by
  unfold PauseState.monitorRouteChurn
  split_ifs
  · exact h.processPause (by decide)
  · exact h.processResume _
  · exact h

/-- The message taken off `ribInQ` is the resume only if it then ends the back-pressure. The RIB
thread is not inside a push here, so no back-pressure is about to be added. -/
theorem Invariant.popRibIn (hidle : s.push = .idle) : s.popRibIn.Invariant := by
  unfold PauseState.popRibIn
  split
  · exact h
  next msg rest hqueue =>
    set popped : PauseState M := { s with ribInQ := rest }
    have hcons : popped.Consistent := ⟨h.consistent.paused_iff, h.consistent.timer_off⟩
    have hreqs : .PauseBestPathAndFibProgramming .BACKPRESSURE ∉ msg :: rest := hqueue ▸ h.requests
    have hrest : .PauseBestPathAndFibProgramming .BACKPRESSURE ∉ rest := fun hmem =>
      hreqs (List.mem_cons_of_mem _ hmem)
    have hkept : msg ≠ .ResumeBestPathAndFibProgramming .BACKPRESSURE → popped.Invariant := by
      intro hother
      refine ⟨hcons, hrest, fun hpress => ?_⟩
      rcases h.resume hpress with hmore | hlow | hsnd | hsent
      · exact .inl hmore
      · exact .inr (.inl hlow)
      · exact .inr (.inr (.inl hsnd))
      · rw [hqueue] at hsent
        exact .inr (.inr (.inr ((List.mem_cons.mp hsent).resolve_left (Ne.symm hother))))
    cases msg with
    | other => exact hkept (by simp)
    | PauseBestPathAndFibProgramming taskName =>
      refine (hkept (by simp)).processPause fun hcause => hreqs ?_
      rw [hcause]
      exact List.mem_cons_self
    | ResumeBestPathAndFibProgramming taskName =>
      by_cases hcause : taskName = .BACKPRESSURE
      · subst hcause
        have hsame := sameQueues_processResume popped .BACKPRESSURE
        refine ⟨hcons.processResume _, hsame.ribInQ ▸ hrest, ?_⟩
        rintro (hmem | habove)
        · rw [processRibInMsg, pausedBy_processResume] at hmem
          exact absurd hmem (notMem_erase _ _)
        · have hpush : s.push = .aboveHighWatermark := hsame.push.symm.trans habove
          simp [hidle] at hpush
      · exact (hkept (by simpa using hcause)).processResume taskName

theorem Invariant.schedulePrepareFibProgrammingTimer : s.schedulePrepareFibProgrammingTimer.Invariant := by
  unfold PauseState.schedulePrepareFibProgrammingTimer
  split
  · exact h
  next hpaused => exact ⟨⟨h.consistent.paused_iff, fun hset => absurd hset hpaused⟩, h.requests, h.resume⟩

theorem Invariant.exec {action : PauseAction M} (hen : s.Enabled action) :
    (s.exec action).Invariant := by
  obtain ⟨⟨hpaused, htimer⟩, hreqs, hresume⟩ := id h
  cases action with
  | pushRibOut msg =>
    refine ⟨⟨hpaused, htimer⟩, hreqs, fun hpress => (hresume ?_).push msg _⟩
    exact .inl (hpress.resolve_right (by simp [PauseState.exec]))
  | pushRibInitialAnnouncementStart msg =>
    exact ⟨⟨hpaused, htimer⟩, hreqs, fun hpress => (hresume hpress).push msg s.push⟩
  | checkHighWatermark =>
    refine ⟨⟨hpaused, htimer⟩, hreqs, fun hpress => ?_⟩
    by_cases hhigh : s.ribOutQ.length > kRibOutQueueSizePauseThreshold
    · exact .inl (lt_trans (by decide) hhigh)
    · rcases hpress with hmem | habove
      · exact hresume (.inl hmem)
      · simp [PauseState.exec, PauseState.checkHighWatermark, hhigh] at habove
  | pauseByBackpressure =>
    have hsame := sameQueues_processPause s .BACKPRESSURE
    have hcons := Consistent.processPause ⟨hpaused, htimer⟩ .BACKPRESSURE
    exact ⟨⟨hcons.1, hcons.2⟩, hsame.ribInQ ▸ hreqs, fun _ => hsame.resumeOnItsWay (hresume (.inr hen))⟩
  | popRibIn => exact h.popRibIn hen.1
  | monitorRouteChurn routeChurnDetected => exact h.monitorRouteChurn routeChurnDetected
  | ribPauseTimerExpired =>
    have hunscheduled : Invariant { s with ribPauseTimerScheduled := false } := ⟨⟨hpaused, htimer⟩, hreqs, hresume⟩
    exact hunscheduled.of_sameQueues (sameQueues_mayResume _ none) hunscheduled.consistent.mayResume_none
      (backpressure_mem_mayResume_none _)
  | fibBatchTimerExpired => exact ⟨⟨hpaused, fun _ => rfl⟩, hreqs, hresume⟩
  | schedulePrepareFibProgrammingTimer => exact h.schedulePrepareFibProgrammingTimer
  | handleFibSyncReq =>
    simp only [PauseState.exec, PauseState.handleFibSyncReq]
    split <;> exact ⟨⟨hpaused, htimer⟩, hreqs, hresume⟩
  | runInitialPathComputation => exact ⟨⟨hpaused, htimer⟩, hreqs, hresume⟩
  | popRibOut => exact ⟨⟨hpaused, htimer⟩, hreqs, fun hpress => (hresume hpress).pop hen.1⟩
  | checkLowWatermark =>
    exact ⟨⟨hpaused, htimer⟩, hreqs, fun hpress => (hresume hpress).checkLowWatermark hen⟩
  | pushBackpressureResume =>
    refine ⟨⟨hpaused, htimer⟩, by simpa [PauseState.exec] using hreqs, fun _ => ?_⟩
    exact .inr (.inr (.inr (List.mem_append_right _ List.mem_cons_self)))
  | pushRibIn msg =>
    have hpushed : .PauseBestPathAndFibProgramming .BACKPRESSURE ∉ s.ribInQ ++ [msg] := by
      simpa [hreqs] using Ne.symm hen
    refine ⟨⟨hpaused, htimer⟩, hpushed, fun hpress => ?_⟩
    exact (hresume hpress).imp_right (.imp_right (.imp_right (List.mem_append_left _)))

end

theorem invariant_of_reachable (h : Reachable (pauseSystem M) s) : s.Invariant := by
  induction h with
  | init =>
    have hcauses : ¬(pauseSystem M).init.bestPathAndFibProgrammingPausedBy.Nonempty := not_nonempty_empty
    refine ⟨⟨iff_of_false (by simp [pauseSystem]) hcauses, fun _ => rfl⟩, by simp [pauseSystem], ?_⟩
    rintro (hmem | habove)
    · simp [pauseSystem] at hmem
    · simp [pauseSystem] at habove
  | step _ hen ih => exact ih.exec hen

/-- The RIB is paused exactly while a cause is outstanding, and back-pressure never waits for a
resume that nobody sends. -/
theorem paused_iff_and_resume_of_reachable {s : PauseState M} (h : Reachable (pauseSystem M) s) :
    (s.pauseBestPathAndFibProgramming = true ↔ s.bestPathAndFibProgrammingPausedBy.Nonempty) ∧
      (s.pauseBestPathAndFibProgramming = true → s.fibBatchTimerScheduled = false) ∧
      (.BACKPRESSURE ∈ s.bestPathAndFibProgrammingPausedBy → s.push = .idle → s.pop = .idle →
        s.ribOutQ.length > kRibOutQueueSizeResumeThreshold ∨
          .ResumeBestPathAndFibProgramming .BACKPRESSURE ∈ s.ribInQ) := by
  have hinvariant := invariant_of_reachable h
  refine ⟨hinvariant.consistent.paused_iff, hinvariant.consistent.timer_off, fun hmem _ hidle => ?_⟩
  rcases hinvariant.resume (.inl hmem) with hmore | ⟨-, hpopped⟩ | hsnd | hsent
  · exact .inl hmore
  · simp [hidle] at hpopped
  · simp [hidle] at hsnd
  · exact .inr hsent

/-- The RIB thread fills `ribOutQ` past the high watermark and pauses, then the peer manager's
thread pops it down to the low one. -/
def backpressureActions : List (PauseAction Unit) :=
  (List.replicate 201 [.pushRibOut (), .checkHighWatermark]).flatten ++ [.pauseByBackpressure] ++
    (List.replicate 101 [.popRibOut, .checkLowWatermark]).flatten ++ [.pushBackpressureResume]

@[irreducible] def backpressuredState : PauseState Unit :=
  run (pauseSystem Unit) (pauseSystem Unit).init backpressureActions

theorem paused_iff_and_resume_backpressuredState :
    .BACKPRESSURE ∈ backpressuredState.bestPathAndFibProgrammingPausedBy ∧
      backpressuredState.pauseBestPathAndFibProgramming = true ∧
      (backpressuredState.ribOutQ.length > kRibOutQueueSizeResumeThreshold ∨
        .ResumeBestPathAndFibProgramming .BACKPRESSURE ∈ backpressuredState.ribInQ) := by
  have hadm : Admits (pauseSystem Unit) (pauseSystem Unit).init backpressureActions := by
    unfold backpressureActions pauseSystem
    decide +kernel
  have hreach : Reachable (pauseSystem Unit) backpressuredState := by
    unfold backpressuredState
    exact Reachable.init.run hadm
  obtain ⟨hpaused, -, hresume⟩ := paused_iff_and_resume_of_reachable hreach
  have hcause : .BACKPRESSURE ∈ backpressuredState.bestPathAndFibProgrammingPausedBy := by decide +kernel
  have hpush : backpressuredState.push = .idle := by decide +kernel
  have hpop : backpressuredState.pop = .idle := by decide +kernel
  exact ⟨hcause, hpaused.mpr ⟨_, hcause⟩, hresume hcause hpush hpop⟩

end PauseState
end FbossBgp.Rib
