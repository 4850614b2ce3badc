import FbossBgp.Lib.Replay
import FbossBgp.Rib.RibEntry

/-! The messages that the RIB pushes to the peer manager, and what they say about the paths of prefixes to the peers
that take more than the best one. They carry at most `kRibChunkSize` entries of a kind; each entry has the RIB version
at which it was added to its chunk. Announcements and withdrawals are in different chunks, so what they say is in order
only if they are about different paths. -/

namespace FbossBgp.Rib

open BgpLib List Replay

structure RibOutAnnouncementEntry (F : Type) where
  pfx : CIDRNetwork
  pathIdToSend : Nat
  peer : TinyPeerInfo F
  attrs : BgpPathPtr F
  multiPathSize : Nat
  aggregateReceivedUcmpWeight : F
  aggregateLocalUcmpWeight : F
  ribPolicyUcmpWeight : F
  newlyInstalledInLocalRib : Bool
  ribVersion : Nat
  isPartialDrain : Bool

structure RibOutWithdrawalEntry where
  pfx : CIDRNetwork
  pathIdToSend : Nat
  nh : Option IPAddress
  ribVersion : Nat

inductive RibOutMessage (F : Type)
  | initialAnnouncementStart
  | announcement (entries addPathEntries : List (RibOutAnnouncementEntry F)) (initialDump sendWithEoR : Bool)
  | withdrawal (entries addPathEntries : List RibOutWithdrawalEntry)

def kRibChunkSize : Nat := 160

def kPlaceholderPathID : Nat := 0

/-- The queue with all that was pushed, the chunks that are being filled, and the last RIB version given out. -/
structure RibOut (F : Type) where
  queue : List (RibOutMessage F) := []
  announcement : List (RibOutAnnouncementEntry F) := []
  announcementAddPath : List (RibOutAnnouncementEntry F) := []
  withdrawal : List RibOutWithdrawalEntry := []
  withdrawalAddPath : List RibOutWithdrawalEntry := []
  ribVersion : Nat := 0

variable {F : Type}

namespace RibOut

variable (out : RibOut F)

def push (message : RibOutMessage F) : RibOut F := { out with queue := out.queue ++ [message] }

def incrementRibVersion : RibOut F := { out with ribVersion := out.ribVersion + 1 }

variable (sendWithEoR : Bool)

def flushAnnouncement : RibOut F :=
  { out.push (.announcement out.announcement [] sendWithEoR false) with announcement := [] }

def flushAnnouncementAddPath : RibOut F :=
  { out.push (.announcement [] out.announcementAddPath sendWithEoR false) with announcementAddPath := [] }

def flushWithdrawal : RibOut F :=
  { out.push (.withdrawal out.withdrawal []) with withdrawal := [] }

def flushWithdrawalAddPath : RibOut F :=
  { out.push (.withdrawal [] out.withdrawalAddPath) with withdrawalAddPath := [] }

/-- A full chunk is pushed before a best path is added to it. -/
def flushFullAnnouncement : RibOut F :=
  if out.announcement.length == kRibChunkSize then out.flushAnnouncement sendWithEoR else out

def flushFullWithdrawal : RibOut F :=
  if out.withdrawal.length == kRibChunkSize then out.flushWithdrawal else out

/-- Withdraw one path of a prefix. What follows a chunk that was pushed has a version of its own. -/
def withdrawAddPath (pfx : CIDRNetwork) (out : RibOut F) (nexthop : IPAddress) : RibOut F :=
  let out := if out.withdrawalAddPath.length == kRibChunkSize then out.flushWithdrawalAddPath.incrementRibVersion else out
  { out with withdrawalAddPath := out.withdrawalAddPath ++ [⟨pfx, kPlaceholderPathID, some nexthop, out.ribVersion⟩] }

/-- Announce one path of a prefix; `entry` makes the announcement from the RIB version. -/
def announceAddPath (entry : Nat → RibOutAnnouncementEntry F) (out : RibOut F) : RibOut F :=
  let out := if out.announcementAddPath.length == kRibChunkSize then
    (out.flushAnnouncementAddPath sendWithEoR).incrementRibVersion else out
  { out with announcementAddPath := out.announcementAddPath ++ [entry out.ribVersion] }

/-- Push the withdrawals that are left at the end of a selection pass. -/
def flushWithdrawals : RibOut F :=
  if out.withdrawal.isEmpty && out.withdrawalAddPath.isEmpty then out
  else { out.push (.withdrawal out.withdrawal out.withdrawalAddPath) with withdrawal := [], withdrawalAddPath := [] }

/-- Push what is left of the withdrawn paths once all programmed prefixes are handled. -/
def flushProgrammedWithdrawals : RibOut F :=
  if out.withdrawalAddPath.isEmpty then out else out.flushWithdrawalAddPath

/-- Push what is left of the announcements; the initial dump ends with an end-of-RIB even if nothing is left. -/
def flushAnnouncements : RibOut F :=
  if sendWithEoR || !out.announcement.isEmpty || !out.announcementAddPath.isEmpty then
    { out.push (.announcement out.announcement out.announcementAddPath sendWithEoR sendWithEoR) with
      announcement := [], announcementAddPath := [] }
  else out

end RibOut

namespace RibOutMessage

/-- What a message says about best paths. -/
def bestpathEvents : RibOutMessage F → List (CIDRNetwork × Option (BgpPathPtr F))
  | initialAnnouncementStart => []
  | announcement entries _ _ _ => entries.map fun entry => (entry.pfx, some entry.attrs)
  | withdrawal entries _ => entries.map fun entry => (entry.pfx, none)

/-- What a message says about the paths of prefixes, which are known by their nexthops. -/
def addPathEvents : RibOutMessage F → List ((CIDRNetwork × IPAddress) × Option (BgpPathPtr F))
  | initialAnnouncementStart => []
  | announcement _ addPathEntries _ _ =>
    addPathEntries.map fun entry => ((entry.pfx, entry.attrs.val.nexthop), some entry.attrs)
  | withdrawal _ addPathEntries => addPathEntries.filterMap fun entry => entry.nh.map fun nh => ((entry.pfx, nh), none)

end RibOutMessage

namespace RibOut

variable (out : RibOut F)

/-- What the pushed messages say about best paths, in order. -/
def bestpathLog : List (CIDRNetwork × Option (BgpPathPtr F)) :=
  out.queue.flatMap RibOutMessage.bestpathEvents

def addPathLog : List ((CIDRNetwork × IPAddress) × Option (BgpPathPtr F)) :=
  out.queue.flatMap RibOutMessage.addPathEvents

/-- What the RIB has said about best paths, in chunks that are still being filled too. -/
def bestpathSaid : List (CIDRNetwork × Option (BgpPathPtr F)) :=
  out.bestpathLog ++ out.withdrawal.map (fun entry => (entry.pfx, none)) ++
    out.announcement.map fun entry => (entry.pfx, some entry.attrs)

/-- No chunk is being filled. -/
structure Idle : Prop where
  announcement : out.announcement = []
  announcementAddPath : out.announcementAddPath = []
  withdrawal : out.withdrawal = []
  withdrawalAddPath : out.withdrawalAddPath = []

variable {out} (pfx : CIDRNetwork) (eor : Bool)

theorem Idle.bestpathSaid (h : out.Idle) : out.bestpathSaid = out.bestpathLog := by
  rw [RibOut.bestpathSaid, h.withdrawal, h.announcement, map_nil, map_nil, append_nil, append_nil]

theorem bestpathLog_push (out : RibOut F) (message : RibOutMessage F) :
    (out.push message).bestpathLog = out.bestpathLog ++ message.bestpathEvents := by
  rw [bestpathLog, push, flatMap_append, flatMap_singleton]
  rfl

/-- Nothing was said about best paths in between. -/
structure SameBestpaths (out out' : RibOut F) : Prop where
  bestpathLog : out'.bestpathLog = out.bestpathLog
  withdrawal : out'.withdrawal = out.withdrawal
  announcement : out'.announcement = out.announcement

theorem SameBestpaths.refl (out : RibOut F) : out.SameBestpaths out := ⟨rfl, rfl, rfl⟩

theorem SameBestpaths.trans {first second third : RibOut F} (h : first.SameBestpaths second)
    (h' : second.SameBestpaths third) : first.SameBestpaths third :=
  ⟨h'.bestpathLog.trans h.bestpathLog, h'.withdrawal.trans h.withdrawal, h'.announcement.trans h.announcement⟩

theorem SameBestpaths.bestpathSaid {out' : RibOut F} (h : out.SameBestpaths out') :
    out'.bestpathSaid = out.bestpathSaid := by
  rw [RibOut.bestpathSaid, h.bestpathLog, h.withdrawal, h.announcement, ← RibOut.bestpathSaid]

theorem sameBestpaths_incrementRibVersion (out : RibOut F) : out.SameBestpaths out.incrementRibVersion := ⟨rfl, rfl, rfl⟩

theorem sameBestpaths_push (out : RibOut F) {message : RibOutMessage F} (h : message.bestpathEvents = []) :
    out.SameBestpaths (out.push message) := by
  refine ⟨?_, rfl, rfl⟩
  rw [bestpathLog_push, h, append_nil]

theorem sameBestpaths_withdrawAddPath (out : RibOut F) (nexthop : IPAddress) :
    out.SameBestpaths (out.withdrawAddPath pfx nexthop) := by
  unfold withdrawAddPath
  split
  · have hpush : out.SameBestpaths (out.push (.withdrawal [] out.withdrawalAddPath)) := sameBestpaths_push out rfl
    exact ⟨hpush.bestpathLog, rfl, rfl⟩
  · exact ⟨rfl, rfl, rfl⟩

theorem sameBestpaths_announceAddPath (entry : Nat → RibOutAnnouncementEntry F) (out : RibOut F) :
    out.SameBestpaths (out.announceAddPath eor entry) := by
  unfold announceAddPath
  split
  · have hpush : out.SameBestpaths (out.push (.announcement [] out.announcementAddPath eor false)) :=
      sameBestpaths_push out rfl
    exact ⟨hpush.bestpathLog, rfl, rfl⟩
  · exact ⟨rfl, rfl, rfl⟩

theorem announcementAddPath_withdrawAddPath (out : RibOut F) (nexthop : IPAddress) :
    (out.withdrawAddPath pfx nexthop).announcementAddPath = out.announcementAddPath := by
  unfold withdrawAddPath
  split <;> rfl

theorem sameBestpaths_foldl {α : Type} {f : RibOut F → α → RibOut F} (hf : ∀ (out : RibOut F) x, out.SameBestpaths (f out x))
    (xs : List α) (out : RibOut F) : out.SameBestpaths (xs.foldl f out) :=
  List.foldlRecOn xs f (.refl out) fun out' hsame x _ => hsame.trans (hf out' x)

theorem bestpathSaid_withdraw (h : out.announcement = []) (entry : RibOutWithdrawalEntry) :
    { out with withdrawal := out.withdrawal ++ [entry] }.bestpathSaid = out.bestpathSaid ++ [(entry.pfx, none)] := by
  rw [bestpathSaid, bestpathSaid, map_append, h]
  simp only [map_cons, append_assoc]
  rfl

theorem bestpathSaid_announce (out : RibOut F) (entry : RibOutAnnouncementEntry F) :
    { out with announcement := out.announcement ++ [entry] }.bestpathSaid =
      out.bestpathSaid ++ [(entry.pfx, some entry.attrs)] := by
  rw [bestpathSaid, map_append, ← append_assoc]
  rfl

/-- While best paths are withdrawn, a chunk that is pushed says what it said before. -/
theorem bestpathSaid_flushFullWithdrawal (h : out.announcement = []) :
    out.flushFullWithdrawal.bestpathSaid = out.bestpathSaid ∧ out.flushFullWithdrawal.announcement = [] := by
  unfold flushFullWithdrawal
  split
  · refine ⟨?_, h⟩
    have hlog := bestpathLog_push out (.withdrawal out.withdrawal [])
    show (out.push _).bestpathLog ++ List.map _ [] ++ List.map _ out.announcement = _
    rw [hlog, map_nil, append_nil]
    rfl
  · exact ⟨rfl, h⟩

theorem bestpathSaid_flushFullAnnouncement (out : RibOut F) (eor : Bool) (h : out.withdrawal = []) :
    (out.flushFullAnnouncement eor).bestpathSaid = out.bestpathSaid ∧
      (out.flushFullAnnouncement eor).withdrawal = [] := by
  unfold flushFullAnnouncement
  split
  · refine ⟨?_, h⟩
    have hlog := bestpathLog_push out (.announcement out.announcement [] eor false)
    show (out.push _).bestpathLog ++ List.map _ out.withdrawal ++ List.map _ [] = _
    rw [hlog, bestpathSaid, h, map_nil, map_nil, append_nil, append_nil, append_nil]
    rfl
  · exact ⟨rfl, h⟩

theorem bestpathSaid_flushWithdrawals (hbest : out.announcement = []) (hadd : out.announcementAddPath = []) :
    out.flushWithdrawals.bestpathSaid = out.bestpathSaid ∧ out.flushWithdrawals.Idle := by
  unfold flushWithdrawals
  split
  next hempty =>
    rw [Bool.and_eq_true, List.isEmpty_iff, List.isEmpty_iff] at hempty
    exact ⟨rfl, hbest, hadd, hempty.1, hempty.2⟩
  · refine ⟨?_, hbest, hadd, rfl, rfl⟩
    have hlog := bestpathLog_push out (.withdrawal out.withdrawal out.withdrawalAddPath)
    show (out.push _).bestpathLog ++ List.map _ [] ++ List.map _ out.announcement = _
    rw [hlog, map_nil, append_nil]
    rfl

theorem sameBestpaths_flushProgrammedWithdrawals (out : RibOut F) :
    out.SameBestpaths out.flushProgrammedWithdrawals ∧ out.flushProgrammedWithdrawals.withdrawalAddPath = [] := by
  unfold flushProgrammedWithdrawals
  split
  next hempty => exact ⟨.refl out, isEmpty_iff.mp hempty⟩
  · have hpush : out.SameBestpaths (out.push (.withdrawal [] out.withdrawalAddPath)) := sameBestpaths_push out rfl
    exact ⟨⟨hpush.bestpathLog, rfl, rfl⟩, rfl⟩

theorem bestpathSaid_flushAnnouncements (hbest : out.withdrawal = [])
    (hadd : out.withdrawalAddPath = []) : (out.flushAnnouncements eor).bestpathSaid = out.bestpathSaid ∧
      (out.flushAnnouncements eor).Idle := by
  unfold flushAnnouncements
  split
  · refine ⟨?_, rfl, rfl, hbest, hadd⟩
    have hlog := bestpathLog_push out (.announcement out.announcement out.announcementAddPath eor eor)
    show (out.push _).bestpathLog ++ List.map _ out.withdrawal ++ List.map _ [] = _
    rw [hlog, bestpathSaid, hbest, map_nil, map_nil, append_nil, append_nil, append_nil]
    rfl
  next hempty =>
    simp only [Bool.or_eq_true, Bool.not_eq_true', not_or, Bool.not_eq_false, List.isEmpty_iff] at hempty
    exact ⟨rfl, hempty.1.2, hempty.2, hbest, hadd⟩

end RibOut

/-- A path as the peers that take several know it. -/
abbrev PathKey := CIDRNetwork × IPAddress

namespace RibOut

variable (out : RibOut F)

/-- What the chunk of withdrawals will say. -/
def withdrawnAddPaths : List (PathKey × Option (BgpPathPtr F)) :=
  out.withdrawalAddPath.filterMap fun entry => entry.nh.map fun nh => ((entry.pfx, nh), none)

/-- What the chunk of announcements will say. -/
def announcedAddPaths : List (PathKey × Option (BgpPathPtr F)) :=
  out.announcementAddPath.map fun entry => ((entry.pfx, entry.attrs.val.nexthop), some entry.attrs)

/-- What the peers know once the chunks are pushed. -/
def addPathTable : PathKey → Option (BgpPathPtr F) :=
  replay (out.addPathLog ++ out.withdrawnAddPaths ++ out.announcedAddPaths)

/-- The chunks are about different paths. -/
def Apart : Prop :=
  ∀ key ∈ out.withdrawnAddPaths.map Prod.fst, key ∉ out.announcedAddPaths.map Prod.fst

variable {out : RibOut F} {key : PathKey} {pfx : CIDRNetwork}
  {events : List (PathKey × Option (BgpPathPtr F))}

theorem Idle.addPathTable (h : out.Idle) : out.addPathTable = replay out.addPathLog := by
  rw [RibOut.addPathTable, withdrawnAddPaths, announcedAddPaths, h.withdrawalAddPath, h.announcementAddPath,
    filterMap_nil, map_nil, append_nil, append_nil]

theorem addPathLog_push (out : RibOut F) (message : RibOutMessage F) :
    (out.push message).addPathLog = out.addPathLog ++ message.addPathEvents := by
  rw [addPathLog, push, flatMap_append, flatMap_singleton]
  rfl

/-- Nothing was said about paths other than best ones in between. -/
structure SameAddPaths (out out' : RibOut F) : Prop where
  addPathLog : out'.addPathLog = out.addPathLog
  withdrawalAddPath : out'.withdrawalAddPath = out.withdrawalAddPath
  announcementAddPath : out'.announcementAddPath = out.announcementAddPath

namespace SameAddPaths

variable {first second third : RibOut F}

theorem refl (out : RibOut F) : out.SameAddPaths out := ⟨rfl, rfl, rfl⟩

section

variable (h : first.SameAddPaths second)
include h

theorem trans (h' : second.SameAddPaths third) : first.SameAddPaths third :=
  ⟨h'.addPathLog.trans h.addPathLog, h'.withdrawalAddPath.trans h.withdrawalAddPath,
    h'.announcementAddPath.trans h.announcementAddPath⟩

theorem withdrawnAddPaths : second.withdrawnAddPaths = first.withdrawnAddPaths := by
  rw [RibOut.withdrawnAddPaths, h.withdrawalAddPath, RibOut.withdrawnAddPaths]

theorem announcedAddPaths : second.announcedAddPaths = first.announcedAddPaths := by
  rw [RibOut.announcedAddPaths, h.announcementAddPath, RibOut.announcedAddPaths]

theorem addPathTable : second.addPathTable = first.addPathTable := by
  rw [RibOut.addPathTable, h.addPathLog, h.withdrawnAddPaths, h.announcedAddPaths, RibOut.addPathTable]

theorem apart (hapart : first.Apart) : second.Apart := by
  rw [Apart, h.withdrawnAddPaths, h.announcedAddPaths]
  exact hapart

end

end SameAddPaths

theorem sameAddPaths_incrementRibVersion (out : RibOut F) : out.SameAddPaths out.incrementRibVersion := ⟨rfl, rfl, rfl⟩

theorem sameAddPaths_push (out : RibOut F) {message : RibOutMessage F} (h : message.addPathEvents = []) :
    out.SameAddPaths (out.push message) := by
  refine ⟨?_, rfl, rfl⟩
  rw [addPathLog_push, h, append_nil]

theorem sameAddPaths_flushFullAnnouncement (out : RibOut F) (eor : Bool) :
    out.SameAddPaths (out.flushFullAnnouncement eor) := by
  unfold flushFullAnnouncement
  split
  · have hpush : out.SameAddPaths (out.push (.announcement out.announcement [] eor false)) := sameAddPaths_push out rfl
    exact ⟨hpush.addPathLog, rfl, rfl⟩
  · exact .refl out

theorem sameAddPaths_flushFullWithdrawal (out : RibOut F) : out.SameAddPaths out.flushFullWithdrawal := by
  unfold flushFullWithdrawal
  split
  · have hpush : out.SameAddPaths (out.push (.withdrawal out.withdrawal [])) := sameAddPaths_push out rfl
    exact ⟨hpush.addPathLog, rfl, rfl⟩
  · exact .refl out

/-- Paths were announced or withdrawn: what is said of them comes after all that was said before. -/
structure Says (events : List (PathKey × Option (BgpPathPtr F))) (out out' : RibOut F) : Prop where
  addPathTable : out'.addPathTable = events.foldl apply out.addPathTable
  apart : out'.Apart
  withdrawn : ∀ key ∈ out'.withdrawnAddPaths.map Prod.fst,
    key ∈ out.withdrawnAddPaths.map Prod.fst ∨ (key, none) ∈ events
  announced : ∀ key ∈ out'.announcedAddPaths.map Prod.fst,
    key ∈ out.announcedAddPaths.map Prod.fst ∨ ∃ attrs, (key, some attrs) ∈ events

namespace Says

variable {out' : RibOut F}

theorem refl (h : out.Apart) : Says [] out out := ⟨rfl, h, fun _ => .inl, fun _ => .inl⟩

theorem trans {more : List (PathKey × Option (BgpPathPtr F))} {out'' : RibOut F}
    (h : Says events out out') (h' : Says more out' out'') : Says (events ++ more) out out'' where
  addPathTable := by rw [foldl_append, h'.addPathTable, h.addPathTable]
  apart := h'.apart
  withdrawn key hkey := (h'.withdrawn key hkey).elim
    (fun hold => (h.withdrawn key hold).imp_right (mem_append_left _)) fun hnew => .inr (mem_append_right _ hnew)
  announced key hkey := (h'.announced key hkey).elim
    (fun hold => (h.announced key hold).imp_right (.imp fun _ => mem_append_left _))
    fun hnew => .inr (hnew.imp fun _ => mem_append_right _)

theorem of_withdrawn (hapart : out.Apart) (hkey : key ∉ out.announcedAddPaths.map Prod.fst)
    (hlog : out'.addPathLog = out.addPathLog) (hwd : out'.withdrawnAddPaths = out.withdrawnAddPaths ++ [(key, none)])
    (hann : out'.announcedAddPaths = out.announcedAddPaths) : Says [(key, none)] out out' := by
  have hfree : ∀ k ∈ [(key, (none : Option (BgpPathPtr F)))].map Prod.fst,
      k ∉ out.announcedAddPaths.map Prod.fst := fun k hk => mem_singleton.mp hk ▸ hkey
  refine ⟨?_, ?_, ?_, fun _ => hann ▸ .inl⟩
  · rw [RibOut.addPathTable, hlog, hwd, hann, ← append_assoc, replay_append_comm hfree, replay_append, RibOut.addPathTable]
  · rw [Apart, hwd, hann, map_append, forall_mem_append]
    exact ⟨hapart, hfree⟩
  · rw [hwd, map_append, forall_mem_append]
    exact ⟨fun _ => .inl, fun k hk => .inr (mem_singleton.mpr (Prod.ext (mem_singleton.mp hk) rfl))⟩

theorem of_announced {attrs : BgpPathPtr F} (hapart : out.Apart)
    (hkey : key ∉ out.withdrawnAddPaths.map Prod.fst) (hlog : out'.addPathLog = out.addPathLog)
    (hann : out'.announcedAddPaths = out.announcedAddPaths ++ [(key, some attrs)])
    (hwd : out'.withdrawnAddPaths = out.withdrawnAddPaths) : Says [(key, some attrs)] out out' := by
  refine ⟨?_, ?_, fun _ => hwd ▸ .inl, ?_⟩
  · rw [RibOut.addPathTable, hlog, hwd, hann, ← append_assoc, replay_append, RibOut.addPathTable]
  · rw [Apart, hwd, hann, map_append]
    exact fun k hk hmem => (mem_append.mp hmem).elim (hapart k hk) fun hnew => hkey ((mem_singleton.mp hnew : k = key) ▸ hk)
  · rw [hann, map_append, forall_mem_append]
    exact ⟨fun _ => .inl, fun k hk => .inr ⟨attrs, mem_singleton.mpr (Prod.ext (mem_singleton.mp hk) rfl)⟩⟩

theorem table_of_not_mem (h : Says events out out') (hkey : key ∉ events.map Prod.fst) :
    out'.addPathTable key = out.addPathTable key := by
  rw [h.addPathTable, foldl_apply_of_not_mem hkey]

theorem exists_table_eq {k : PathKey} (h : Says events out out') (hkey : k ∈ events.map Prod.fst) :
    ∃ said, (k, said) ∈ events ∧ out'.addPathTable k = said := by
  obtain ⟨⟨_, said⟩, hevent, rfl, hval⟩ := exists_foldl_apply_eq hkey out.addPathTable
  exact ⟨said, hevent, h.addPathTable ▸ hval⟩

end Says

theorem says_withdrawAddPath {nexthop : IPAddress} (hapart : out.Apart)
    (hkey : (pfx, nexthop) ∉ out.announcedAddPaths.map Prod.fst) :
    Says [((pfx, nexthop), none)] out (out.withdrawAddPath pfx nexthop) := by
  unfold withdrawAddPath
  split
  · -- a full chunk is pushed first, which says what it would have said
    have hflush : Says [] out out.flushWithdrawalAddPath := by
      refine ⟨?_, forall_mem_nil _, forall_mem_nil _, fun _ => .inl⟩
      show replay ((out.push _).addPathLog ++ [] ++ out.announcedAddPaths) = _
      rw [addPathLog_push, append_nil]
      rfl
    exact hflush.trans (.of_withdrawn hflush.apart hkey rfl rfl rfl)
  · exact .of_withdrawn hapart hkey rfl filterMap_append rfl

theorem says_announceAddPath (hapart : out.Apart) (eor : Bool)
    {entry : Nat → RibOutAnnouncementEntry F} {attrs : BgpPathPtr F}
    (hentry : ∀ ribVersion, ((entry ribVersion).pfx, (entry ribVersion).attrs.val.nexthop) = key ∧
      (entry ribVersion).attrs = attrs) (hkey : key ∉ out.withdrawnAddPaths.map Prod.fst) :
    Says [(key, some attrs)] out (out.announceAddPath eor entry) := by
  have hevent : ∀ ribVersion, (((entry ribVersion).pfx, (entry ribVersion).attrs.val.nexthop),
      some (entry ribVersion).attrs) = (key, some attrs) := fun _ => Prod.ext (hentry _).1 (congrArg some (hentry _).2)
  unfold announceAddPath
  split
  · have hflush : Says [] out (out.flushAnnouncementAddPath eor) := by
      refine ⟨?_, fun _ _ => not_mem_nil, fun _ => .inl, forall_mem_nil _⟩
      -- the pushed announcements come before the withdrawals that wait
      show replay ((out.push _).addPathLog ++ out.withdrawnAddPaths ++ []) = _
      rw [addPathLog_push, append_nil]
      exact (replay_append_comm hapart _).symm
    exact hflush.trans (.of_announced hflush.apart hkey rfl (congrArg ([·]) (hevent _)) rfl)
  · exact .of_announced hapart hkey rfl (map_append.trans (congrArg (_ ++ [·]) (hevent _))) rfl

theorem says_foldl_withdrawAddPath {nexthops : List IPAddress} (hapart : out.Apart)
    (hkeys : ∀ nexthop ∈ nexthops, (pfx, nexthop) ∉ out.announcedAddPaths.map Prod.fst) :
    Says (nexthops.map fun nexthop => ((pfx, nexthop), none)) out (nexthops.foldl (withdrawAddPath pfx) out) := by
  induction nexthops generalizing out with
  | nil => exact .refl hapart
  | cons nexthop nexthops ih =>
    obtain ⟨hfirst, hrest⟩ := forall_mem_cons.mp hkeys
    have hone := says_withdrawAddPath hapart hfirst
    exact hone.trans (ih hone.apart fun x hx hmem => (hone.announced _ hmem).elim (hrest x hx) (by simp))

theorem says_foldl_announceAddPath {α : Type} {entry : α → Nat → RibOutAnnouncementEntry F}
    {key : α → PathKey} {attrs : α → BgpPathPtr F} {xs : List α}
    (hentry : ∀ x ribVersion, ((entry x ribVersion).pfx, (entry x ribVersion).attrs.val.nexthop) = key x ∧
      (entry x ribVersion).attrs = attrs x) (hapart : out.Apart)
    (hkeys : ∀ x ∈ xs, key x ∉ out.withdrawnAddPaths.map Prod.fst) (eor : Bool) :
    Says (xs.map fun x => (key x, some (attrs x))) out
      (xs.foldl (fun out x => out.announceAddPath eor (entry x)) out) := by
  induction xs generalizing out with
  | nil => exact .refl hapart
  | cons x xs ih =>
    obtain ⟨hfirst, hrest⟩ := forall_mem_cons.mp hkeys
    have hone := says_announceAddPath hapart eor (hentry x) hfirst
    exact hone.trans (ih hone.apart fun y hy hmem => (hone.withdrawn _ hmem).elim (hrest y hy) (by simp))

/-- What is left at the end of a pass says what it would have said. -/
theorem addPathTable_flushWithdrawals (h : out.announcementAddPath = []) :
    out.flushWithdrawals.addPathTable = out.addPathTable := by
  have hann : out.announcedAddPaths = [] := by rw [announcedAddPaths, h, map_nil]
  unfold flushWithdrawals
  split
  · rfl
  · have hlog := addPathLog_push out (.withdrawal out.withdrawal out.withdrawalAddPath)
    rw [addPathTable, addPathTable, hann, append_nil]
    show replay ((out.push _).addPathLog ++ [] ++ out.announcedAddPaths) = _
    rw [hlog, hann, append_nil, append_nil]
    rfl

theorem addPathTable_flushProgrammedWithdrawals (out : RibOut F) :
    out.flushProgrammedWithdrawals.addPathTable = out.addPathTable := by
  unfold flushProgrammedWithdrawals
  split
  · rfl
  · have hlog := addPathLog_push out (.withdrawal [] out.withdrawalAddPath)
    show replay ((out.push _).addPathLog ++ [] ++ out.announcedAddPaths) = _
    rw [hlog, append_nil]
    rfl

theorem addPathTable_flushAnnouncements (h : out.withdrawalAddPath = []) (eor : Bool) :
    (out.flushAnnouncements eor).addPathTable = out.addPathTable := by
  have hwd : out.withdrawnAddPaths = [] := by rw [withdrawnAddPaths, h, filterMap_nil]
  unfold flushAnnouncements
  split
  · have hlog := addPathLog_push out (.announcement out.announcement out.announcementAddPath eor eor)
    rw [addPathTable, addPathTable, hwd, append_nil]
    show replay ((out.push _).addPathLog ++ out.withdrawnAddPaths ++ []) = _
    rw [hlog, hwd, append_nil, append_nil]
    rfl
  · rfl

end RibOut

end FbossBgp.Rib
