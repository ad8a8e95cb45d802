import Mathlib.Data.List.TakeWhile
import QtPlayer.Library.TransitionRuns

/- torrenthandle.cpp: the state a torrent shows, its start and the alerts it handles, with
   libtorrent from 1.1 on. A status of libtorrent is whatever it reports at that moment. What
   concerns trackers, pieces, names and share limits is left out, and so is moveStorage, which
   nothing calls. -/
namespace TorrentHandle
open TransitionRuns

inductive state_t where
  | unused_enum_for_backwards_compatibility
  | checking_files
  | downloading_metadata
  | downloading
  | finished
  | seeding
  | allocating
  | checking_resume_data
  deriving DecidableEq, Repr

structure torrent_status where
  state : state_t
  paused : Bool
  auto_managed : Bool
  errc : Bool
  has_metadata : Bool
  upload_payload_rate : Int
  download_payload_rate : Int
  total_wanted : Int
  total_wanted_done : Int
  progress : Rat
  deriving DecidableEq, Repr

inductive TorrentState where
  | Unknown
  | ForcedDownloading
  | Downloading
  | DownloadingMetadata
  | StalledDownloading
  | ForcedUploading
  | Uploading
  | StalledUploading
  | CheckingResumeData
  | QueuedDownloading
  | QueuedUploading
  | CheckingDownloading
  | CheckingUploading
  | Allocating
  | PausedDownloading
  | PausedUploading
  | Moving
  | MissingFiles
  | Error
  deriving DecidableEq, Repr

inductive StartupState where
  | NotStarted
  | Starting
  | Started
  deriving DecidableEq, Repr

structure Handle where
  nativeStatus : torrent_status
  state : TorrentState
  hasSeedStatus : Bool
  hasMissingFiles : Bool
  unchecked : Bool
  startupState : StartupState
  needsToStartForced : Bool
  newPath : String
  moveFinishedTriggers : Nat
  renameCount : Int
  deriving DecidableEq, Repr

inductive Effect where
  | torrentPaused
  | torrentResumed
  | torrentFinishedChecking
  | torrentFinished
  | torrentMetadataLoaded
  | auto_managed (m : Bool)
  | pause
  | resume
  | clear_error
  | force_recheck
  | set_upload_mode (m : Bool)
  | stop_when_ready (m : Bool)
  deriving DecidableEq, Repr

/-- What a handler reads: the status of libtorrent and whether the session has a queue. -/
structure Seen where
  status : torrent_status
  isQueueingSystemEnabled : Bool
  deriving DecidableEq, Repr

section Predicates

variable (h : Handle)

def isPaused : Bool := h.nativeStatus.paused && !h.nativeStatus.auto_managed
def isResumed : Bool := !isPaused h
def isQueued : Bool := h.nativeStatus.paused && h.nativeStatus.auto_managed
def isForced : Bool := !h.nativeStatus.paused && !h.nativeStatus.auto_managed

def isChecking : Bool :=
  h.nativeStatus.state = .checking_files || h.nativeStatus.state = .checking_resume_data

def isSeed : Bool := h.nativeStatus.state = .finished || h.nativeStatus.state = .seeding

def isDownloading : Bool :=
  h.state ∈ [.Downloading, .DownloadingMetadata, .StalledDownloading, .CheckingDownloading,
    .PausedDownloading, .QueuedDownloading, .ForcedDownloading]

def isUploading : Bool :=
  h.state ∈ [.Uploading, .StalledUploading, .CheckingUploading, .QueuedUploading, .ForcedUploading]

def isCompleted : Bool :=
  h.state ∈ [.Uploading, .StalledUploading, .CheckingUploading, .PausedUploading,
    .QueuedUploading, .ForcedUploading]

def isActive : Bool :=
  if h.state = .StalledDownloading then decide (h.nativeStatus.upload_payload_rate > 0)
  else h.state ∈ [.DownloadingMetadata, .Downloading, .ForcedDownloading, .Uploading,
    .ForcedUploading, .Moving]

def isInactive : Bool := !isActive h
def isErrored : Bool := h.state = .MissingFiles || h.state = .Error
def isMoveInProgress : Bool := h.newPath ≠ ""
def hasError : Bool := h.nativeStatus.paused && h.nativeStatus.errc
def hasMetadata : Bool := h.nativeStatus.has_metadata
def wantedSize : Int := h.nativeStatus.total_wanted

def progress : Rat :=
  if !isChecking h then
    if h.nativeStatus.total_wanted = 0 then 0
    else if h.nativeStatus.total_wanted_done = h.nativeStatus.total_wanted then 1
    else h.nativeStatus.total_wanted_done / h.nativeStatus.total_wanted
  else h.nativeStatus.progress

def updatedState (isQueueingSystemEnabled : Bool) : TorrentState :=
  if h.nativeStatus.state = .checking_resume_data then .CheckingResumeData
  else if isMoveInProgress h then .Moving
  else if isPaused h then
    if h.hasMissingFiles then .MissingFiles
    else if hasError h then .Error
    else if isSeed h then .PausedUploading else .PausedDownloading
  else if isQueueingSystemEnabled && isQueued h && !isChecking h then
    if isSeed h then .QueuedUploading else .QueuedDownloading
  else match h.nativeStatus.state with
    | .finished | .seeding =>
      if isForced h then .ForcedUploading
      else if h.nativeStatus.upload_payload_rate > 0 then .Uploading else .StalledUploading
    | .allocating => .Allocating
    | .checking_files => if h.hasSeedStatus then .CheckingUploading else .CheckingDownloading
    | .downloading_metadata => .DownloadingMetadata
    | .downloading =>
      if isForced h then .ForcedDownloading
      else if h.nativeStatus.download_payload_rate > 0 then .Downloading else .StalledDownloading
    | .unused_enum_for_backwards_compatibility | .checking_resume_data => .Unknown

end Predicates

def updateState (isQueueingSystemEnabled : Bool) (h : Handle) : Handle :=
  { h with state := updatedState h isQueueingSystemEnabled }

def updateStatus (seen : Seen) (h : Handle) : Handle :=
  let h := updateState seen.isQueueingSystemEnabled { h with nativeStatus := seen.status }
  if isChecking h then { h with unchecked := false }
  else if isDownloading h then { h with unchecked := true }
  else h

def resume_impl (h : Handle) (forced uploadMode : Bool) : Handle × List Effect :=
  let cleared := if hasError h then [.clear_error] else []
  let rechecked := if h.hasMissingFiles then [.force_recheck] else []
  ({ h with hasMissingFiles := false },
    cleared ++ rechecked ++ [.auto_managed !forced, .set_upload_mode uploadMode, .resume])

def pause (h : Handle) : Handle × List Effect :=
  if isPaused h then (h, [])
  else (h, [.auto_managed false, .pause] ++ if isQueued h then [.torrentPaused] else [])

def forceRecheck (h : Handle) : Handle × List Effect :=
  if !hasMetadata h then (h, [])
  else if isPaused h then
    let resumed := resume_impl { h with unchecked := false } true true
    (resumed.1, .force_recheck :: .stop_when_ready true :: resumed.2)
  else ({ h with unchecked := false }, [.force_recheck])

/- The handlers of alerts. -/

def startUp (h : Handle) : Handle × List Effect :=
  if h.startupState = .NotStarted then
    if !h.hasMissingFiles then
      resume_impl { h with startupState := .Starting } h.needsToStartForced false
    else ({ h with startupState := .Started }, [])
  else (h, [])

def recordSeedStatus (h : Handle) : Handle :=
  if !h.hasMissingFiles then
    if progress h < 1 ∧ wantedSize h > 0 then { h with hasSeedStatus := false }
    else if progress h = 1 then { h with hasSeedStatus := true }
    else h
  else h

def handleTorrentCheckedAlert (h : Handle) (seen : Seen) : Handle × List Effect :=
  (recordSeedStatus (updateStatus seen (startUp h).1), (startUp h).2 ++ [.torrentFinishedChecking])

/-- recheckTorrentsOnCompletion is the constant false. -/
def handleTorrentFinishedAlert (h : Handle) (seen : Seen) : Handle × List Effect :=
  if h.hasSeedStatus then (h, [])
  else
    let h := { updateStatus seen h with hasMissingFiles := false, hasSeedStatus := true }
    if isMoveInProgress h ∨ h.renameCount > 0 then
      ({ h with moveFinishedTriggers := h.moveFinishedTriggers + 1 }, [])
    else (h, [.torrentFinished])

def handleTorrentPausedAlert (h : Handle) (seen : Seen) : Handle × List Effect :=
  if h.startupState = .Started then (updateStatus seen h, [.torrentPaused]) else (h, [])

def handleTorrentResumedAlert (h : Handle) : Handle × List Effect :=
  match h.startupState with
  | .Started => (h, [.torrentResumed])
  | .Starting => ({ h with startupState := .Started }, [])
  | .NotStarted => (h, [])

def handleMetadataReceivedAlert (h : Handle) (seen : Seen) : Handle × List Effect :=
  let h := updateStatus seen h
  (h, .torrentMetadataLoaded :: if isPaused h then [.torrentPaused] else [])

/-- The loop runs every trigger or none, since a trigger changes no condition of it. -/
def handleFileRenameFailedAlert (h : Handle) : Handle × List Effect :=
  let h := { h with renameCount := h.renameCount - 1 }
  if !isMoveInProgress h && h.renameCount = 0 then
    ({ h with moveFinishedTriggers := 0 }, List.replicate h.moveFinishedTriggers .torrentFinished)
  else (h, [])

structure Params where
  restored : Bool
  hasSeedStatus : Bool
  forced : Bool
  paused : Bool
  deriving DecidableEq, Repr

def construct (params : Params) (seen : Seen) : Handle × List Effect :=
  let h := updateStatus seen
    { nativeStatus := seen.status
      state := .Unknown
      hasSeedStatus := params.hasSeedStatus
      hasMissingFiles := false
      unchecked := false
      startupState := .NotStarted
      needsToStartForced := params.forced
      newPath := ""
      moveFinishedTriggers := 0
      renameCount := 0 }
  if params.paused then ({ h with startupState := .Started }, [])
  else if !params.restored then
    resume_impl { h with startupState := .Starting } params.forced false
  else (h, [])

inductive Action where
  | handleStateUpdate (seen : Seen)
  | torrent_checked_alert (seen : Seen)
  | torrent_finished_alert (seen : Seen)
  | torrent_paused_alert (seen : Seen)
  | torrent_resumed_alert
  | metadata_received_alert (seen : Seen)
  | file_rename_failed_alert
  | pause
  | resume (forced : Bool)
  | forceRecheck
  deriving DecidableEq, Repr

def perform (h : Handle) : Action → Handle × List Effect
  | .handleStateUpdate seen => (updateStatus seen h, [])
  | .torrent_checked_alert seen => handleTorrentCheckedAlert h seen
  | .torrent_finished_alert seen => handleTorrentFinishedAlert h seen
  | .torrent_paused_alert seen => handleTorrentPausedAlert h seen
  | .torrent_resumed_alert => handleTorrentResumedAlert h
  | .metadata_received_alert seen => handleMetadataReceivedAlert h seen
  | .file_rename_failed_alert => handleFileRenameFailedAlert h
  | .pause => pause h
  | .resume forced => resume_impl h forced false
  | .forceRecheck => forceRecheck h

def lives : System Handle Action where
  start h := ∃ params seen, h = (construct params seen).1
  step h action h' := h' = (perform h action).1

def effects (steps : List (Handle × Action)) : List Effect :=
  steps.flatMap fun (p : Handle × Action) => (perform p.1 p.2).2

/- What every action keeps. -/

/-- `shown`: the state was assigned for the status at hand, perhaps when the queue or the seed
    status was another. -/
structure Settled (h : Handle) : Prop where
  noMove : h.newPath = ""
  noneMissing : h.hasMissingFiles = false
  renames : h.renameCount ≤ 0
  noTriggers : h.moveFinishedTriggers = 0
  shown : ∃ seed queueing, h.state = updatedState { h with hasSeedStatus := seed } queueing

theorem updateStatus_eq (seen : Seen) (h : Handle) :
    ∃ unchecked, updateStatus seen h =
      { h with
        nativeStatus := seen.status
        state := updatedState { h with nativeStatus := seen.status } seen.isQueueingSystemEnabled
        unchecked } := by
  simp only [updateStatus]
  split
  · exact ⟨false, rfl⟩
  · split
    · exact ⟨true, rfl⟩
    · exact ⟨h.unchecked, rfl⟩

theorem updateStatus_settled {h : Handle} (seen : Seen) (settled : Settled h) :
    Settled (updateStatus seen h) := by
  obtain ⟨unchecked, eq⟩ := updateStatus_eq seen h
  rw [eq]
  exact ⟨settled.noMove, settled.noneMissing, settled.renames, settled.noTriggers,
    h.hasSeedStatus, seen.isQueueingSystemEnabled, rfl⟩

theorem settled_of_same {h h' : Handle} (settled : Settled h)
    (same : ∃ seed unchecked startupState, h' = { h with
      hasSeedStatus := seed, unchecked := unchecked, startupState := startupState }) :
    Settled h' := by
  obtain ⟨seed, unchecked, startupState, rfl⟩ := same
  obtain ⟨was, queueing, shown⟩ := settled.shown
  exact ⟨settled.noMove, settled.noneMissing, settled.renames, settled.noTriggers, was, queueing,
    shown⟩

theorem resume_impl_fst {h : Handle} (settled : Settled h) (forced uploadMode : Bool) :
    (resume_impl h forced uploadMode).1 = h := by
  have := settled.noneMissing
  cases h
  simp_all [resume_impl]

theorem resume_impl_signals (h : Handle) (forced uploadMode : Bool) :
    (resume_impl h forced uploadMode).2.count .torrentFinished = 0 ∧
      (resume_impl h forced uploadMode).2.count .torrentResumed = 0 := by
  simp only [resume_impl]
  split <;> split <;> simp

theorem startUp_eq {h : Handle} (settled : Settled h) :
    (startUp h).1 = { h with
      startupState := if h.startupState = .NotStarted then .Starting else h.startupState } := by
  have clear := settled.noneMissing
  have starting : Settled { h with startupState := .Starting } :=
    settled_of_same settled ⟨_, _, _, rfl⟩
  by_cases fresh : h.startupState = .NotStarted
  · rw [startUp, if_pos fresh, if_pos (by simp [clear]), if_pos fresh]
    exact resume_impl_fst starting _ _
  · rw [startUp, if_neg fresh, if_neg fresh]

theorem startUp_signals (h : Handle) :
    (startUp h).2.count .torrentFinished = 0 ∧ (startUp h).2.count .torrentResumed = 0 := by
  simp only [startUp]
  split
  · split
    · exact resume_impl_signals _ _ _
    · exact ⟨rfl, rfl⟩
  · exact ⟨rfl, rfl⟩

def findsMissing (h : Handle) : Action → Bool
  | .torrent_checked_alert seen =>
    progress (updateStatus seen h) < 1 ∧ wantedSize (updateStatus seen h) > 0
  | _ => false

def findsComplete (h : Handle) : Action → Bool
  | .torrent_checked_alert seen => progress (updateStatus seen h) = 1
  | _ => false

theorem recordSeedStatus_eq {h : Handle} (settled : Settled h) :
    recordSeedStatus h = { h with
      hasSeedStatus := if progress h < 1 ∧ wantedSize h > 0 then false
        else if progress h = 1 then true else h.hasSeedStatus } := by
  rw [recordSeedStatus, if_pos (by simp [settled.noneMissing])]
  split
  · rfl
  · split <;> rfl

theorem updateStatus_progress (seen : Seen) (h h' : Handle) :
    progress (updateStatus seen h) = progress (updateStatus seen h') ∧
      wantedSize (updateStatus seen h) = wantedSize (updateStatus seen h') := by
  obtain ⟨_, eq⟩ := updateStatus_eq seen h
  obtain ⟨_, eq'⟩ := updateStatus_eq seen h'
  rw [eq, eq']
  exact ⟨rfl, rfl⟩

theorem checked_spec {h : Handle} (seen : Seen) (settled : Settled h) :
    Settled (handleTorrentCheckedAlert h seen).1 ∧
      (handleTorrentCheckedAlert h seen).1.startupState =
        (if h.startupState = .NotStarted then .Starting else h.startupState) ∧
      (handleTorrentCheckedAlert h seen).1.hasSeedStatus =
        if findsMissing h (.torrent_checked_alert seen) then false
        else if findsComplete h (.torrent_checked_alert seen) then true else h.hasSeedStatus := by
  have first : Settled (startUp h).1 := by
    rw [startUp_eq settled]
    exact settled_of_same settled ⟨_, _, _, rfl⟩
  have second := updateStatus_settled seen first
  obtain ⟨progressSame, wantedSame⟩ := updateStatus_progress seen (startUp h).1 h
  simp only [handleTorrentCheckedAlert, recordSeedStatus_eq second, findsMissing, findsComplete,
    progressSame, wantedSame, decide_eq_true_eq]
  obtain ⟨unchecked, eq⟩ := updateStatus_eq seen (startUp h).1
  refine ⟨settled_of_same second ⟨_, _, _, rfl⟩, ?_, ?_⟩
  · rw [eq, startUp_eq settled]
  · rw [eq, startUp_eq settled]

theorem not_waiting {h : Handle} (settled : Settled h) :
    ¬ (isMoveInProgress h ∨ h.renameCount > 0) := by
  have := settled.renames
  simp only [isMoveInProgress, settled.noMove, ne_eq, not_true_eq_false, decide_false,
    Bool.false_eq_true, false_or]
  omega

theorem finished_spec {h : Handle} (seen : Seen) (settled : Settled h) :
    Settled (handleTorrentFinishedAlert h seen).1 ∧
      (handleTorrentFinishedAlert h seen).1.startupState = h.startupState ∧
      (handleTorrentFinishedAlert h seen).1.hasSeedStatus = true ∧
      (handleTorrentFinishedAlert h seen).2 =
        if h.hasSeedStatus then [] else [.torrentFinished] := by
  by_cases seed : h.hasSeedStatus = true
  · simp [handleTorrentFinishedAlert, seed, settled]
  · have updated := updateStatus_settled seen settled
    have same : ({ updateStatus seen h with hasMissingFiles := false, hasSeedStatus := true } :
        Handle) = { updateStatus seen h with hasSeedStatus := true } := by
      rw [← updated.noneMissing]
    have after : Settled { updateStatus seen h with hasSeedStatus := true } :=
      settled_of_same updated ⟨_, _, _, rfl⟩
    have first : handleTorrentFinishedAlert h seen =
        ({ updateStatus seen h with hasSeedStatus := true }, [.torrentFinished]) := by
      rw [handleTorrentFinishedAlert, if_neg seed, same]
      exact if_neg (not_waiting after)
    obtain ⟨unchecked, eq⟩ := updateStatus_eq seen h
    rw [first]
    refine ⟨after, ?_, rfl, by simp [seed]⟩
    rw [eq]

theorem renameFailed_spec {h : Handle} (settled : Settled h) :
    handleFileRenameFailedAlert h = ({ h with renameCount := h.renameCount - 1 }, []) := by
  have := settled.renames
  rw [handleFileRenameFailedAlert, if_neg]
  simp only [Bool.and_eq_true, decide_eq_true_eq, not_and]
  intro _
  omega

theorem resumed_spec {h : Handle} (settled : Settled h) :
    Settled (handleTorrentResumedAlert h).1 ∧
      (handleTorrentResumedAlert h).1.hasSeedStatus = h.hasSeedStatus := by
  rw [handleTorrentResumedAlert]
  split
  · exact ⟨settled, rfl⟩
  · exact ⟨settled_of_same settled ⟨_, _, _, rfl⟩, rfl⟩
  · exact ⟨settled, rfl⟩

theorem forceRecheck_spec {h : Handle} (settled : Settled h) :
    Settled (forceRecheck h).1 ∧ (forceRecheck h).1.startupState = h.startupState ∧
      (forceRecheck h).1.hasSeedStatus = h.hasSeedStatus ∧
      (forceRecheck h).2.count .torrentFinished = 0 ∧
      (forceRecheck h).2.count .torrentResumed = 0 := by
  have unmarked : Settled { h with unchecked := false } := settled_of_same settled ⟨_, _, _, rfl⟩
  rw [forceRecheck]
  split
  · exact ⟨settled, rfl, rfl, rfl, rfl⟩
  · obtain ⟨noFinish, noResume⟩ := resume_impl_signals { h with unchecked := false } true true
    split
    · simp only [resume_impl_fst unmarked, noFinish, noResume, unmarked, List.count_cons,
        reduceCtorEq, beq_iff_eq, ↓reduceIte, and_self]
    · exact ⟨unmarked, rfl, rfl, rfl, rfl⟩

def isFinishedAlert : Action → Bool
  | .torrent_finished_alert _ => true
  | _ => false

/-- What one action does to the state and how many finished signals it sends. -/
theorem perform_spec {h : Handle} (settled : Settled h) (action : Action) :
    Settled (perform h action).1 ∧
      (perform h action).1.hasSeedStatus =
        (if isFinishedAlert action then true
        else if findsMissing h action then false
        else if findsComplete h action then true else h.hasSeedStatus) ∧
      (perform h action).2.count .torrentFinished =
        if isFinishedAlert action ∧ h.hasSeedStatus = false then 1 else 0 := by
  cases action with
  | handleStateUpdate seen =>
    obtain ⟨_, eq⟩ := updateStatus_eq seen h
    refine ⟨updateStatus_settled seen settled, ?_, rfl⟩
    simp [perform, eq, isFinishedAlert, findsMissing, findsComplete]
  | torrent_checked_alert seen =>
    obtain ⟨after, _, seed⟩ := checked_spec seen settled
    refine ⟨after, ?_, ?_⟩
    · simpa [perform, isFinishedAlert] using seed
    · simp [perform, handleTorrentCheckedAlert, (startUp_signals h).1, isFinishedAlert]
  | torrent_finished_alert seen =>
    obtain ⟨after, _, seed, sent⟩ := finished_spec seen settled
    refine ⟨after, by simpa [perform, isFinishedAlert] using seed, ?_⟩
    simp only [perform, sent, isFinishedAlert, true_and]
    cases h.hasSeedStatus <;> rfl
  | torrent_paused_alert seen =>
    obtain ⟨_, eq⟩ := updateStatus_eq seen h
    simp only [perform, handleTorrentPausedAlert]
    split
    · exact ⟨updateStatus_settled seen settled, by simp [eq, isFinishedAlert, findsMissing,
        findsComplete], by simp [isFinishedAlert]⟩
    · exact ⟨settled, by simp [isFinishedAlert, findsMissing, findsComplete],
        by simp [isFinishedAlert]⟩
  | torrent_resumed_alert =>
    obtain ⟨after, seed⟩ := resumed_spec settled
    refine ⟨after, by simpa [perform, isFinishedAlert, findsMissing, findsComplete] using seed, ?_⟩
    simp only [perform, handleTorrentResumedAlert]
    split <;> simp [isFinishedAlert]
  | metadata_received_alert seen =>
    obtain ⟨_, eq⟩ := updateStatus_eq seen h
    refine ⟨updateStatus_settled seen settled, ?_, ?_⟩
    · simp [perform, handleMetadataReceivedAlert, eq, isFinishedAlert, findsMissing, findsComplete]
    · simp only [perform, handleMetadataReceivedAlert]
      split <;> simp [isFinishedAlert]
  | file_rename_failed_alert =>
    have := settled.renames
    rw [perform, renameFailed_spec settled]
    refine ⟨⟨settled.noMove, settled.noneMissing, ?_, settled.noTriggers, settled.shown⟩, ?_, ?_⟩
    · show h.renameCount - 1 ≤ 0
      omega
    · simp [isFinishedAlert, findsMissing, findsComplete]
    · simp [isFinishedAlert]
  | pause =>
    simp only [perform, pause]
    split
    · exact ⟨settled, by simp [isFinishedAlert, findsMissing, findsComplete],
        by simp [isFinishedAlert]⟩
    · refine ⟨settled, by simp [isFinishedAlert, findsMissing, findsComplete], ?_⟩
      split <;> simp [isFinishedAlert]
  | resume forced =>
    simp [perform, resume_impl_fst settled, settled, (resume_impl_signals h forced false).1,
      isFinishedAlert, findsMissing, findsComplete]
  | forceRecheck =>
    obtain ⟨after, _, seed, noFinish, _⟩ := forceRecheck_spec settled
    exact ⟨after, by simpa [perform, isFinishedAlert, findsMissing, findsComplete] using seed,
      by simpa [perform, isFinishedAlert] using noFinish⟩

theorem construct_settled (params : Params) (seen : Seen) :
    Settled (construct params seen).1 := by
  have updated (h₀ : Handle) (noMove : h₀.newPath = "") (noneMissing : h₀.hasMissingFiles = false)
      (renames : h₀.renameCount ≤ 0) (noTriggers : h₀.moveFinishedTriggers = 0) :
      Settled (updateStatus seen h₀) := by
    obtain ⟨_, eq⟩ := updateStatus_eq seen h₀
    rw [eq]
    exact ⟨noMove, noneMissing, renames, noTriggers, _, _, rfl⟩
  unfold construct
  extract_lets h
  have settled : Settled h := updated _ rfl rfl (Int.le_refl 0) rfl
  split
  · exact settled_of_same settled ⟨_, _, _, rfl⟩
  · split
    · have starting : Settled { h with startupState := .Starting } :=
        settled_of_same settled ⟨_, _, _, rfl⟩
      rw [resume_impl_fst starting]
      exact starting
    · exact settled

theorem reachable_settled {h : Handle} (reach : Reachable lives h) : Settled h := by
  refine reachable_invariant ?_ ?_ reach
  · rintro _ ⟨params, seen, rfl⟩
    exact construct_settled params seen
  · rintro h action _ settled rfl
    exact (perform_spec settled action).1

/- What a shown state tells of the torrent. -/

def Shows (h : Handle) : TorrentState → Prop
  | .Unknown => isResumed h
  | .ForcedDownloading => isForced h ∧ h.nativeStatus.state = .downloading
  | .Downloading => isResumed h ∧ h.nativeStatus.state = .downloading
  | .DownloadingMetadata => isResumed h ∧ h.nativeStatus.state = .downloading_metadata
  | .StalledDownloading => isResumed h ∧ h.nativeStatus.state = .downloading
  | .ForcedUploading => isForced h ∧ isSeed h
  | .Uploading => isResumed h ∧ isSeed h
  | .StalledUploading => isResumed h ∧ isSeed h
  | .CheckingResumeData => h.nativeStatus.state = .checking_resume_data
  | .QueuedDownloading => isQueued h ∧ isSeed h = false
  | .QueuedUploading => isQueued h ∧ isSeed h
  | .CheckingDownloading => isResumed h ∧ h.nativeStatus.state = .checking_files
  | .CheckingUploading => isResumed h ∧ h.nativeStatus.state = .checking_files
  | .Allocating => isResumed h ∧ h.nativeStatus.state = .allocating
  | .PausedDownloading => isPaused h ∧ isSeed h = false
  | .PausedUploading => isPaused h ∧ isSeed h
  | .Moving => isMoveInProgress h
  | .MissingFiles => isPaused h ∧ h.hasMissingFiles
  | .Error => isPaused h ∧ hasError h

theorem updatedState_shows (h : Handle) (queueing : Bool) : Shows h (updatedState h queueing) := by
  fun_cases updatedState h queueing <;> simp_all [Shows, isResumed] <;> simp [isSeed, *]

theorem settled_shows {h : Handle} (settled : Settled h) : Shows h h.state := by
  obtain ⟨seed, queueing, shown⟩ := settled.shown
  have shows := updatedState_shows { h with hasSeedStatus := seed } queueing
  rw [← shown] at shows
  cases state : h.state <;> rw [state] at shows <;> exact shows

theorem queued_resumed {h : Handle} (queued : isQueued h) : isResumed h := by
  simp_all [isQueued, isResumed, isPaused]

theorem forced_resumed {h : Handle} (forced : isForced h) : isResumed h := by
  simp_all [isForced, isResumed, isPaused]

theorem errored_paused {h : Handle} (settled : Settled h) (errored : isErrored h) :
    isPaused h := by
  have shows := settled_shows settled
  simp only [isErrored, Bool.or_eq_true, decide_eq_true_eq] at errored
  rcases errored with state | state
  · rw [state] at shows
    exact shows.1
  · rw [state] at shows
    exact shows.1

theorem uploading_resumed {h : Handle} (settled : Settled h) (uploading : isUploading h) :
    isResumed h := by
  have shows := settled_shows settled
  simp only [isUploading, List.mem_cons, List.not_mem_nil, or_false, decide_eq_true_eq] at uploading
  rcases uploading with state | state | state | state | state <;> rw [state] at shows
  · exact shows.1
  · exact shows.1
  · exact shows.1
  · exact queued_resumed shows.1
  · exact forced_resumed shows.1

theorem active_resumed {h : Handle} (settled : Settled h) (active : isActive h) :
    isResumed h := by
  have shows := settled_shows settled
  simp only [isActive] at active
  split at active
  · rename_i state
    rw [state] at shows
    exact shows.1
  · simp only [List.mem_cons, List.not_mem_nil, or_false, decide_eq_true_eq] at active
    rcases active with state | state | state | state | state | state <;> rw [state] at shows
    · exact shows.1
    · exact shows.1
    · exact forced_resumed shows.1
    · exact shows.1
    · exact forced_resumed shows.1
    · simp [Shows, isMoveInProgress, settled.noMove] at shows

theorem completed_cases {h : Handle} (settled : Settled h) (completed : isCompleted h) :
    isUploading h ∨ isPaused h := by
  have shows := settled_shows settled
  simp only [isCompleted, List.mem_cons, List.not_mem_nil, or_false, decide_eq_true_eq] at completed
  rcases completed with state | state | state | state | state | state
  · simp [isUploading, state]
  · simp [isUploading, state]
  · simp [isUploading, state]
  · rw [state] at shows
    exact .inr shows.1
  · simp [isUploading, state]
  · simp [isUploading, state]

/- Finished signals. -/

def finishedSignals (steps : List (Handle × Action)) : Nat :=
  (effects steps).count .torrentFinished

def incompleteChecks (steps : List (Handle × Action)) : Nat :=
  steps.countP fun (p : Handle × Action) => findsMissing p.1 p.2

def unfinished (h : Handle) : Nat := if h.hasSeedStatus then 0 else 1

theorem effects_snoc (steps : List (Handle × Action)) (h : Handle) (action : Action) :
    effects (steps ++ [(h, action)]) = effects steps ++ (perform h action).2 := by
  simp [effects]

theorem step_finishedSignals {h : Handle} (settled : Settled h) (action : Action) :
    (perform h action).2.count .torrentFinished + unfinished (perform h action).1 ≤
      (if findsMissing h action then 1 else 0) + unfinished h := by
  obtain ⟨_, seed, sent⟩ := perform_spec settled action
  simp only [unfinished, seed, sent]
  cases isFinishedAlert action <;> cases findsMissing h action <;> cases findsComplete h action <;>
    cases h.hasSeedStatus <;> simp

theorem finishedSignals_le {h t : Handle} {steps : List (Handle × Action)}
    (reach : Reachable lives h) (run : Run lives h steps t) :
    finishedSignals steps + unfinished t ≤ incompleteChecks steps + unfinished h := by
  induction run with
  | nil => simp [finishedSignals, incompleteChecks, effects]
  | @snoc t u action steps run taken ih =>
    have now := step_finishedSignals (reachable_settled (reachable_extends reach run)) action
    rw [← taken] at now
    simp only [finishedSignals, incompleteChecks, effects_snoc, List.count_append,
      List.countP_append, List.countP_singleton] at ih ⊢
    omega

theorem finished_signalled {h t : Handle} {steps : List (Handle × Action)}
    (reach : Reachable lives h) (run : Run lives h steps t) (unseeded : h.hasSeedStatus = false)
    (incomplete : EveryStep (fun h action => findsComplete h action = false) steps) :
    1 ≤ finishedSignals steps ∨
      t.hasSeedStatus = false ∧ ∀ p ∈ steps, isFinishedAlert p.2 = false := by
  induction run with
  | nil => exact .inr ⟨unseeded, by simp⟩
  | @snoc t u action steps run taken ih =>
    obtain ⟨earlier, here⟩ := everyStep_snoc.mp incomplete
    obtain ⟨_, seed, sent⟩ :=
      perform_spec (reachable_settled (reachable_extends reach run)) action
    simp only [finishedSignals, effects_snoc, List.count_append] at ih ⊢
    rcases ih earlier with signalled | ⟨waiting, none⟩
    · exact .inl (by omega)
    · cases finishes : isFinishedAlert action with
      | true =>
        left
        rw [sent, if_pos ⟨finishes, waiting⟩]
        omega
      | false =>
        right
        rw [taken, seed, finishes, here, waiting]
        refine ⟨by simp, ?_⟩
        intro p mem
        rcases List.mem_append.mp mem with old | new
        · exact none p old
        · rw [List.mem_singleton.mp new]
          exact finishes

/-- Between two finished signals a check has found wanted bytes missing, and a finished alert of
    an unfinished torrent that no check has found complete is signalled. -/
theorem finished_between_checks {h t : Handle} {steps : List (Handle × Action)}
    (reach : Reachable lives h) (run : Run lives h steps t) :
    finishedSignals steps + unfinished t ≤ incompleteChecks steps + unfinished h ∧
      (h.hasSeedStatus = false → EveryStep (fun h action => findsComplete h action = false) steps →
        (∃ p ∈ steps, isFinishedAlert p.2) → 1 ≤ finishedSignals steps) := by
  refine ⟨finishedSignals_le reach run, ?_⟩
  rintro unseeded incomplete ⟨p, mem, finishes⟩
  rcases finished_signalled reach run unseeded incomplete with signalled | ⟨_, none⟩
  · exact signalled
  · rw [none p mem] at finishes
    cases finishes

/- Resumed signals. -/

def isResumedAlert : Action → Bool
  | .torrent_resumed_alert => true
  | _ => false

def isCheckedAlert : Action → Bool
  | .torrent_checked_alert _ => true
  | _ => false

/-- The resumed alerts that a torrent in this phase of its start takes for its own: in
    NotStarted those after its first check. -/
def heardResumes : StartupState → List Action → Nat
  | .NotStarted, actions => (actions.dropWhile (!isCheckedAlert ·)).countP isResumedAlert
  | _, actions => actions.countP isResumedAlert

theorem perform_startup {h : Handle} (settled : Settled h) (action : Action) :
    (perform h action).1.startupState =
        (if isCheckedAlert action ∧ h.startupState = .NotStarted then .Starting
        else if isResumedAlert action ∧ h.startupState = .Starting then .Started
        else h.startupState) ∧
      (perform h action).2.count .torrentResumed =
        if isResumedAlert action ∧ h.startupState = .Started then 1 else 0 := by
  cases action with
  | handleStateUpdate seen =>
    obtain ⟨_, eq⟩ := updateStatus_eq seen h
    simp [perform, eq, isCheckedAlert, isResumedAlert]
  | torrent_checked_alert seen =>
    obtain ⟨_, started, _⟩ := checked_spec seen settled
    refine ⟨by simpa [perform, isCheckedAlert, isResumedAlert] using started, ?_⟩
    simp [perform, handleTorrentCheckedAlert, (startUp_signals h).2, isResumedAlert]
  | torrent_finished_alert seen =>
    obtain ⟨_, started, _, sent⟩ := finished_spec seen settled
    refine ⟨by simpa [perform, isCheckedAlert, isResumedAlert] using started, ?_⟩
    simp only [perform, sent, isResumedAlert]
    split <;> simp
  | torrent_paused_alert seen =>
    obtain ⟨_, eq⟩ := updateStatus_eq seen h
    simp only [perform, handleTorrentPausedAlert]
    split <;> simp [eq, isCheckedAlert, isResumedAlert]
  | torrent_resumed_alert =>
    simp only [perform, handleTorrentResumedAlert]
    split <;> simp_all [isCheckedAlert, isResumedAlert]
  | metadata_received_alert seen =>
    obtain ⟨_, eq⟩ := updateStatus_eq seen h
    refine ⟨by simp [perform, handleMetadataReceivedAlert, eq, isCheckedAlert, isResumedAlert], ?_⟩
    simp only [perform, handleMetadataReceivedAlert]
    cases isPaused (updateStatus seen h) <;> simp [isResumedAlert]
  | file_rename_failed_alert =>
    simp [perform, renameFailed_spec settled, isCheckedAlert, isResumedAlert]
  | pause =>
    simp only [perform, pause]
    split
    · simp [isCheckedAlert, isResumedAlert]
    · split <;> simp [isCheckedAlert, isResumedAlert]
  | resume forced =>
    simp [perform, resume_impl_fst settled, (resume_impl_signals h forced false).2,
      isCheckedAlert, isResumedAlert]
  | forceRecheck =>
    obtain ⟨_, started, _, _, noResume⟩ := forceRecheck_spec settled
    exact ⟨by simpa [perform, isCheckedAlert, isResumedAlert] using started,
      by simpa [perform, isResumedAlert] using noResume⟩

def resumedSignals (steps : List (Handle × Action)) : Nat :=
  (effects steps).count .torrentResumed

theorem heardResumes_snoc {first : StartupState} {actions : List Action}
    (began : first = .NotStarted → ∃ a ∈ actions, isCheckedAlert a) (action : Action) :
    heardResumes first (actions ++ [action]) =
      heardResumes first actions + if isResumedAlert action then 1 else 0 := by
  cases first with
  | NotStarted =>
    have rest : (actions.dropWhile (!isCheckedAlert ·)).isEmpty = false := by
      simpa [List.isEmpty_eq_false_iff, List.dropWhile_eq_nil_iff] using began rfl
    simp [heardResumes, List.dropWhile_append, rest, List.countP_append, List.countP_singleton]
  | Starting => simp [heardResumes, List.countP_append, List.countP_singleton]
  | Started => simp [heardResumes, List.countP_append, List.countP_singleton]

theorem heardResumes_unchecked {actions : List Action} (none : ¬ ∃ a ∈ actions, isCheckedAlert a)
    (action : Action) : heardResumes .NotStarted (actions ++ [action]) = 0 := by
  have rest : actions.dropWhile (!isCheckedAlert ·) = [] := by
    simpa [List.dropWhile_eq_nil_iff] using none
  have alone : ([action].dropWhile (!isCheckedAlert ·)).countP isResumedAlert = 0 := by
    cases action <;> rfl
  simp [heardResumes, List.dropWhile_append, rest, alone]

def nextPhase (phase : StartupState) (action : Action) : StartupState :=
  if isCheckedAlert action ∧ phase = .NotStarted then .Starting
  else if isResumedAlert action ∧ phase = .Starting then .Started
  else phase

/-- How far the start has come and what it has cost, from the phase a run began in. -/
structure StartedFrom (first : StartupState) (actions : List Action) (signals : Nat)
    (phase : StartupState) : Prop where
  unchecked : phase = .NotStarted → first = .NotStarted ∧ ¬ ∃ a ∈ actions, isCheckedAlert a
  checked : phase ≠ .NotStarted → first = .NotStarted → ∃ a ∈ actions, isCheckedAlert a
  early : phase ≠ .Started → first ≠ .Started ∧ heardResumes first actions = 0 ∧ signals = 0
  late : phase = .Started →
    heardResumes first actions = signals + if first = .Started then 0 else 1

theorem startedFrom_nil (first : StartupState) : StartedFrom first [] 0 first := by
  refine ⟨fun fresh => ⟨fresh, by simp⟩, fun began fresh => (began fresh).elim, ?_, ?_⟩
  · intro early
    refine ⟨early, ?_, rfl⟩
    cases first <;> rfl
  · rintro rfl
    rfl

theorem startedFrom_snoc {first phase : StartupState} {actions : List Action} {signals : Nat}
    (so : StartedFrom first actions signals phase) (action : Action) :
    StartedFrom first (actions ++ [action])
      (signals + if isResumedAlert action ∧ phase = .Started then 1 else 0)
      (nextPhase phase action) := by
  have either : (∃ a ∈ actions ++ [action], isCheckedAlert a = true) ↔
      (∃ a ∈ actions, isCheckedAlert a = true) ∨ isCheckedAlert action = true := by
    simp [or_and_right, exists_or]
  cases phase with
  | NotStarted =>
    obtain ⟨fresh, none⟩ := so.unchecked rfl
    obtain ⟨_, _, silent⟩ := so.early (by simp)
    have still : heardResumes first (actions ++ [action]) = 0 := by
      rw [fresh]
      exact heardResumes_unchecked none action
    refine ⟨?_, ?_, ?_, ?_⟩
    · intro after
      refine ⟨fresh, ?_⟩
      rw [either]
      rintro (old | new)
      · exact none old
      · simp [nextPhase, new] at after
    · intro after _
      rw [either]
      right
      by_contra quiet
      simp [nextPhase, quiet] at after
    · intro _
      exact ⟨by simp [fresh], still, by simp [silent]⟩
    · intro after
      simp only [nextPhase] at after
      split at after
      · cases after
      · simp at after
  | Starting =>
    have began := so.checked (by simp)
    obtain ⟨notStarted, zero, silent⟩ := so.early (by simp)
    have now := heardResumes_snoc began action
    rw [zero, Nat.zero_add] at now
    refine ⟨?_, ?_, ?_, ?_⟩
    · intro after
      simp only [nextPhase] at after
      split at after
      · cases after
      · split at after <;> cases after
    · intro _ fresh
      exact either.mpr (.inl (began fresh))
    · intro after
      have quiet : isResumedAlert action = false := by
        by_contra resumed
        simp [nextPhase, resumed] at after
      exact ⟨notStarted, by simp [now, quiet], by simp [silent, quiet]⟩
    · intro after
      have resumed : isResumedAlert action = true := by
        by_contra quiet
        simp [nextPhase, quiet] at after
      simp [now, resumed, silent, notStarted]
  | Started =>
    have began := so.checked (by simp)
    have counted := so.late rfl
    have stays : nextPhase .Started action = .Started := by simp [nextPhase]
    rw [stays]
    refine ⟨by simp, ?_, by simp, ?_⟩
    · intro _ fresh
      exact either.mpr (.inl (began fresh))
    · intro _
      rw [heardResumes_snoc began, counted]
      simp only [and_true]
      omega

theorem startedFrom_run {h t : Handle} {steps : List (Handle × Action)}
    (reach : Reachable lives h) (run : Run lives h steps t) :
    StartedFrom h.startupState (steps.map Prod.snd) (resumedSignals steps) t.startupState := by
  induction run with
  | nil => exact startedFrom_nil _
  | @snoc t u action steps run taken ih =>
    obtain ⟨phase, sent⟩ := perform_startup (reachable_settled (reachable_extends reach run)) action
    have next : u.startupState = nextPhase t.startupState action := by rw [taken, phase, nextPhase]
    have signals : resumedSignals (steps ++ [(t, action)]) = resumedSignals steps +
        if isResumedAlert action ∧ t.startupState = .Started then 1 else 0 := by
      rw [resumedSignals, effects_snoc, List.count_append, sent, resumedSignals]
    rw [List.map_append, List.map_singleton, signals, next]
    exact startedFrom_snoc ih action

/-- A torrent that had not yet started takes the first resumed alert it hears for the one its
    own start asked for; every other one it hears is signalled. -/
theorem resumed_signals {h t : Handle} {steps : List (Handle × Action)}
    (reach : Reachable lives h) (run : Run lives h steps t) :
    resumedSignals steps = heardResumes h.startupState (steps.map Prod.snd) -
      if h.startupState = .Started then 0 else 1 := by
  have so := startedFrom_run reach run
  by_cases late : t.startupState = .Started
  · have := so.late late
    omega
  · obtain ⟨_, zero, silent⟩ := so.early late
    omega

theorem performs (h : Handle) (action : Action) : lives.step h action (perform h action).1 := rfl

def added : Handle :=
  (construct ⟨false, false, false, false⟩
    ⟨⟨.downloading, false, true, false, true, 0, 5, 2, 1, 1 / 2⟩, true⟩).1

/-- Two finished signals around a check that found a byte missing, and none for the alert after
    the second. -/
theorem finished_twice : ∃ steps t, Run lives added steps t ∧
    finishedSignals steps = 2 ∧ incompleteChecks steps = 1 ∧
    finishedSignals steps + unfinished t ≤ incompleteChecks steps + unfinished added ∧
    (added.hasSeedStatus = false →
      EveryStep (fun h action => findsComplete h action = false) steps →
      (∃ p ∈ steps, isFinishedAlert p.2) → 1 ≤ finishedSignals steps) := by
  let seeding : Seen := ⟨⟨.seeding, false, true, false, true, 0, 0, 2, 2, 1⟩, true⟩
  let partly : Seen := ⟨⟨.downloading, false, true, false, true, 0, 5, 2, 1, 1 / 2⟩, true⟩
  have run := run_cons (performs added (.torrent_finished_alert seeding))
    (run_cons (performs _ (.torrent_checked_alert partly))
      (run_cons (performs _ (.torrent_finished_alert seeding))
        (run_cons (performs _ (.torrent_finished_alert seeding)) (.nil _))))
  exact ⟨_, _, run, by decide +kernel, by decide +kernel,
    finished_between_checks (.start ⟨_, _, rfl⟩) run⟩

def restored : Handle :=
  (construct ⟨true, false, false, false⟩
    ⟨⟨.checking_resume_data, true, false, false, true, 0, 0, 2, 1, 1 / 2⟩, true⟩).1

/-- A restored torrent ignores the alert before its first check and swallows the one after it. -/
theorem restored_resumed_once : ∃ steps t, Run lives restored steps t ∧
    heardResumes restored.startupState (steps.map Prod.snd) = 2 ∧ resumedSignals steps = 1 ∧
    resumedSignals steps = heardResumes restored.startupState (steps.map Prod.snd) -
      if restored.startupState = .Started then 0 else 1 := by
  let partly : Seen := ⟨⟨.downloading, false, true, false, true, 0, 5, 2, 1, 1 / 2⟩, true⟩
  have run := run_cons (performs restored .torrent_resumed_alert)
    (run_cons (performs _ (.torrent_checked_alert partly))
      (run_cons (performs _ .torrent_resumed_alert)
        (run_cons (performs _ .torrent_resumed_alert) (.nil _))))
  exact ⟨_, _, run, by decide +kernel, by decide +kernel,
    resumed_signals (.start ⟨_, _, rfl⟩) run⟩

end TorrentHandle
