import Mathlib.Data.List.AList
import QtPlayer.Session.TorrentHandle

/- session.cpp: the torrents of the session with the alerts dispatched to them, and the report
   that handleStateUpdateAlert makes of them. -/
namespace StatusReport
open TransitionRuns TorrentHandle

variable {Hash : Type} [DecidableEq Hash]

structure TorrentStatusReport where
  nbDownloading : Nat
  nbSeeding : Nat
  nbCompleted : Nat
  nbActive : Nat
  nbInactive : Nat
  nbPaused : Nat
  nbResumed : Nat
  nbErrored : Nat
  deriving DecidableEq, Repr

structure Session (Hash : Type) where
  torrents : AList fun _ : Hash => Handle
  torrentStatusReport : TorrentStatusReport

def emptyReport : TorrentStatusReport := ⟨0, 0, 0, 0, 0, 0, 0, 0⟩

def countTorrent (report : TorrentStatusReport) (torrent : Handle) : TorrentStatusReport where
  nbDownloading := report.nbDownloading + (isDownloading torrent).toNat
  nbSeeding := report.nbSeeding + (isUploading torrent).toNat
  nbCompleted := report.nbCompleted + (isCompleted torrent).toNat
  nbPaused := report.nbPaused + (isPaused torrent).toNat
  nbResumed := report.nbResumed + (isResumed torrent).toNat
  nbActive := report.nbActive + (isActive torrent).toNat
  nbInactive := report.nbInactive + (isInactive torrent).toNat
  nbErrored := report.nbErrored + (isErrored torrent).toNat

/-- What dispatchTorrentAlert, a status and a method called on a torrent have in common. -/
def withTorrent (torrents : AList fun _ : Hash => Handle) (hash : Hash) (f : Handle → Handle) :
    AList fun _ : Hash => Handle :=
  match torrents.lookup hash with
  | some torrent => torrents.insert hash (f torrent)
  | none => torrents

def handleStateUpdateAlert (s : Session Hash) (isQueueingSystemEnabled : Bool)
    (status : List (Hash × torrent_status)) : Session Hash :=
  let torrents := status.foldl (fun torrents (p : Hash × torrent_status) =>
    withTorrent torrents p.1 (updateStatus ⟨p.2, isQueueingSystemEnabled⟩)) s.torrents
  { torrents
    torrentStatusReport := (torrents.entries.map (·.2)).foldl countTorrent emptyReport }

inductive Event (Hash : Type) where
  | createTorrentHandle (hash : Hash) (params : Params) (seen : Seen)
  | deleteTorrent (hash : Hash)
  | act (hash : Hash) (action : Action)
  | state_update_alert (isQueueingSystemEnabled : Bool) (status : List (Hash × torrent_status))

def next (s : Session Hash) : Event Hash → Session Hash
  | .createTorrentHandle hash params seen =>
    { s with torrents := s.torrents.insert hash (construct params seen).1 }
  | .deleteTorrent hash => { s with torrents := s.torrents.erase hash }
  | .act hash action =>
    { s with torrents := withTorrent s.torrents hash fun torrent => (perform torrent action).1 }
  | .state_update_alert isQueueingSystemEnabled status =>
    handleStateUpdateAlert s isQueueingSystemEnabled status

def lives : System (Session Hash) (Event Hash) where
  start s := s = ⟨∅, emptyReport⟩
  step s event t := t = next s event

/- The invariant: every torrent of the session is settled. -/

def AllSettled (torrents : AList fun _ : Hash => Handle) : Prop :=
  ∀ hash torrent, torrents.lookup hash = some torrent → Settled torrent

theorem insert_settled {torrents : AList fun _ : Hash => Handle} (all : AllSettled torrents)
    (hash : Hash) {torrent : Handle} (settled : Settled torrent) :
    AllSettled (torrents.insert hash torrent) := by
  intro other found there
  by_cases same : other = hash
  · subst same
    rw [AList.lookup_insert, Option.some.injEq] at there
    exact there ▸ settled
  · rw [AList.lookup_insert_ne same] at there
    exact all other found there

theorem erase_settled {torrents : AList fun _ : Hash => Handle} (all : AllSettled torrents)
    (hash : Hash) : AllSettled (torrents.erase hash) := by
  intro other found there
  by_cases same : other = hash
  · subst same
    rw [AList.lookup_erase] at there
    cases there
  · rw [AList.lookup_erase_ne same] at there
    exact all other found there

theorem withTorrent_settled {torrents : AList fun _ : Hash => Handle} {f : Handle → Handle}
    (keeps : ∀ torrent, Settled torrent → Settled (f torrent)) (all : AllSettled torrents)
    (hash : Hash) : AllSettled (withTorrent torrents hash f) := by
  simp only [withTorrent]
  split
  · rename_i torrent there
    exact insert_settled all hash (keeps torrent (all hash torrent there))
  · exact all

theorem statuses_settled (queueing : Bool) (status : List (Hash × torrent_status))
    {torrents : AList fun _ : Hash => Handle} (all : AllSettled torrents) :
    AllSettled (status.foldl (fun torrents (p : Hash × torrent_status) =>
      withTorrent torrents p.1 (updateStatus ⟨p.2, queueing⟩)) torrents) := by
  induction status generalizing torrents with
  | nil => exact all
  | cons p status ih =>
    exact ih (withTorrent_settled (fun _ settled => updateStatus_settled _ settled) all p.1)

theorem next_settled {s : Session Hash} (all : AllSettled s.torrents) (event : Event Hash) :
    AllSettled (next s event).torrents := by
  cases event with
  | createTorrentHandle hash params seen =>
    exact insert_settled all hash (construct_settled params seen)
  | deleteTorrent hash => exact erase_settled all hash
  | act hash action =>
    exact withTorrent_settled (fun _ settled => (perform_spec settled action).1) all hash
  | state_update_alert queueing status => exact statuses_settled queueing status all

/- The report. -/

structure AddsUp (report : TorrentStatusReport) (n : Nat) : Prop where
  paused_or_resumed : report.nbPaused + report.nbResumed = n
  active_or_inactive : report.nbActive + report.nbInactive = n
  seeding_completed : report.nbSeeding ≤ report.nbCompleted
  seeding_resumed : report.nbSeeding ≤ report.nbResumed
  active_resumed : report.nbActive ≤ report.nbResumed
  settled_paused : report.nbCompleted + report.nbErrored ≤ report.nbPaused + report.nbSeeding
  apart : report.nbDownloading + report.nbCompleted + report.nbErrored ≤ n

theorem empty_addsUp : AddsUp emptyReport 0 := by constructor <;> decide

theorem toNat_le {p q : Bool} (imp : p = true → q = true) : p.toNat ≤ q.toNat := by
  cases p with
  | false => exact Nat.zero_le _
  | true => rw [imp rfl]

theorem at_most_one (torrent : Handle) :
    (isDownloading torrent).toNat + (isCompleted torrent).toNat +
      (isErrored torrent).toNat ≤ 1 := by
  simp only [isDownloading, isCompleted, isErrored]
  cases torrent.state <;> decide

theorem uploading_completed (torrent : Handle) (uploading : isUploading torrent) :
    isCompleted torrent := by
  simp only [isUploading, isCompleted] at uploading ⊢
  cases state : torrent.state <;> simp_all

theorem countTorrent_addsUp {report : TorrentStatusReport} {n : Nat} {torrent : Handle}
    (so : AddsUp report n) (settled : Settled torrent) :
    AddsUp (countTorrent report torrent) (n + 1) := by
  obtain ⟨_, _, _, _, _, _, _⟩ := so
  have pausedOrNot : (isPaused torrent).toNat + (isResumed torrent).toNat = 1 := by
    simp only [isResumed]
    cases isPaused torrent <;> rfl
  have activeOrNot : (isActive torrent).toNat + (isInactive torrent).toNat = 1 := by
    simp only [isInactive]
    cases isActive torrent <;> rfl
  have uploads := toNat_le (uploading_completed torrent)
  have uploadsResumed := toNat_le (uploading_resumed settled)
  have activeResumed := toNat_le (active_resumed settled)
  have erroredPaused := toNat_le (errored_paused settled)
  have once := at_most_one torrent
  have completed : (isCompleted torrent).toNat ≤
      (isUploading torrent).toNat + (isPaused torrent).toNat := by
    by_cases completed : isCompleted torrent = true
    · rcases completed_cases settled completed with uploading | paused <;> simp [*]
    · simp [completed]
  constructor <;> simp only [countTorrent] <;> omega

theorem report_addsUp {torrents : List Handle} (all : ∀ torrent ∈ torrents, Settled torrent)
    {report : TorrentStatusReport} {n : Nat} (so : AddsUp report n) :
    AddsUp (torrents.foldl countTorrent report) (n + torrents.length) := by
  induction torrents generalizing report n with
  | nil => exact so
  | cons torrent torrents ih =>
    have now := countTorrent_addsUp so (all torrent (by simp))
    have rest := ih (fun t mem => all t (by simp [mem])) now
    rwa [List.length_cons, Nat.add_comm torrents.length 1, ← Nat.add_assoc]

theorem update_addsUp {s : Session Hash} (all : AllSettled s.torrents) (queueing : Bool)
    (status : List (Hash × torrent_status)) :
    AddsUp (handleStateUpdateAlert s queueing status).torrentStatusReport
      (handleStateUpdateAlert s queueing status).torrents.entries.length := by
  have after := statuses_settled queueing status all
  have settled : ∀ torrent ∈ (handleStateUpdateAlert s queueing status).torrents.entries.map (·.2),
      Settled torrent := by
    intro torrent mem
    obtain ⟨entry, there, rfl⟩ := List.mem_map.mp mem
    exact after entry.1 entry.2 (AList.mem_lookup_iff.mpr there)
  have counted := report_addsUp settled empty_addsUp
  rwa [List.length_map, Nat.zero_add] at counted

/-- Each number of the report is that of the torrents of its kind. -/
structure Counts (report : TorrentStatusReport) (torrents : List Handle) : Prop where
  downloading : report.nbDownloading = torrents.countP isDownloading
  seeding : report.nbSeeding = torrents.countP isUploading
  completed : report.nbCompleted = torrents.countP isCompleted
  active : report.nbActive = torrents.countP isActive
  inactive : report.nbInactive = torrents.countP isInactive
  paused : report.nbPaused = torrents.countP isPaused
  resumed : report.nbResumed = torrents.countP isResumed
  errored : report.nbErrored = torrents.countP isErrored

theorem countP_snoc (p : Handle → Bool) (torrents : List Handle) (torrent : Handle) :
    (torrents ++ [torrent]).countP p = torrents.countP p + (p torrent).toNat := by
  rw [List.countP_append, List.countP_singleton]
  cases p torrent <;> rfl

theorem report_counts {report : TorrentStatusReport} {counted : List Handle}
    (so : Counts report counted) (torrents : List Handle) :
    Counts (torrents.foldl countTorrent report) (counted ++ torrents) := by
  induction torrents generalizing report counted with
  | nil => rwa [List.append_nil]
  | cons torrent torrents ih =>
    have now : Counts (countTorrent report torrent) (counted ++ [torrent]) := by
      obtain ⟨_, _, _, _, _, _, _, _⟩ := so
      constructor <;> rw [countP_snoc] <;> simp only [countTorrent] <;> omega
    have rest := ih now
    rwa [List.append_assoc, List.singleton_append] at rest

theorem update_counts (s : Session Hash) (queueing : Bool)
    (status : List (Hash × torrent_status)) :
    Counts (handleStateUpdateAlert s queueing status).torrentStatusReport
      ((handleStateUpdateAlert s queueing status).torrents.entries.map (·.2)) := by
  have none : Counts emptyReport [] := by constructor <;> rfl
  have all := report_counts none
    ((handleStateUpdateAlert s queueing status).torrents.entries.map (·.2))
  rwa [List.nil_append] at all

theorem withTorrent_lookup (torrents : AList fun _ : Hash => Handle) (hash other : Hash)
    (f : Handle → Handle) : (withTorrent torrents hash f).lookup other =
      (torrents.lookup other).map (if hash = other then f else id) := by
  simp only [withTorrent]
  split
  · rename_i torrent there
    by_cases same : hash = other
    · subst same
      simp [there]
    · simp [AList.lookup_insert_ne (Ne.symm same), same]
  · rename_i missing
    by_cases same : hash = other
    · subst same
      simp [missing]
    · simp [same]

theorem statuses_lookup (queueing : Bool) (status : List (Hash × torrent_status))
    (torrents : AList fun _ : Hash => Handle) (hash : Hash) :
    (status.foldl (fun torrents (p : Hash × torrent_status) =>
      withTorrent torrents p.1 (updateStatus ⟨p.2, queueing⟩)) torrents).lookup hash =
      (torrents.lookup hash).map fun torrent => (status.filter (·.1 = hash)).foldl
        (fun torrent (p : Hash × torrent_status) => updateStatus ⟨p.2, queueing⟩ torrent)
        torrent := by
  induction status generalizing torrents with
  | nil => simp
  | cons p status ih =>
    rw [List.foldl_cons, ih, withTorrent_lookup, Option.map_map]
    congr 1
    funext torrent
    by_cases mine : p.1 = hash <;> simp [mine]

/-- The report always adds up. An update makes it the count of the torrents there are, each with
    the statuses listed for it and no other. -/
theorem report_adds_up {s : Session Hash} (reach : Reachable lives s) :
    (∃ n, AddsUp s.torrentStatusReport n) ∧ ∀ queueing status,
      AddsUp (handleStateUpdateAlert s queueing status).torrentStatusReport
        (handleStateUpdateAlert s queueing status).torrents.entries.length ∧
      Counts (handleStateUpdateAlert s queueing status).torrentStatusReport
        ((handleStateUpdateAlert s queueing status).torrents.entries.map (·.2)) ∧
      ∀ hash, (handleStateUpdateAlert s queueing status).torrents.lookup hash =
        (s.torrents.lookup hash).map fun torrent => (status.filter (·.1 = hash)).foldl
          (fun torrent (p : Hash × torrent_status) => updateStatus ⟨p.2, queueing⟩ torrent)
          torrent := by
  have both : AllSettled s.torrents ∧ ∃ n, AddsUp s.torrentStatusReport n := by
    have initially : ∀ s : Session Hash, lives.start s →
        AllSettled s.torrents ∧ ∃ n, AddsUp s.torrentStatusReport n := by
      rintro _ rfl
      refine ⟨?_, 0, empty_addsUp⟩
      intro hash torrent there
      cases there
    refine reachable_invariant initially ?_ reach
    rintro s event _ ⟨all, so⟩ rfl
    refine ⟨next_settled all event, ?_⟩
    cases event with
    | state_update_alert queueing status => exact ⟨_, update_addsUp all queueing status⟩
    | createTorrentHandle | deleteTorrent | act => exact so
  exact ⟨both.2, fun queueing status =>
    ⟨update_addsUp both.1 queueing status, update_counts s queueing status,
      statuses_lookup queueing status s.torrents⟩⟩

def downloadingStatus : torrent_status :=
  ⟨.downloading, false, true, false, true, 0, 5, 2, 1, 1 / 2⟩

def pausedStatus : torrent_status := ⟨.seeding, true, false, false, true, 0, 0, 2, 2, 1⟩

def twoAdded : Session Nat :=
  next (next ⟨∅, emptyReport⟩ (.createTorrentHandle 7 ⟨false, false, false, false⟩
    ⟨downloadingStatus, true⟩)) (.createTorrentHandle 8 ⟨false, false, false, true⟩
    ⟨downloadingStatus, true⟩)

def updatedBoth : Session Nat :=
  handleStateUpdateAlert twoAdded true [(8, pausedStatus), (9, pausedStatus)]

theorem two_torrents_reported : Reachable lives twoAdded ∧
    updatedBoth.torrentStatusReport = ⟨1, 0, 1, 1, 1, 1, 1, 0⟩ ∧
    AddsUp updatedBoth.torrentStatusReport updatedBoth.torrents.entries.length := by
  have reach : Reachable lives twoAdded := .step (.step (.start rfl) rfl) rfl
  exact ⟨reach, by decide, ((report_adds_up reach).2 true _).1⟩

end StatusReport
