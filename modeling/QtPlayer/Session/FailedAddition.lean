import QtPlayer.Session.PiecePriorities
import QtPlayer.Session.SessionPhases

/- What an asynchronous addition leaves in the session once its add_torrent_alert is handled. -/
namespace FailedAddition
open TorrentData TorrentSession SessionLives SessionPhases PiecePriorities TransitionRuns

structure Call where
  params : CreateTorrentParams
  magnetUri : MagnetUri
  torrentInfo : TorrentInfo
  found : Bool

def Call.event (a : Call) : Event :=
  .addTorrentImpl a.params a.magnetUri a.torrentInfo a.found

theorem sessionAfter_call (s : Session) (a : Call) : sessionAfter s a.event =
    (addTorrentImpl s a.params a.magnetUri a.torrentInfo a.found).1 := rfl

def Call.answer (a : Call) (s : Session) : Option Bool :=
  (addTorrentImpl s a.params a.magnetUri a.torrentInfo a.found).2

structure Queues (s : Session) (a : Call) (hash : Sha1Hash) : Prop where
  here : target a.event = hash
  unknown : isKnownTorrent s hash = false
  queued : ∃ p, p.infoHash = hash ∧
    (sessionAfter s a.event).nativeSession.requests = s.nativeSession.requests ++ [p]

def handled (t : Session) (hash : Sha1Hash) (error : Option String) : Session :=
  after t (.call (.handleAlert (.addTorrent hash error)))

structure SameEntries (s u : Session) (hash : Sha1Hash) : Prop where
  torrents : u.torrents.lookup hash = s.torrents.lookup hash
  addingTorrents : u.addingTorrents.lookup hash = s.addingTorrents.lookup hash
  loadedMetadata : u.loadedMetadata.lookup hash = s.loadedMetadata.lookup hash

/-- The hash is not being added any more, and after an error it is as it was before the
    addition: unknown, and accepted wherever it was. -/
structure LeavesNoTrace (s u : Session) (hash : Sha1Hash) (error : Option String) : Prop where
  notAdding : hash ∉ u.addingTorrents
  undone : error.isSome = true → SameEntries s u hash
  unknown : error.isSome = true → isKnownTorrent u hash = false
  accepted : error.isSome = true → ∀ b : Call, target b.event = hash →
    b.answer s = some true → b.answer u = some true

/-- The alert reports a success, with a valid handle. When another alert has ended the addition
    before it, an error is as good as a success if the session does not know the hash. -/
def Settles (t : Session) (hash : Sha1Hash) (error : Option String) : Prop :=
  if hash ∈ t.addingTorrents then error = none ∧ hash ∈ t.nativeSession.torrents
  else error = none ∨ isKnownTorrent t hash = false

variable {s t u : Session} {hash : Sha1Hash} {error : Option String}

/-- A call either is refused by every session, or goes through addNew with an unknown hash. -/
theorem call_cases (a : Call) (here : target a.event = hash) :
    (∀ s, addTorrentImpl s a.params a.magnetUri a.torrentInfo a.found = (s, some false)) ∨
    ∃ params p isPrivate piecesCount, p.infoHash = hash ∧ ∀ s, isKnownTorrent s hash = false →
      addTorrentImpl s a.params a.magnetUri a.torrentInfo a.found =
        addNew s params p isPrivate piecesCount := by
  simp only [Call.event, target] at here
  by_cases fromMagnetUri : a.magnetUri.isValid = true
  · rw [if_pos fromMagnetUri] at here
    right
    refine ⟨a.params, ⟨a.magnetUri.hash, TorrentInfo.empty, [], a.magnetUri.trackers,
      a.magnetUri.urlSeeds⟩, false, a.torrentInfo.piecesCount, here, ?_⟩
    intro s unknown
    rw [← here] at unknown
    rw [addTorrentImpl, if_pos fromMagnetUri, if_neg (unknown_iff.mp unknown).2.2]
  · rw [if_neg fromMagnetUri] at here
    by_cases valid : a.torrentInfo.isValid = true
    · obtain ⟨sameHash, _⟩ := prepareInfo_keeps a.params a.torrentInfo
      right
      exact ⟨_, fileRequest a.params a.torrentInfo, _, _, sameHash.trans here,
        fun s _ => addTorrentImpl_file fromMagnetUri valid⟩
    · left
      intro s
      rw [addTorrentImpl, if_neg fromMagnetUri, if_neg valid]

theorem answer_of_unknown {a : Call} (here : target a.event = hash)
    (before : isKnownTorrent s hash = false) (now : isKnownTorrent u hash = false) :
    a.answer u = a.answer s := by
  unfold Call.answer
  rcases call_cases a here with refused | ⟨params, p, isPrivate, piecesCount, rfl, added⟩
  · rw [refused, refused]
  · rw [added s before, added u now]
    by_cases filled : ∃ priorities, fillPiecePriorities piecesCount = .ok priorities
    · obtain ⟨priorities, filled⟩ := filled
      rw [addNew_filled before filled, addNew_filled now filled]
    · rw [addNew_failed before filled, addNew_failed now filled]

theorem marksOf_unknown : isKnownTorrent s hash = false ↔ marksOf s hash = marks .idle := by
  rw [unknown_iff, mem_torrents, mem_addingTorrents, mem_loadedMetadata]
  generalize marksOf s hash = v
  cases v with
  | mk torrent adding loading => cases torrent <;> simp [marks]

theorem queued_adding {a : Call} (queues : Queues s a hash) :
    marksOf (after s (.call a.event)) hash = marks .adding := by
  obtain ⟨here, unknown, p, _, queued⟩ := queues
  have grown : (sessionAfter s a.event).nativeSession.requests ≠ s.nativeSession.requests := by
    rw [queued]
    simp
  have adding : hash ∈ (after s (.call a.event)).addingTorrents := by
    change hash ∈ (sessionAfter s a.event).addingTorrents
    rw [sessionAfter_call] at grown ⊢
    rcases call_cases a here with refused | ⟨params, p, isPrivate, piecesCount, rfl, added⟩
    · rw [refused] at grown
      exact absurd rfl grown
    · rw [added s unknown] at grown ⊢
      by_cases filled : ∃ priorities, fillPiecePriorities piecesCount = .ok priorities
      · exact ((addNew_inserted_iff unknown).mpr filled).1
      · rw [addNew_failed unknown filled] at grown
        exact absurd rfl grown
  have turned := (after_takes s (.call a.event)).turn
  rw [show hashOf (.call a.event) = hash from here, marksOf_unknown.mp unknown] at turned
  obtain ⟨q, leads, result⟩ := turned .idle rfl
  rcases leads with stayed | began
  · rw [mem_addingTorrents, result, stayed] at adding
    cases adding
  · rw [result, began]

/-- Until an alert says that it has been added, the hash goes on being added. -/
theorem adding_run {steps : List (Session × Happening)} (run : Run happenings s steps t)
    (adding : marksOf s hash = marks .adding)
    (silent : EveryStep (fun _ h => h ≠ .call (.handleAlert (.addTorrent hash none))) steps) :
    marksOf t hash = marks .adding := by
  have preserved : ∀ s h t, marksOf s hash = marks .adding → happenings.step s h t →
      h ≠ .call (.handleAlert (.addTorrent hash none)) → marksOf t hash = marks .adding := by
    rintro s h _ before rfl other
    exact adding_after before other
  exact (guarded_run_invariant preserved run adding silent).2

theorem sameEntries_of_unknown (before : isKnownTorrent s hash = false)
    (now : isKnownTorrent u hash = false) : SameEntries s u hash := by
  obtain ⟨_, _, _⟩ := unknown_iff.mp before
  obtain ⟨_, _, _⟩ := unknown_iff.mp now
  constructor <;> simp [AList.lookup_eq_none.mpr, *]

theorem marksOf_handled_error (t : Session) (hash : Sha1Hash) (message : String) :
    marksOf (handled t hash (some message)) = marksOf t := rfl

theorem handled_success_adding_iff :
    hash ∈ (handled t hash none).addingTorrents ↔
      hash ∈ t.addingTorrents ∧ hash ∉ t.nativeSession.torrents := by
  let taken := takeAlert t (.addTorrent hash none)
  change hash ∈ (createTorrentHandle taken
    (if hash ∈ t.nativeSession.torrents then some hash else none)).1.addingTorrents ↔ _
  by_cases valid : hash ∈ t.nativeSession.torrents
  · rw [if_pos valid]
    refine iff_of_false ?_ fun both => both.2 valid
    rcases createTorrentHandle_marked taken hash with ⟨same, absent⟩ | ⟨_, lost | listed⟩
    · rw [same]
      exact absent
    · rw [mem_addingTorrents, lost, if_pos rfl]
      exact Bool.false_ne_true
    · rw [mem_addingTorrents, listed, if_pos rfl]
      exact Bool.false_ne_true
  · rw [if_neg valid]
    exact ⟨fun adding => ⟨adding, valid⟩, fun both => both.1⟩

theorem success_settles_iff :
    LeavesNoTrace s (handled t hash none) hash none ↔ Settles t hash none := by
  have only : LeavesNoTrace s (handled t hash none) hash none ↔
      hash ∉ (handled t hash none).addingTorrents := by
    constructor
    · exact LeavesNoTrace.notAdding
    · intro notAdding
      exact ⟨notAdding, nofun, nofun, nofun⟩
  rw [only, handled_success_adding_iff, Settles]
  split
  · rename_i adding
    simp [adding]
  · rename_i absent
    simp [absent]

theorem error_settles_iff {message : String} (unknown : isKnownTorrent s hash = false) :
    LeavesNoTrace s (handled t hash (some message)) hash (some message) ↔
      Settles t hash (some message) := by
  constructor
  · intro clean
    have nowhere : isKnownTorrent t hash = false := clean.unknown rfl
    rw [Settles, if_neg (unknown_iff.mp nowhere).2.1]
    exact Or.inr nowhere
  · intro settled
    have nowhere : isKnownTorrent t hash = false := by
      unfold Settles at settled
      split at settled
      · cases settled.1
      · exact settled.resolve_left nofun
    have now : isKnownTorrent (handled t hash (some message)) hash = false := nowhere
    constructor
    · exact (unknown_iff.mp now).2.1
    · intro _
      exact sameEntries_of_unknown unknown now
    · intro _
      exact now
    · intro _ b here accepted
      rw [answer_of_unknown here unknown now]
      exact accepted

/-- An addition of an unknown hash leaves no trace exactly if its alert settles it. When no other
    alert has reported the hash as added before, this one has to, with a valid handle. -/
theorem leaves_no_trace_iff {a : Call} {steps : List (Session × Happening)}
    (queues : Queues s a hash) (run : Run happenings (after s (.call a.event)) steps t)
    (error : Option String) :
    (LeavesNoTrace s (handled t hash error) hash error ↔ Settles t hash error) ∧
    (EveryStep (fun _ h => h ≠ .call (.handleAlert (.addTorrent hash none))) steps →
      (LeavesNoTrace s (handled t hash error) hash error ↔
        error = none ∧ hash ∈ t.nativeSession.torrents)) := by
  have settles : LeavesNoTrace s (handled t hash error) hash error ↔ Settles t hash error := by
    cases error with
    | none => exact success_settles_iff
    | some message => exact error_settles_iff queues.unknown
  constructor
  · exact settles
  · intro silent
    have adding : hash ∈ t.addingTorrents := by
      rw [mem_addingTorrents, adding_run run (queued_adding queues) silent]
      rfl
    rw [settles, Settles, if_pos adding]

def filmCall : Call := ⟨{}, noMagnet, film 3809, false⟩

theorem filmCall_queues : Queues newSession filmCall 9 := by
  have unknown : isKnownTorrent newSession 9 = false := rfl
  obtain ⟨priorities, filled⟩ := (fillPiecePriorities_ok_iff
    (prepareInfo filmCall.params filmCall.torrentInfo).2.piecesCount).mpr (by decide)
  refine ⟨rfl, unknown, ?_⟩
  rw [sessionAfter_call, addTorrentImpl_file (by decide) (by decide), addNew_filled unknown filled]
  exact ⟨_, rfl, rfl⟩

theorem added_present (s : Session) (p : AddRequest) :
    p.infoHash ∈ (after s (.call (.asyncAddTorrent p none))).nativeSession.torrents := by
  change p.infoHash ∈ (addTorrent _ p).torrents
  unfold addTorrent
  split
  · rename_i there
    exact there.1
  · exact (AList.mem_insert _).mpr (Or.inl rfl)

/-- libtorrent adds the film, and its alert is handled. -/
theorem added_film_settles : ∃ t steps,
    Run happenings (after newSession (.call filmCall.event)) steps t ∧
      LeavesNoTrace newSession (handled t 9 none) 9 none := by
  obtain ⟨p, here, _⟩ := filmCall_queues.queued
  let begun := after newSession (.call filmCall.event)
  let success : Happening := .call (.asyncAddTorrent p none)
  have run : Run happenings begun [(begun, success)] (after begun success) := .snoc (.nil begun) rfl
  have silent : EveryStep (fun _ h => h ≠ .call (.handleAlert (.addTorrent 9 none)))
      [(begun, success)] := by
    simp [EveryStep, success]
  refine ⟨_, _, run, ((leaves_no_trace_iff filmCall_queues run none).2 silent).mpr ⟨rfl, ?_⟩⟩
  rw [← here]
  exact added_present begun p

/-- libtorrent refuses the film. -/
theorem refused_film_stays :
    ¬ ∀ (s t : Session) (a : Call) (hash : Sha1Hash) (steps : List (Session × Happening))
      (error : Option String), Reachable happenings s → Queues s a hash →
      Run happenings (after s (.call a.event)) steps t →
      EveryStep (fun _ h => h ≠ .call (.handleAlert (.addTorrent hash none))) steps →
      LeavesNoTrace s (handled t hash error) hash error := by
  intro always
  obtain ⟨p, _, _⟩ := filmCall_queues.queued
  let begun := after newSession (.call filmCall.event)
  let refusal : Happening := .call (.asyncAddTorrent p (some "no space"))
  have run : Run happenings begun [(begun, refusal)] (after begun refusal) := .snoc (.nil begun) rfl
  have silent : EveryStep (fun _ h => h ≠ .call (.handleAlert (.addTorrent 9 none)))
      [(begun, refusal)] := by
    simp [EveryStep, refusal]
  have clean := always newSession _ filmCall 9 _ (some "no space") (.start newWorld_starts.1)
    filmCall_queues run silent
  have adding := adding_run run (queued_adding filmCall_queues) silent
  apply clean.notAdding
  rw [mem_addingTorrents, marksOf_handled_error, adding]
  rfl

end FailedAddition
