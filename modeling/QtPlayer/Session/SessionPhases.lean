import QtPlayer.Session.SessionLives

/- The three maps of a session give every info hash one phase. Nothing is assumed of libtorrent
   here: alerts may come for any hash at any time, and its side of the session may become any
   other between two calls. -/
namespace SessionPhases
open TorrentData TorrentSession SessionLives TransitionRuns IndexedComponents

/- One hash. -/

inductive Phase where
  | idle
  | loading
  | adding
  | listed (address : Nat)

/-- What the maps have of a hash: the TorrentHandle, and whether it is being added or loaded. -/
structure Marks where
  torrent : Option Nat
  adding : Bool
  loading : Bool

def marks : Phase → Marks
  | .idle => ⟨none, false, false⟩
  | .loading => ⟨none, false, true⟩
  | .adding => ⟨none, true, false⟩
  | .listed address => ⟨some address, false, false⟩

inductive Turn where
  | add
  | load
  | stopLoading
  | list
  | delete
  | stay

/-- Where a turn may lead. A hash is lost on the way to the list when the constructor of its
    TorrentHandle throws. -/
def Leads : Turn → Phase → Phase → Prop
  | .add, .idle, q => q = .idle ∨ q = .adding
  | .add, .loading, _ => True
  | .load, .idle, q => q = .idle ∨ q = .loading
  | .stopLoading, .loading, q => q = .idle
  | .list, .adding, q => q ≠ .loading
  | .delete, .listed _, q => q = .idle
  | _, p, q => q = p

def phases : System Marks Turn where
  start v := v = marks .idle
  step v m v' := ∀ p, v = marks p → ∃ q, Leads m p q ∧ v' = marks q

def InPhase (v : Marks) : Prop := ∃ p, v = marks p

theorem inPhase_step {v v' : Marks} {m : Turn} (phase : InPhase v)
    (step : phases.step v m v') : InPhase v' := by
  obtain ⟨p, rfl⟩ := phase
  obtain ⟨q, _, rfl⟩ := step p rfl
  exact ⟨q, rfl⟩

theorem marks_exclusive (p : Phase) :
    ((marks p).torrent.isSome = true → (marks p).adding = false ∧ (marks p).loading = false) ∧
      ((marks p).adding = true → (marks p).loading = false) := by
  cases p <;> simp [marks]

theorem listed_step {v' : Marks} {m : Turn} {address : Nat}
    (step : phases.step (marks (.listed address)) m v') (kept : m ≠ .delete) :
    v' = marks (.listed address) := by
  obtain ⟨q, leads, rfl⟩ := step _ rfl
  cases m with
  | delete => exact absurd rfl kept
  | _ => rw [show q = _ from leads]

theorem adding_step {v' : Marks} {m : Turn} (step : phases.step (marks .adding) m v')
    (kept : m ≠ .list) : v' = marks .adding := by
  obtain ⟨q, leads, rfl⟩ := step _ rfl
  cases m with
  | list => exact absurd rfl kept
  | _ => rw [show q = _ from leads]

/- The session. -/

def marksIn (torrents : Map TorrentHandle) (addingTorrents : Map CreateTorrentParams)
    (loadedMetadata : Map TorrentInfo) (hash : Sha1Hash) : Marks where
  torrent := (torrents.lookup hash).map TorrentHandle.address
  adding := decide (hash ∈ addingTorrents)
  loading := decide (hash ∈ loadedMetadata)

def marksOf (s : Session) : Sha1Hash → Marks :=
  marksIn s.torrents s.addingTorrents s.loadedMetadata

/-- A call or an alert, or whatever libtorrent makes of its side of the session. -/
inductive Happening where
  | call (e : Event)
  | libtorrent (native : NativeSession)

def after (s : Session) : Happening → Session
  | .call e => sessionAfter s e
  | .libtorrent native => { s with nativeSession := native }

def happenings : System Session Happening where
  start := Fresh
  step s h t := t = after s h

def nextSession (s : Session) (h : Happening) : Option Session := some (after s h)

theorem nextSession_step (s : Session) (h : Happening) (t : Session)
    (taken : nextSession s h = some t) : happenings.step s h t := (Option.some.inj taken).symm

/-- The target takes the turn, and every other hash stays. -/
structure Takes (s t : Session) (target : Sha1Hash) (m : Turn) : Prop where
  turn : phases.step (marksOf s target) m (marksOf t target)
  kept : ∀ hash, hash ≠ target → marksOf t hash = marksOf s hash

def Marked (s t : Session) (target : Sha1Hash) (f : Marks → Marks) : Prop :=
  ∀ hash, marksOf t hash = if hash = target then f (marksOf s hash) else marksOf s hash

section Maps

variable (torrents : Map TorrentHandle) (addingTorrents : Map CreateTorrentParams)
  (loadedMetadata : Map TorrentInfo) (target hash : Sha1Hash)

theorem marksIn_insertTorrent (torrent : TorrentHandle) :
    marksIn (torrents.insert target torrent) addingTorrents loadedMetadata hash =
      if hash = target
      then { marksIn torrents addingTorrents loadedMetadata hash with
        torrent := some torrent.address }
      else marksIn torrents addingTorrents loadedMetadata hash := by
  by_cases here : hash = target
  · subst here
    simp [marksIn]
  · simp [marksIn, here, AList.lookup_insert_ne here]

theorem marksIn_eraseTorrent :
    marksIn (torrents.erase target) addingTorrents loadedMetadata hash =
      if hash = target
      then { marksIn torrents addingTorrents loadedMetadata hash with torrent := none }
      else marksIn torrents addingTorrents loadedMetadata hash := by
  by_cases here : hash = target
  · subst here
    simp [marksIn]
  · simp [marksIn, here, AList.lookup_erase_ne here]

theorem marksIn_insertAdding (params : CreateTorrentParams) :
    marksIn torrents (addingTorrents.insert target params) loadedMetadata hash =
      if hash = target
      then { marksIn torrents addingTorrents loadedMetadata hash with adding := true }
      else marksIn torrents addingTorrents loadedMetadata hash := by
  by_cases here : hash = target <;> simp [marksIn, here]

theorem marksIn_eraseAdding :
    marksIn torrents (addingTorrents.erase target) loadedMetadata hash =
      if hash = target
      then { marksIn torrents addingTorrents loadedMetadata hash with adding := false }
      else marksIn torrents addingTorrents loadedMetadata hash := by
  by_cases here : hash = target <;> simp [marksIn, here]

theorem marksIn_insertLoaded (info : TorrentInfo) :
    marksIn torrents addingTorrents (loadedMetadata.insert target info) hash =
      if hash = target
      then { marksIn torrents addingTorrents loadedMetadata hash with loading := true }
      else marksIn torrents addingTorrents loadedMetadata hash := by
  by_cases here : hash = target <;> simp [marksIn, here]

theorem marksIn_eraseLoaded :
    marksIn torrents addingTorrents (loadedMetadata.erase target) hash =
      if hash = target
      then { marksIn torrents addingTorrents loadedMetadata hash with loading := false }
      else marksIn torrents addingTorrents loadedMetadata hash := by
  by_cases here : hash = target <;> simp [marksIn, here]

end Maps

section Calls

variable {s t : Session} {hash target : Sha1Hash}

theorem mem_torrents : hash ∈ s.torrents ↔ (marksOf s hash).torrent.isSome = true := by
  rw [marksOf, marksIn, Option.isSome_map, AList.lookup_isSome]

theorem mem_addingTorrents : hash ∈ s.addingTorrents ↔ (marksOf s hash).adding = true :=
  decide_eq_true_iff.symm

theorem mem_loadedMetadata : hash ∈ s.loadedMetadata ↔ (marksOf s hash).loading = true :=
  decide_eq_true_iff.symm

theorem takes_of_marked {m : Turn} {f : Marks → Marks} (marked : Marked s t target f)
    (leads : ∀ p, marksOf s target = marks p → ∃ q, Leads m p q ∧ f (marks p) = marks q) :
    Takes s t target m := by
  constructor
  · intro p before
    obtain ⟨q, led, same⟩ := leads p before
    refine ⟨q, led, ?_⟩
    rw [marked, if_pos rfl, before, same]
  · intro hash elsewhere
    rw [marked, if_neg elsewhere]

/-- Nothing is done where the target is in a phase that the turn need not leave. -/
theorem takes_of_same {m : Turn} (same : ∀ hash, marksOf t hash = marksOf s hash)
    (stays : ∀ p, marksOf s target = marks p → Leads m p p) : Takes s t target m := by
  apply takes_of_marked (f := id)
  · intro hash
    rw [same hash, id, ite_self]
  · intro p before
    exact ⟨p, stays p before, rfl⟩

variable (s target)

theorem deleteTorrent_takes : Takes s (deleteTorrent s target).1 target .delete := by
  unfold deleteTorrent
  split
  · rename_i listed
    rw [mem_torrents] at listed
    apply takes_of_marked (f := fun v => { v with torrent := none })
    · intro hash
      exact marksIn_eraseTorrent _ _ _ target hash
    · intro p before
      rw [before] at listed
      cases p with
      | listed address => exact ⟨.idle, rfl, rfl⟩
      | _ => cases listed
  · rename_i absent
    rw [mem_torrents] at absent
    apply takes_of_same fun _ => rfl
    intro p before
    rw [before] at absent
    cases p with
    | listed address => exact absurd rfl absent
    | _ => rfl

theorem stopLoading_takes (erased : ∀ hash, marksOf t hash =
    marksIn s.torrents s.addingTorrents (s.loadedMetadata.erase target) hash) :
    Takes s t target .stopLoading := by
  apply takes_of_marked (f := fun v => { v with loading := false })
  · intro hash
    rw [erased]
    exact marksIn_eraseLoaded _ _ _ target hash
  · intro p _
    cases p <;> exact ⟨_, rfl, rfl⟩

theorem stayLoading_takes (absent : target ∉ s.loadedMetadata) :
    Takes s s target .stopLoading := by
  rw [mem_loadedMetadata] at absent
  apply takes_of_same fun _ => rfl
  intro p before
  rw [before] at absent
  cases p with
  | loading => exact absurd rfl absent
  | _ => rfl

theorem cancelLoadMetadata_takes (found : Bool) :
    Takes s (cancelLoadMetadata s target found).1 target .stopLoading := by
  unfold cancelLoadMetadata
  split
  · apply stopLoading_takes
    intro hash
    cases found <;> rfl
  · rename_i absent
    exact stayLoading_takes s target absent

theorem constructHandle_built {native : NativeSession} {address : Nat}
    {params : CreateTorrentParams} {torrent : TorrentHandle}
    (built : constructHandle native address target params = some torrent) :
    torrent.hash = target ∧ torrent.address = address := by
  obtain ⟨_, _, rfl⟩ := Option.map_eq_some_iff.mp built
  exact ⟨rfl, rfl⟩

theorem createTorrentHandle_marked :
    (createTorrentHandle s (some target)).1 = s ∧ target ∉ s.addingTorrents ∨
      target ∈ s.addingTorrents ∧ (Marked s (createTorrentHandle s (some target)).1 target
          (fun v => { v with adding := false }) ∨
        Marked s (createTorrentHandle s (some target)).1 target
          (fun v => { v with adding := false, torrent := some s.allocated })) := by
  have erased := marksIn_eraseAdding s.torrents s.addingTorrents s.loadedMetadata target
  unfold createTorrentHandle
  dsimp only
  split
  · rename_i absent
    exact Or.inl ⟨rfl, AList.lookup_eq_none.mp absent⟩
  · rename_i params found
    refine Or.inr ⟨AList.lookup_isSome.mp (by rw [found]; rfl), ?_⟩
    split
    · exact Or.inl erased
    · rename_i torrent built
      obtain ⟨sameHash, sameAddress⟩ := constructHandle_built target built
      right
      intro hash
      have listed : marksIn (s.torrents.insert target torrent) (s.addingTorrents.erase target)
          s.loadedMetadata hash =
          if hash = target then { marksOf s hash with adding := false, torrent := some s.allocated }
          else marksOf s hash := by
        rw [marksIn_insertTorrent, erased, sameAddress]
        split <;> rfl
      rw [sameHash]
      split <;> exact listed

theorem createTorrentHandle_takes :
    Takes s (createTorrentHandle s (some target)).1 target .list := by
  rcases createTorrentHandle_marked s target with ⟨same, absent⟩ | ⟨adding, marked⟩
  · rw [same]
    apply takes_of_same fun _ => rfl
    intro p before
    rw [mem_addingTorrents, before] at absent
    cases p with
    | adding => exact absurd rfl absent
    | _ => rfl
  · rcases marked with lost | listed
    · apply takes_of_marked lost
      intro p before
      rw [mem_addingTorrents, before] at adding
      cases p with
      | adding => exact ⟨.idle, Phase.noConfusion, rfl⟩
      | _ => cases adding
    · apply takes_of_marked listed
      intro p before
      rw [mem_addingTorrents, before] at adding
      cases p with
      | adding => exact ⟨.listed s.allocated, Phase.noConfusion, rfl⟩
      | _ => cases adding

theorem adjustLimits_native : ∃ native, adjustLimits s = { s with nativeSession := native } := by
  unfold adjustLimits
  split <;> exact ⟨_, rfl⟩

theorem addPreloaded_takes (params : CreateTorrentParams) (found : Bool)
    (loading : target ∈ s.loadedMetadata) :
    Takes s (addPreloaded s params target found).1 target .add := by
  obtain ⟨native, adjusted⟩ := adjustLimits_native { s with
    loadedMetadata := s.loadedMetadata.erase target
    extraLimit := s.extraLimit - 1 }
  unfold addPreloaded
  rw [adjusted]
  -- the session that createTorrentHandle finds
  let u : Session := { s with
    loadedMetadata := s.loadedMetadata.erase target
    extraLimit := s.extraLimit - 1
    nativeSession := native
    addingTorrents := s.addingTorrents.insert target params }
  have started : Marked s u target fun v => { v with adding := true, loading := false } := by
    intro hash
    refine (marksIn_insertAdding _ _ _ target hash params).trans ?_
    rw [marksIn_eraseLoaded]
    split <;> rfl
  have created := createTorrentHandle_takes u target
  constructor
  · intro p before
    rw [mem_loadedMetadata, before] at loading
    cases p with
    | loading =>
      have adding : marksOf u target = marks .adding := by
        rw [started, if_pos rfl, before]
        rfl
      cases found with
      | false => exact ⟨.adding, trivial, adding⟩
      | true =>
        obtain ⟨q, _, result⟩ := created.turn .adding adding
        exact ⟨q, trivial, result⟩
    | _ => cases loading
  · intro hash elsewhere
    have before : marksOf u hash = marksOf s hash := by rw [started, if_neg elsewhere]
    cases found with
    | false => exact before
    | true => exact (created.kept hash elsewhere).trans before

theorem addNew_takes (params : CreateTorrentParams) (p : AddRequest) (isPrivate : Bool)
    (piecesCount : Int) :
    Takes s (addNew s params p isPrivate piecesCount).1 p.infoHash .add := by
  have stays (t : Session) (same : ∀ hash, marksOf t hash = marksOf s hash) :
      Takes s t p.infoHash .add := by
    apply takes_of_same same
    intro q _
    cases q with
    | idle => exact Or.inl rfl
    | loading => trivial
    | _ => rfl
  unfold addNew
  split
  · exact stays s fun _ => rfl
  · rename_i unknown
    split
    · split
      · exact stays s fun _ => rfl
      · split
        · exact stays _ fun _ => rfl
        · exact stays s fun _ => rfl
    · rename_i absent
      split
      · exact stays s fun _ => rfl
      · apply takes_of_marked (f := fun v => { v with adding := true })
        · intro hash
          exact marksIn_insertAdding _ _ _ p.infoHash hash params
        · intro q before
          obtain ⟨notAdding, notLoading⟩ := not_or.mp unknown
          have notListed := AList.lookup_eq_none.mp absent
          rw [mem_torrents, before] at notListed
          rw [mem_addingTorrents, before] at notAdding
          rw [mem_loadedMetadata, before] at notLoading
          cases q with
          | idle => exact ⟨.adding, Or.inr rfl, rfl⟩
          | loading => exact absurd rfl notLoading
          | adding => exact absurd rfl notAdding
          | listed address => exact absurd rfl notListed

theorem addTorrentImpl_takes (params : CreateTorrentParams) (magnetUri : MagnetUri)
    (torrentInfo : TorrentInfo) (found : Bool) :
    Takes s (addTorrentImpl s params magnetUri torrentInfo found).1
      (if magnetUri.isValid then magnetUri.hash else torrentInfo.hash) .add := by
  unfold addTorrentImpl
  split
  · split
    · rename_i loading
      exact addPreloaded_takes s magnetUri.hash params found loading
    · exact addNew_takes s params _ _ _
  · split
    · rw [← (prepareInfo_keeps params torrentInfo).1]
      exact addNew_takes s _ _ _ _
    · apply takes_of_same fun _ => rfl
      intro p _
      cases p with
      | idle => exact Or.inl rfl
      | loading => trivial
      | _ => rfl

theorem loadMetadata_takes (magnetUri : MagnetUri) (ec : Bool) :
    Takes s (loadMetadata s magnetUri ec).1 magnetUri.hash .load := by
  unfold loadMetadata
  split
  · apply takes_of_same fun _ => rfl
    intro p _
    cases p with
    | idle => exact Or.inl rfl
    | _ => rfl
  · rename_i known
    simp only [Bool.or_eq_true, not_or, isKnownTorrent, decide_eq_true_eq] at known
    obtain ⟨⟨_, ⟨notListed, notAdding⟩, notLoading⟩, _⟩ := known
    rw [mem_torrents] at notListed
    rw [mem_addingTorrents] at notAdding
    rw [mem_loadedMetadata] at notLoading
    apply takes_of_marked (f := fun v => { v with loading := true })
    · intro hash
      obtain ⟨native, adjusted⟩ := adjustLimits_native { s with
        nativeSession := addTorrent s.nativeSession
          ⟨magnetUri.hash, TorrentInfo.empty, [], magnetUri.trackers, magnetUri.urlSeeds⟩
        loadedMetadata := s.loadedMetadata.insert magnetUri.hash TorrentInfo.empty
        extraLimit := s.extraLimit + 1 }
      dsimp only
      rw [adjusted]
      exact marksIn_insertLoaded _ _ _ magnetUri.hash hash TorrentInfo.empty
    · intro p before
      rw [before] at notListed notAdding notLoading
      cases p with
      | idle => exact ⟨.loading, Or.inr rfl, rfl⟩
      | loading => exact absurd rfl notLoading
      | adding => exact absurd rfl notAdding
      | listed address => exact absurd rfl notListed

theorem stay_takes {s t : Session} {target : Sha1Hash}
    (same : ∀ hash, marksOf t hash = marksOf s hash) : Takes s t target .stay :=
  takes_of_same same fun p _ => by cases p <;> rfl

theorem handleAddTorrentAlert_takes :
    Takes s (handleAddTorrentAlert s target none) target .list := by
  unfold handleAddTorrentAlert handleOf
  dsimp only
  split
  · exact createTorrentHandle_takes s target
  · apply takes_of_same fun _ => rfl
    intro p _
    cases p with
    | adding => exact Phase.noConfusion
    | _ => rfl

theorem handleTorrentRemovedAlert_takes :
    Takes s (handleTorrentRemovedAlert s target) target .stopLoading := by
  apply stopLoading_takes
  intro hash
  unfold handleTorrentRemovedAlert
  cases loading : s.loadedMetadata.lookup target with
  | some info =>
    dsimp only
    split
    · split <;> rfl
    · rfl
  | none =>
    rw [show s.loadedMetadata.erase target = s.loadedMetadata from
      AList.ext (List.kerase_of_notMem_keys (AList.lookup_eq_none.mp loading))]
    dsimp only
    split
    · split <;> rfl
    · rfl

theorem handleMetadataReceivedAlert_same (hash : Sha1Hash) :
    marksOf (handleMetadataReceivedAlert s target) hash = marksOf s hash := by
  unfold handleMetadataReceivedAlert
  split
  · split
    · rename_i torrent _ loading
      obtain ⟨native, adjusted⟩ := adjustLimits_native { s with extraLimit := s.extraLimit - 1 }
      dsimp only
      rw [adjusted]
      refine (marksIn_insertLoaded _ _ _ target hash torrent.info).trans ?_
      split
      · rename_i here
        subst here
        rw [mem_loadedMetadata] at loading
        exact congrArg (Marks.mk _ _) loading.symm
      · rfl
    · rfl
  · rfl

theorem dispatchMetadataReceived_same (hash : Sha1Hash) :
    marksOf (dispatchMetadataReceived s target) hash = marksOf s hash := by
  unfold dispatchMetadataReceived
  split
  · rename_i torrent native listed _
    refine (marksIn_insertTorrent _ _ _ target hash _).trans ?_
    split
    · rename_i here
      subst here
      simp only [marksOf, marksIn, listed, Option.map_some]
    · rfl
  · rfl

theorem handleFilesDeleted_same (hash : Sha1Hash) :
    marksOf (handleFilesDeleted s target) hash = marksOf s hash := by
  unfold handleFilesDeleted
  split <;> rfl

end Calls

/- What happens to a session. -/

def hashOf : Happening → Sha1Hash
  | .call e => target e
  | .libtorrent _ => 0

def turn : Happening → Turn
  | .call (.addTorrentImpl ..) => .add
  | .call (.loadMetadata ..) => .load
  | .call (.cancelLoadMetadata ..) | .call (.handleAlert (.torrentRemoved _)) => .stopLoading
  | .call (.deleteTorrent _) => .delete
  | .call (.handleAlert (.addTorrent _ none)) => .list
  | _ => .stay

theorem handleAlert_takes (s : Session) (alert : Alert) :
    Takes s (handleAlert s alert) (alertTarget alert) (turn (.call (.handleAlert alert))) := by
  cases alert with
  | addTorrent hash error =>
    cases error with
    | none => exact handleAddTorrentAlert_takes s hash
    | some message => exact stay_takes fun _ => rfl
  | torrentRemoved hash => exact handleTorrentRemovedAlert_takes s hash
  | torrentDeleted hash => exact stay_takes (handleFilesDeleted_same s hash)
  | torrentDeleteFailed hash => exact stay_takes (handleFilesDeleted_same s hash)
  | metadataReceived hash =>
    apply stay_takes
    intro other
    exact (dispatchMetadataReceived_same _ hash other).trans
      (handleMetadataReceivedAlert_same s hash other)

theorem after_takes (s : Session) (h : Happening) : Takes s (after s h) (hashOf h) (turn h) := by
  cases h with
  | libtorrent native => exact stay_takes fun _ => rfl
  | call e =>
    cases e with
    | addTorrentImpl params magnetUri torrentInfo found =>
      exact addTorrentImpl_takes s params magnetUri torrentInfo found
    | loadMetadata magnetUri ec => exact loadMetadata_takes s magnetUri ec
    | cancelLoadMetadata hash found => exact cancelLoadMetadata_takes s hash found
    | deleteTorrent hash => exact deleteTorrent_takes s hash
    | handleAlert alert =>
      have taken := handleAlert_takes (takeAlert s alert) alert
      exact ⟨taken.turn, taken.kept⟩
    | _ => exact stay_takes fun _ => rfl

def standings : Components happenings phases Sha1Hash where
  part := marksOf
  target := hashOf
  move := turn
  start := by
    intro s hash fresh
    simp [phases, marks, marksOf, marksIn, fresh.torrents, fresh.addingTorrents,
      fresh.loadedMetadata]
  moved := by
    rintro s h _ rfl
    exact (after_takes s h).turn
  kept := by
    rintro s h _ hash rfl elsewhere
    exact (after_takes s h).kept hash elsewhere

theorem inPhase_of_reachable {s : Session} (reach : Reachable happenings s) (hash : Sha1Hash) :
    InPhase (marksOf s hash) := by
  have initially : ∀ s, happenings.start s → ∀ hash, InPhase (marksOf s hash) :=
    fun s fresh hash => ⟨.idle, standings.start s hash fresh⟩
  have preserved : ∀ s h t, (∀ hash, InPhase (marksOf s hash)) → happenings.step s h t →
      ∀ hash, InPhase (marksOf t hash) := by
    intro s h t phased taken
    have moved := standings.moved s h t taken
    exact parts_preserved standings (fun phase => inPhase_step phase moved) phased taken
  exact reachable_invariant initially preserved reach hash

theorem deletes_of_turn {h : Happening} (deletes : turn h = .delete) :
    h = .call (.deleteTorrent (hashOf h)) := by
  cases h with
  | libtorrent native => cases deletes
  | call e =>
    cases e with
    | deleteTorrent hash => rfl
    | handleAlert alert =>
      cases alert with
      | addTorrent hash error => cases error <;> cases deletes
      | _ => cases deletes
    | _ => cases deletes

theorem lists_of_turn {h : Happening} (lists : turn h = .list) :
    h = .call (.handleAlert (.addTorrent (hashOf h) none)) := by
  cases h with
  | libtorrent native => cases lists
  | call e =>
    cases e with
    | handleAlert alert =>
      cases alert with
      | addTorrent hash error =>
        cases error with
        | none => rfl
        | some message => cases lists
      | _ => cases lists
    | _ => cases lists

theorem phase_after {s : Session} {h : Happening} {hash : Sha1Hash} {p : Phase} {m : Turn}
    (leaves : ∀ n v, phases.step (marks p) n v → n ≠ m → v = marks p)
    (before : marksOf s hash = marks p) (other : turn h = m → hash ≠ hashOf h) :
    marksOf (after s h) hash = marks p := by
  by_cases here : hash = hashOf h
  · subst here
    have moved := (after_takes s h).turn
    rw [before] at moved
    exact leaves _ _ moved fun turned => other turned rfl
  · exact ((after_takes s h).kept hash here).trans before

theorem listed_after {s : Session} {h : Happening} {hash : Sha1Hash} {address : Nat}
    (listed : marksOf s hash = marks (.listed address))
    (kept : h ≠ .call (.deleteTorrent hash)) :
    marksOf (after s h) hash = marks (.listed address) := by
  apply phase_after (fun _ _ => listed_step) listed
  rintro deletes rfl
  exact kept (deletes_of_turn deletes)

theorem adding_after {s : Session} {h : Happening} {hash : Sha1Hash}
    (adding : marksOf s hash = marks .adding)
    (silent : h ≠ .call (.handleAlert (.addTorrent hash none))) :
    marksOf (after s h) hash = marks .adding := by
  apply phase_after (fun _ _ => adding_step) adding
  rintro lists rfl
  exact silent (lists_of_turn lists)

theorem lookup_of_listed {s : Session} {hash : Sha1Hash} {address : Nat}
    (listed : marksOf s hash = marks (.listed address)) :
    ∃ torrent, s.torrents.lookup hash = some torrent ∧ torrent.address = address :=
  Option.map_eq_some_iff.mp (congrArg Marks.torrent listed)

theorem marks_of_reachable {s : Session} (reach : Reachable happenings s) (hash : Sha1Hash) :
    ((marksOf s hash).torrent.isSome = true →
      (marksOf s hash).adding = false ∧ (marksOf s hash).loading = false) ∧
    ((marksOf s hash).adding = true → (marksOf s hash).loading = false) := by
  obtain ⟨p, same⟩ := inPhase_of_reachable reach hash
  rw [same]
  exact marks_exclusive p

theorem listed_of_lookup {s : Session} (reach : Reachable happenings s) {hash : Sha1Hash}
    {torrent : TorrentHandle} (found : s.torrents.lookup hash = some torrent) :
    marksOf s hash = marks (.listed torrent.address) := by
  obtain ⟨p, same⟩ := inPhase_of_reachable reach hash
  have shown : (marks p).torrent = some torrent.address := by
    rw [← same]
    simp only [marksOf, marksIn, found, Option.map_some]
  rw [same]
  cases p with
  | listed address => rw [Option.some.inj shown]
  | _ => cases shown

theorem listed_run {s t : Session} {steps : List (Session × Happening)} {hash : Sha1Hash}
    {address : Nat} (run : Run happenings s steps t)
    (listed : marksOf s hash = marks (.listed address))
    (kept : EveryStep (fun _ h => h ≠ .call (.deleteTorrent hash)) steps) :
    marksOf t hash = marks (.listed address) := by
  have preserved : ∀ s h t, marksOf s hash = marks (.listed address) → happenings.step s h t →
      h ≠ .call (.deleteTorrent hash) → marksOf t hash = marks (.listed address) := by
    intro s h t before taken allowed
    cases taken
    exact listed_after before allowed
  exact (guarded_run_invariant preserved run listed kept).2

/-- Every phase of a hash excludes the other ones, and a listed torrent keeps its TorrentHandle
    as long as it is not deleted. -/
theorem one_phase_per_hash {s : Session} (reach : Reachable happenings s) :
    (s.torrents.keys.Disjoint s.addingTorrents.keys ∧
      s.torrents.keys.Disjoint s.loadedMetadata.keys ∧
      s.addingTorrents.keys.Disjoint s.loadedMetadata.keys) ∧
    ∀ (t : Session) (steps : List (Session × Happening)) (hash : Sha1Hash)
      (torrent : TorrentHandle), Run happenings s steps t → s.torrents.lookup hash = some torrent →
      EveryStep (fun _ h => h ≠ .call (.deleteTorrent hash)) steps →
      ∃ later, t.torrents.lookup hash = some later ∧ later.address = torrent.address := by
  have phase := marks_of_reachable reach
  constructor
  · refine ⟨?_, ?_, ?_⟩
    · intro hash listed adding
      have excluded := ((phase hash).1 (mem_torrents.mp listed)).1
      rw [mem_addingTorrents.mp adding] at excluded
      cases excluded
    · intro hash listed loading
      have excluded := ((phase hash).1 (mem_torrents.mp listed)).2
      rw [mem_loadedMetadata.mp loading] at excluded
      cases excluded
    · intro hash adding loading
      have excluded := (phase hash).2 (mem_addingTorrents.mp adding)
      rw [mem_loadedMetadata.mp loading] at excluded
      cases excluded
  · intro t steps hash torrent run found kept
    exact lookup_of_listed (listed_run run (listed_of_lookup reach found) kept)

def listing : List Happening :=
  [.call (.loadMetadata someMagnet false),
    .call (.addTorrentImpl {} someMagnet TorrentInfo.empty true)]

def relisting : List Happening :=
  [.call (.addTorrentImpl {} someMagnet TorrentInfo.empty true),
    .call (.handleAlert (.addTorrent someHash none)), .libtorrent newSession.nativeSession,
    .call (.handleAlert (.torrentRemoved someHash))]

theorem relisting_keeps_handle : ∃ s t torrent later,
    replay nextSession newSession listing = some s ∧ replay nextSession s relisting = some t ∧
      s.torrents.lookup someHash = some torrent ∧ t.torrents.lookup someHash = some later ∧
      later.address = torrent.address := by
  have listed : replay nextSession newSession listing = some (listing.foldl after newSession) := rfl
  obtain ⟨s, reached⟩ : ∃ s, replay nextSession newSession listing = some s := ⟨_, listed⟩
  obtain ⟨t, relisted⟩ : ∃ t, replay nextSession s relisting = some t := ⟨_, rfl⟩
  obtain ⟨torrent, found⟩ : ∃ torrent, s.torrents.lookup someHash = some torrent := by
    rw [← Option.some.inj (listed.symm.trans reached)]
    exact Option.isSome_iff_exists.mp (by decide)
  obtain ⟨steps, run, labels⟩ := replay_run nextSession_step relisted
  have kept : EveryStep (fun _ h => h ≠ .call (.deleteTorrent someHash)) steps := by
    intro p mem
    have label : p.2 ∈ relisting := labels ▸ List.mem_map_of_mem mem
    simp only [relisting, List.mem_cons, List.not_mem_nil, or_false] at label
    rcases label with same | same | same | same <;> simp [same]
  have reach := replay_reachable nextSession_step (.start newWorld_starts.1) reached
  obtain ⟨later, there, same⟩ :=
    (one_phase_per_hash reach).2 t steps someHash torrent run found kept
  exact ⟨s, t, torrent, later, reached, relisted, found, there, same⟩

end SessionPhases
