import QtPlayer.Session.Reconfiguration
import QtPlayer.Session.SessionPhases

/- The timer of the share limits, which session.cpp starts and stops, and the limits of a
   torrent, which torrenthandle.cpp sets. -/
namespace SeedingLimits
open TorrentData TorrentSession SessionSettings Reconfiguration SessionPhases SessionLives
  TransitionRuns

def USE_GLOBAL_RATIO : Rat := -2
def NO_RATIO_LIMIT : Rat := -1
def MAX_RATIO : Rat := 9999

def USE_GLOBAL_SEEDING_TIME : Int := -2
def NO_SEEDING_TIME_LIMIT : Int := -1
def MAX_SEEDING_TIME : Int := 525600

def maxRatio (w : ConfiguredSession) (torrent : TorrentHandle) : Rat :=
  if torrent.ratioLimit = USE_GLOBAL_RATIO then w.fields.globalMaxRatio else torrent.ratioLimit

def maxSeedingTime (w : ConfiguredSession) (torrent : TorrentHandle) : Int :=
  if torrent.seedingTimeLimit = USE_GLOBAL_SEEDING_TIME then w.fields.globalMaxSeedingMinutes
  else torrent.seedingTimeLimit

def handleTorrentShareLimitChanged (w : ConfiguredSession) : ConfiguredSession :=
  updateSeedingLimitTimer w

def setShareLimit {α : Type} [DecidableEq α] (w : ConfiguredSession) (hash : Sha1Hash)
    (current : TorrentHandle → α) (limit : α) (keep : TorrentHandle → TorrentHandle) :
    ConfiguredSession :=
  match w.session.torrents.lookup hash with
  | none => w
  | some torrent =>
    if current torrent ≠ limit then
      handleTorrentShareLimitChanged { w with session := { w.session with
        torrents := w.session.torrents.insert hash (keep torrent) } }
    else w

def setRatioLimit (w : ConfiguredSession) (hash : Sha1Hash) (limit : Rat) : ConfiguredSession :=
  let limit :=
    if limit < USE_GLOBAL_RATIO then NO_RATIO_LIMIT
    else if MAX_RATIO < limit then MAX_RATIO
    else limit
  setShareLimit w hash TorrentHandle.ratioLimit limit
    fun torrent => { torrent with ratioLimit := limit }

def setSeedingTimeLimit (w : ConfiguredSession) (hash : Sha1Hash) (limit : Int) :
    ConfiguredSession :=
  let limit :=
    if limit < USE_GLOBAL_SEEDING_TIME then NO_SEEDING_TIME_LIMIT
    else if MAX_SEEDING_TIME < limit then MAX_SEEDING_TIME
    else limit
  setShareLimit w hash TorrentHandle.seedingTimeLimit limit
    fun torrent => { torrent with seedingTimeLimit := limit }

inductive Change where
  | act (a : Act)
  | setRatioLimit (hash : Sha1Hash) (limit : Rat)
  | setSeedingTimeLimit (hash : Sha1Hash) (limit : Int)

def changed (host : Host) (w : ConfiguredSession) : Change → ConfiguredSession
  | .act a => actAfter host w a
  | .setRatioLimit hash limit => setRatioLimit w hash limit
  | .setSeedingTimeLimit hash limit => setSeedingTimeLimit w hash limit

def ChangePossible (w : ConfiguredSession) : Change → Prop
  | .act a => ActPossible w a
  | _ => True

def sharing (host : Host) : System ConfiguredSession Change where
  start := (configuring host).start
  step w change t := ChangePossible w change ∧ t = changed host w change

/- Limits in force. -/

def Limited (torrent : TorrentHandle) : Prop :=
  0 ≤ torrent.ratioLimit ∨ 0 ≤ torrent.seedingTimeLimit

def AnyLimited (torrents : Map TorrentHandle) : Prop :=
  ∃ hash torrent, torrents.lookup hash = some torrent ∧ Limited torrent

def GlobalLimit (f : Fields) : Prop := 0 ≤ f.globalMaxRatio ∨ 0 ≤ f.globalMaxSeedingMinutes

def LimitInForce (w : ConfiguredSession) : Prop :=
  GlobalLimit w.fields ∨ AnyLimited w.session.torrents

def Ticking (w : ConfiguredSession) : Prop := w.session.seedingLimitTimerActive = true

/-- The torrent deleted is the last one with a limit, and there is no global one. -/
def TakesLastLimit (w : ConfiguredSession) (change : Change) : Prop :=
  ∃ hash, change = .act (.event (.deleteTorrent hash)) ∧ LimitInForce w ∧
    ¬ GlobalLimit w.fields ∧ ¬ AnyLimited (w.session.torrents.erase hash)

theorem limitInForce_of_torrent {w : ConfiguredSession} {hash : Sha1Hash}
    {torrent : TorrentHandle} (listed : w.session.torrents.lookup hash = some torrent)
    (limit : 0 ≤ maxRatio w torrent ∨ 0 ≤ maxSeedingTime w torrent) : LimitInForce w := by
  rcases limit with ratio | time
  · unfold maxRatio at ratio
    split at ratio
    · exact Or.inl (Or.inl ratio)
    · exact Or.inr ⟨hash, torrent, listed, Or.inl ratio⟩
  · unfold maxSeedingTime at time
    split at time
    · exact Or.inl (Or.inr time)
    · exact Or.inr ⟨hash, torrent, listed, Or.inr time⟩

theorem anyLimited_insert {torrents : Map TorrentHandle} {hash : Sha1Hash}
    (torrent : TorrentHandle) (fresh : hash ∉ torrents) :
    AnyLimited (torrents.insert hash torrent) ↔ AnyLimited torrents ∨ Limited torrent := by
  constructor
  · rintro ⟨other, found, listed, limited⟩
    by_cases same : other = hash
    · subst same
      rw [AList.lookup_insert, Option.some.injEq] at listed
      exact Or.inr (listed ▸ limited)
    · rw [AList.lookup_insert_ne same] at listed
      exact Or.inl ⟨other, found, listed, limited⟩
  · rintro (⟨other, found, listed, limited⟩ | limited)
    · have apart : other ≠ hash := by
        rintro rfl
        exact fresh (AList.lookup_isSome.mp (by rw [listed]; rfl))
      exact ⟨other, found, (AList.lookup_insert_ne apart).trans listed, limited⟩
    · exact ⟨hash, torrent, AList.lookup_insert _, limited⟩

theorem anyLimited_replace {torrents : Map TorrentHandle} {hash : Sha1Hash}
    {old new : TorrentHandle} (listed : torrents.lookup hash = some old)
    (same : Limited new ↔ Limited old) :
    AnyLimited (torrents.insert hash new) ↔ AnyLimited torrents := by
  constructor
  · rintro ⟨other, found, there, limited⟩
    by_cases here : other = hash
    · subst here
      rw [AList.lookup_insert, Option.some.injEq] at there
      subst there
      exact ⟨other, old, listed, same.mp limited⟩
    · rw [AList.lookup_insert_ne here] at there
      exact ⟨other, found, there, limited⟩
  · rintro ⟨other, found, there, limited⟩
    by_cases here : other = hash
    · subst here
      rw [listed, Option.some.injEq] at there
      subst there
      exact ⟨other, new, AList.lookup_insert _, same.mpr limited⟩
    · exact ⟨other, found, (AList.lookup_insert_ne here).trans there, limited⟩

theorem anyLimited_erase {torrents : Map TorrentHandle} {hash : Sha1Hash}
    (left : AnyLimited (torrents.erase hash)) : AnyLimited torrents := by
  obtain ⟨other, found, listed, limited⟩ := left
  have apart : other ≠ hash := by
    rintro rfl
    rw [AList.lookup_erase] at listed
    cases listed
  rw [AList.lookup_erase_ne apart] at listed
  exact ⟨other, found, listed, limited⟩

/- What the timer goes by. -/

def GlobalsSound (f : Fields) : Prop :=
  (f.globalMaxRatio = -1 ∨ 0 ≤ f.globalMaxRatio) ∧
    (f.globalMaxSeedingMinutes = -1 ∨ 0 ≤ f.globalMaxSeedingMinutes)

theorem globalLimit_iff {f : Fields} (sound : GlobalsSound f) :
    GlobalLimit f ↔ ¬ (f.globalMaxRatio = -1 ∧ f.globalMaxSeedingMinutes = -1) := by
  have ratio : 0 ≤ f.globalMaxRatio ↔ f.globalMaxRatio ≠ -1 := by
    rcases sound.1 with none | some
    · rw [none]
      decide
    · exact iff_of_true some fun none => absurd (none ▸ some) (by decide)
  have minutes : 0 ≤ f.globalMaxSeedingMinutes ↔ f.globalMaxSeedingMinutes ≠ -1 := by
    rcases sound.2 with none | some <;> omega
  rw [GlobalLimit, ratio, minutes, not_and_or]

theorem none_limited_iff (torrents : Map TorrentHandle) :
    (torrents.entries.all fun torrent =>
      decide (torrent.2.ratioLimit < 0) && decide (torrent.2.seedingTimeLimit < 0)) = true ↔
      ¬ AnyLimited torrents := by
  simp only [List.all_eq_true, Bool.and_eq_true, decide_eq_true_eq]
  constructor
  · rintro none ⟨hash, torrent, listed, limited⟩
    obtain ⟨ratio, time⟩ := none ⟨hash, torrent⟩ (AList.mem_lookup_iff.mp listed)
    exact limited.elim (Rat.not_le.mpr ratio) (Int.not_le.mpr time)
  · intro none entry mem
    have listed := AList.mem_lookup_iff.mpr mem
    constructor
    · exact Rat.not_le.mp fun ratio => none ⟨entry.1, entry.2, listed, Or.inl ratio⟩
    · exact Int.not_le.mp fun time => none ⟨entry.1, entry.2, listed, Or.inr time⟩

theorem update_ticking {w : ConfiguredSession} (sound : GlobalsSound w.fields) :
    Ticking (updateSeedingLimitTimer w) ↔ LimitInForce w := by
  have none := none_limited_iff w.session.torrents
  rw [Ticking, updateSeedingLimitTimer, LimitInForce, globalLimit_iff sound]
  simp only [Bool.not_eq_true', ← Bool.not_eq_true, Bool.and_eq_true, decide_eq_true_eq, none]
  tauto

/-- The timer is set anew, or it is started with the limits that come into force. -/
def Follows (w t : ConfiguredSession) : Prop :=
  (Ticking t ↔ LimitInForce t) ∨ ∃ new : Prop,
    (LimitInForce t ↔ LimitInForce w ∨ new) ∧ (Ticking t ↔ Ticking w ∨ new)

theorem Follows.exact {w t : ConfiguredSession} (follows : Follows w t)
    (exact : Ticking w ↔ LimitInForce w) : Ticking t ↔ LimitInForce t := by
  rcases follows with anew | ⟨new, limits, ticking⟩
  · exact anew
  · rw [limits, ticking, exact]

theorem Follows.ticking {w t : ConfiguredSession} (follows : Follows w t)
    (before : LimitInForce w → Ticking w) (limit : LimitInForce t) : Ticking t := by
  rcases follows with anew | ⟨new, limits, ticking⟩
  · exact anew.mpr limit
  · exact ticking.mpr ((limits.mp limit).imp_left before)

structure Inv (w : ConfiguredSession) : Prop where
  globals : GlobalsSound w.fields
  phased : ∀ hash, InPhase (marksOf w.session hash)
  ticking : LimitInForce w → Ticking w

/- The setters of the session. -/

def watched (w : ConfiguredSession) : (Rat × Int) × Map TorrentHandle ×
    Map CreateTorrentParams × Map TorrentInfo × Bool :=
  ((w.fields.globalMaxRatio, w.fields.globalMaxSeedingMinutes), w.session.torrents,
    w.session.addingTorrents, w.session.loadedMetadata, w.session.seedingLimitTimerActive)

section Setters

variable {w t : ConfiguredSession} {α : Type} [DecidableEq α] {current value : α}

theorem setDirectly_watched (same : watched t = watched w) :
    watched (setDirectly w current value t) = watched w := by
  unfold setDirectly
  split
  · exact same
  · rfl

theorem setDeferred_watched (same : watched t = watched w) :
    watched (setDeferred w current value t) = watched w := by
  unfold setDeferred
  split
  · exact same
  · rfl

theorem setListening_watched (same : watched t = watched w) :
    watched (setListening w current value t) = watched w := by
  unfold setListening
  split
  · exact same
  · rfl

theorem setSpeedLimit_watched {limit old : Int} {applies : Bool}
    {change : Int → Fields → Fields} (same : ∀ n, watched (setFields w (change n)) = watched w) :
    watched (setSpeedLimit w limit old applies change) = watched w := by
  unfold setSpeedLimit
  dsimp only
  split
  · rfl
  · split <;> exact same _

theorem setBTProtocol_watched (w : ConfiguredSession) (protocol : Int) :
    watched (setBTProtocol w protocol) = watched w := by
  unfold setBTProtocol
  dsimp only
  split
  · exact setDeferred_watched rfl
  · split
    · exact setDeferred_watched rfl
    · split
      · exact setDeferred_watched rfl
      · rfl

theorem setAltGlobalSpeedLimitEnabled_watched (w : ConfiguredSession) (enabled : Bool) :
    watched (setAltGlobalSpeedLimitEnabled w enabled) = watched w := by
  unfold setAltGlobalSpeedLimitEnabled
  split <;> rfl

end Setters

theorem updated_follows {w : ConfiguredSession} (inv : Inv w) {change : Fields → Fields}
    (sound : GlobalsSound (change w.fields)) :
    Inv (updateSeedingLimitTimer (setFields w change)) ∧
      Follows w (updateSeedingLimitTimer (setFields w change)) := by
  have ticks := update_ticking (w := setFields w change) sound
  exact ⟨⟨sound, inv.phased, ticks.mpr⟩, Or.inl ticks⟩

theorem kept_follows {w t : ConfiguredSession} (inv : Inv w) (same : watched t = watched w) :
    Inv t ∧ Follows w t := by
  simp only [watched, Prod.mk.injEq] at same
  obtain ⟨⟨ratio, minutes⟩, torrents, adding, loaded, timer⟩ := same
  have limits : LimitInForce t ↔ LimitInForce w := by
    rw [LimitInForce, LimitInForce, GlobalLimit, GlobalLimit, ratio, minutes, torrents]
  have ticking : Ticking t ↔ Ticking w := by rw [Ticking, Ticking, timer]
  refine ⟨⟨?_, ?_, ?_⟩, Or.inr ⟨False, ?_, ?_⟩⟩
  · rw [GlobalsSound, ratio, minutes]
    exact inv.globals
  · intro hash
    rw [marksOf, torrents, adding, loaded]
    exact inv.phased hash
  · intro limit
    exact ticking.mpr (inv.ticking (limits.mp limit))
  · rw [limits, or_false]
  · rw [ticking, or_false]

theorem setDirectly_follows {w t : ConfiguredSession} {α : Type} [DecidableEq α]
    {current value : α} (inv : Inv w) (updated : Inv t ∧ Follows w t) :
    Inv (setDirectly w current value t) ∧ Follows w (setDirectly w current value t) := by
  unfold setDirectly
  split
  · exact updated
  · exact kept_follows inv rfl

theorem setter_follows {w : ConfiguredSession} (inv : Inv w) (setter : Setter) :
    Inv (applySetter w setter) ∧ Follows w (applySetter w setter) := by
  cases setter with
  | setGlobalMaxRatio ratio =>
    apply setDirectly_follows inv
    apply updated_follows inv
    refine ⟨?_, inv.globals.2⟩
    dsimp only
    split
    · exact Or.inl rfl
    · rename_i nonneg
      exact Or.inr (Rat.not_lt.mp nonneg)
  | setGlobalMaxSeedingMinutes minutes =>
    apply setDirectly_follows inv
    apply updated_follows inv
    refine ⟨inv.globals.1, ?_⟩
    dsimp only
    split
    · exact Or.inl rfl
    · rename_i nonneg
      exact Or.inr (Int.not_lt.mp nonneg)
  | setBTProtocol protocol => exact kept_follows inv (setBTProtocol_watched w protocol)
  | setAltGlobalSpeedLimitEnabled enabled =>
    exact kept_follows inv (setAltGlobalSpeedLimitEnabled_watched w enabled)
  | setDownloadSpeedLimit limit =>
    apply kept_follows inv
    simp only [applySetter, setDownloadSpeedLimit]
    split <;> exact setSpeedLimit_watched fun _ => rfl
  | setUploadSpeedLimit limit =>
    apply kept_follows inv
    simp only [applySetter, setUploadSpeedLimit]
    split <;> exact setSpeedLimit_watched fun _ => rfl
  | setBandwidthSchedulerEnabled => exact kept_follows inv rfl
  | _ =>
    apply kept_follows inv
    first
    | exact setDeferred_watched rfl
    | exact setListening_watched rfl
    | exact setDirectly_watched rfl
    | exact setSpeedLimit_watched fun _ => rfl
    | rfl

/- The limits of a torrent. -/

theorem setShareLimit_follows {w : ConfiguredSession} {α : Type} [DecidableEq α] (inv : Inv w)
    (hash : Sha1Hash) (current : TorrentHandle → α) (limit : α)
    {keep : TorrentHandle → TorrentHandle}
    (same : ∀ torrent, (keep torrent).address = torrent.address) :
    Inv (setShareLimit w hash current limit keep) ∧
      Follows w (setShareLimit w hash current limit keep) := by
  unfold setShareLimit
  split
  · exact kept_follows inv rfl
  · rename_i torrent listed
    split
    · have ticks := update_ticking (w := { w with session := { w.session with
        torrents := w.session.torrents.insert hash (keep torrent) } }) inv.globals
      refine ⟨⟨inv.globals, ?_, ticks.mpr⟩, Or.inl ticks⟩
      intro other
      change InPhase (marksIn (w.session.torrents.insert hash (keep torrent))
        w.session.addingTorrents w.session.loadedMetadata other)
      rw [marksIn_insertTorrent]
      have phased := inv.phased other
      split
      · rename_i here
        subst here
        simpa only [marksOf, marksIn, listed, Option.map_some, same] using phased
      · exact phased
    · exact kept_follows inv rfl

/- The events of the session. -/

def Grows (s t : Session) : Prop := ∃ new : Prop,
  (AnyLimited t.torrents ↔ AnyLimited s.torrents ∨ new) ∧
    (t.seedingLimitTimerActive = true ↔ s.seedingLimitTimerActive = true ∨ new)

section Events

variable {s t u : Session}

theorem grows_of_same (torrents : AnyLimited t.torrents ↔ AnyLimited s.torrents)
    (timer : t.seedingLimitTimerActive = s.seedingLimitTimerActive) : Grows s t :=
  ⟨False, by rw [torrents, or_false], by rw [timer, or_false]⟩

theorem grows_same_torrents (torrents : t.torrents = s.torrents)
    (timer : t.seedingLimitTimerActive = s.seedingLimitTimerActive) : Grows s t :=
  grows_of_same (by rw [torrents]) timer

theorem grows_createTorrentHandle (s : Session) (nativeHandle : Option Sha1Hash)
    (apart : ∀ hash ∈ s.addingTorrents, hash ∉ s.torrents) :
    Grows s (createTorrentHandle s nativeHandle).1 := by
  unfold createTorrentHandle
  split
  · exact grows_same_torrents rfl rfl
  · rename_i hash
    split
    · exact grows_same_torrents rfl rfl
    · rename_i params adding
      dsimp only
      split
      · exact grows_same_torrents rfl rfl
      · rename_i torrent built
        have fresh := apart hash (AList.lookup_isSome.mp (by rw [adding]; rfl))
        obtain ⟨native, found, rfl⟩ := Option.map_eq_some_iff.mp built
        have present : hash ∈ s.nativeSession.torrents :=
          AList.lookup_isSome.mp (by rw [found]; rfl)
        split
        · -- the native torrent was there when the handle was made
          rename_i expired
          exfalso
          split at expired
          · obtain ⟨merged, merges, _⟩ := mergeSources_of_present hash present
              s.additionalTrackerList []
            rw [merges] at expired
            cases expired
          · cases expired
        · refine ⟨_, anyLimited_insert _ fresh, ?_⟩
          simp [Limited]

theorem adjustLimits_keeps (s : Session) : (adjustLimits s).torrents = s.torrents ∧
    (adjustLimits s).seedingLimitTimerActive = s.seedingLimitTimerActive := by
  obtain ⟨native, adjusted⟩ := adjustLimits_native s
  rw [adjusted]
  exact ⟨rfl, rfl⟩

theorem apart_of_phased (phased : ∀ hash, InPhase (marksOf s hash)) (hash : Sha1Hash)
    (known : hash ∈ s.addingTorrents ∨ hash ∈ s.loadedMetadata) : hash ∉ s.torrents := by
  obtain ⟨p, same⟩ := phased hash
  rw [mem_addingTorrents, mem_loadedMetadata, same] at known
  rw [mem_torrents, same]
  cases p <;> simp [marks] at known ⊢

theorem grows_addPreloaded (phased : ∀ hash, InPhase (marksOf s hash))
    (params : CreateTorrentParams) {hash : Sha1Hash} (loading : hash ∈ s.loadedMetadata)
    (found : Bool) : Grows s (addPreloaded s params hash found).1 := by
  obtain ⟨native, adjusted⟩ := adjustLimits_native { s with
    loadedMetadata := s.loadedMetadata.erase hash
    extraLimit := s.extraLimit - 1 }
  unfold addPreloaded
  rw [adjusted]
  apply grows_createTorrentHandle { s with
    loadedMetadata := s.loadedMetadata.erase hash
    extraLimit := s.extraLimit - 1
    nativeSession := native
    addingTorrents := s.addingTorrents.insert hash params }
  intro other adding
  rcases (AList.mem_insert _).mp adding with rfl | before
  · exact apart_of_phased phased other (Or.inr loading)
  · exact apart_of_phased phased other (Or.inl before)

theorem grows_addNew (s : Session) (params : CreateTorrentParams) (p : AddRequest)
    (isPrivate : Bool) (piecesCount : Int) :
    Grows s (addNew s params p isPrivate piecesCount).1 := by
  unfold addNew
  split
  · exact grows_same_torrents rfl rfl
  · split
    · split
      · exact grows_same_torrents rfl rfl
      · split <;> exact grows_same_torrents rfl rfl
    · split <;> exact grows_same_torrents rfl rfl

theorem grows_addTorrentImpl (phased : ∀ hash, InPhase (marksOf s hash))
    (params : CreateTorrentParams) (magnetUri : MagnetUri) (torrentInfo : TorrentInfo)
    (found : Bool) : Grows s (addTorrentImpl s params magnetUri torrentInfo found).1 := by
  unfold addTorrentImpl
  split
  · split
    · rename_i loading
      exact grows_addPreloaded phased params loading found
    · exact grows_addNew _ _ _ _ _
  · split
    · exact grows_addNew _ _ _ _ _
    · exact grows_same_torrents rfl rfl

theorem grows_loadMetadata (s : Session) (magnetUri : MagnetUri) (ec : Bool) :
    Grows s (loadMetadata s magnetUri ec).1 := by
  unfold loadMetadata
  split
  · exact grows_same_torrents rfl rfl
  · obtain ⟨torrents, timer⟩ := adjustLimits_keeps { s with
      nativeSession := addTorrent s.nativeSession
        ⟨magnetUri.hash, TorrentInfo.empty, [], magnetUri.trackers, magnetUri.urlSeeds⟩
      loadedMetadata := s.loadedMetadata.insert magnetUri.hash TorrentInfo.empty
      extraLimit := s.extraLimit + 1 }
    exact grows_same_torrents torrents timer

theorem grows_cancelLoadMetadata (s : Session) (hash : Sha1Hash) (found : Bool) :
    Grows s (cancelLoadMetadata s hash found).1 := by
  unfold cancelLoadMetadata
  split
  · cases found <;> exact grows_same_torrents rfl rfl
  · exact grows_same_torrents rfl rfl

theorem grows_handleTorrentRemovedAlert (s : Session) (hash : Sha1Hash) :
    Grows s (handleTorrentRemovedAlert s hash) := by
  unfold handleTorrentRemovedAlert
  dsimp only
  split
  · split <;> split <;> exact grows_same_torrents rfl rfl
  · split <;> exact grows_same_torrents rfl rfl

theorem handleMetadataReceivedAlert_keeps (s : Session) (hash : Sha1Hash) :
    (handleMetadataReceivedAlert s hash).torrents = s.torrents ∧
      (handleMetadataReceivedAlert s hash).seedingLimitTimerActive =
        s.seedingLimitTimerActive := by
  unfold handleMetadataReceivedAlert
  split
  · split
    · exact adjustLimits_keeps { s with extraLimit := s.extraLimit - 1 }
    · exact ⟨rfl, rfl⟩
  · exact ⟨rfl, rfl⟩

theorem grows_dispatchMetadataReceived (s : Session) (hash : Sha1Hash) :
    Grows s (dispatchMetadataReceived s hash) := by
  unfold dispatchMetadataReceived
  split
  · rename_i listed _
    apply grows_of_same
    · exact anyLimited_replace listed Iff.rfl
    · rfl
  · exact grows_same_torrents rfl rfl

theorem grows_handleAlert (phased : ∀ hash, InPhase (marksOf s hash)) (alert : Alert) :
    Grows s (handleAlert s alert) := by
  cases alert with
  | addTorrent hash error =>
    cases error with
    | none =>
      exact grows_createTorrentHandle s _ fun hash adding =>
        apart_of_phased phased hash (Or.inl adding)
    | some message => exact grows_same_torrents rfl rfl
  | torrentRemoved hash => exact grows_handleTorrentRemovedAlert s hash
  | torrentDeleted hash | torrentDeleteFailed hash =>
    simp only [handleAlert, handleFilesDeleted]
    split <;> exact grows_same_torrents rfl rfl
  | metadataReceived hash =>
    obtain ⟨torrents, timer⟩ := handleMetadataReceivedAlert_keeps s hash
    have later := grows_dispatchMetadataReceived (handleMetadataReceivedAlert s hash) hash
    rwa [Grows, torrents, timer] at later

theorem grows_sessionAfter (phased : ∀ hash, InPhase (marksOf s hash)) (e : Event)
    (kept : ∀ hash, e ≠ .deleteTorrent hash) : Grows s (sessionAfter s e) := by
  cases e with
  | addTorrentImpl params magnetUri torrentInfo found =>
    exact grows_addTorrentImpl phased params magnetUri torrentInfo found
  | loadMetadata magnetUri ec => exact grows_loadMetadata s magnetUri ec
  | cancelLoadMetadata hash found => exact grows_cancelLoadMetadata s hash found
  | deleteTorrent hash => exact absurd rfl (kept hash)
  | handleAlert alert => exact grows_handleAlert (s := takeAlert s alert) phased alert
  | _ => exact grows_same_torrents rfl rfl

theorem phased_after (phased : ∀ hash, InPhase (marksOf s hash)) (e : Event) (hash : Sha1Hash) :
    InPhase (marksOf (sessionAfter s e) hash) := by
  have taken : happenings.step s (.call e) (sessionAfter s e) := rfl
  have moved := standings.moved s (.call e) _ taken
  exact IndexedComponents.parts_preserved standings (fun phase => inPhase_step phase moved)
    phased taken hash

theorem follows_of_grows {w : ConfiguredSession} {s : Session} (grows : Grows w.session s) :
    Follows w { w with session := s } := by
  obtain ⟨new, torrents, timer⟩ := grows
  refine Or.inr ⟨new, ?_, timer⟩
  rw [LimitInForce, LimitInForce, torrents, or_assoc]

end Events

/- Runs. -/

variable {host : Host} {w t : ConfiguredSession}

theorem event_follows (inv : Inv w) (e : Event) (kept : ∀ hash, e ≠ .deleteTorrent hash) :
    Inv { w with session := sessionAfter w.session e } ∧
      Follows w { w with session := sessionAfter w.session e } := by
  have follows := follows_of_grows (grows_sessionAfter inv.phased e kept)
  exact ⟨⟨inv.globals, phased_after inv.phased e, follows.ticking inv.ticking⟩, follows⟩

theorem anyLimited_delete (s : Session) (hash : Sha1Hash) :
    AnyLimited (deleteTorrent s hash).1.torrents ↔ AnyLimited (s.torrents.erase hash) := by
  unfold deleteTorrent
  split
  · rfl
  · rename_i absent
    refine ⟨?_, anyLimited_erase⟩
    rintro ⟨other, torrent, listed, limited⟩
    have apart : other ≠ hash := by
      rintro rfl
      exact absent (AList.lookup_isSome.mp (by rw [listed]; rfl))
    exact ⟨other, torrent, (AList.lookup_erase_ne apart).trans listed, limited⟩

theorem delete_timer (s : Session) (hash : Sha1Hash) :
    (deleteTorrent s hash).1.seedingLimitTimerActive = s.seedingLimitTimerActive := by
  unfold deleteTorrent
  split <;> rfl

/-- A deletion leaves the timer alone. -/
theorem delete_inv (inv : Inv w) (hash : Sha1Hash) :
    Inv { w with session := (deleteTorrent w.session hash).1 } := by
  refine ⟨inv.globals, phased_after inv.phased (.deleteTorrent hash), ?_⟩
  intro limit
  rw [Ticking, delete_timer]
  apply inv.ticking
  rcases limit with everywhere | torrents
  · exact Or.inl everywhere
  · exact Or.inr (anyLimited_erase ((anyLimited_delete _ _).mp torrents))

theorem act_follows (inv : Inv w) (a : Act) (kept : ∀ hash, a ≠ .event (.deleteTorrent hash)) :
    Inv (actAfter host w a) ∧ Follows w (actAfter host w a) := by
  cases a with
  | set setter => exact setter_follows inv setter
  | event e =>
    apply event_follows inv e
    rintro hash rfl
    exact kept hash rfl
  | addTorrent2 torrentInfo thrown =>
    apply kept_follows inv
    simp only [actAfter, addTorrent2]
    split
    · rfl
    · split <;> rfl
  | configure => exact kept_follows inv rfl

theorem step_follows {change : Change} (inv : Inv w)
    (taken : (sharing host).step w change t)
    (kept : ∀ hash, change ≠ .act (.event (.deleteTorrent hash))) : Inv t ∧ Follows w t := by
  obtain ⟨_, rfl⟩ := taken
  cases change with
  | act a =>
    apply act_follows inv a
    rintro hash rfl
    exact kept hash rfl
  | setRatioLimit hash limit => exact setShareLimit_follows inv hash _ _ fun _ => rfl
  | setSeedingTimeLimit hash limit => exact setShareLimit_follows inv hash _ _ fun _ => rfl

theorem step_inv (w : ConfiguredSession) (change : Change) (t : ConfiguredSession) (inv : Inv w)
    (taken : (sharing host).step w change t) : Inv t := by
  by_cases deletes : ∃ hash, change = .act (.event (.deleteTorrent hash))
  · obtain ⟨hash, rfl⟩ := deletes
    obtain ⟨_, rfl⟩ := taken
    exact delete_inv inv hash
  · exact (step_follows inv taken (not_exists.mp deletes)).1

theorem step_exact (w : ConfiguredSession) (change : Change) (t : ConfiguredSession)
    (inv : Inv w) (exact : Ticking w ↔ LimitInForce w) (taken : (sharing host).step w change t) :
    (Ticking t ↔ LimitInForce t) ↔ ¬ TakesLastLimit w change := by
  by_cases deletes : ∃ hash, change = .act (.event (.deleteTorrent hash))
  · obtain ⟨hash, rfl⟩ := deletes
    obtain ⟨_, rfl⟩ := taken
    have limits : LimitInForce (changed host w (.act (.event (.deleteTorrent hash)))) ↔
        GlobalLimit w.fields ∨ AnyLimited (w.session.torrents.erase hash) :=
      or_congr_right (anyLimited_delete w.session hash)
    have ticking : Ticking (changed host w (.act (.event (.deleteTorrent hash)))) ↔
        LimitInForce w := by
      rw [← exact]
      exact iff_of_eq (congrArg (· = true) (delete_timer w.session hash))
    have fewer : AnyLimited (w.session.torrents.erase hash) → LimitInForce w :=
      fun left => Or.inr (anyLimited_erase left)
    have before : GlobalLimit w.fields → LimitInForce w := Or.inl
    simp only [TakesLastLimit, limits, ticking, Change.act.injEq, Act.event.injEq,
      Event.deleteTorrent.injEq, exists_eq_left']
    constructor
    · rintro same ⟨limit, noGlobal, noTorrent⟩
      exact (same.mp limit).elim noGlobal noTorrent
    · intro kept
      refine ⟨?_, fun left => left.elim before fewer⟩
      intro limit
      by_contra none
      exact kept ⟨limit, not_or.mp none⟩
  · refine iff_of_true ((step_follows inv taken (not_exists.mp deletes)).2.exact exact) ?_
    rintro ⟨hash, here, _⟩
    exact deletes ⟨hash, here⟩

theorem start_inv (initial : (sharing host).start w) :
    Inv w ∧ (Ticking w ↔ LimitInForce w) := by
  obtain ⟨defaults, rfl⟩ := initial
  have none : ¬ LimitInForce (construct host defaults) := by
    rintro ((ratio | minutes) | ⟨hash, torrent, listed, _⟩)
    · exact absurd (show (0 : Rat) ≤ -1 from ratio) (by decide)
    · exact absurd (show (0 : Int) ≤ -1 from minutes) (by decide)
    · cases listed
  refine ⟨⟨⟨Or.inl rfl, Or.inl rfl⟩, fun _ => ⟨.idle, rfl⟩, fun limit => absurd limit none⟩, ?_⟩
  exact iff_of_false Bool.false_ne_true none

/-- The timer runs while there is a limit for any torrent, and only then, exactly if no deletion
    takes the last limit. -/
theorem timer_runs_iff {steps : List (ConfiguredSession × Change)}
    (initial : (sharing host).start w) (run : Run (sharing host) w steps t) :
    Throughout (fun w => (LimitInForce w → Ticking w) ∧
      ∀ hash torrent, w.session.torrents.lookup hash = some torrent →
        0 ≤ maxRatio w torrent ∨ 0 ≤ maxSeedingTime w torrent → Ticking w) steps t ∧
    (Throughout (fun w => Ticking w ↔ LimitInForce w) steps t ↔
      EveryStep (fun w change => ¬ TakesLastLimit w change) steps) := by
  obtain ⟨first, exact⟩ := start_inv initial
  obtain ⟨earlier, last⟩ := run_invariant step_inv run first
  have safe (w : ConfiguredSession) (inv : Inv w) : (LimitInForce w → Ticking w) ∧
      ∀ hash torrent, w.session.torrents.lookup hash = some torrent →
        0 ≤ maxRatio w torrent ∨ 0 ≤ maxSeedingTime w torrent → Ticking w := by
    refine ⟨inv.ticking, ?_⟩
    intro hash torrent listed limit
    exact inv.ticking (limitInForce_of_torrent listed limit)
  constructor
  · exact ⟨fun p mem => safe p.1 (earlier p mem), safe t last⟩
  · exact exact_guard step_inv step_exact run first exact

/- A torrent is given a limit and deleted. -/

def loadFilm : Change := .act (.event (.loadMetadata someMagnet false))

def addFilm : Change := .act (.event (.addTorrentImpl {} someMagnet TorrentInfo.empty true))

def deleteFilm : Change := .act (.event (.deleteTorrent someHash))

def filmLoaded : ConfiguredSession := changed offlineHost freshSession loadFilm

def filmAdded : ConfiguredSession := changed offlineHost filmLoaded addFilm

def filmLimited : ConfiguredSession := setRatioLimit filmAdded someHash 2

theorem film_limited : Run (sharing offlineHost) freshSession
    [(freshSession, loadFilm), (filmLoaded, addFilm), (filmAdded, .setRatioLimit someHash 2)]
    filmLimited := by
  have loaded : Run (sharing offlineHost) freshSession [(freshSession, loadFilm)] filmLoaded :=
    .snoc (.nil freshSession) ⟨trivial, rfl⟩
  have added : Run (sharing offlineHost) freshSession
      [(freshSession, loadFilm), (filmLoaded, addFilm)] filmAdded :=
    .snoc loaded
      ⟨show FindsTorrent filmLoaded.session.nativeSession someHash true by decide, rfl⟩
  exact .snoc added ⟨trivial, rfl⟩

theorem film_limit : LimitInForce filmLimited ∧ ¬ GlobalLimit filmLimited.fields ∧
    ¬ AnyLimited (filmLimited.session.torrents.erase someHash) := by
  have none : ¬ GlobalLimit filmLimited.fields :=
    not_or.mpr ⟨show ¬ (0 : Rat) ≤ -1 by decide, show ¬ (0 : Int) ≤ -1 by decide⟩
  refine ⟨Or.inr ⟨someHash, _, rfl, Or.inl ?_⟩, none, (none_limited_iff _).mp rfl⟩
  exact show (0 : Rat) ≤ 2 by decide

/-- Its timer goes on without it. -/
theorem deleted_film_timer : ∃ steps, Run (sharing offlineHost) freshSession steps filmLimited ∧
    Throughout (fun w => Ticking w ↔ LimitInForce w) steps filmLimited ∧
    ¬ Throughout (fun w => Ticking w ↔ LimitInForce w) (steps ++ [(filmLimited, deleteFilm)])
      (changed offlineHost filmLimited deleteFilm) := by
  have start : (sharing offlineHost).start freshSession := freshSession_start
  refine ⟨_, film_limited, ?_, ?_⟩
  · apply (timer_runs_iff start film_limited).2.mpr
    rintro p mem ⟨hash, deletes, _⟩
    simp only [List.mem_cons, List.not_mem_nil, or_false] at mem
    rcases mem with rfl | rfl | rfl <;> cases deletes
  · intro exact
    have run := Run.snoc film_limited
      (show (sharing offlineHost).step filmLimited deleteFilm _ from ⟨trivial, rfl⟩)
    have kept := (timer_runs_iff start run).2.mp exact
    exact (everyStep_snoc.mp kept).2 ⟨someHash, rfl, film_limit⟩

end SeedingLimits
