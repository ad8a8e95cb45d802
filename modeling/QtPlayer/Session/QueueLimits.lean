import QtPlayer.Session.TorrentSession

/- The queue limits of the libtorrent session. m_extraLimit changes together with adjustLimits, so
   the limits are the configured ones, raised by it, at every moment between two events. -/
namespace QueueLimits
open TorrentData TorrentSession

def nativeLimits (native : NativeSession) : Int × Int :=
  (native.activeDownloads, native.activeLimit)

def queueState (s : Session) : Bool × Int × Int × Int × (Int × Int) :=
  (s.isQueueingEnabled, s.maxActiveDownloads, s.maxActiveTorrents, s.extraLimit,
    nativeLimits s.nativeSession)

/-- A configured limit that is not negative is raised by m_extraLimit. -/
def raised (s : Session) (configured : Int) : Int :=
  if -1 < configured then configured + s.extraLimit else configured

/-- The limits are those that configure() would write. -/
def LimitsHeld (s : Session) : Prop := nativeLimits s.nativeSession =
  if s.isQueueingEnabled then (raised s s.maxActiveDownloads, raised s s.maxActiveTorrents)
  else (-1, -1)

structure Kept (s t : Session) : Prop where
  enabled : t.isQueueingEnabled = s.isQueueingEnabled
  downloads : t.maxActiveDownloads = s.maxActiveDownloads
  torrents : t.maxActiveTorrents = s.maxActiveTorrents
  limits : LimitsHeld s → LimitsHeld t

variable {s t u : Session}

theorem kept_of_same (same : queueState t = queueState s) : Kept s t := by
  simp only [queueState, Prod.mk.injEq] at same
  obtain ⟨enabled, downloads, torrents, extraLimit, limits⟩ := same
  refine ⟨enabled, downloads, torrents, ?_⟩
  simp only [LimitsHeld, raised, enabled, downloads, torrents, extraLimit, limits, imp_self]

theorem Kept.trans (first : Kept s t) (second : Kept t u) : Kept s u :=
  ⟨second.enabled.trans first.enabled, second.downloads.trans first.downloads,
    second.torrents.trans first.torrents, fun held => second.limits (first.limits held)⟩

theorem kept_adjustLimits (enabled : t.isQueueingEnabled = s.isQueueingEnabled)
    (downloads : t.maxActiveDownloads = s.maxActiveDownloads)
    (torrents : t.maxActiveTorrents = s.maxActiveTorrents)
    (limits : nativeLimits t.nativeSession = nativeLimits s.nativeSession) :
    Kept s (adjustLimits t) := by
  unfold adjustLimits
  split
  · rename_i on
    refine ⟨enabled, downloads, torrents, fun _ => ?_⟩
    simp only [LimitsHeld, nativeLimits, raised, on, if_true]
  · rename_i off
    refine ⟨enabled, downloads, torrents, ?_⟩
    rw [enabled] at off
    simp only [LimitsHeld, enabled, off, limits, if_false, Bool.false_eq_true, imp_self]

/- The libtorrent session. -/

theorem nativeLimits_addTorrent (native : NativeSession) (p : AddRequest) :
    nativeLimits (addTorrent native p) = nativeLimits native := by
  unfold addTorrent
  split <;> rfl

theorem nativeLimits_removeTorrent (native : NativeSession) (hash : Sha1Hash) :
    nativeLimits (removeTorrent native hash) = nativeLimits native := by
  unfold removeTorrent
  split <;> rfl

theorem nativeLimits_mergeSources {native merged : NativeSession} {hash : Sha1Hash}
    {trackers urlSeeds : List String}
    (eq : mergeSources native hash trackers urlSeeds = some merged) :
    nativeLimits merged = nativeLimits native := by
  unfold mergeSources at eq
  split at eq
  · rw [← Option.some.inj eq]
    rfl
  · split at eq
    · rw [← Option.some.inj eq]
    · cases eq

theorem nativeLimits_nativeEvent (native : NativeSession) (e : Event) :
    nativeLimits (nativeEvent native e) = nativeLimits native := by
  cases e with
  | asyncAddTorrent p error =>
    cases error with
    | none => exact nativeLimits_addTorrent _ p
    | some message => rfl
  | receiveMetadata hash info =>
    simp only [nativeEvent]
    split <;> rfl
  | _ => rfl

/- The functions of the session. -/

theorem queueState_createTorrentHandle (s : Session) (nativeHandle : Option Sha1Hash) :
    queueState (createTorrentHandle s nativeHandle).1 = queueState s := by
  unfold createTorrentHandle
  split
  · rfl
  · split
    · rfl
    · dsimp only
      split
      · rfl
      · split
        · rfl
        · rename_i merged eq
          have limits : nativeLimits merged = nativeLimits s.nativeSession := by
            split at eq
            · exact nativeLimits_mergeSources eq
            · rw [← Option.some.inj eq]
          simp only [queueState, limits]

theorem kept_addPreloaded (s : Session) (params : CreateTorrentParams) (hash : Sha1Hash)
    (found : Bool) : Kept s (addPreloaded s params hash found).1 := by
  unfold addPreloaded
  dsimp only
  apply Kept.trans (t := adjustLimits { s with
    loadedMetadata := s.loadedMetadata.erase hash
    extraLimit := s.extraLimit - 1 })
  · exact kept_adjustLimits rfl rfl rfl rfl
  · exact kept_of_same (queueState_createTorrentHandle _ _)

theorem queueState_addNew (s : Session) (params : CreateTorrentParams) (p : AddRequest)
    (isPrivate : Bool) (piecesCount : Int) :
    queueState (addNew s params p isPrivate piecesCount).1 = queueState s := by
  unfold addNew
  split
  · rfl
  · split
    · split
      · rfl
      · split
        · rename_i merged eq
          simp only [queueState, nativeLimits_mergeSources eq]
        · rfl
    · split <;> rfl

theorem kept_addTorrentImpl (s : Session) (params : CreateTorrentParams) (magnetUri : MagnetUri)
    (torrentInfo : TorrentInfo) (found : Bool) :
    Kept s (addTorrentImpl s params magnetUri torrentInfo found).1 := by
  unfold addTorrentImpl
  split
  · split
    · exact kept_addPreloaded _ _ _ _
    · exact kept_of_same (queueState_addNew _ _ _ _ _)
  · split
    · exact kept_of_same (queueState_addNew _ _ _ _ _)
    · exact kept_of_same rfl

theorem queueState_addTorrent2 (s : Session) (torrentInfo : TorrentInfo) (thrown : Bool) :
    queueState (addTorrent2 s torrentInfo thrown).1 = queueState s := by
  unfold addTorrent2
  split
  · rfl
  · split
    · rfl
    · simp only [queueState, nativeLimits_addTorrent]

theorem kept_loadMetadata (s : Session) (magnetUri : MagnetUri) (ec : Bool) :
    Kept s (loadMetadata s magnetUri ec).1 := by
  unfold loadMetadata
  split
  · exact kept_of_same rfl
  · exact kept_adjustLimits rfl rfl rfl (nativeLimits_addTorrent _ _)

theorem queueState_cancelLoadMetadata (s : Session) (hash : Sha1Hash) (found : Bool) :
    queueState (cancelLoadMetadata s hash found).1 = queueState s := by
  unfold cancelLoadMetadata
  split
  · cases found with
    | true => simp only [↓reduceIte, queueState, nativeLimits_removeTorrent]
    | false => rfl
  · rfl

theorem queueState_deleteTorrent (s : Session) (hash : Sha1Hash) :
    queueState (deleteTorrent s hash).1 = queueState s := by
  unfold deleteTorrent
  split <;> rfl

theorem queueState_handleTorrentRemovedAlert (s : Session) (hash : Sha1Hash) :
    queueState (handleTorrentRemovedAlert s hash) = queueState s := by
  unfold handleTorrentRemovedAlert
  dsimp only
  split
  · split <;> split <;> rfl
  · split <;> rfl

theorem queueState_handleFilesDeleted (s : Session) (hash : Sha1Hash) :
    queueState (handleFilesDeleted s hash) = queueState s := by
  unfold handleFilesDeleted
  split <;> rfl

theorem kept_handleMetadataReceivedAlert (s : Session) (hash : Sha1Hash) :
    Kept s (handleMetadataReceivedAlert s hash) := by
  unfold handleMetadataReceivedAlert
  split
  · split
    · dsimp only
      apply Kept.trans (t := adjustLimits { s with extraLimit := s.extraLimit - 1 })
      · exact kept_adjustLimits rfl rfl rfl rfl
      · apply kept_of_same
        simp only [queueState, nativeLimits_removeTorrent]
    · exact kept_of_same rfl
  · exact kept_of_same rfl

theorem queueState_dispatchMetadataReceived (s : Session) (hash : Sha1Hash) :
    queueState (dispatchMetadataReceived s hash) = queueState s := by
  unfold dispatchMetadataReceived
  split <;> rfl

theorem kept_handleAlert (s : Session) (alert : Alert) : Kept s (handleAlert s alert) := by
  cases alert with
  | addTorrent hash error =>
    cases error with
    | none => exact kept_of_same (queueState_createTorrentHandle _ _)
    | some message => exact kept_of_same rfl
  | torrentRemoved hash => exact kept_of_same (queueState_handleTorrentRemovedAlert _ _)
  | torrentDeleted hash => exact kept_of_same (queueState_handleFilesDeleted _ _)
  | torrentDeleteFailed hash => exact kept_of_same (queueState_handleFilesDeleted _ _)
  | metadataReceived hash =>
    apply Kept.trans (kept_handleMetadataReceivedAlert s hash)
    exact kept_of_same (queueState_dispatchMetadataReceived _ _)

theorem kept_sessionAfter (s : Session) (e : Event) : Kept s (sessionAfter s e) := by
  cases e with
  | addTorrentImpl params magnetUri torrentInfo found => exact kept_addTorrentImpl _ _ _ _ _
  | loadMetadata magnetUri ec => exact kept_loadMetadata _ _ _
  | cancelLoadMetadata hash found => exact kept_of_same (queueState_cancelLoadMetadata _ _ _)
  | deleteTorrent hash => exact kept_of_same (queueState_deleteTorrent _ _)
  | handleAlert alert =>
    apply Kept.trans (t := takeAlert s alert)
    · exact kept_of_same rfl
    · exact kept_handleAlert _ _
  | _ =>
    apply kept_of_same
    simp only [sessionAfter, queueState, nativeLimits_nativeEvent]

end QueueLimits
