import QtPlayer.Session.PiecePriorities

/- The root folder of a new torrent: addTorrent_impl strips it from a torrent file,
   handleMetadataReceivedAlert from the metadata of a magnet. -/
namespace FolderLayout
open TorrentData TorrentSession SessionLives PiecePriorities

def performAdded (s : Session) (p : AddRequest) : Session :=
  sessionAfter (sessionAfter s (.asyncAddTorrent p none))
    (.handleAlert (.addTorrent p.infoHash none))

def fileHandle (s : Session) (params : CreateTorrentParams) (torrentInfo : TorrentInfo) :
    Option TorrentHandle :=
  let s := (addTorrentImpl s params noMagnet torrentInfo false).1
  s.nativeSession.requests.getLast?.bind fun p =>
    (performAdded s p).torrents.lookup torrentInfo.hash

def magnetRequest (magnetUri : MagnetUri) : AddRequest :=
  ⟨magnetUri.hash, TorrentInfo.empty, [], magnetUri.trackers, magnetUri.urlSeeds⟩

def magnetAdded (s : Session) (params : CreateTorrentParams) (magnetUri : MagnetUri) : Session :=
  performAdded { s with addingTorrents := s.addingTorrents.insert magnetUri.hash params }
    (magnetRequest magnetUri)

def magnetHandle (s : Session) (params : CreateTorrentParams) (magnetUri : MagnetUri)
    (native : NativeInfo) : Option TorrentHandle :=
  (sessionAfter (sessionAfter (magnetAdded s params magnetUri)
    (.receiveMetadata magnetUri.hash native))
    (.handleAlert (.metadataReceived magnetUri.hash))).torrents.lookup magnetUri.hash

/-- Neither the session nor libtorrent has the torrent; it may be on its way out. -/
structure New (s : Session) (hash : Sha1Hash) : Prop where
  unknown : isKnownTorrent s hash = false
  absent : ¬ (hash ∈ s.nativeSession.torrents ∧ hash ∉ s.nativeSession.removing)

structure SameLayout (file magnet : TorrentHandle) : Prop where
  hasRootFolder : magnet.hasRootFolder = file.hasRootFolder
  filePaths : magnet.torrentInfo.filePaths = file.torrentInfo.filePaths

variable {s : Session} {params : CreateTorrentParams} {info : TorrentInfo}

/- Stripping the root folder. -/

theorem filesCount_strip (info : TorrentInfo) :
    info.stripRootFolder.filesCount = info.filesCount := by
  unfold TorrentInfo.stripRootFolder
  split
  · rfl
  · cases info with
    | mk native =>
      cases native with
      | none => rfl
      | some native => simp [TorrentInfo.filesCount, TorrentInfo.getter, TorrentInfo.isValid]

theorem folder_of_common {paths : List (List String)}
    (common : TorrentInfo.commonFolder "" paths ≠ "") :
    ∃ path ∈ paths, TorrentInfo.isAbsolutePath path = false ∧ 1 < path.length := by
  induction paths with
  | nil => exact absurd rfl common
  | cons path rest ih =>
    rw [TorrentInfo.commonFolder] at common
    cases absolute : TorrentInfo.isAbsolutePath path with
    | true =>
      rw [if_pos absolute] at common
      obtain ⟨other, mem, found⟩ := ih common
      exact ⟨other, List.mem_cons_of_mem _ mem, found⟩
    | false =>
      rw [if_neg (by rw [absolute]; decide)] at common
      by_cases short : path.length ≤ 1
      · rw [if_pos short] at common
        exact absurd rfl common
      · exact ⟨path, List.mem_cons_self, absolute, by omega⟩

theorem strip_filePaths_iff (valid : info.isValid = true) :
    info.stripRootFolder.filePaths = info.filePaths ↔ info.rootFolder = "" := by
  constructor
  · intro same
    by_contra common
    obtain ⟨path, mem, relative, long⟩ := folder_of_common common
    cases info with
    | mk native =>
      cases native with
      | none => cases valid
      | some native =>
        have stays := (TorrentInfo.stripRootFolder_keeps ⟨some native⟩).1
        rw [valid] at stays
        simp only [TorrentInfo.filePaths, TorrentInfo.getter, stays, valid, if_true] at same mem
        simp only [TorrentInfo.stripRootFolder, if_neg common, Option.map_some] at same
        have kept := List.map_inj_left.mp (same.trans (List.map_id _).symm) path mem
        simp only [relative, Bool.false_eq_true, if_false, id_eq] at kept
        have shorter := congrArg List.length kept
        rw [List.length_tail] at shorter
        omega
  · intro none
    rw [TorrentInfo.stripRootFolder, if_pos none]

/- The handle of a torrent that libtorrent has added. -/

def handleFor (address : Nat) (hash : Sha1Hash) (params : CreateTorrentParams)
    (torrent : NativeTorrent) : TorrentHandle where
  address := address
  hash := hash
  name := params.name
  torrentInfo := torrent.info
  hasRootFolder := params.hasRootFolder &&
    !(!params.restored && hasMetadata torrent && decide (torrent.info.filesCount = 1))
  ratioLimit := params.ratioLimit
  seedingTimeLimit := params.seedingTimeLimit

/-- The session after the handle was made: its trackers may have changed, nothing else that a
    handle is made of. -/
structure Listed (s t : Session) (hash : Sha1Hash) (torrent : NativeTorrent)
    (handle : TorrentHandle) : Prop where
  listed : t.torrents.lookup hash = some handle
  native : ∃ torrent', t.nativeSession.torrents.lookup hash = some torrent' ∧
    torrent'.info = torrent.info
  loadedMetadata : t.loadedMetadata = s.loadedMetadata
  isAppendExtensionEnabled : t.isAppendExtensionEnabled = s.isAppendExtensionEnabled

theorem mergeSources_info {native : NativeSession} {hash : Sha1Hash} {torrent : NativeTorrent}
    (present : native.torrents.lookup hash = some torrent) (trackers urlSeeds : List String) :
    ∃ merged, mergeSources native hash trackers urlSeeds = some merged ∧
      ∃ torrent', merged.torrents.lookup hash = some torrent' ∧
        torrent'.info = torrent.info := by
  simp [mergeSources, present]

theorem createTorrentHandle_lists {hash : Sha1Hash} {torrent : NativeTorrent}
    (adding : s.addingTorrents.lookup hash = some params)
    (present : s.nativeSession.torrents.lookup hash = some torrent) :
    Listed s (createTorrentHandle s (some hash)).1 hash torrent
      (handleFor s.allocated hash params torrent) := by
  have built : constructHandle s.nativeSession s.allocated hash params =
      some (handleFor s.allocated hash params torrent) := by
    rw [constructHandle, present]
    rfl
  obtain ⟨native, merges, kept⟩ : ∃ native,
      (if (!params.restored && s.isAddTrackersEnabled && !torrent.info.isPrivate) = true
        then mergeSources s.nativeSession hash s.additionalTrackerList []
        else some s.nativeSession) = some native ∧
      ∃ torrent', native.torrents.lookup hash = some torrent' ∧
        torrent'.info = torrent.info := by
    split
    · exact mergeSources_info present _ _
    · exact ⟨_, rfl, torrent, present, rfl⟩
  have sameInfo : (handleFor s.allocated hash params torrent).torrentInfo = torrent.info := rfl
  simp only [createTorrentHandle, adding, built, sameInfo, merges]
  exact ⟨AList.lookup_insert _, kept, rfl, rfl⟩

theorem performAdded_lists {p : AddRequest}
    (absent : ¬ (p.infoHash ∈ s.nativeSession.torrents ∧
      p.infoHash ∉ s.nativeSession.removing))
    (adding : s.addingTorrents.lookup p.infoHash = some params) :
    Listed s (performAdded s p) p.infoHash ⟨p.ti, p.trackers, p.urlSeeds⟩
      (handleFor s.allocated p.infoHash params ⟨p.ti, p.trackers, p.urlSeeds⟩) := by
  let t := takeAlert (sessionAfter s (.asyncAddTorrent p none)) (.addTorrent p.infoHash none)
  have present : t.nativeSession.torrents.lookup p.infoHash =
      some ⟨p.ti, p.trackers, p.urlSeeds⟩ := by
    simp [t, takeAlert, sessionAfter, nativeEvent, post, addTorrent, absent]
  have found : handleOf t.nativeSession p.infoHash = some p.infoHash :=
    if_pos (AList.lookup_isSome.mp (by rw [present]; rfl))
  have lists := createTorrentHandle_lists (s := t) adding present
  have performed : performAdded s p = (createTorrentHandle t (some p.infoHash)).1 := by
    rw [← found]
    rfl
  rw [performed]
  exact ⟨lists.listed, lists.native, lists.loadedMetadata, lists.isAppendExtensionEnabled⟩

def withMetadata (handle : TorrentHandle) (isAppendExtensionEnabled : Bool)
    (info : TorrentInfo) : TorrentHandle :=
  { handle with
    torrentInfo := if isAppendExtensionEnabled && !handle.hasRootFolder
      then info.stripRootFolder else info
    hasRootFolder := handle.hasRootFolder && !decide (info.filesCount = 1) }

theorem metadata_lists {t : Session} {hash : Sha1Hash} {torrent : NativeTorrent}
    {handle : TorrentHandle} (lists : Listed s t hash torrent handle)
    (notLoading : hash ∉ s.loadedMetadata) (native : NativeInfo) :
    (sessionAfter (sessionAfter t (.receiveMetadata hash native))
      (.handleAlert (.metadataReceived hash))).torrents.lookup hash =
        some (withMetadata handle s.isAppendExtensionEnabled ⟨some native⟩) := by
  obtain ⟨torrent', present, _⟩ := lists.native
  have notLoading' : hash ∉ t.loadedMetadata := by
    rw [lists.loadedMetadata]
    exact notLoading
  have count : ∀ strip : Bool, (if strip then (⟨some native⟩ : TorrentInfo).stripRootFolder
      else ⟨some native⟩).filesCount = (⟨some native⟩ : TorrentInfo).filesCount := by
    intro strip
    cases strip with
    | true => exact filesCount_strip _
    | false => rfl
  simp only [sessionAfter, nativeEvent, present, takeAlert, handleAlert,
    handleMetadataReceivedAlert, dispatchMetadataReceived, post, AList.lookup_insert, notLoading',
    if_false, lists.listed, lists.isAppendExtensionEnabled, withMetadata, count]

theorem magnetHandle_eq {magnetUri : MagnetUri} (new : New s magnetUri.hash)
    (native : NativeInfo) :
    magnetHandle s params magnetUri native = some (withMetadata
      (handleFor s.allocated magnetUri.hash params
        ⟨TorrentInfo.empty, magnetUri.trackers, magnetUri.urlSeeds⟩)
      s.isAppendExtensionEnabled ⟨some native⟩) := by
  have lists := performAdded_lists (p := magnetRequest magnetUri) new.absent
    (s := { s with addingTorrents := s.addingTorrents.insert magnetUri.hash params })
    (AList.lookup_insert _)
  exact metadata_lists lists (unknown_iff.mp new.unknown).2.2 native

theorem fileHandle_eq (valid : info.isValid = true) (new : New s info.hash)
    (added : Inserted (addTorrentImpl s params noMagnet info false) info.hash) :
    fileHandle s params info = some (handleFor s.allocated info.hash (prepareInfo params info).1
      ⟨(prepareInfo params info).2, (prepareInfo params info).2.trackers,
        (prepareInfo params info).2.urlSeeds⟩) := by
  obtain ⟨sameHash, samePieces⟩ := prepareInfo_keeps params info
  obtain ⟨priorities, filled⟩ := (torrent_inserted_iff valid new.unknown).mp added
  have unknown : isKnownTorrent s (fileRequest params info).infoHash = false := by
    rw [fileRequest, sameHash]
    exact new.unknown
  have absent : ¬ ((fileRequest params info).infoHash ∈ s.nativeSession.torrents ∧
      (fileRequest params info).infoHash ∉ s.nativeSession.removing) := by
    rw [fileRequest, sameHash]
    exact new.absent
  rw [← samePieces] at filled
  unfold fileHandle
  rw [addTorrentImpl_file (by decide) valid, addNew_filled unknown filled]
  simp only [List.getLast?_append, List.getLast?_singleton, Option.some_or, Option.bind_some]
  have lists := performAdded_lists (p := { fileRequest params info with
    piecePriorities := priorities }) absent
    (s := { s with
      addingTorrents := s.addingTorrents.insert (fileRequest params info).infoHash
        (prepareInfo params info).1
      nativeSession := { s.nativeSession with
        requests := s.nativeSession.requests ++
          [{ fileRequest params info with piecePriorities := priorities }] } })
    (AList.lookup_insert _)
  have request : (fileRequest params info).infoHash = info.hash := sameHash
  rw [← request]
  exact lists.listed

theorem prepareInfo_new (info : TorrentInfo) (asNew : params.restored = false) :
    (prepareInfo params info).1.restored = false ∧
      (prepareInfo params info).1.hasRootFolder = params.hasRootFolder ∧
      (prepareInfo params info).2 =
        if params.hasRootFolder then info else info.stripRootFolder := by
  unfold prepareInfo
  rw [asNew, if_neg (by decide)]
  simp only [apply_ite Prod.fst, apply_ite Prod.snd, apply_ite CreateTorrentParams.restored,
    apply_ite CreateTorrentParams.hasRootFolder, ite_self, asNew, and_self]

theorem native_of_valid (valid : info.isValid = true) : info.nativeInfo.isSome = true := by
  unfold TorrentInfo.isValid at valid
  split at valid
  · rename_i native found
    rw [found]
    rfl
  · cases valid

theorem fileHandle_layout (valid : info.isValid = true) (asNew : params.restored = false)
    (new : New s info.hash)
    (added : Inserted (addTorrentImpl s params noMagnet info false) info.hash) :
    ∃ file, fileHandle s params info = some file ∧
      file.hasRootFolder = (params.hasRootFolder && !decide (info.filesCount = 1)) ∧
      file.torrentInfo = if params.hasRootFolder then info else info.stripRootFolder := by
  obtain ⟨new', folder, prepared⟩ := prepareInfo_new info asNew
  have kept : (prepareInfo params info).2.isValid = true ∧
      (prepareInfo params info).2.filesCount = info.filesCount := by
    rw [prepared]
    split
    · exact ⟨valid, rfl⟩
    · rw [(TorrentInfo.stripRootFolder_keeps info).1]
      exact ⟨valid, filesCount_strip info⟩
  refine ⟨_, fileHandle_eq valid new added, ?_, prepared⟩
  simp only [handleFor, hasMetadata, new', folder, native_of_valid kept.1, kept.2, Bool.not_false,
    Bool.true_and]

/-- A magnet loses it only with the append-extension option. -/
theorem magnetHandle_layout (params : CreateTorrentParams) {magnetUri : MagnetUri}
    (new : New s magnetUri.hash) (native : NativeInfo) :
    ∃ magnet, magnetHandle s params magnetUri native = some magnet ∧
      magnet.hasRootFolder =
        (params.hasRootFolder && !decide (TorrentInfo.filesCount ⟨some native⟩ = 1)) ∧
      magnet.torrentInfo = if s.isAppendExtensionEnabled && !params.hasRootFolder
        then TorrentInfo.stripRootFolder ⟨some native⟩ else ⟨some native⟩ := by
  have bare : (handleFor s.allocated magnetUri.hash params
      ⟨TorrentInfo.empty, magnetUri.trackers, magnetUri.urlSeeds⟩).hasRootFolder =
        params.hasRootFolder := by
    simp [handleFor, hasMetadata, TorrentInfo.empty]
  refine ⟨_, magnetHandle_eq new native, ?_, ?_⟩
  · simp only [withMetadata, bare]
  · simp only [withMetadata, bare]

/-- A magnet ends in the layout of its torrent file exactly if the root folder is wanted, or none
    is there, or the append-extension option lets the handler strip it. -/
theorem same_layout_iff {native : NativeInfo} {magnetUri : MagnetUri}
    (valid : TorrentInfo.isValid ⟨some native⟩ = true) (asNew : params.restored = false)
    (named : magnetUri.hash = native.infoHash) (new : New s native.infoHash)
    (added : Inserted (addTorrentImpl s params noMagnet ⟨some native⟩ false) native.infoHash) :
    (∃ file magnet, fileHandle s params ⟨some native⟩ = some file ∧
      magnetHandle s params magnetUri native = some magnet ∧ SameLayout file magnet) ↔
    params.hasRootFolder = true ∨ s.isAppendExtensionEnabled = true ∨
      TorrentInfo.rootFolder ⟨some native⟩ = "" := by
  have sameHash : TorrentInfo.hash ⟨some native⟩ = native.infoHash := by
    simp only [TorrentInfo.hash, TorrentInfo.getter, valid, if_true]
  have new' : New s magnetUri.hash := by
    rw [named]
    exact new
  rw [← sameHash] at new added
  obtain ⟨file, fromFile, fileRoot, fileInfo⟩ := fileHandle_layout valid asNew new added
  obtain ⟨magnet, fromMagnet, magnetRoot, magnetInfo⟩ := magnetHandle_layout params new' native
  have paths : magnet.torrentInfo.filePaths = file.torrentInfo.filePaths ↔
      params.hasRootFolder = true ∨ s.isAppendExtensionEnabled = true ∨
        TorrentInfo.rootFolder ⟨some native⟩ = "" := by
    rw [magnetInfo, fileInfo, ← strip_filePaths_iff valid]
    cases params.hasRootFolder with
    | true => simp
    | false => cases s.isAppendExtensionEnabled <;> simp [eq_comm]
  constructor
  · rintro ⟨file', magnet', fromFile', fromMagnet', same⟩
    rw [fromFile, Option.some.injEq] at fromFile'
    rw [fromMagnet, Option.some.injEq] at fromMagnet'
    subst fromFile' fromMagnet'
    exact paths.mp same.filePaths
  · intro condition
    exact ⟨file, magnet, fromFile, fromMagnet, magnetRoot.trans fileRoot.symm,
      paths.mpr condition⟩

def filmMagnet : MagnetUri := ⟨true, 9, [], []⟩

def filmFile : NativeInfo := ⟨9, true, "film", [["film", "film.mp4"]], 3809, false, [], []⟩

theorem film_valid : TorrentInfo.isValid ⟨some filmFile⟩ = true := by decide

theorem film_new : New newSession filmFile.infoHash := ⟨by decide, by decide⟩

theorem film_added (params : CreateTorrentParams) :
    Inserted (addTorrentImpl newSession params noMagnet ⟨some filmFile⟩ false)
      filmFile.infoHash :=
  (torrent_inserted_iff film_valid film_new.unknown).mpr
    ((fillPiecePriorities_ok_iff _).mpr (by decide))

theorem film_keeps_root_folder :
    ∃ file magnet, fileHandle newSession {} ⟨some filmFile⟩ = some file ∧
      magnetHandle newSession {} filmMagnet filmFile = some magnet ∧ SameLayout file magnet :=
  (same_layout_iff film_valid rfl rfl film_new (film_added {})).mpr (Or.inl rfl)

/-- Without the append-extension option the magnet keeps the root folder that the file loses. -/
theorem film_keeps_unwanted_folder :
    ¬ ∀ (s : Session) (params : CreateTorrentParams) (native : NativeInfo) (magnetUri : MagnetUri),
      TorrentInfo.isValid ⟨some native⟩ = true → params.restored = false →
        magnetUri.hash = native.infoHash → New s native.infoHash →
        Inserted (addTorrentImpl s params noMagnet ⟨some native⟩ false) native.infoHash →
          ∃ file magnet, fileHandle s params ⟨some native⟩ = some file ∧
            magnetHandle s params magnetUri native = some magnet ∧ SameLayout file magnet := by
  intro always
  let params : CreateTorrentParams := { hasRootFolder := false }
  obtain ⟨file, magnet, fromFile, fromMagnet, same⟩ :=
    always newSession params filmFile filmMagnet film_valid rfl rfl film_new (film_added params)
  obtain ⟨file', fromFile', _, fileInfo⟩ :=
    fileHandle_layout film_valid rfl film_new (film_added params)
  obtain ⟨magnet', fromMagnet', _, magnetInfo⟩ :=
    magnetHandle_layout params (show New newSession filmMagnet.hash from film_new) filmFile
  rw [fromFile, Option.some.injEq] at fromFile'
  rw [fromMagnet, Option.some.injEq] at fromMagnet'
  have paths := same.filePaths
  rw [fromFile', fromMagnet', fileInfo, magnetInfo] at paths
  exact absurd paths.symm (by decide)

end FolderLayout
