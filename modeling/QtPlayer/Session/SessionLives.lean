import QtPlayer.Session.TorrentSession
import QtPlayer.Session.TorrentLife
import QtPlayer.Library.IndexedComponents

/- A session over libtorrent is one life for each info hash: every call, alert and event of
   libtorrent is a move of one of them. -/
namespace SessionLives
open TorrentData TorrentSession TorrentLife TransitionRuns IndexedComponents

def nativeLife (native : NativeSession) (hash : Sha1Hash) : NativeLife where
  present := decide (hash ∈ native.torrents)
  bare := (native.torrents.lookup hash).any fun torrent => !hasMetadata torrent
  removing := decide (hash ∈ native.removing)
  queued := native.requests.countP fun p => p.infoHash = hash
  added := native.alerts.count (.addTorrent hash none)
  heard := native.alerts.count (.metadataReceived hash)

def life (s : Session) (unanswered : Finset Sha1Hash) (hash : Sha1Hash) : Life where
  listed := decide (hash ∈ s.torrents)
  adding := decide (hash ∈ s.addingTorrents)
  loading := decide (hash ∈ s.loadedMetadata)
  unanswered := decide (hash ∈ unanswered)
  native := nativeLife s.nativeSession hash

@[simp] theorem nativeLife_present (native : NativeSession) (hash : Sha1Hash) :
    (nativeLife native hash).present = decide (hash ∈ native.torrents) := rfl

@[simp] theorem nativeLife_limits (native : NativeSession) (hash : Sha1Hash)
    (downloads limit : Int) :
    nativeLife { native with activeDownloads := downloads, activeLimit := limit } hash =
      nativeLife native hash := rfl

section Native

variable (native : NativeSession) (hash : Sha1Hash)

theorem nativeLife_addTorrent (p : AddRequest) :
    nativeLife (addTorrent native p) hash =
      if hash = p.infoHash then arrive (nativeLife native hash) p.ti.nativeInfo.isNone
      else nativeLife native hash := by
  unfold addTorrent
  by_cases here : hash = p.infoHash
  · subst here
    rw [if_pos rfl]
    by_cases there : p.infoHash ∈ native.torrents <;>
      by_cases leaving : p.infoHash ∈ native.removing <;>
      simp [nativeLife, arrive, there, leaving, hasMetadata]
  · rw [if_neg here]
    split
    · rfl
    · by_cases leaving : p.infoHash ∈ native.removing <;>
        simp [nativeLife, leaving, here, AList.lookup_insert_ne here]

theorem nativeLife_removeTorrent (target : Sha1Hash) :
    nativeLife (removeTorrent native target) hash =
      if hash = target then remove (nativeLife native hash) else nativeLife native hash := by
  unfold removeTorrent
  by_cases here : hash = target
  · subst here
    by_cases there : hash ∈ native.torrents <;> simp [nativeLife, remove, there]
  · by_cases there : target ∈ native.torrents <;> simp [nativeLife, there, here]

theorem nativeLife_insert (target : Sha1Hash) (torrent new : NativeTorrent)
    (found : native.torrents.lookup target = some torrent) :
    nativeLife { native with torrents := native.torrents.insert target new } hash =
      if hash = target then { nativeLife native hash with bare := !hasMetadata new }
      else nativeLife native hash := by
  have there : target ∈ native.torrents := AList.lookup_isSome.mp (by rw [found]; rfl)
  by_cases here : hash = target
  · subst here
    simp [nativeLife, there]
  · simp [nativeLife, here, AList.lookup_insert_ne here]

theorem nativeLife_mergeSources {native merged : NativeSession} {target : Sha1Hash}
    {trackers urlSeeds : List String}
    (result : mergeSources native target trackers urlSeeds = some merged) :
    nativeLife merged hash = nativeLife native hash := by
  unfold mergeSources at result
  split at result
  · rename_i torrent found
    simp only [Option.some.injEq] at result
    rw [← result, nativeLife_insert native hash target torrent _ found]
    split
    · rename_i here
      subst here
      simp [nativeLife, found, hasMetadata]
    · rfl
  · split at result
    · simp only [Option.some.injEq] at result
      rw [result]
    · cases result

theorem nativeLife_post (alert : Alert) :
    nativeLife (post native alert) hash = { nativeLife native hash with
      added := (nativeLife native hash).added + if alert = .addTorrent hash none then 1 else 0
      heard := (nativeLife native hash).heard +
        if alert = .metadataReceived hash then 1 else 0 } := by
  have counts (a : Alert) : (post native alert).alerts.count a =
      native.alerts.count a + if alert = a then 1 else 0 := by
    simp [post, List.count_append, List.count_singleton]
  unfold nativeLife
  rw [counts, counts]
  rfl

theorem nativeLife_dequeue {p : AddRequest} (queued : p ∈ native.requests) :
    nativeLife { native with requests := native.requests.erase p } hash =
      if hash = p.infoHash then
        { nativeLife native hash with queued := (nativeLife native hash).queued - 1 }
      else nativeLife native hash := by
  have counts : (native.requests.erase p).countP (fun p => p.infoHash = hash) =
      native.requests.countP (fun p => p.infoHash = hash) - if p.infoHash = hash then 1 else 0 := by
    have := List.countP_erase (fun p : AddRequest => decide (p.infoHash = hash)) native.requests p
    simpa [queued] using this
  unfold nativeLife
  rw [counts]
  by_cases here : hash = p.infoHash
  · subst here
    simp only [↓reduceIte]
  · simp only [if_neg here, if_neg (Ne.symm here), Nat.sub_zero]

theorem nativeLife_post_unseen {alert : Alert} (unseen : alert ≠ .addTorrent hash none)
    (unheard : alert ≠ .metadataReceived hash) :
    nativeLife (post native alert) hash = nativeLife native hash := by
  rw [nativeLife_post, if_neg unseen, if_neg unheard]
  rfl

theorem nativeLife_asyncAddTorrent {p : AddRequest} (queued : p ∈ native.requests)
    (error : Option String) :
    nativeLife (nativeEvent native (.asyncAddTorrent p error)) hash =
      if hash = p.infoHash then
        perform (nativeLife native hash) error.isNone p.ti.nativeInfo.isNone
      else nativeLife native hash := by
  have dequeued := nativeLife_dequeue native hash queued
  cases error with
  | none =>
    simp only [nativeEvent]
    by_cases here : hash = p.infoHash
    · rw [if_pos here] at dequeued ⊢
      rw [nativeLife_post, nativeLife_addTorrent, if_pos here, dequeued, if_pos (by rw [here]),
        if_neg (by simp)]
      rfl
    · rw [if_neg here] at dequeued ⊢
      rw [nativeLife_post_unseen _ _ (by simpa using Ne.symm here) (by simp),
        nativeLife_addTorrent, if_neg here, dequeued]
  | some message =>
    simp only [nativeEvent]
    rw [nativeLife_post_unseen _ _ (by simp) (by simp), dequeued]
    rfl

theorem nativeLife_receiveMetadata (target : Sha1Hash) (info : NativeInfo)
    (present : target ∈ native.torrents) :
    nativeLife (nativeEvent native (.receiveMetadata target info)) hash =
      if hash = target then hear (nativeLife native hash) else nativeLife native hash := by
  obtain ⟨torrent, found⟩ := Option.isSome_iff_exists.mp (AList.lookup_isSome.mpr present)
  simp only [nativeEvent, found]
  by_cases here : hash = target
  · subst here
    rw [if_pos rfl, nativeLife_post, nativeLife_insert native hash hash torrent _ found,
      if_pos rfl, if_neg (by simp), if_pos rfl]
    rfl
  · rw [if_neg here, nativeLife_post_unseen _ _ (by simp) (by simpa using Ne.symm here),
      nativeLife_insert native hash target torrent _ found, if_neg here]

theorem nativeLife_endRemoval (target : Sha1Hash) :
    nativeLife (nativeEvent native (.endRemoval target)) hash =
      if hash = target then leave (nativeLife native hash) else nativeLife native hash := by
  simp only [nativeEvent]
  rw [nativeLife_post_unseen _ _ (by simp) (by simp)]
  by_cases here : hash = target
  · subst here
    simp [nativeLife, leave]
  · simp [nativeLife, here, AList.lookup_erase_ne here]

theorem nativeLife_deleteFiles (target : Sha1Hash) (failed : Bool) :
    nativeLife (nativeEvent native (.deleteFiles target failed)) hash =
      nativeLife native hash := by
  simp only [nativeEvent]
  cases failed <;> exact nativeLife_post_unseen _ _ (by simp) (by simp)

end Native

section Calls

variable (s : Session) (unanswered : Finset Sha1Hash) (hash : Sha1Hash)

theorem life_adjustLimits : life (adjustLimits s) unanswered hash = life s unanswered hash := by
  unfold adjustLimits
  split <;> rfl

@[simp] theorem adjustLimits_torrents :
    (adjustLimits s).nativeSession.torrents = s.nativeSession.torrents := by
  unfold adjustLimits
  split <;> rfl

@[simp] theorem adjustLimits_loadedMetadata :
    (adjustLimits s).loadedMetadata = s.loadedMetadata := by
  unfold adjustLimits
  split <;> rfl

theorem life_startAdding (target : Sha1Hash) (params : CreateTorrentParams) :
    life { s with addingTorrents := s.addingTorrents.insert target params } unanswered hash =
      if hash = target then { life s unanswered hash with adding := true }
      else life s unanswered hash := by
  by_cases here : hash = target
  · subst here
    simp [life]
  · simp [life, here]

theorem life_stopLoading (target : Sha1Hash) (extraLimit : Int) :
    life { s with
        loadedMetadata := s.loadedMetadata.erase target
        extraLimit := extraLimit } unanswered hash =
      if hash = target then { life s unanswered hash with loading := false }
      else life s unanswered hash := by
  by_cases here : hash = target
  · subst here
    simp [life]
  · simp [life, here]

theorem mergeSources_of_present {native : NativeSession} {target : Sha1Hash}
    (present : target ∈ native.torrents) (trackers urlSeeds : List String) :
    ∃ merged, mergeSources native target trackers urlSeeds = some merged ∧
      nativeLife merged hash = nativeLife native hash := by
  obtain ⟨torrent, found⟩ := Option.isSome_iff_exists.mp (AList.lookup_isSome.mpr present)
  obtain ⟨merged, merges⟩ :
      ∃ merged, mergeSources native target trackers urlSeeds = some merged := by
    simp [mergeSources, found]
  exact ⟨merged, merges, nativeLife_mergeSources hash merges⟩

theorem constructHandle_of_present {native : NativeSession} {target : Sha1Hash}
    (present : target ∈ native.torrents) (address : Nat) (params : CreateTorrentParams) :
    ∃ torrent, constructHandle native address target params = some torrent ∧
      torrent.hash = target := by
  obtain ⟨torrent, found⟩ := Option.isSome_iff_exists.mp (AList.lookup_isSome.mpr present)
  simp [constructHandle, found]

theorem life_createTorrentHandle {target : Sha1Hash}
    (present : target ∈ s.nativeSession.torrents) :
    life (createTorrentHandle s (some target)).1 unanswered hash =
      if hash = target then createHandle (life s unanswered hash)
      else life s unanswered hash := by
  unfold createTorrentHandle
  dsimp only
  split
  · rename_i absent
    have absent := AList.lookup_eq_none.mp absent
    split
    · rename_i here
      subst here
      simp [createHandle, life, absent]
    · rfl
  · rename_i params found
    have adding : target ∈ s.addingTorrents := AList.lookup_isSome.mp (by rw [found]; rfl)
    obtain ⟨torrent, built, same⟩ := constructHandle_of_present present s.allocated params
    obtain ⟨native, merges, unchanged⟩ : ∃ native,
        (if (!params.restored && s.isAddTrackersEnabled && !torrent.torrentInfo.isPrivate) = true
          then mergeSources s.nativeSession target s.additionalTrackerList []
          else some s.nativeSession) = some native ∧
        nativeLife native hash = nativeLife s.nativeSession hash := by
      split
      · exact mergeSources_of_present hash present _ _
      · exact ⟨_, rfl, rfl⟩
    simp only [built, merges, same]
    by_cases here : hash = target
    · subst here
      simp [createHandle, life, adding, unchanged, nativeLife_present, present]
    · simp [life, here, unchanged]

theorem life_addPreloaded (params : CreateTorrentParams) (target : Sha1Hash) (found : Bool)
    (loading : target ∈ s.loadedMetadata)
    (finds : found = true → target ∈ s.nativeSession.torrents) (fills : Bool) :
    life (addPreloaded s params target found).1 unanswered hash =
      if hash = target then next (life s unanswered hash) (.add true fills found)
      else life s unanswered hash := by
  have started := life_startAdding (adjustLimits { s with
    loadedMetadata := s.loadedMetadata.erase target
    extraLimit := s.extraLimit - 1 }) unanswered hash target params
  rw [life_adjustLimits, life_stopLoading] at started
  unfold addPreloaded
  cases found with
  | false =>
    apply started.trans
    by_cases here : hash = target
    · subst here
      simp [next, life, loading]
    · simp only [if_neg here]
  | true =>
    refine (life_createTorrentHandle _ unanswered hash ?_).trans ?_
    · simpa using finds rfl
    · rw [started]
      by_cases here : hash = target
      · subst here
        simp [next, life, loading]
      · simp only [if_neg here]

def fills (piecesCount : Int) : Bool :=
  match fillPiecePriorities piecesCount with
  | .ok _ => true
  | .error _ => false

theorem life_addNew (params : CreateTorrentParams) (p : AddRequest) (isPrivate : Bool)
    (piecesCount : Int) (fromMagnetUri found : Bool)
    (fresh : fromMagnetUri = true → p.infoHash ∉ s.loadedMetadata) :
    life (addNew s params p isPrivate piecesCount).1 unanswered hash =
      if hash = p.infoHash then
        next (life s unanswered hash) (.add fromMagnetUri (fills piecesCount) found)
      else life s unanswered hash := by
  have notPreloaded (here : hash = p.infoHash) :
      (fromMagnetUri && (life s unanswered hash).loading) = false := by
    cases fromMagnetUri with
    | false => rfl
    | true => simp [life, here, fresh rfl]
  have stays (rejected : p.infoHash ∈ s.addingTorrents ∨ p.infoHash ∈ s.loadedMetadata ∨
      p.infoHash ∈ s.torrents ∨ fills piecesCount = false) :
      life s unanswered hash = if hash = p.infoHash then
        next (life s unanswered hash) (.add fromMagnetUri (fills piecesCount) found)
      else life s unanswered hash := by
    split
    · rename_i here
      rw [next, notPreloaded here, if_neg Bool.false_ne_true, if_pos]
      subst here
      rcases rejected with adding | loading | listed | failure
      · simp [life, adding]
      · simp [life, loading]
      · simp [life, listed]
      · simp [failure]
    · rfl
  unfold addNew
  split
  · rename_i known
    exact stays (known.elim .inl fun loading => .inr (.inl loading))
  · rename_i unknown
    split
    · rename_i torrent present
      have listed : p.infoHash ∈ s.torrents := AList.lookup_isSome.mp (by rw [present]; rfl)
      refine Eq.trans ?_ (stays (.inr (.inr (.inl listed))))
      split
      · rfl
      · split
        · rename_i native merges
          simp [life, nativeLife_mergeSources hash merges]
        · rfl
    · rename_i absent
      split
      · rename_i failure filled
        exact stays (.inr (.inr (.inr (by simp [fills, filled]))))
      · rename_i priorities filled
        have filled : fills piecesCount = true := by simp [fills, filled]
        obtain ⟨notAdding, notLoading⟩ := not_or.mp unknown
        have notListed := AList.lookup_eq_none.mp absent
        by_cases here : hash = p.infoHash
        · rw [if_pos here, next, notPreloaded here]
          subst here
          simp [life, filled, notAdding, notLoading, notListed, nativeLife]
        · rw [if_neg here]
          simp [life, here, nativeLife, List.countP_append, Ne.symm here]

theorem life_loadMetadata (magnetUri : MagnetUri) (ec : Bool) :
    life (loadMetadata s magnetUri ec).1
        (if (loadMetadata s magnetUri ec).2 then insert magnetUri.hash unanswered else unanswered)
        hash =
      if hash = magnetUri.hash then
        next (life s unanswered hash) (.load (magnetUri.isValid && !ec))
      else life s unanswered hash := by
  by_cases refused : (!magnetUri.isValid || isKnownTorrent s magnetUri.hash || ec) = true
  · have unchanged : loadMetadata s magnetUri ec = (s, false) := if_pos refused
    rw [unchanged]
    simp only [Bool.false_eq_true, ↓reduceIte]
    by_cases here : hash = magnetUri.hash
    · subst here
      rw [if_pos rfl, next, if_pos]
      revert refused
      cases magnetUri.isValid <;> cases ec <;> simp [isKnownTorrent, life, or_assoc]
    · rw [if_neg here]
  · have arrives : nativeLife (addTorrent s.nativeSession
        ⟨magnetUri.hash, TorrentInfo.empty, [], magnetUri.trackers, magnetUri.urlSeeds⟩) hash =
        if hash = magnetUri.hash then arrive (nativeLife s.nativeSession hash) true
        else nativeLife s.nativeSession hash := nativeLife_addTorrent _ _ _
    rw [loadMetadata, if_neg refused]
    simp only [↓reduceIte, life_adjustLimits]
    simp only [Bool.not_eq_true, Bool.or_eq_false_iff, isKnownTorrent, Bool.not_eq_false',
      decide_eq_false_iff_not] at refused
    by_cases here : hash = magnetUri.hash
    · subst here
      rw [if_pos rfl] at arrives ⊢
      simp [next, life, refused, arrives]
    · rw [if_neg here] at arrives ⊢
      simp [life, here, arrives]

theorem life_cancelLoadMetadata (target : Sha1Hash) (found : Bool) :
    life (cancelLoadMetadata s target found).1 unanswered hash =
      if hash = target then next (life s unanswered hash) (.cancel found)
      else life s unanswered hash := by
  by_cases here : hash = target
  · subst here
    unfold cancelLoadMetadata
    by_cases loading : hash ∈ s.loadedMetadata <;> cases found <;>
      simp [life, next, loading, nativeLife_removeTorrent]
  · unfold cancelLoadMetadata
    by_cases loading : target ∈ s.loadedMetadata <;> cases found <;>
      simp [life, here, loading, nativeLife_removeTorrent]

theorem life_deleteTorrent (target : Sha1Hash) :
    life (deleteTorrent s target).1 unanswered hash =
      if hash = target then next (life s unanswered hash) .delete
      else life s unanswered hash := by
  unfold deleteTorrent
  by_cases here : hash = target
  · subst here
    by_cases listed : hash ∈ s.torrents <;> simp [life, next, listed]
  · by_cases listed : target ∈ s.torrents <;> simp [life, here, listed]

theorem fills_of_invalid {info : TorrentInfo} (invalid : info.isValid = false) :
    fills info.piecesCount = false := by
  have unknown : info.piecesCount = -1 := by
    cases info with
    | mk native => cases native <;> simp [TorrentInfo.piecesCount, TorrentInfo.getter, invalid]
  rw [unknown]
  rfl

theorem prepareInfo_keeps (params : CreateTorrentParams) (info : TorrentInfo) :
    (prepareInfo params info).2.hash = info.hash ∧
      (prepareInfo params info).2.piecesCount = info.piecesCount := by
  have kept : (if params.hasRootFolder then info else info.stripRootFolder).hash = info.hash ∧
      (if params.hasRootFolder then info else info.stripRootFolder).piecesCount =
        info.piecesCount := by
    split
    · exact ⟨rfl, rfl⟩
    · exact (TorrentInfo.stripRootFolder_keeps info).2
  unfold prepareInfo
  split
  · exact ⟨rfl, rfl⟩
  · simp only [apply_ite Prod.snd, ite_self]
    exact kept

theorem life_addTorrentImpl (params : CreateTorrentParams) (magnetUri : MagnetUri)
    (torrentInfo : TorrentInfo) (found : Bool)
    (finds : found = true → magnetUri.hash ∈ s.nativeSession.torrents) :
    life (addTorrentImpl s params magnetUri torrentInfo found).1 unanswered hash =
      if hash = (if magnetUri.isValid then magnetUri.hash else torrentInfo.hash) then
        next (life s unanswered hash)
          (.add magnetUri.isValid (fills torrentInfo.piecesCount) found)
      else life s unanswered hash := by
  unfold addTorrentImpl
  by_cases fromMagnetUri : magnetUri.isValid = true
  · simp only [fromMagnetUri, ↓reduceIte]
    split
    · rename_i loading
      exact life_addPreloaded s unanswered hash params magnetUri.hash found loading finds _
    · rename_i notLoading
      exact life_addNew s unanswered hash params _ _ _ true found fun _ => notLoading
  · rw [Bool.not_eq_true] at fromMagnetUri
    simp only [fromMagnetUri, Bool.false_eq_true, ↓reduceIte]
    obtain ⟨sameHash, samePieces⟩ := prepareInfo_keeps params torrentInfo
    split
    · rw [← sameHash, ← samePieces]
      exact life_addNew s unanswered hash _ _ _ _ false found fun never => by cases never
    · rename_i invalid
      rw [Bool.not_eq_true] at invalid
      simp [next, fills_of_invalid invalid]

theorem life_handleTorrentRemovedAlert (target : Sha1Hash) :
    life (handleTorrentRemovedAlert s target) unanswered hash =
      if hash = target then next (life s unanswered hash) .drop
      else life s unanswered hash := by
  -- what happens to removingTorrents is not seen
  have erased : life (handleTorrentRemovedAlert s target) unanswered hash =
      life { s with loadedMetadata := s.loadedMetadata.erase target } unanswered hash := by
    unfold handleTorrentRemovedAlert
    cases loading : s.loadedMetadata.lookup target with
    | some info =>
      dsimp only
      split
      · split <;> rfl
      · rfl
    | none =>
      have absent : s.loadedMetadata.erase target = s.loadedMetadata :=
        AList.ext (List.kerase_of_notMem_keys (AList.lookup_eq_none.mp loading))
      rw [absent]
      dsimp only
      split
      · split <;> rfl
      · rfl
  rw [erased]
  by_cases here : hash = target
  · subst here
    simp [next, life]
  · simp [life, here]

theorem life_storeMetadata (target : Sha1Hash) (info : TorrentInfo)
    (loading : target ∈ s.loadedMetadata) :
    life { s with
        loadedMetadata := s.loadedMetadata.insert target info
        nativeSession := removeTorrent s.nativeSession target } unanswered hash =
      if hash = target then
        { life s unanswered hash with native := remove (life s unanswered hash).native }
      else life s unanswered hash := by
  by_cases here : hash = target
  · subst here
    simp [life, loading, nativeLife_removeTorrent]
  · simp [life, here, nativeLife_removeTorrent]

theorem life_handleMetadataReceivedAlert (target : Sha1Hash) :
    life (handleMetadataReceivedAlert s target) unanswered hash =
      if hash = target ∧ target ∈ s.loadedMetadata then
        { life s unanswered hash with native := remove (life s unanswered hash).native }
      else life s unanswered hash := by
  unfold handleMetadataReceivedAlert
  split
  · split
    · rename_i torrent _ loading
      have stored := life_storeMetadata (adjustLimits { s with extraLimit := s.extraLimit - 1 })
        unanswered hash target torrent.info (by simpa using loading)
      rw [life_adjustLimits] at stored
      apply stored.trans
      simp only [loading, and_true]
      rfl
    · rename_i notLoading
      simp [notLoading]
  · rename_i absent
    have absent := AList.lookup_eq_none.mp absent
    split
    · rename_i here
      obtain ⟨rfl, _⟩ := here
      rw [remove_absent (by simp [life, absent])]
    · rfl

theorem life_dispatchMetadataReceived (target : Sha1Hash) :
    life (dispatchMetadataReceived s target) unanswered hash = life s unanswered hash := by
  unfold dispatchMetadataReceived
  split
  · rename_i torrent native listed present
    have listed : target ∈ s.torrents := AList.lookup_isSome.mp (by rw [listed]; rfl)
    by_cases here : hash = target
    · subst here
      simp [life, listed]
    · simp [life, here]
  · rfl

theorem life_handleFilesDeleted (target : Sha1Hash) :
    life (handleFilesDeleted s target) unanswered hash = life s unanswered hash := by
  unfold handleFilesDeleted
  split <;> rfl

theorem count_takeAlert (alert a : Alert) : (takeAlert s alert).nativeSession.alerts.count a =
    s.nativeSession.alerts.count a - if alert = a then 1 else 0 := by
  simp [takeAlert, List.count_erase]

theorem life_takeAddAlert : life (takeAlert s (.addTorrent hash none)) unanswered hash =
    { life s unanswered hash with native :=
      { (life s unanswered hash).native with
        added := (life s unanswered hash).native.added - 1 } } := by
  unfold life nativeLife
  simp only [count_takeAlert, reduceCtorEq, ↓reduceIte, Nat.sub_zero]
  rfl

theorem life_takeMetadataAlert : life (takeAlert s (.metadataReceived hash)) unanswered hash =
    { life s unanswered hash with native :=
      { (life s unanswered hash).native with
        heard := (life s unanswered hash).native.heard - 1 } } := by
  unfold life nativeLife
  simp only [count_takeAlert, reduceCtorEq, ↓reduceIte, Nat.sub_zero]
  rfl

theorem life_takeAlert_unseen (alert : Alert) (unseen : alert ≠ .addTorrent hash none)
    (unheard : alert ≠ .metadataReceived hash) :
    life (takeAlert s alert) unanswered hash = life s unanswered hash := by
  unfold life nativeLife
  rw [count_takeAlert, count_takeAlert, if_neg unseen, if_neg unheard]
  rfl

theorem life_handleAddTorrentAlert (target : Sha1Hash) :
    life (handleAddTorrentAlert s target none) unanswered hash =
      if hash = target then createHandle (life s unanswered hash)
      else life s unanswered hash := by
  unfold handleAddTorrentAlert handleOf
  dsimp only
  split
  · rename_i present
    exact life_createTorrentHandle s unanswered hash present
  · rename_i absent
    split
    · rename_i here
      subst here
      rw [createHandle, if_neg (by simp [life, absent])]
      rfl
    · rfl

end Calls

/- The events of a run. -/

def alertTarget : Alert → Sha1Hash
  | .addTorrent hash _ | .torrentRemoved hash | .torrentDeleted hash | .torrentDeleteFailed hash
  | .metadataReceived hash => hash

def alertMove : Alert → Move
  | .addTorrent _ none => .list
  | .torrentRemoved _ => .drop
  | .metadataReceived _ => .answer
  | _ => .idle

def target : Event → Sha1Hash
  | .addTorrentImpl _ magnetUri torrentInfo _ =>
    if magnetUri.isValid then magnetUri.hash else torrentInfo.hash
  | .loadMetadata magnetUri _ => magnetUri.hash
  | .handleAlert alert => alertTarget alert
  | .asyncAddTorrent p _ => p.infoHash
  | .cancelLoadMetadata hash _ | .deleteTorrent hash | .receiveMetadata hash _ | .endRemoval hash
  | .deleteFiles hash _ => hash

def move : Event → Move
  | .addTorrentImpl _ magnetUri torrentInfo found =>
    .add magnetUri.isValid (fills torrentInfo.piecesCount) found
  | .loadMetadata magnetUri ec => .load (magnetUri.isValid && !ec)
  | .cancelLoadMetadata _ found => .cancel found
  | .deleteTorrent _ => .delete
  | .handleAlert alert => alertMove alert
  | .asyncAddTorrent p error => .perform error.isNone p.ti.nativeInfo.isNone
  | .receiveMetadata _ _ => .hear
  | .endRemoval _ => .endRemoval
  | .deleteFiles _ _ => .idle

def lifeIn (w : World) (hash : Sha1Hash) : Life := life w.session w.unanswered hash

theorem life_metadataReceived (w : World) (hash target : Sha1Hash) :
    life (dispatchMetadataReceived (handleMetadataReceivedAlert
        (takeAlert w.session (.metadataReceived target)) target) target)
      (w.unanswered.erase target) hash =
      if hash = target then next (lifeIn w hash) .answer else lifeIn w hash := by
  rw [life_dispatchMetadataReceived, life_handleMetadataReceivedAlert]
  have kept : (takeAlert w.session (.metadataReceived target)).loadedMetadata =
      w.session.loadedMetadata := rfl
  by_cases here : hash = target
  · subst here
    rw [life_takeMetadataAlert, kept, if_pos rfl]
    by_cases loading : hash ∈ w.session.loadedMetadata
    · rw [if_pos ⟨rfl, loading⟩, next]
      simp only [life, lifeIn, loading, decide_true, ↓reduceIte, Finset.mem_erase, ne_eq,
        not_true_eq_false, false_and, decide_false]
    · rw [if_neg fun both => loading both.2, next]
      simp only [life, lifeIn, loading, decide_false, Bool.false_eq_true, ↓reduceIte,
        Finset.mem_erase, ne_eq, not_true_eq_false, false_and]
  · rw [if_neg fun both => here both.1, if_neg here]
    have elsewhere : life w.session (w.unanswered.erase target) hash =
        life w.session w.unanswered hash := by
      simp [life, here]
    refine Eq.trans ?_ elsewhere
    exact life_takeAlert_unseen _ _ hash _ (by simp) (by simpa using Ne.symm here)

theorem life_handleAlert (w : World) (hash : Sha1Hash) (alert : Alert) :
    lifeIn (worldAfter w (.handleAlert alert)) hash =
      if hash = alertTarget alert then next (lifeIn w hash) (alertMove alert)
      else lifeIn w hash := by
  have unseen := life_takeAlert_unseen w.session w.unanswered hash alert
  cases alert with
  | addTorrent infoHash error =>
    cases error with
    | none =>
      change life (handleAddTorrentAlert _ infoHash none) w.unanswered hash =
        if hash = infoHash then next (lifeIn w hash) .list else lifeIn w hash
      rw [life_handleAddTorrentAlert]
      by_cases here : hash = infoHash
      · subst here
        rw [if_pos rfl, if_pos rfl, life_takeAddAlert]
        rfl
      · rw [if_neg here, if_neg here]
        exact unseen (by simpa using Ne.symm here) (by simp)
    | some message =>
      change _ = if hash = infoHash then lifeIn w hash else lifeIn w hash
      rw [ite_self]
      exact unseen (by simp) (by simp)
  | torrentRemoved infoHash =>
    change life (handleTorrentRemovedAlert _ infoHash) w.unanswered hash =
      if hash = infoHash then next (lifeIn w hash) .drop else lifeIn w hash
    rw [life_handleTorrentRemovedAlert, unseen (by simp) (by simp)]
    rfl
  | torrentDeleted infoHash =>
    change life (handleFilesDeleted _ infoHash) w.unanswered hash =
      if hash = infoHash then lifeIn w hash else lifeIn w hash
    rw [ite_self, life_handleFilesDeleted]
    exact unseen (by simp) (by simp)
  | torrentDeleteFailed infoHash =>
    change life (handleFilesDeleted _ infoHash) w.unanswered hash =
      if hash = infoHash then lifeIn w hash else lifeIn w hash
    rw [ite_self, life_handleFilesDeleted]
    exact unseen (by simp) (by simp)
  | metadataReceived infoHash =>
    change life (dispatchMetadataReceived (handleMetadataReceivedAlert _ infoHash) infoHash)
      (w.unanswered.erase infoHash) hash =
      if hash = infoHash then next (lifeIn w hash) .answer else lifeIn w hash
    exact life_metadataReceived w hash infoHash

theorem lifeIn_nativeEvent {w : World} {e : Event} {hash target : Sha1Hash} {v : NativeLife}
    {m : Move} (event : worldAfter w e = { w with session := { w.session with
      nativeSession := nativeEvent w.session.nativeSession e } })
    (moved : next (lifeIn w hash) m = { lifeIn w hash with native := v })
    (native : nativeLife (nativeEvent w.session.nativeSession e) hash =
      if hash = target then v else nativeLife w.session.nativeSession hash) :
    lifeIn (worldAfter w e) hash =
      if hash = target then next (lifeIn w hash) m else lifeIn w hash := by
  have seen : lifeIn (worldAfter w e) hash = { lifeIn w hash with
      native := nativeLife (nativeEvent w.session.nativeSession e) hash } := by
    rw [event]
    rfl
  rw [seen, native, moved]
  split <;> rfl

/-- Each event moves the life of its target and leaves every other one. -/
theorem life_step {w : World} {e : Event} (possible : Possible w.session.nativeSession e)
    (hash : Sha1Hash) :
    lifeIn (worldAfter w e) hash =
      if hash = target e then next (lifeIn w hash) (move e) else lifeIn w hash := by
  cases e with
  | addTorrentImpl params magnetUri torrentInfo found =>
    exact life_addTorrentImpl _ _ hash params magnetUri torrentInfo found possible.1
  | loadMetadata magnetUri ec => exact life_loadMetadata _ _ hash magnetUri ec
  | cancelLoadMetadata target found => exact life_cancelLoadMetadata _ _ hash target found
  | deleteTorrent target => exact life_deleteTorrent _ _ hash target
  | handleAlert alert => exact life_handleAlert w hash alert
  | asyncAddTorrent p error =>
    exact lifeIn_nativeEvent rfl rfl (nativeLife_asyncAddTorrent _ hash possible error)
  | receiveMetadata target info =>
    have present : target ∈ w.session.nativeSession.torrents := by
      rw [← AList.lookup_isSome, Option.isSome_iff_exists]
      obtain ⟨torrent, found, _⟩ := Option.map_eq_some_iff.mp possible
      exact ⟨torrent, found⟩
    exact lifeIn_nativeEvent rfl rfl (nativeLife_receiveMetadata _ hash target info present)
  | endRemoval target => exact lifeIn_nativeEvent rfl rfl (nativeLife_endRemoval _ hash target)
  | deleteFiles target failed =>
    apply lifeIn_nativeEvent (v := nativeLife w.session.nativeSession hash) rfl rfl
    rw [nativeLife_deleteFiles, ite_self]

theorem finds_of_findsTorrent {native : NativeSession} {hash : Sha1Hash} {found : Bool}
    (finds : FindsTorrent native hash found) : Finds (nativeLife native hash) found := by
  obtain ⟨sound, complete⟩ := finds
  exact ⟨by simpa using sound, by simpa [nativeLife] using complete⟩

/-- What libtorrent may do is what the life of its target is open to. -/
theorem open_of_possible {w : World} {e : Event}
    (possible : Possible w.session.nativeSession e) :
    Open (lifeIn w (target e)).native (move e) := by
  cases e with
  | addTorrentImpl params magnetUri torrentInfo found =>
    intro fromMagnetUri
    simp only [target, fromMagnetUri, ↓reduceIte]
    exact finds_of_findsTorrent possible
  | cancelLoadMetadata hash found => exact finds_of_findsTorrent possible
  | handleAlert alert =>
    have posted := List.count_pos_iff.mpr possible
    cases alert with
    | addTorrent infoHash error =>
      cases error with
      | none => exact posted
      | some message => trivial
    | metadataReceived infoHash => exact posted
    | _ => trivial
  | asyncAddTorrent p error =>
    exact List.countP_pos_iff.mpr ⟨p, possible, by simp [target]⟩
  | receiveMetadata hash info =>
    obtain ⟨torrent, found, bare⟩ := Option.map_eq_some_iff.mp possible
    have present : hash ∈ w.session.nativeSession.torrents :=
      AList.lookup_isSome.mp (by rw [found]; rfl)
    refine ⟨decide_eq_true present, ?_⟩
    simp [lifeIn, life, nativeLife, target, found, bare]
  | endRemoval hash => exact decide_eq_true possible
  | _ => trivial

/-- A session with libtorrent behind it is one life for each info hash. -/
def lives : Components runs machine Sha1Hash where
  part := lifeIn
  target := target
  move := move
  start := by
    rintro w hash ⟨fresh, nothing⟩
    simp [machine, unknown, lifeIn, life, nativeLife, nothing, fresh.torrents, fresh.addingTorrents,
      fresh.loadedMetadata, fresh.nativeTorrents, fresh.removing, fresh.requests, fresh.alerts]
  moved := by
    rintro w e _ ⟨possible, rfl⟩
    refine ⟨open_of_possible possible, ?_⟩
    rw [life_step possible, if_pos rfl]
  kept := by
    rintro w e _ hash ⟨possible, rfl⟩ elsewhere
    rw [life_step possible, if_neg elsewhere]

theorem life_replay (hash : Sha1Hash) {events : List Event} {w w' : World}
    (replayed : replay nextWorld w events = some w') :
    lifeIn w' hash = events.foldl
      (fun v e => if hash = target e then next v (move e) else v) (lifeIn w hash) := by
  induction events generalizing w with
  | nil =>
    simp only [replay, Option.some.injEq] at replayed
    rw [replayed]
    rfl
  | cons e events ih =>
    simp only [replay] at replayed
    split at replayed
    · rename_i t taken
      obtain ⟨possible, rfl⟩ := nextWorld_step w e t taken
      rw [ih replayed, List.foldl_cons, life_step possible]
    · cases replayed

end SessionLives
