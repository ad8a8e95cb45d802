import QtPlayer.Session.TorrentData
import QtPlayer.Library.TransitionRuns
import Mathlib.Data.Finset.Basic

/- session.cpp: how Session adds, lists, preloads and deletes torrents, and what its alert
   handlers do, over a libtorrent session that is a set of info hashes. A function that lets an
   exception out returns none beside the state it leaves. -/
namespace TorrentSession
open TorrentData TransitionRuns

abbrev Map (α : Type) := AList fun _ : Sha1Hash => α

structure NativeTorrent where
  info : TorrentInfo
  trackers : List String
  urlSeeds : List String

structure AddRequest where
  infoHash : Sha1Hash
  ti : TorrentInfo
  piecePriorities : List Nat
  trackers : List String
  urlSeeds : List String
  deriving DecidableEq

inductive Alert where
  | addTorrent (infoHash : Sha1Hash) (error : Option String)
  | torrentRemoved (infoHash : Sha1Hash)
  | torrentDeleted (infoHash : Sha1Hash)
  | torrentDeleteFailed (infoHash : Sha1Hash)
  | metadataReceived (infoHash : Sha1Hash)
  deriving DecidableEq

/-- `removing` are the torrents whose removal was requested and has not ended, `requests`
    the asynchronous additions not yet performed. -/
structure NativeSession where
  torrents : Map NativeTorrent
  removing : Finset Sha1Hash
  requests : List AddRequest
  alerts : List Alert
  activeDownloads : Int
  activeLimit : Int

/-- A valid handle is the hash of a torrent in the session, any other one is none. -/
def handleOf (native : NativeSession) (hash : Sha1Hash) : Option Sha1Hash :=
  if hash ∈ native.torrents then some hash else none

/-- A removal ends before anything that is asked for after it; a torrent that is there is
    left as it is. -/
def addTorrent (native : NativeSession) (p : AddRequest) : NativeSession :=
  if p.infoHash ∈ native.torrents ∧ p.infoHash ∉ native.removing then native
  else { native with
    torrents := native.torrents.insert p.infoHash ⟨p.ti, p.trackers, p.urlSeeds⟩
    removing := native.removing.erase p.infoHash
    alerts := if p.infoHash ∈ native.removing then native.alerts ++ [.torrentRemoved p.infoHash]
      else native.alerts }

def removeTorrent (native : NativeSession) (hash : Sha1Hash) : NativeSession :=
  if hash ∈ native.torrents then { native with removing := insert hash native.removing }
  else native

/-- TorrentHandle::addTrackers and addUrlSeeds; none when the native handle has expired. -/
def mergeSources (native : NativeSession) (hash : Sha1Hash) (trackers urlSeeds : List String) :
    Option NativeSession :=
  match native.torrents.lookup hash with
  | some torrent => some { native with
      torrents := native.torrents.insert hash { torrent with
        trackers := torrent.trackers ++ trackers.filter (· ∉ torrent.trackers)
        urlSeeds := torrent.urlSeeds ++ urlSeeds.filter (· ∉ torrent.urlSeeds) } }
  | none => if trackers = [] ∧ urlSeeds = [] then some native else none

/-- `address` is where the object is, which tells it from any other one. -/
structure TorrentHandle where
  address : Nat
  hash : Sha1Hash
  name : String
  torrentInfo : TorrentInfo
  hasRootFolder : Bool
  ratioLimit : Rat
  seedingTimeLimit : Int

def hasMetadata (torrent : NativeTorrent) : Bool := torrent.info.nativeInfo.isSome

/-- The constructor reads the status of the native torrent, which throws for an expired handle. -/
def constructHandle (native : NativeSession) (address : Nat) (hash : Sha1Hash)
    (params : CreateTorrentParams) : Option TorrentHandle :=
  (native.torrents.lookup hash).map fun torrent =>
    { address := address
      hash := hash
      name := params.name
      torrentInfo := torrent.info
      hasRootFolder := params.hasRootFolder &&
        !(!params.restored && hasMetadata torrent && decide (torrent.info.filesCount = 1))
      ratioLimit := params.ratioLimit
      seedingTimeLimit := params.seedingTimeLimit }

structure RemovingTorrentData where
  savePathToRemove : String
  requestedFileDeletion : Bool

inductive Signal where
  | addTorrentFailed (error : String)
  | torrentAdded (infoHash : Sha1Hash)
  | torrentNew (infoHash : Sha1Hash)
  | torrentAboutToBeRemoved (infoHash : Sha1Hash)
  | metadataLoaded (info : TorrentInfo)
  | torrentMetadataLoaded (infoHash : Sha1Hash)
  | smartRemoveEmptyFolderTree (path : String)

/-- `allocated` is the address the next new TorrentHandle gets. -/
structure Session where
  torrents : Map TorrentHandle
  addingTorrents : Map CreateTorrentParams
  loadedMetadata : Map TorrentInfo
  removingTorrents : Map RemovingTorrentData
  extraLimit : Int
  isQueueingEnabled : Bool
  maxActiveDownloads : Int
  maxActiveTorrents : Int
  isAddTrackersEnabled : Bool
  isAppendExtensionEnabled : Bool
  additionalTrackerList : List String
  seedingLimitTimerActive : Bool
  allocated : Nat
  signals : List Signal
  nativeSession : NativeSession

def adjustLimits (s : Session) : Session :=
  if s.isQueueingEnabled then
    let limit (configured : Int) :=
      if -1 < configured then configured + s.extraLimit else configured
    { s with nativeSession := { s.nativeSession with
        activeDownloads := limit s.maxActiveDownloads
        activeLimit := limit s.maxActiveTorrents } }
  else s

def isKnownTorrent (s : Session) (hash : Sha1Hash) : Bool :=
  decide (hash ∈ s.torrents) || decide (hash ∈ s.addingTorrents) || decide (hash ∈ s.loadedMetadata)

def deleteTorrent (s : Session) (hash : Sha1Hash) : Session × Bool :=
  if hash ∈ s.torrents then
    ({ s with
        torrents := s.torrents.erase hash
        signals := s.signals ++ [.torrentAboutToBeRemoved hash] }, true)
  else (s, false)

/-- `found` says whether find_torrent returned a valid handle. -/
def cancelLoadMetadata (s : Session) (hash : Sha1Hash) (found : Bool) : Session × Bool :=
  if hash ∈ s.loadedMetadata then
    let s := { s with loadedMetadata := s.loadedMetadata.erase hash }
    if found then ({ s with nativeSession := removeTorrent s.nativeSession hash }, true)
    else (s, false)
  else (s, false)

def createTorrentHandle (s : Session) (nativeHandle : Option Sha1Hash) : Session × Option Unit :=
  match nativeHandle with
  -- an expired handle reports the zero hash, which is no torrent's
  | none => (s, some ())
  | some hash =>
    match s.addingTorrents.lookup hash with
    | none => (s, some ())
    | some params =>
      let s := { s with addingTorrents := s.addingTorrents.erase hash }
      match constructHandle s.nativeSession s.allocated hash params with
      | none => (s, none)
      | some torrent =>
        let native :=
          if !params.restored && s.isAddTrackersEnabled && !torrent.torrentInfo.isPrivate then
            mergeSources s.nativeSession hash s.additionalTrackerList []
          else some s.nativeSession
        let s := { s with
          torrents := s.torrents.insert torrent.hash torrent
          allocated := s.allocated + 1 }
        match native with
        | none => (s, none)
        | some native =>
          ({ s with
              nativeSession := native
              seedingLimitTimerActive := s.seedingLimitTimerActive ||
                decide (0 ≤ torrent.ratioLimit ∨ 0 ≤ torrent.seedingTimeLimit)
              signals := s.signals ++ .torrentAdded hash ::
                if params.restored then [] else [.torrentNew hash] }, some ())

/- libtorrent's priorities, and std::vector over them. -/

def dontDownload : Nat := 0
def lowPriority : Nat := 1
def defaultPriority : Nat := 4
def topPriority : Nat := 7

inductive VectorFailure where
  | lengthError
  | outOfRange (index : Nat)
  | undefinedAccess (index : Nat)
  deriving DecidableEq

def toSize (n : Int) : Nat := (n % 2 ^ 64).toNat

def resize (count value : Nat) : Except VectorFailure (List Nat) :=
  if count < 2 ^ 63 then .ok (List.replicate count value) else .error .lengthError

def assign (xs : List Nat) (index value : Nat) : Except VectorFailure (List Nat) :=
  if index < xs.length then .ok (xs.set index value) else .error (.undefinedAccess index)

def vectorAt (xs : List Nat) (index : Nat) : Except VectorFailure Nat :=
  match xs[index]? with
  | some x => .ok x
  | none => .error (.outOfRange index)

def fillPiecePriorities (piecesCount : Int) : Except VectorFailure (List Nat) := do
  let priorities ← resize (toSize piecesCount) dontDownload
  let priorities ← assign priorities 2 topPriority
  let priorities ← assign priorities 1 defaultPriority
  let priorities ← assign priorities 0 lowPriority
  -- the debug output reads four of them
  let _ ← vectorAt priorities 0
  let _ ← vectorAt priorities 1
  let _ ← vectorAt priorities 2
  let _ ← vectorAt priorities 3808
  return priorities

def fillPiecePriorities2 (piecesCount : Int) : Except VectorFailure (List Nat) := do
  let priorities ← resize (toSize piecesCount) dontDownload
  let priorities ← assign priorities 2 defaultPriority
  let priorities ← assign priorities 1 defaultPriority
  let priorities ← assign priorities 0 topPriority
  return priorities

/- addTorrent_impl. -/

def addPreloaded (s : Session) (params : CreateTorrentParams) (hash : Sha1Hash) (found : Bool) :
    Session × Option Bool :=
  let s := adjustLimits { s with
    loadedMetadata := s.loadedMetadata.erase hash
    extraLimit := s.extraLimit - 1 }
  let s := { s with addingTorrents := s.addingTorrents.insert hash params }
  let created := createTorrentHandle s (if found then some hash else none)
  (created.1, created.2.map fun _ => true)

def prepareInfo (params : CreateTorrentParams) (info : TorrentInfo) :
    CreateTorrentParams × TorrentInfo :=
  if params.restored then (params, info)
  else
    let info := if params.hasRootFolder then info else info.stripRootFolder
    let folder := info.rootFolder
    let contentName := if folder = "" ∧ info.filesCount = 1 then info.fileName 0 else folder
    if params.name = "" ∧ contentName ≠ "" ∧ contentName ≠ info.name then
      ({ params with name := contentName }, info)
    else (params, info)

/-- The torrent is neither preloaded nor rejected as malformed. `p` has its info, trackers
    and seeds, `isPrivate` is that of a torrent file. -/
def addNew (s : Session) (params : CreateTorrentParams) (p : AddRequest) (isPrivate : Bool)
    (piecesCount : Int) : Session × Option Bool :=
  if p.infoHash ∈ s.addingTorrents ∨ p.infoHash ∈ s.loadedMetadata then (s, some false)
  else
    match s.torrents.lookup p.infoHash with
    | some torrent =>
      if torrent.torrentInfo.isPrivate || isPrivate then (s, some false)
      else
        match mergeSources s.nativeSession p.infoHash p.trackers p.urlSeeds with
        | some native => ({ s with nativeSession := native }, some true)
        | none => (s, none)
    | none =>
      match fillPiecePriorities piecesCount with
      | .error _ => (s, none)
      | .ok priorities =>
        ({ s with
            addingTorrents := s.addingTorrents.insert p.infoHash params
            nativeSession := { s.nativeSession with
              requests :=
                s.nativeSession.requests ++ [{ p with piecePriorities := priorities }] } },
          some true)

def addTorrentImpl (s : Session) (params : CreateTorrentParams) (magnetUri : MagnetUri)
    (torrentInfo : TorrentInfo) (found : Bool) : Session × Option Bool :=
  if magnetUri.isValid then
    if magnetUri.hash ∈ s.loadedMetadata then addPreloaded s params magnetUri.hash found
    else addNew s params
      ⟨magnetUri.hash, TorrentInfo.empty, [], magnetUri.trackers, magnetUri.urlSeeds⟩ false
      torrentInfo.piecesCount
  else if torrentInfo.isValid then
    let prepared := prepareInfo params torrentInfo
    addNew s prepared.1 ⟨prepared.2.hash, prepared.2, [], prepared.2.trackers, prepared.2.urlSeeds⟩
      prepared.2.isPrivate prepared.2.piecesCount
  else (s, some false)

/-- `thrown` says whether libtorrent refused the torrent. -/
def addTorrent2 (s : Session) (torrentInfo : TorrentInfo) (thrown : Bool) :
    Session × Option Unit :=
  match fillPiecePriorities2 torrentInfo.piecesCount with
  | .error _ => (s, none)
  | .ok priorities =>
    if thrown then (s, none)
    else ({ s with
      nativeSession := addTorrent s.nativeSession
        ⟨torrentInfo.hash, torrentInfo, priorities, [], []⟩ }, some ())

/-- `ec` says whether libtorrent refused the torrent. -/
def loadMetadata (s : Session) (magnetUri : MagnetUri) (ec : Bool) : Session × Bool :=
  if !magnetUri.isValid || isKnownTorrent s magnetUri.hash || ec then (s, false)
  else
    let p : AddRequest :=
      ⟨magnetUri.hash, TorrentInfo.empty, [], magnetUri.trackers, magnetUri.urlSeeds⟩
    (adjustLimits { s with
      nativeSession := addTorrent s.nativeSession p
      loadedMetadata := s.loadedMetadata.insert magnetUri.hash TorrentInfo.empty
      extraLimit := s.extraLimit + 1 }, true)

/- The alert handlers. -/

def handleAddTorrentAlert (s : Session) (hash : Sha1Hash) (error : Option String) : Session :=
  match error with
  | some message => { s with signals := s.signals ++ [.addTorrentFailed message] }
  | none => (createTorrentHandle s (handleOf s.nativeSession hash)).1

def handleTorrentRemovedAlert (s : Session) (hash : Sha1Hash) : Session :=
  let s : Session := match s.loadedMetadata.lookup hash with
    | some info => { s with
        loadedMetadata := s.loadedMetadata.erase hash
        signals := s.signals ++ [.metadataLoaded info] }
    | none => s
  match s.removingTorrents.lookup hash with
  | some tmpRemovingTorrentData =>
    if tmpRemovingTorrentData.requestedFileDeletion then s
    else { s with removingTorrents := s.removingTorrents.erase hash }
  | none => s

def handleFilesDeleted (s : Session) (hash : Sha1Hash) : Session :=
  match s.removingTorrents.lookup hash with
  | some tmpRemovingTorrentData => { s with
      removingTorrents := s.removingTorrents.erase hash
      signals := s.signals ++
        [.smartRemoveEmptyFolderTree tmpRemovingTorrentData.savePathToRemove] }
  | none => s

def handleMetadataReceivedAlert (s : Session) (hash : Sha1Hash) : Session :=
  match s.nativeSession.torrents.lookup hash with
  | some torrent =>
    if hash ∈ s.loadedMetadata then
      let s := adjustLimits { s with extraLimit := s.extraLimit - 1 }
      { s with
        loadedMetadata := s.loadedMetadata.insert hash torrent.info
        nativeSession := removeTorrent s.nativeSession hash }
    else s
  | none => s

/-- TorrentHandle::handleMetadataReceivedAlert on the listed torrent. The root folder is only
    looked at when the append-extension option is on. -/
def dispatchMetadataReceived (s : Session) (hash : Sha1Hash) : Session :=
  match s.torrents.lookup hash, s.nativeSession.torrents.lookup hash with
  | some torrent, some native =>
    let info := if s.isAppendExtensionEnabled && !torrent.hasRootFolder
      then native.info.stripRootFolder else native.info
    { s with
      torrents := s.torrents.insert hash { torrent with
        torrentInfo := info
        hasRootFolder := torrent.hasRootFolder && !decide (info.filesCount = 1) }
      signals := s.signals ++ [.torrentMetadataLoaded hash] }
  | _, _ => s

def handleAlert (s : Session) : Alert → Session
  | .addTorrent hash error => handleAddTorrentAlert s hash error
  | .torrentRemoved hash => handleTorrentRemovedAlert s hash
  | .torrentDeleted hash => handleFilesDeleted s hash
  | .torrentDeleteFailed hash => handleFilesDeleted s hash
  | .metadataReceived hash => dispatchMetadataReceived (handleMetadataReceivedAlert s hash) hash

/- Runs: calls of the application, alerts handled in any order, and what libtorrent does between
   them. -/

inductive Event where
  | addTorrentImpl (params : CreateTorrentParams) (magnetUri : MagnetUri)
      (torrentInfo : TorrentInfo) (found : Bool)
  | loadMetadata (magnetUri : MagnetUri) (ec : Bool)
  | cancelLoadMetadata (hash : Sha1Hash) (found : Bool)
  | deleteTorrent (hash : Sha1Hash)
  | handleAlert (alert : Alert)
  | asyncAddTorrent (p : AddRequest) (error : Option String)
  | receiveMetadata (hash : Sha1Hash) (info : NativeInfo)
  | endRemoval (hash : Sha1Hash)
  | deleteFiles (hash : Sha1Hash) (failed : Bool)

/-- `unanswered` are the hashes loadMetadata added whose metadata_received_alert has not been
    handled since. -/
structure World where
  session : Session
  unanswered : Finset Sha1Hash

/-- find_torrent may or may not see a torrent that is being removed. -/
def FindsTorrent (native : NativeSession) (hash : Sha1Hash) (found : Bool) : Prop :=
  (found = true → hash ∈ native.torrents) ∧
    (hash ∈ native.torrents → hash ∉ native.removing → found = true)

instance (native : NativeSession) (hash : Sha1Hash) (found : Bool) :
    Decidable (FindsTorrent native hash found) :=
  inferInstanceAs (Decidable (_ ∧ _))

/-- Metadata comes once for an added torrent, a removal ends once for a request. -/
def Possible (native : NativeSession) : Event → Prop
  | .addTorrentImpl _ magnetUri _ found => FindsTorrent native magnetUri.hash found
  | .cancelLoadMetadata hash found => FindsTorrent native hash found
  | .handleAlert alert => alert ∈ native.alerts
  | .asyncAddTorrent p _ => p ∈ native.requests
  | .receiveMetadata hash _ =>
    (native.torrents.lookup hash).map (fun torrent => hasMetadata torrent) = some false
  | .endRemoval hash => hash ∈ native.removing
  | _ => True

instance (native : NativeSession) (e : Event) : Decidable (Possible native e) := by
  cases e <;> simp only [Possible] <;> infer_instance

def post (native : NativeSession) (alert : Alert) : NativeSession :=
  { native with alerts := native.alerts ++ [alert] }

def nativeEvent (native : NativeSession) : Event → NativeSession
  | .asyncAddTorrent p none =>
    post (addTorrent { native with requests := native.requests.erase p } p)
      (.addTorrent p.infoHash none)
  | .asyncAddTorrent p (some message) =>
    post { native with requests := native.requests.erase p } (.addTorrent p.infoHash (some message))
  | .receiveMetadata hash info =>
    match native.torrents.lookup hash with
    | some torrent => post { native with
        torrents := native.torrents.insert hash { torrent with info := ⟨some info⟩ } }
        (.metadataReceived hash)
    | none => native
  | .endRemoval hash => post { native with
      torrents := native.torrents.erase hash
      removing := native.removing.erase hash } (.torrentRemoved hash)
  | .deleteFiles hash failed =>
    post native (if failed then .torrentDeleteFailed hash else .torrentDeleted hash)
  | _ => native

def takeAlert (s : Session) (alert : Alert) : Session :=
  { s with nativeSession := { s.nativeSession with
      alerts := s.nativeSession.alerts.erase alert } }

def sessionAfter (s : Session) : Event → Session
  | .addTorrentImpl params magnetUri torrentInfo found =>
    (addTorrentImpl s params magnetUri torrentInfo found).1
  | .loadMetadata magnetUri ec => (loadMetadata s magnetUri ec).1
  | .cancelLoadMetadata hash found => (cancelLoadMetadata s hash found).1
  | .deleteTorrent hash => (deleteTorrent s hash).1
  | .handleAlert alert => handleAlert (takeAlert s alert) alert
  | e => { s with nativeSession := nativeEvent s.nativeSession e }

def unansweredAfter (w : World) : Event → Finset Sha1Hash
  | .loadMetadata magnetUri ec =>
    if (loadMetadata w.session magnetUri ec).2 then insert magnetUri.hash w.unanswered
    else w.unanswered
  | .handleAlert (.metadataReceived hash) => w.unanswered.erase hash
  | _ => w.unanswered

def worldAfter (w : World) (e : Event) : World where
  session := sessionAfter w.session e
  unanswered := unansweredAfter w e

structure Fresh (s : Session) : Prop where
  torrents : s.torrents = ∅
  addingTorrents : s.addingTorrents = ∅
  loadedMetadata : s.loadedMetadata = ∅
  removingTorrents : s.removingTorrents = ∅
  extraLimit : s.extraLimit = 0
  nativeTorrents : s.nativeSession.torrents = ∅
  removing : s.nativeSession.removing = ∅
  requests : s.nativeSession.requests = []
  alerts : s.nativeSession.alerts = []

def runs : System World Event where
  start w := Fresh w.session ∧ w.unanswered = ∅
  step w e t := Possible w.session.nativeSession e ∧ t = worldAfter w e

def nextWorld (w : World) (e : Event) : Option World :=
  if Possible w.session.nativeSession e then some (worldAfter w e) else none

theorem nextWorld_step (w : World) (e : Event) (t : World) (taken : nextWorld w e = some t) :
    runs.step w e t := by
  unfold nextWorld at taken
  split at taken
  · rename_i possible
    exact ⟨possible, (Option.some.inj taken).symm⟩
  · cases taken

/- A session and a magnet to start from. -/

def newSession : Session where
  torrents := ∅
  addingTorrents := ∅
  loadedMetadata := ∅
  removingTorrents := ∅
  extraLimit := 0
  isQueueingEnabled := true
  maxActiveDownloads := 3
  maxActiveTorrents := 5
  isAddTrackersEnabled := false
  isAppendExtensionEnabled := false
  additionalTrackerList := []
  seedingLimitTimerActive := false
  allocated := 0
  signals := []
  nativeSession := ⟨∅, ∅, [], [], 3, 5⟩

def newWorld : World := ⟨newSession, ∅⟩

theorem newWorld_starts : runs.start newWorld :=
  ⟨⟨rfl, rfl, rfl, rfl, rfl, rfl, rfl, rfl, rfl⟩, rfl⟩

def someHash : Sha1Hash := 7

def someMagnet : MagnetUri := ⟨true, someHash, [], []⟩

def preloading : List Event :=
  [.loadMetadata someMagnet false,
    .receiveMetadata someHash ⟨someHash, true, "film", [["film", "film.mp4"]], 12, false, [], []⟩,
    .handleAlert (.metadataReceived someHash),
    .endRemoval someHash,
    .handleAlert (.torrentRemoved someHash)]

theorem preloading_replays : ∃ w, replay nextWorld newWorld preloading = some w :=
  Option.isSome_iff_exists.mp (by decide)

end TorrentSession
