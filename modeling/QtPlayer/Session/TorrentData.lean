import Mathlib.Algebra.Order.Ring.Int
import Mathlib.Data.List.AList

/- TorrentInfo, MagnetUri and the parameters of a new torrent, with the fields Session reads.
   A file path is the list of its elements; an absolute one starts with the empty element. -/
namespace TorrentData

/-- libtorrent::sha1_hash. InfoHash compares nothing else. -/
abbrev Sha1Hash := BitVec 160

structure NativeInfo where
  infoHash : Sha1Hash
  isValid : Bool
  name : String
  files : List (List String)
  numPieces : Nat
  priv : Bool
  trackers : List String
  webSeeds : List String
  deriving DecidableEq

/-- No native info is the null pointer of a default constructed TorrentInfo. -/
structure TorrentInfo where
  nativeInfo : Option NativeInfo
  deriving DecidableEq

namespace TorrentInfo

def empty : TorrentInfo := ⟨none⟩

def isValid (info : TorrentInfo) : Bool :=
  match info.nativeInfo with
  | some native => native.isValid && decide (0 < native.files.length)
  | none => false

/-- A getter that returns `absent` where the info is not valid. -/
def getter {α : Type} (absent : α) (present : NativeInfo → α) (info : TorrentInfo) : α :=
  match info.nativeInfo with
  | some native => if info.isValid then present native else absent
  | none => absent

def hash : TorrentInfo → Sha1Hash := getter 0 NativeInfo.infoHash

def name : TorrentInfo → String := getter "" NativeInfo.name

def filesCount : TorrentInfo → Int := getter (-1) fun native => native.files.length

def piecesCount : TorrentInfo → Int := getter (-1) fun native => native.numPieces

def isPrivate : TorrentInfo → Bool := getter false NativeInfo.priv

def trackers : TorrentInfo → List String := getter [] NativeInfo.trackers

def urlSeeds : TorrentInfo → List String := getter [] NativeInfo.webSeeds

def filePaths : TorrentInfo → List (List String) := getter [] NativeInfo.files

def fileName (info : TorrentInfo) (index : Nat) : String :=
  (info.filePaths.getD index []).getLastD ""

def isAbsolutePath (path : List String) : Bool := path.head? = some "" && decide (1 < path.length)

def commonFolder (rootFolder : String) : List (List String) → String
  | [] => rootFolder
  | path :: rest =>
    if isAbsolutePath path then commonFolder rootFolder rest
    else if path.length ≤ 1 then ""
    else if rootFolder = "" then commonFolder (path.headD "") rest
    else if rootFolder ≠ path.headD "" then ""
    else commonFolder rootFolder rest

def rootFolder (info : TorrentInfo) : String := commonFolder "" info.filePaths

/-- The first element of every relative path goes, and with it the name of the torrent. -/
def stripRootFolder (info : TorrentInfo) : TorrentInfo :=
  if info.rootFolder = "" then info
  else ⟨info.nativeInfo.map fun native => { native with
    name := ""
    files := native.files.map fun path => if isAbsolutePath path then path else path.tail }⟩

theorem stripRootFolder_keeps (info : TorrentInfo) :
    info.stripRootFolder.isValid = info.isValid ∧ info.stripRootFolder.hash = info.hash ∧
      info.stripRootFolder.piecesCount = info.piecesCount := by
  unfold stripRootFolder
  split
  · exact ⟨rfl, rfl, rfl⟩
  · cases info with
    | mk native =>
      cases native with
      | none => exact ⟨rfl, rfl, rfl⟩
      | some native =>
        simp [isValid, hash, piecesCount, getter]

end TorrentInfo

structure MagnetUri where
  isValid : Bool
  hash : Sha1Hash
  trackers : List String
  urlSeeds : List String

/-- The defaults are those of the default constructor. -/
structure CreateTorrentParams where
  restored : Bool := false
  name : String := ""
  hasRootFolder : Bool := true
  ratioLimit : Rat := -2
  seedingTimeLimit : Int := -2

end TorrentData
