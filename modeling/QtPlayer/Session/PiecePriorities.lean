import QtPlayer.Session.SessionLives

/- The vector of piece priorities that a new torrent is given, and the torrents for which it is
   long enough. -/
namespace PiecePriorities
open TorrentData TorrentSession SessionLives

/- One vector. -/

theorem bind_ok_iff {α β : Type} {x : Except VectorFailure α} {f : α → Except VectorFailure β}
    {b : β} : (x >>= f) = .ok b ↔ ∃ a, x = .ok a ∧ f a = .ok b := by
  cases x with
  | error failure =>
    change Except.error failure = .ok b ↔ _
    simp
  | ok a =>
    change f a = .ok b ↔ _
    simp

theorem resize_ok_iff {count value : Nat} {xs : List Nat} :
    resize count value = .ok xs ↔ count < 2 ^ 63 ∧ List.replicate count value = xs := by
  unfold resize
  split
  · rename_i small
    simp only [Except.ok.injEq, small, true_and]
  · rename_i large
    simp only [reduceCtorEq, large, false_and]

theorem assign_ok_iff {xs ys : List Nat} {index value : Nat} :
    assign xs index value = .ok ys ↔ index < xs.length ∧ xs.set index value = ys := by
  unfold assign
  split
  · rename_i inside
    simp [inside]
  · rename_i outside
    simp [outside]

theorem vectorAt_ok_iff {xs : List Nat} {index value : Nat} :
    vectorAt xs index = .ok value ↔ xs[index]? = some value := by
  unfold vectorAt
  split
  · rename_i found
    simp [found]
  · rename_i absent
    simp [absent]

theorem fillPiecePriorities_ok_iff (n : Int) :
    (∃ priorities, fillPiecePriorities n = .ok priorities) ↔
      toSize n < 2 ^ 63 ∧ 3809 ≤ toSize n := by
  simp only [fillPiecePriorities, bind_ok_iff, resize_ok_iff, assign_ok_iff, vectorAt_ok_iff]
  constructor
  · rintro ⟨_, _, ⟨small, rfl⟩, _, ⟨_, rfl⟩, _, ⟨_, rfl⟩, _, ⟨_, rfl⟩, _, _, _, _, _, _, _, last, _⟩
    obtain ⟨inside, _⟩ := List.getElem?_eq_some_iff.mp last
    simp only [List.length_set, List.length_replicate] at inside
    exact ⟨small, inside⟩
  · rintro ⟨small, long⟩
    have inside (index : Nat) (below : index < 3809) :
        ∃ x, ((((List.replicate (toSize n) dontDownload).set 2 topPriority).set 1
          defaultPriority).set 0 lowPriority)[index]? = some x := by
      refine ⟨_, List.getElem?_eq_getElem ?_⟩
      simp only [List.length_set, List.length_replicate]
      omega
    obtain ⟨_, first⟩ := inside 0 (by omega)
    obtain ⟨_, second⟩ := inside 1 (by omega)
    obtain ⟨_, third⟩ := inside 2 (by omega)
    obtain ⟨_, last⟩ := inside 3808 (by omega)
    refine ⟨_, _, ⟨small, rfl⟩, _, ⟨?_, rfl⟩, _, ⟨?_, rfl⟩, _, ⟨?_, rfl⟩, _, first, _, second, _,
      third, _, last, rfl⟩ <;> simp only [List.length_set, List.length_replicate] <;> omega

theorem fillPiecePriorities2_ok_iff (n : Int) :
    (∃ priorities, fillPiecePriorities2 n = .ok priorities) ↔
      toSize n < 2 ^ 63 ∧ 3 ≤ toSize n := by
  simp only [fillPiecePriorities2, bind_ok_iff, resize_ok_iff, assign_ok_iff]
  constructor
  · rintro ⟨_, _, ⟨small, rfl⟩, _, ⟨third, rfl⟩, _⟩
    rw [List.length_replicate] at third
    exact ⟨small, third⟩
  · rintro ⟨small, long⟩
    refine ⟨_, _, ⟨small, rfl⟩, _, ⟨?_, rfl⟩, _, ⟨?_, rfl⟩, ?_, rfl⟩ <;>
      simp only [List.length_set, List.length_replicate] <;> omega

/- The entry points. -/

section Entry

variable {s : Session} {params : CreateTorrentParams} {p : AddRequest} {isPrivate : Bool}
  {piecesCount : Int}

theorem unknown_iff {hash : Sha1Hash} : isKnownTorrent s hash = false ↔
    hash ∉ s.torrents ∧ hash ∉ s.addingTorrents ∧ hash ∉ s.loadedMetadata := by
  simp only [isKnownTorrent, Bool.or_eq_false_iff, decide_eq_false_iff_not, and_assoc]

theorem addNew_filled {priorities : List Nat} (unknown : isKnownTorrent s p.infoHash = false)
    (filled : fillPiecePriorities piecesCount = .ok priorities) :
    addNew s params p isPrivate piecesCount = ({ s with
      addingTorrents := s.addingTorrents.insert p.infoHash params
      nativeSession := { s.nativeSession with
        requests := s.nativeSession.requests ++ [{ p with piecePriorities := priorities }] } },
      some true) := by
  obtain ⟨notListed, notAdding, notLoading⟩ := unknown_iff.mp unknown
  rw [addNew, if_neg (not_or.mpr ⟨notAdding, notLoading⟩), AList.lookup_eq_none.mpr notListed]
  simp only [filled]

theorem addNew_failed (unknown : isKnownTorrent s p.infoHash = false)
    (failure : ¬ ∃ priorities, fillPiecePriorities piecesCount = .ok priorities) :
    addNew s params p isPrivate piecesCount = (s, none) := by
  obtain ⟨notListed, notAdding, notLoading⟩ := unknown_iff.mp unknown
  rw [addNew, if_neg (not_or.mpr ⟨notAdding, notLoading⟩), AList.lookup_eq_none.mpr notListed]
  cases filled : fillPiecePriorities piecesCount with
  | error _ => rfl
  | ok priorities => exact absurd ⟨priorities, filled⟩ failure

def fileRequest (params : CreateTorrentParams) (torrentInfo : TorrentInfo) : AddRequest :=
  let info := (prepareInfo params torrentInfo).2
  ⟨info.hash, info, [], info.trackers, info.urlSeeds⟩

theorem addTorrentImpl_file {magnetUri : MagnetUri} {torrentInfo : TorrentInfo} {found : Bool}
    (fromFile : ¬ magnetUri.isValid = true) (valid : torrentInfo.isValid = true) :
    addTorrentImpl s params magnetUri torrentInfo found =
      addNew s (prepareInfo params torrentInfo).1 (fileRequest params torrentInfo)
        (prepareInfo params torrentInfo).2.isPrivate
        (prepareInfo params torrentInfo).2.piecesCount := by
  rw [addTorrentImpl, if_neg fromFile, if_pos valid]
  rfl

def Inserted (result : Session × Option Bool) (hash : Sha1Hash) : Prop :=
  hash ∈ result.1.addingTorrents ∧ result.2 = some true

theorem addNew_inserted_iff (unknown : isKnownTorrent s p.infoHash = false) :
    Inserted (addNew s params p isPrivate piecesCount) p.infoHash ↔
      ∃ priorities, fillPiecePriorities piecesCount = .ok priorities := by
  constructor
  · rintro ⟨_, answer⟩
    by_contra failure
    rw [addNew_failed unknown failure] at answer
    cases answer
  · rintro ⟨priorities, filled⟩
    rw [addNew_filled unknown filled]
    exact ⟨(AList.mem_insert _).mpr (Or.inl rfl), rfl⟩

end Entry

/-- What an entry point is called with; addTorrent_impl gets an empty torrent with a magnet, and
    no magnet with a torrent file. -/
inductive Addition where
  | magnet (params : CreateTorrentParams) (magnetUri : MagnetUri) (found : Bool)
  | torrent (params : CreateTorrentParams) (torrentInfo : TorrentInfo) (found : Bool)
  | torrent2 (torrentInfo : TorrentInfo)

def noMagnet : MagnetUri := ⟨false, 0, [], []⟩

/-- The additions the entry points go on with; the number of pieces is an int. -/
def Accepted (s : Session) : Addition → Prop
  | .magnet _ magnetUri _ => magnetUri.isValid = true ∧ isKnownTorrent s magnetUri.hash = false
  | .torrent _ torrentInfo _ => torrentInfo.isValid = true ∧ 1 ≤ torrentInfo.piecesCount ∧
    torrentInfo.piecesCount < 2 ^ 31 ∧ isKnownTorrent s torrentInfo.hash = false
  | .torrent2 torrentInfo => torrentInfo.isValid = true ∧ torrentInfo.piecesCount < 2 ^ 31

/-- The size is one, every access is inside the vector, and addTorrent_impl ends as it should. -/
def StaysInBounds (s : Session) : Addition → Prop
  | .magnet params magnetUri found => 0 ≤ TorrentInfo.empty.piecesCount ∧
    (∃ priorities, fillPiecePriorities TorrentInfo.empty.piecesCount = .ok priorities) ∧
    Inserted (addTorrentImpl s params magnetUri TorrentInfo.empty found) magnetUri.hash
  | .torrent params torrentInfo found => 0 ≤ torrentInfo.piecesCount ∧
    (∃ priorities, fillPiecePriorities torrentInfo.piecesCount = .ok priorities) ∧
    Inserted (addTorrentImpl s params noMagnet torrentInfo found) torrentInfo.hash
  | .torrent2 torrentInfo => 0 ≤ torrentInfo.piecesCount ∧
    ∃ priorities, fillPiecePriorities2 torrentInfo.piecesCount = .ok priorities

/-- The torrent has a piece for every index that is written or read. -/
def HasPieces : Addition → Prop
  | .magnet _ _ _ => False
  | .torrent _ torrentInfo _ => 3809 ≤ torrentInfo.piecesCount
  | .torrent2 torrentInfo => 3 ≤ torrentInfo.piecesCount

theorem piecesCount_nonneg {torrentInfo : TorrentInfo} (valid : torrentInfo.isValid = true) :
    0 ≤ torrentInfo.piecesCount := by
  cases torrentInfo with
  | mk native =>
    cases native with
    | none => cases valid
    | some native =>
      simp only [TorrentInfo.piecesCount, TorrentInfo.getter, valid, ↓reduceIte]
      exact Int.natCast_nonneg _

theorem toSize_of_int {n : Int} (nonneg : 0 ≤ n) (small : n < 2 ^ 31) : toSize n = n.toNat := by
  rw [toSize, Int.emod_eq_of_lt nonneg (by omega)]

theorem torrent_inserted_iff {s : Session} {params : CreateTorrentParams}
    {torrentInfo : TorrentInfo} {found : Bool} (valid : torrentInfo.isValid = true)
    (unknown : isKnownTorrent s torrentInfo.hash = false) :
    Inserted (addTorrentImpl s params noMagnet torrentInfo found) torrentInfo.hash ↔
      ∃ priorities, fillPiecePriorities torrentInfo.piecesCount = .ok priorities := by
  obtain ⟨sameHash, samePieces⟩ := prepareInfo_keeps params torrentInfo
  rw [addTorrentImpl_file (by decide) valid, ← samePieces,
    ← sameHash]
  apply addNew_inserted_iff
  rw [fileRequest, sameHash]
  exact unknown

/-- No magnet stays in bounds, and a torrent does exactly if it has enough pieces. -/
theorem stays_in_bounds_iff {s : Session} {a : Addition} (accepted : Accepted s a) :
    StaysInBounds s a ↔ HasPieces a := by
  cases a with
  | magnet params magnetUri found =>
    refine iff_of_false ?_ id
    rintro ⟨nonneg, _⟩
    exact absurd nonneg (by decide)
  | torrent params torrentInfo found =>
    obtain ⟨valid, _, small, unknown⟩ := accepted
    have nonneg := piecesCount_nonneg valid
    rw [StaysInBounds, torrent_inserted_iff valid unknown, and_self, fillPiecePriorities_ok_iff,
      toSize_of_int nonneg small, HasPieces]
    omega
  | torrent2 torrentInfo =>
    obtain ⟨valid, small⟩ := accepted
    have nonneg := piecesCount_nonneg valid
    rw [StaysInBounds, fillPiecePriorities2_ok_iff, toSize_of_int nonneg small, HasPieces]
    omega

def film (pieces : Nat) : TorrentInfo :=
  ⟨some ⟨9, true, "film", [["film", "film.mp4"]], pieces, false, [], []⟩⟩

theorem long_film_stays_in_bounds :
    StaysInBounds newSession (.torrent {} (film 3809) false) := by
  have accepted : Accepted newSession (.torrent {} (film 3809) false) :=
    ⟨rfl, by decide, by decide, by decide⟩
  apply (stays_in_bounds_iff accepted).mpr
  unfold HasPieces
  decide

theorem short_film_leaves_bounds :
    ¬ ∀ (s : Session) (a : Addition), Accepted s a → StaysInBounds s a := by
  intro always
  have short : Accepted newSession (.torrent {} (film 12) false) :=
    ⟨rfl, by decide, by decide, by decide⟩
  obtain ⟨_, filled, _⟩ := always newSession (.torrent {} (film 12) false) short
  have long := ((fillPiecePriorities_ok_iff _).mp filled).2
  revert long
  decide

end PiecePriorities
