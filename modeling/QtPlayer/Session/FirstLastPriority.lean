import Mathlib.Data.Rat.Floor
import Mathlib.Tactic.Linarith
import Mathlib.Tactic.Positivity
import QtPlayer.Library.VectorWrites
import QtPlayer.Session.FilePieces

/- torrenthandle.cpp: setFirstLastPiecePriorityImpl and hasFirstLastPiecePriority. The vectors of
   priorities are the ones libtorrent returns, one entry for each file and for each piece. -/
namespace FirstLastPriority
open FlatPieceMemoryStorage MachineIntegers MachineGeometry RingAddressing FilePieces VectorWrites

/-- The info of a handle without metadata has no files. -/
structure TorrentHandle where
  metadata : Option FileStorage
  filePriorities : List Int
  piecePriorities : List Int
  needsToSetFirstLastPiecePriority : Bool

/-- The percent is an exact one. -/
def nNumPieces (files : FileStorage) (index : Nat) : Int :=
  ⌈(files.fileSize index : Rat) * (1 / 100) / files.pieceLength⌉

def fileWrites (extremities : IndexRange) (count newPrio : Int) : List (Int × Int) :=
  (List.range count.toNat).flatMap fun i : Nat =>
    [(extremities.first + i, newPrio), (extremities.last - i, newPrio)]

/-- The assignments of the loop over the files from `index` on. None is a failed assertion. -/
def writesFrom (build : Build) (files : FileStorage) (enabled : Bool) (index : Nat) :
    List Int → Option (List (Int × Int))
  | [] => some []
  | filePrio :: rest =>
    if filePrio ≤ 0 then writesFrom build files enabled (index + 1) rest
    else do
      let extremities ← filePieces build ⟨some files⟩ index
      let later ← writesFrom build files enabled (index + 1) rest
      some (fileWrites extremities (nNumPieces files index) (if enabled then 7 else filePrio) ++
        later)

/-- None is a failed assertion or an assignment outside of the vector. -/
def setFirstLastPiecePriorityImpl (build : Build) (handle : TorrentHandle) (enabled : Bool)
    (updatedFilePrio : List Int) : Option TorrentHandle :=
  match handle.metadata with
  | none => some { handle with needsToSetFirstLastPiecePriority := enabled }
  | some files => do
    let writes ← writesFrom build files enabled 0
      (if updatedFilePrio ≠ [] then updatedFilePrio else handle.filePriorities)
    let piecePriorities ← assignAll handle.piecePriorities writes
    some { handle with piecePriorities := piecePriorities }

def piece_priority (piecePriorities : List Int) (piece : Int) : Int :=
  (entry piecePriorities piece).getD 0

def readFrom (build : Build) (files : FileStorage) (piecePriorities : List Int) (index : Nat) :
    List Int → Option Bool
  | [] => some false
  | filePrio :: rest =>
    if filePrio ≤ 0 then readFrom build files piecePriorities (index + 1) rest
    else do
      let extremities ← filePieces build ⟨some files⟩ index
      some (piece_priority piecePriorities extremities.first == 7 &&
        piece_priority piecePriorities extremities.last == 7)

def hasFirstLastPiecePriority (build : Build) (handle : TorrentHandle) : Option Bool :=
  match handle.metadata with
  | none => some handle.needsToSetFirstLastPiecePriority
  | some files => readFrom build files handle.piecePriorities 0 handle.filePriorities

/- What setting and reading back should do. -/

def numPieces (files : FileStorage) : Int :=
  (files.fileSizes.sum + files.pieceLength - 1) / files.pieceLength

def firstPiece (files : FileStorage) (index : Nat) : Int :=
  files.fileOffset index / files.pieceLength

/-- Of a file without bytes, the piece of the byte before it. -/
def lastPiece (files : FileStorage) (index : Nat) : Int :=
  (files.fileOffset index + files.fileSize index - 1).tdiv files.pieceLength

structure Loaded (handle : TorrentHandle) (files : FileStorage) : Prop where
  metadata : handle.metadata = some files
  pieces : numPieces files ≤ INT_MAX
  filePriorities : handle.filePriorities.length = files.fileSizes.length
  piecePriorities : (handle.piecePriorities.length : Int) = numPieces files
  wanted : ∃ filePrio ∈ handle.filePriorities, 0 < filePrio
  belowTop : ∀ filePrio ∈ handle.filePriorities, filePrio ≤ 6

def Wanted (filePriorities : List Int) (index : Nat) : Prop :=
  ∃ filePrio, filePriorities[index]? = some filePrio ∧ 0 < filePrio

def ChosenOf (files : FileStorage) (index : Nat) (p : Int) : Prop :=
  ∃ i, 0 ≤ i ∧ i < nNumPieces files index ∧
    (p = firstPiece files index + i ∨ p = lastPiece files index - i)

def Chosen (files : FileStorage) (filePriorities : List Int) (p : Int) : Prop :=
  ∃ index, Wanted filePriorities index ∧ ChosenOf files index p

def firstWanted (filePriorities : List Int) : Nat :=
  filePriorities.findIdx fun filePrio => decide (0 < filePrio)

/-- filePieces makes its assertion only in a debug build. -/
def Asserted (build : Build) (files : FileStorage) (index : Nat) : Prop :=
  build = .debug → ¬ (files.fileSize index = 0 ∧ Boundary files index)

/-- Only pieces of wanted files are indexed, only chosen ones change, and the flag reads back. -/
structure Obeyed (build : Build) (handle : TorrentHandle) (files : FileStorage) (enabled : Bool)
    (after : TorrentHandle) : Prop where
  indexed : ∀ writes, writesFrom build files enabled 0 handle.filePriorities = some writes →
    ∀ write ∈ writes, ∃ index, Wanted handle.filePriorities index ∧ Touches files index write.1
  unchanged : ∀ p, ¬ Chosen files handle.filePriorities p →
    entry after.piecePriorities p = entry handle.piecePriorities p
  others : after = { handle with piecePriorities := after.piecePriorities }
  readBack : hasFirstLastPiecePriority build after = some enabled

def Suits (handle : TorrentHandle) (files : FileStorage) (enabled : Bool) (p : Int) : Prop :=
  Chosen files handle.filePriorities p ∨
    (piece_priority handle.piecePriorities p = 7 ↔ enabled = true)

/-- No assertion fails, and the file that is read back has bytes, or the pieces that are read in
    its place say what the flag does. -/
structure Settable (build : Build) (handle : TorrentHandle) (files : FileStorage)
    (enabled : Bool) : Prop where
  asserted : ∀ index, Wanted handle.filePriorities index → Asserted build files index
  read : 0 < files.fileSize (firstWanted handle.filePriorities) ∨
    if enabled then
      Suits handle files enabled (firstPiece files (firstWanted handle.filePriorities)) ∧
        Suits handle files enabled (lastPiece files (firstWanted handle.filePriorities))
    else
      Suits handle files enabled (firstPiece files (firstWanted handle.filePriorities)) ∨
        Suits handle files enabled (lastPiece files (firstWanted handle.filePriorities))

variable {files : FileStorage} {index : Nat} {build : Build} {handle : TorrentHandle}

theorem Loaded.inside (loaded : Loaded handle files) :
    0 + handle.filePriorities.length ≤ files.fileSizes.length := by
  rw [Nat.zero_add]
  exact loaded.filePriorities.le

/- The pieces of one file. -/

theorem file_within_total (files : FileStorage) (index : Nat) :
    files.fileOffset index + files.fileSize index ≤ files.fileSizes.sum := by
  rw [← fileOffset_succ]
  exact fileOffset_le_total files (index + 1)

theorem lastPiece_of_filled (filled : 0 < files.fileSize index) :
    lastPiece files index =
      (files.fileOffset index + files.fileSize index - 1) / files.pieceLength :=
  Int.tdiv_eq_ediv_of_nonneg (by have := fileOffset_nonneg files index; omega)

theorem lastPiece_lt (filled : 0 < files.fileSize index) :
    lastPiece files index < numPieces files := by
  have positive := pieceLength_positive files
  have within := file_within_total files index
  have next : (files.fileOffset index + files.fileSize index - 1) / files.pieceLength + 1 =
      (files.fileOffset index + files.fileSize index - 1 + files.pieceLength) /
        files.pieceLength := by
    rw [Int.add_ediv_of_dvd_right (dvd_refl _), Int.ediv_self (by omega)]
  rw [lastPiece_of_filled filled, ← Int.add_one_le_iff, next]
  exact block_mono positive (by omega)

theorem firstPiece_bounds (files : FileStorage) (index : Nat) :
    0 ≤ firstPiece files index ∧ firstPiece files index ≤ numPieces files := by
  have positive := pieceLength_positive files
  have within := file_within_total files index
  have size := fileSize_nonneg files index
  constructor
  · exact Int.ediv_nonneg (fileOffset_nonneg files index) (by omega)
  · exact block_mono positive (by omega)

theorem first_le_last_iff (files : FileStorage) (index : Nat) :
    firstPiece files index ≤ lastPiece files index ↔
      ¬ (files.fileSize index = 0 ∧ Boundary files index) := by
  rcases (fileSize_nonneg files index).lt_or_eq with filled | empty
  · rw [lastPiece_of_filled filled]
    exact iff_of_true (first_le_last filled).2 fun both => absurd both.1 filled.ne'
  · have before := lastPiece_of_empty files index
    rw [firstPiece, lastPiece, ← empty, Int.add_zero]
    rcases before with ⟨boundary, last⟩ | ⟨inner, last⟩
    · rw [last]
      exact iff_of_false (by omega) fun none => none ⟨rfl, boundary⟩
    · rw [last]
      exact iff_of_true (le_refl _) fun both => inner both.2

theorem lastPiece_bounds (files : FileStorage) (index : Nat) :
    firstPiece files index - 1 ≤ lastPiece files index ∧
      lastPiece files index ≤ max (firstPiece files index) (numPieces files) := by
  rcases (fileSize_nonneg files index).lt_or_eq with filled | empty
  · have ordered := (first_le_last filled).2
    rw [← lastPiece_of_filled filled] at ordered
    have below := lastPiece_lt filled
    unfold firstPiece
    omega
  · have before := lastPiece_of_empty files index
    unfold firstPiece lastPiece
    rw [← empty, Int.add_zero]
    omega

def extremities (files : FileStorage) (index : Nat) : IndexRange :=
  .ofInterval ⟨firstPiece files index, lastPiece files index⟩

theorem pieces_fit (pieces : numPieces files ≤ INT_MAX) (index : Nat) :
    Fits 31 (firstPiece files index) ∧ Fits 31 (lastPiece files index) := by
  have first := firstPiece_bounds files index
  have last := lastPiece_bounds files index
  unfold INT_MAX at pieces
  unfold Fits
  omega

theorem extremities_ends (pieces : numPieces files ≤ INT_MAX) (index : Nat) :
    (extremities files index).first = firstPiece files index ∧
      (extremities files index).last = lastPiece files index :=
  ⟨rfl, ofInterval_last (pieces_fit pieces index).2⟩

theorem filePieces_some_iff (pieces : numPieces files ≤ INT_MAX)
    (inside : index < files.fileSizes.length) (range : IndexRange) :
    filePieces build ⟨some files⟩ index = some range ↔
      Asserted build files index ∧ range = extremities files index := by
  have ends := pieces_fit pieces index
  have interval : fileInterval build files index =
      makeInterval build (firstPiece files index) (lastPiece files index) := by
    rw [fileInterval_eq]
    exact congrArg₂ _ (int_self ends.1) (int_self ends.2)
  rw [filePieces_inside _ inside, interval, makeInterval]
  split
  · rename_i fails
    simp only [Option.map_none, reduceCtorEq, false_iff]
    intro both
    exact fails.2 ((first_le_last_iff files index).mpr (both.1 fails.1))
  · rename_i passes
    have asserted : Asserted build files index := by
      intro debug fails
      exact passes ⟨debug, fun ordered => (first_le_last_iff files index).mp ordered fails⟩
    simp only [Option.map_some, Option.some.injEq, asserted, true_and, extremities, eq_comm]

/- The number of pieces at each end. -/

theorem nNumPieces_pos (filled : 0 < files.fileSize index) : 0 < nNumPieces files index := by
  have size : (0 : Rat) < files.fileSize index := by exact_mod_cast filled
  have length : (0 : Rat) < files.pieceLength := by exact_mod_cast pieceLength_positive files
  apply Int.ceil_pos.mpr
  positivity

theorem nNumPieces_of_empty (empty : files.fileSize index = 0) : nNumPieces files index = 0 := by
  simp [nNumPieces, empty]

theorem nNumPieces_le (filled : 0 < files.fileSize index) :
    nNumPieces files index ≤ lastPiece files index - firstPiece files index + 1 := by
  have positive := pieceLength_positive files
  have ordered := (first_le_last filled).2
  rw [← lastPiece_of_filled filled] at ordered
  obtain ⟨low, _⟩ := position_in_block positive (files.fileOffset index)
  obtain ⟨_, high⟩ := position_in_block positive
    (files.fileOffset index + files.fileSize index - 1)
  rw [← lastPiece_of_filled filled] at high
  change files.fileOffset index / files.pieceLength ≤ lastPiece files index at ordered
  have bytes : files.fileSize index ≤
      (lastPiece files index - firstPiece files index + 1) * files.pieceLength := by
    unfold firstPiece
    rw [Int.add_mul, Int.sub_mul, Int.one_mul]
    omega
  have bytes' : (files.fileSize index : Rat) ≤
      (lastPiece files index - firstPiece files index + 1) * files.pieceLength := by
    exact_mod_cast bytes
  have length : (0 : Rat) < files.pieceLength := by exact_mod_cast positive
  have size : (0 : Rat) ≤ files.fileSize index := by exact_mod_cast filled.le
  apply Int.ceil_le.mpr
  rw [div_le_iff₀ length]
  push_cast
  linarith

theorem chosenOf_between {p : Int} (chosen : ChosenOf files index p) :
    0 < files.fileSize index ∧ firstPiece files index ≤ p ∧ p ≤ lastPiece files index := by
  obtain ⟨i, nonneg, below, same⟩ := chosen
  rcases (fileSize_nonneg files index).lt_or_eq with filled | empty
  · have count := nNumPieces_le filled
    omega
  · rw [nNumPieces_of_empty empty.symm] at below
    omega

theorem chosenOf_touches {p : Int} (chosen : ChosenOf files index p) : Touches files index p := by
  obtain ⟨filled, between⟩ := chosenOf_between chosen
  rw [touches_iff filled, ← lastPiece_of_filled filled]
  exact between

theorem chosenOf_inside {p : Int} (chosen : ChosenOf files index p) :
    0 ≤ p ∧ p < numPieces files := by
  obtain ⟨filled, low, high⟩ := chosenOf_between chosen
  have first := (firstPiece_bounds files index).1
  have last := lastPiece_lt filled
  omega

theorem ends_chosenOf (filled : 0 < files.fileSize index) :
    ChosenOf files index (firstPiece files index) ∧
      ChosenOf files index (lastPiece files index) := by
  have count := nNumPieces_pos filled
  exact ⟨⟨0, le_refl 0, count, Or.inl (by omega)⟩, ⟨0, le_refl 0, count, Or.inr (by omega)⟩⟩

/- The assignments. -/

def planned (files : FileStorage) (enabled : Bool) (index : Nat) : List Int → List (Int × Int)
  | [] => []
  | filePrio :: rest =>
    if filePrio ≤ 0 then planned files enabled (index + 1) rest
    else fileWrites (extremities files index) (nNumPieces files index)
      (if enabled then 7 else filePrio) ++ planned files enabled (index + 1) rest

theorem wanted_cons_iff {filePrio : Int} {rest : List Int} {P : Nat → Prop} :
    (∀ index, Wanted (filePrio :: rest) index → P index) ↔
      (0 < filePrio → P 0) ∧ ∀ index, Wanted rest index → P (index + 1) := by
  constructor
  · intro all
    constructor
    · intro positive
      exact all 0 ⟨filePrio, rfl, positive⟩
    · intro index wanted
      exact all (index + 1) wanted
  · intro both index wanted
    cases index with
    | zero =>
      obtain ⟨_, same, positive⟩ := wanted
      cases same
      exact both.1 positive
    | succ index => exact both.2 index wanted

theorem writesFrom_some_iff (pieces : numPieces files ≤ INT_MAX) {enabled : Bool}
    (filePriorities : List Int) (index : Nat)
    (inside : index + filePriorities.length ≤ files.fileSizes.length)
    (writes : List (Int × Int)) :
    writesFrom build files enabled index filePriorities = some writes ↔
      (∀ k, Wanted filePriorities k → Asserted build files (index + k)) ∧
        writes = planned files enabled index filePriorities := by
  induction filePriorities generalizing index writes with
  | nil => simp [writesFrom, planned, Wanted, eq_comm]
  | cons filePrio rest ih =>
    rw [List.length_cons] at inside
    have later := ih (index + 1) (by omega)
    have shift : ∀ k, index + 1 + k = index + (k + 1) := by omega
    simp only [shift] at later
    rw [wanted_cons_iff, writesFrom, planned]
    by_cases unwanted : filePrio ≤ 0
    · rw [if_pos unwanted, if_pos unwanted, later]
      have vacuous : 0 < filePrio → Asserted build files (index + 0) := by omega
      rw [and_iff_right vacuous]
    · have positive : 0 < filePrio := by omega
      rw [if_neg unwanted, if_neg unwanted]
      simp only [Option.bind_eq_bind, Option.bind_eq_some_iff,
        filePieces_some_iff pieces (show index < files.fileSizes.length by omega), later,
        positive, true_implies, Nat.add_zero, Option.some.injEq]
      constructor
      · rintro ⟨_, ⟨asserted, rfl⟩, _, ⟨all, rfl⟩, rfl⟩
        exact ⟨⟨asserted, all⟩, rfl⟩
      · rintro ⟨⟨asserted, all⟩, rfl⟩
        exact ⟨_, ⟨asserted, rfl⟩, _, ⟨all, rfl⟩, rfl⟩

theorem mem_fileWrites {range : IndexRange} {count newPrio : Int} {write : Int × Int} :
    write ∈ fileWrites range count newPrio ↔ write.2 = newPrio ∧
      ∃ i, 0 ≤ i ∧ i < count ∧ (write.1 = range.first + i ∨ write.1 = range.last - i) := by
  obtain ⟨position, value⟩ := write
  simp only [fileWrites, List.mem_flatMap, List.mem_range, List.mem_cons, Prod.mk.injEq,
    List.not_mem_nil, or_false]
  constructor
  · rintro ⟨i, below, ⟨same, rfl⟩ | ⟨same, rfl⟩⟩
    · exact ⟨rfl, i, by omega, by omega, Or.inl same⟩
    · exact ⟨rfl, i, by omega, by omega, Or.inr same⟩
  · rintro ⟨rfl, i, nonneg, below, same⟩
    refine ⟨i.toNat, by omega, ?_⟩
    rw [Int.toNat_of_nonneg nonneg]
    exact same.imp (fun eq => ⟨eq, rfl⟩) (fun eq => ⟨eq, rfl⟩)

/-- What is assigned, and to which pieces. -/
theorem mem_planned (pieces : numPieces files ≤ INT_MAX) {enabled : Bool}
    (filePriorities : List Int) (index : Nat) (write : Int × Int) :
    write ∈ planned files enabled index filePriorities ↔
      ∃ k filePrio, filePriorities[k]? = some filePrio ∧ 0 < filePrio ∧
        ChosenOf files (index + k) write.1 ∧ write.2 = if enabled then 7 else filePrio := by
  induction filePriorities generalizing index with
  | nil => simp [planned]
  | cons filePrio rest ih =>
    have ends := extremities_ends pieces index
    have here : write ∈ fileWrites (extremities files index) (nNumPieces files index)
        (if enabled then 7 else filePrio) ↔
          ChosenOf files index write.1 ∧ write.2 = if enabled then 7 else filePrio := by
      rw [mem_fileWrites, ends.1, ends.2, and_comm]
      rfl
    have split : write ∈ planned files enabled index (filePrio :: rest) ↔
        (0 < filePrio ∧ ChosenOf files index write.1 ∧
          write.2 = if enabled then 7 else filePrio) ∨
        write ∈ planned files enabled (index + 1) rest := by
      rw [planned]
      split
      · rename_i unwanted
        have negative : ¬ 0 < filePrio := by omega
        simp only [negative, false_and, false_or]
      · rename_i wanted
        have positive : 0 < filePrio := by omega
        rw [List.mem_append, here]
        simp only [positive, true_and]
    rw [split, ih]
    constructor
    · intro either
      rcases either with ⟨positive, chosen⟩ | ⟨k, prio, found, wanted⟩
      · exact ⟨0, filePrio, rfl, positive, chosen⟩
      · refine ⟨k + 1, prio, found, ?_⟩
        rw [← Nat.add_assoc, Nat.add_right_comm]
        exact wanted
    · rintro ⟨k, prio, found, positive, wanted⟩
      cases k with
      | zero =>
        cases found
        exact Or.inl ⟨positive, wanted⟩
      | succ k =>
        rw [← Nat.add_assoc, Nat.add_right_comm] at wanted
        exact Or.inr ⟨k, prio, found, positive, wanted⟩

theorem readFrom_eq (pieces : numPieces files ≤ INT_MAX) {piecePriorities : List Int}
    (filePriorities : List Int) (index : Nat)
    (inside : index + filePriorities.length ≤ files.fileSizes.length)
    (wanted : ∃ filePrio ∈ filePriorities, 0 < filePrio)
    (asserted : Asserted build files (index + firstWanted filePriorities)) :
    readFrom build files piecePriorities index filePriorities = some
      (piece_priority piecePriorities (firstPiece files (index + firstWanted filePriorities)) ==
          7 &&
        piece_priority piecePriorities (lastPiece files (index + firstWanted filePriorities)) ==
          7) := by
  induction filePriorities generalizing index with
  | nil => simp at wanted
  | cons filePrio rest ih =>
    rw [List.length_cons] at inside
    by_cases positive : 0 < filePrio
    · have first : firstWanted (filePrio :: rest) = 0 := by
        simp [firstWanted, List.findIdx_cons, positive]
      rw [first, Nat.add_zero] at asserted ⊢
      have found := (filePieces_some_iff pieces (show index < files.fileSizes.length by omega)
        _).mpr ⟨asserted, rfl⟩
      have ends := extremities_ends pieces index
      rw [readFrom, if_neg (by omega), found, ← ends.1, ← ends.2]
      rfl
    · have later : firstWanted (filePrio :: rest) = firstWanted rest + 1 := by
        simp [firstWanted, List.findIdx_cons, positive]
      have rest_wanted : ∃ filePrio ∈ rest, 0 < filePrio := by
        simpa [positive] using wanted
      have shift : index + firstWanted (filePrio :: rest) = index + 1 + firstWanted rest := by
        omega
      rw [shift] at asserted ⊢
      rw [readFrom, if_pos (by omega)]
      exact ih (index + 1) (by omega) rest_wanted asserted

theorem firstWanted_wanted {filePriorities : List Int}
    (wanted : ∃ filePrio ∈ filePriorities, 0 < filePrio) :
    Wanted filePriorities (firstWanted filePriorities) := by
  have inside : firstWanted filePriorities < filePriorities.length :=
    List.findIdx_lt_length_of_exists (by simpa using wanted)
  have positive := List.findIdx_getElem (w := inside)
  exact ⟨_, List.getElem?_eq_getElem inside, of_decide_eq_true positive⟩

theorem chosen_iff_written (pieces : numPieces files ≤ INT_MAX) (enabled : Bool)
    (filePriorities : List Int) (p : Int) :
    Chosen files filePriorities p ↔
      ∃ write ∈ planned files enabled 0 filePriorities, write.1 = p := by
  simp only [mem_planned pieces, Nat.zero_add, Chosen, Wanted]
  constructor
  · rintro ⟨index, ⟨filePrio, found, positive⟩, chosen⟩
    exact ⟨(p, if enabled then 7 else filePrio), ⟨index, filePrio, found, positive, chosen, rfl⟩,
      rfl⟩
  · rintro ⟨write, ⟨index, filePrio, found, positive, chosen, _⟩, rfl⟩
    exact ⟨index, ⟨filePrio, found, positive⟩, chosen⟩

theorem planned_inside (loaded : Loaded handle files) (enabled : Bool) :
    ∃ piecePriorities, assignAll handle.piecePriorities
      (planned files enabled 0 handle.filePriorities) = some piecePriorities := by
  rw [assignAll_some_iff, loaded.piecePriorities]
  intro write mem
  obtain ⟨_, _, _, _, chosen, _⟩ := (mem_planned loaded.pieces _ _ _).mp mem
  exact chosenOf_inside chosen

/-- A chosen piece gets the top priority exactly if the flag asks for it: no file has it. -/
theorem suits_iff (loaded : Loaded handle files) {enabled : Bool} {piecePriorities : List Int}
    (done : assignAll handle.piecePriorities (planned files enabled 0 handle.filePriorities) =
      some piecePriorities) (p : Int) :
    (piece_priority piecePriorities p = 7 ↔ enabled = true) ↔ Suits handle files enabled p := by
  unfold Suits
  rw [chosen_iff_written loaded.pieces enabled]
  rcases entry_assignAll done p with ⟨write, mem, same, held⟩ | ⟨absent, held⟩
  · obtain ⟨k, filePrio, found, _, _, value⟩ := (mem_planned loaded.pieces _ _ _).mp mem
    have below := loaded.belowTop filePrio (List.mem_of_getElem? found)
    refine iff_of_true ?_ (Or.inl ⟨write, mem, same⟩)
    rw [piece_priority, held, Option.getD_some, value]
    cases enabled with
    | true => simp
    | false => simp only [Bool.false_eq_true, if_false, iff_false]; omega
  · have unwritten : ¬ ∃ write ∈ planned files enabled 0 handle.filePriorities, write.1 = p := by
      rintro ⟨write, mem, same⟩
      exact absent write mem same
    simp only [unwritten, false_or, piece_priority, held]

theorem setFirstLastPiecePriorityImpl_some_iff (loaded : Loaded handle files) {enabled : Bool}
    {updatedFilePrio : List Int}
    (same : updatedFilePrio = [] ∨ updatedFilePrio = handle.filePriorities)
    (after : TorrentHandle) :
    setFirstLastPiecePriorityImpl build handle enabled updatedFilePrio = some after ↔
      (∀ index, Wanted handle.filePriorities index → Asserted build files index) ∧
        ∃ piecePriorities, assignAll handle.piecePriorities
          (planned files enabled 0 handle.filePriorities) = some piecePriorities ∧
            after = { handle with piecePriorities := piecePriorities } := by
  have used : (if updatedFilePrio ≠ [] then updatedFilePrio else handle.filePriorities) =
      handle.filePriorities := by
    split
    · rename_i given
      exact same.resolve_left given
    · rfl
  simp only [setFirstLastPiecePriorityImpl, loaded.metadata, used, Option.bind_eq_bind,
    Option.bind_eq_some_iff, writesFrom_some_iff loaded.pieces _ 0 loaded.inside, Nat.zero_add,
    Option.some.injEq]
  constructor
  · rintro ⟨_, ⟨asserted, rfl⟩, piecePriorities, done, rfl⟩
    exact ⟨asserted, piecePriorities, done, rfl⟩
  · rintro ⟨asserted, piecePriorities, done, rfl⟩
    exact ⟨_, ⟨asserted, rfl⟩, piecePriorities, done, rfl⟩

theorem readBack_iff (loaded : Loaded handle files) {enabled : Bool} {piecePriorities : List Int}
    (done : assignAll handle.piecePriorities (planned files enabled 0 handle.filePriorities) =
      some piecePriorities)
    (asserted : Asserted build files (firstWanted handle.filePriorities)) :
    hasFirstLastPiecePriority build { handle with piecePriorities := piecePriorities } =
      some enabled ↔
    if enabled then
      Suits handle files enabled (firstPiece files (firstWanted handle.filePriorities)) ∧
        Suits handle files enabled (lastPiece files (firstWanted handle.filePriorities))
    else
      Suits handle files enabled (firstPiece files (firstWanted handle.filePriorities)) ∨
        Suits handle files enabled (lastPiece files (firstWanted handle.filePriorities)) := by
  have asserted' : Asserted build files (0 + firstWanted handle.filePriorities) := by
    rw [Nat.zero_add]
    exact asserted
  simp only [hasFirstLastPiecePriority, loaded.metadata,
    readFrom_eq loaded.pieces _ 0 loaded.inside loaded.wanted asserted', Nat.zero_add,
    ← suits_iff loaded done, Option.some.injEq]
  cases enabled with
  | true => simp
  | false => simp [or_iff_not_imp_left]

theorem filled_suits (enabled : Bool) (filled : 0 < files.fileSize index)
    (wanted : Wanted handle.filePriorities index) :
    Suits handle files enabled (firstPiece files index) ∧
      Suits handle files enabled (lastPiece files index) := by
  obtain ⟨first, last⟩ := ends_chosenOf filled
  exact ⟨Or.inl ⟨index, wanted, first⟩, Or.inl ⟨index, wanted, last⟩⟩

/-- Setting the priorities does what it should exactly if no assertion fails and the first wanted
    file has bytes, or the pieces read in its place say what the flag does. -/
theorem obeyed_iff (loaded : Loaded handle files) (build : Build) (enabled : Bool)
    {updatedFilePrio : List Int}
    (same : updatedFilePrio = [] ∨ updatedFilePrio = handle.filePriorities) :
    (∃ after, setFirstLastPiecePriorityImpl build handle enabled updatedFilePrio = some after ∧
      Obeyed build handle files enabled after) ↔ Settable build handle files enabled := by
  have wanted := firstWanted_wanted loaded.wanted
  simp only [setFirstLastPiecePriorityImpl_some_iff loaded same]
  constructor
  · rintro ⟨_, ⟨asserted, piecePriorities, done, rfl⟩, obeyed⟩
    exact ⟨asserted, Or.inr ((readBack_iff loaded done (asserted _ wanted)).mp obeyed.readBack)⟩
  · rintro ⟨asserted, read⟩
    obtain ⟨piecePriorities, done⟩ := planned_inside loaded enabled
    refine ⟨_, ⟨asserted, piecePriorities, done, rfl⟩, ?_, ?_, rfl, ?_⟩
    · intro writes made write mem
      have only := ((writesFrom_some_iff loaded.pieces _ 0 loaded.inside _).mp made).2
      rw [only, mem_planned loaded.pieces] at mem
      obtain ⟨index, filePrio, found, positive, chosen, _⟩ := mem
      rw [Nat.zero_add] at chosen
      exact ⟨index, ⟨filePrio, found, positive⟩, chosenOf_touches chosen⟩
    · intro p unchosen
      rw [chosen_iff_written loaded.pieces enabled] at unchosen
      rcases entry_assignAll done p with ⟨write, mem, at_p, _⟩ | ⟨_, held⟩
      · exact absurd ⟨write, mem, at_p⟩ unchosen
      · exact held
    · apply (readBack_iff loaded done (asserted _ wanted)).mpr
      rcases read with filled | suits
      · have both := filled_suits enabled filled wanted
        split
        · exact both
        · exact Or.inl both.1
      · exact suits

def fourFiles : FileStorage where
  pieceLength := 90
  fileSizes := [60, 0, 120, 90]
  pieceLength_pos := by decide
  pieceLength_fits := by decide
  fileSizes_nonneg := by decide
  total_fits := by decide

def ordinary (filePriorities : List Int) : TorrentHandle where
  metadata := some fourFiles
  filePriorities := filePriorities
  piecePriorities := [1, 1, 1]
  needsToSetFirstLastPiecePriority := false

/-- The first and the last file are wanted. -/
theorem ordinary_obeyed :
    ∃ after, setFirstLastPiecePriorityImpl .debug (ordinary [1, 0, 0, 4]) true [] = some after ∧
      Obeyed .debug (ordinary [1, 0, 0, 4]) fourFiles true after := by
  have loaded : Loaded (ordinary [1, 0, 0, 4]) fourFiles :=
    ⟨rfl, by decide, rfl, by decide, by decide, by decide⟩
  apply (obeyed_iff loaded .debug true (Or.inl rfl)).mpr
  constructor
  · rintro index ⟨filePrio, found, positive⟩ _ ⟨empty, _⟩
    have inside := (List.getElem?_eq_some_iff.mp found).1
    match index, inside with
    | 0, _ => exact absurd empty (by decide)
    | 1, _ =>
      cases found
      exact absurd positive (by decide)
    | 2, _ => exact absurd empty (by decide)
    | 3, _ => exact absurd empty (by decide)
  · exact Or.inl (by decide)

/-- The first wanted file has no bytes, and the piece it stands in is not chosen. -/
theorem file_without_bytes_read_back :
    ¬ ∀ (handle : TorrentHandle) (files : FileStorage) (build : Build) (enabled : Bool),
      Loaded handle files →
        ∃ after, setFirstLastPiecePriorityImpl build handle enabled [] = some after ∧
          Obeyed build handle files enabled after := by
  intro always
  have loaded : Loaded (ordinary [0, 1, 0, 1]) fourFiles :=
    ⟨rfl, by decide, rfl, by decide, by decide, by decide⟩
  obtain ⟨after, set, obeyed⟩ := always _ _ .release true loaded
  obtain ⟨_, _, done, rfl⟩ :=
    (setFirstLastPiecePriorityImpl_some_iff loaded (Or.inl rfl) after).mp set
  have suits := (readBack_iff loaded done (fun debug => by cases debug)).mp obeyed.readBack
  rcases suits.1 with ⟨index, ⟨filePrio, found, positive⟩, chosen⟩ | top
  · obtain ⟨filled, low, _⟩ := chosenOf_between chosen
    have inside := (List.getElem?_eq_some_iff.mp found).1
    match index, inside with
    | 0, _ =>
      cases found
      exact absurd positive (by decide)
    | 1, _ => exact absurd filled (by decide)
    | 2, _ =>
      cases found
      exact absurd positive (by decide)
    | 3, _ => exact absurd low (by decide)
  · exact absurd (top.mpr rfl) (by decide)

end FirstLastPriority
