import QtPlayer.Session.FirstLastPriority

/- torrenthandle.cpp: availableFileFractions. libtorrent's vector has a number of peers for each
   piece, or nothing for a torrent that only seeds. A quotient is exact. -/
namespace FileAvailability
open FlatPieceMemoryStorage MachineIntegers MachineGeometry RingAddressing FilePieces VectorWrites
open FirstLastPriority

/-- None is NaN, the quotient of two zeros. -/
def quotient (availablePieces size : Int) : Option Rat :=
  if size = 0 then none else some (availablePieces / size)

/-- The pieces from `piece` on. None is an access outside of the vector. -/
def countFrom (piecesAvailability : List Int) (piece : Int) : Nat → Option Int
  | 0 => some 0
  | count + 1 => do
    let availability ← entry piecesAvailability piece
    let later ← countFrom piecesAvailability (piece + 1) count
    some ((if availability > 0 then 1 else 0) + later)

/-- None is a failed assertion or an access outside of the vector. -/
def fractionOf (build : Build) (files : FileStorage) (piecesAvailability : List Int)
    (file : Nat) : Option (Option Rat) := do
  let range ← filePieces build ⟨some files⟩ file
  let availablePieces ← countFrom piecesAvailability range.first
    (range.last + 1 - range.first).toNat
  some (quotient availablePieces range.size)

def fractionsFrom (build : Build) (files : FileStorage) (piecesAvailability : List Int)
    (file : Nat) : Nat → Option (List (Option Rat))
  | 0 => some []
  | count + 1 => do
    let fraction ← fractionOf build files piecesAvailability file
    let later ← fractionsFrom build files piecesAvailability (file + 1) count
    some (fraction :: later)

def availableFileFractions (build : Build) (metadata : Option FileStorage)
    (piecesAvailability : List Int) : Option (List (Option Rat)) :=
  match metadata with
  | none => some []
  | some files =>
    if piecesAvailability = [] then some (List.replicate files.fileSizes.length (some (-1)))
    else fractionsFrom build files piecesAvailability 0 files.fileSizes.length

def Available (piecesAvailability : List Int) (p : Int) : Prop :=
  ∃ availability, entry piecesAvailability p = some availability ∧ 0 < availability

def AvailableByte (files : FileStorage) (piecesAvailability : List Int) (b : Int) : Prop :=
  Available piecesAvailability (b / files.pieceLength)

def HasByte (files : FileStorage) (file : Nat) (b : Int) : Prop :=
  files.fileOffset file ≤ b ∧ b < files.fileOffset file + files.fileSize file

/-- A share of the pieces, with what it says at its two ends. -/
structure Share (q : Rat) (all none : Prop) : Prop where
  nonneg : 0 ≤ q
  le_one : q ≤ 1
  whole : q = 1 ↔ all
  nothing : q = 0 ↔ none

/-- What the list says of a file: one with bytes is judged by its bytes, one without by the piece
    it stands in, and has no pieces at all at the boundary of two. -/
structure Tells (files : FileStorage) (piecesAvailability : List Int) (file : Nat)
    (fraction : Option Rat) : Prop where
  filled : 0 < files.fileSize file → ∃ q, fraction = some q ∧
    Share q (∀ b, HasByte files file b → AvailableByte files piecesAvailability b)
      (∀ b, HasByte files file b → ¬ AvailableByte files piecesAvailability b)
  inside : files.fileSize file = 0 → ¬ Boundary files file → ∃ q, fraction = some q ∧
    Share q (Available piecesAvailability (firstPiece files file))
      (¬ Available piecesAvailability (firstPiece files file))
  boundary : files.fileSize file = 0 → Boundary files file → fraction = none

variable {files : FileStorage} {piecesAvailability : List Int} {build : Build} {file : Nat}

theorem entry_inside (xs : List Int) {p : Int} (low : 0 ≤ p) (high : p < xs.length) :
    ∃ x, entry xs p = some x := by
  rw [entry, if_neg (by omega)]
  exact ⟨_, List.getElem?_eq_getElem (by omega)⟩

theorem countFrom_inside (count : Nat) {p : Int} (low : 0 ≤ p)
    (high : p + count ≤ piecesAvailability.length) :
    ∃ c, countFrom piecesAvailability p count = some c ∧ 0 ≤ c ∧ c ≤ count ∧
      (c = count ↔ ∀ r, p ≤ r → r < p + count → Available piecesAvailability r) ∧
      (c = 0 ↔ ∀ r, p ≤ r → r < p + count → ¬ Available piecesAvailability r) := by
  induction count generalizing p with
  | zero =>
    refine ⟨0, rfl, le_rfl, le_rfl, iff_of_true rfl ?_, iff_of_true rfl ?_⟩
    · intro r after before
      omega
    · intro r after before
      omega
  | succ count ih =>
    obtain ⟨availability, found⟩ := entry_inside piecesAvailability low (by omega)
    obtain ⟨c, counted, nonneg, bound, whole, nothing⟩ := ih (by omega : 0 ≤ p + 1) (by omega)
    have here : Available piecesAvailability p ↔ 0 < availability := by
      simp only [Available, found, Option.some.injEq, exists_eq_left']
    have cut (P : Int → Prop) : (∀ r, p ≤ r → r < p + ((count + 1 : Nat) : Int) → P r) ↔
        P p ∧ ∀ r, p + 1 ≤ r → r < p + 1 + (count : Int) → P r := by
      constructor
      · intro every
        refine ⟨every p (by omega) (by omega), ?_⟩
        intro r after before
        exact every r (by omega) (by omega)
      · intro both r after before
        by_cases first : r = p
        · rw [first]
          exact both.1
        · exact both.2 r (by omega) (by omega)
    refine ⟨(if availability > 0 then 1 else 0) + c, ?_, ?_⟩
    · rw [countFrom, found, Option.bind_eq_bind, Option.bind_some, counted]
      rfl
    · rw [cut, cut, here, ← whole, ← nothing]
      split <;> omega

/- One file. -/

theorem numPieces_pos (whole : (piecesAvailability.length : Int) = numPieces files)
    (some : piecesAvailability ≠ []) : 0 < numPieces files := by
  have positive := List.length_pos_of_ne_nil some
  omega

theorem last_inside (some : 0 < numPieces files) (file : Nat) :
    lastPiece files file < numPieces files := by
  have positive := pieceLength_positive files
  have within := file_within_total files file
  have start := fileOffset_nonneg files file
  rcases (fileSize_nonneg files file).lt_or_eq with filled | empty
  · exact lastPiece_lt filled
  · have first := (firstPiece_bounds files file).2
    obtain ⟨low, _⟩ := position_in_block positive (files.fileOffset file)
    unfold firstPiece at first
    rw [lastPiece, ← empty, Int.add_zero]
    rcases lastPiece_of_empty files file with ⟨_, last⟩ | ⟨inner, last⟩
    · omega
    · rw [last]
      by_cases atStart : files.fileOffset file = 0
      · rw [atStart, Int.zero_ediv]
        exact some
      · have apart : files.fileOffset file / files.pieceLength * files.pieceLength ≠
            files.fileOffset file := by
          intro same
          exact inner ⟨Dvd.intro_left _ same, Or.inl (by omega)⟩
        rw [← Int.add_one_le_iff, numPieces, Int.le_ediv_iff_mul_le positive, Int.add_mul,
          Int.one_mul]
        omega

theorem extremities_size (pieces : numPieces files ≤ INT_MAX) (some : 0 < numPieces files)
    (file : Nat) :
    (extremities files file).size = lastPiece files file - firstPiece files file + 1 := by
  have first := firstPiece_bounds files file
  have last := lastPiece_bounds files file
  have inside := last_inside some file
  unfold INT_MAX at pieces
  simp only [extremities, IndexRange.ofInterval]
  rw [int_self (n := lastPiece files file - firstPiece files file) ⟨by omega, by omega⟩,
    int_self ⟨by omega, by omega⟩]

theorem fractionOf_some (pieces : numPieces files ≤ INT_MAX)
    (whole : (piecesAvailability.length : Int) = numPieces files) (some : 0 < numPieces files)
    (inside : file < files.fileSizes.length) (asserted : Asserted build files file) :
    ∃ c, fractionOf build files piecesAvailability file =
        .some (quotient c (lastPiece files file - firstPiece files file + 1)) ∧
      0 ≤ c ∧ c ≤ lastPiece files file - firstPiece files file + 1 ∧
      (c = lastPiece files file - firstPiece files file + 1 ↔ ∀ r, firstPiece files file ≤ r →
        r ≤ lastPiece files file → Available piecesAvailability r) ∧
      (c = 0 ↔ ∀ r, firstPiece files file ≤ r → r ≤ lastPiece files file →
        ¬ Available piecesAvailability r) := by
  have range := (filePieces_some_iff pieces inside (extremities files file)).mpr ⟨asserted, rfl⟩
  obtain ⟨first, last⟩ := extremities_ends pieces file
  have size := extremities_size pieces some file
  have low := (firstPiece_bounds files file).1
  have ordered := (lastPiece_bounds files file).1
  have high := last_inside some file
  obtain ⟨count, counts⟩ := Int.eq_ofNat_of_zero_le
    (by omega : 0 ≤ lastPiece files file - firstPiece files file + 1)
  obtain ⟨c, counted, nonneg, bound, all, none⟩ := countFrom_inside count low
    (by omega : firstPiece files file + count ≤ piecesAvailability.length)
  have reach (r : Int) : r < firstPiece files file + count ↔ r ≤ lastPiece files file := by omega
  simp only [reach] at all none
  refine ⟨c, ?_, nonneg, by omega, by rw [counts]; exact all, none⟩
  rw [fractionOf, range, Option.bind_eq_bind, Option.bind_some, first, last, size,
    show (lastPiece files file + 1 - firstPiece files file).toNat = count by omega, counted]
  rfl

theorem pieces_iff_bytes (filled : 0 < files.fileSize file) (P : Int → Prop) :
    (∀ r, firstPiece files file ≤ r → r ≤ lastPiece files file → P r) ↔
      ∀ b, HasByte files file b → P (b / files.pieceLength) := by
  have positive := pieceLength_positive files
  have touched (r : Int) := touches_iff filled r
  simp only [← lastPiece_of_filled filled, Touches, Int.add_mul, Int.one_mul] at touched
  constructor
  · intro every b has
    obtain ⟨low, high⟩ := position_in_block positive b
    obtain ⟨first, last⟩ := (touched (b / files.pieceLength)).mp ⟨b, has.1, has.2, low, high⟩
    exact every _ first last
  · intro every r first last
    obtain ⟨b, after, before, low, high⟩ := (touched r).mpr ⟨first, last⟩
    rw [← (block_bounds_iff positive).mpr ⟨low, high⟩]
    exact every b ⟨after, before⟩

theorem share_of_count {c n : Int} {all none : Prop} (some : 0 < n) (nonneg : 0 ≤ c)
    (bound : c ≤ n) (whole : c = n ↔ all) (nothing : c = 0 ↔ none) :
    ∃ q, quotient c n = .some q ∧ Share q all none := by
  have divisor : (0 : Rat) < n := by exact_mod_cast some
  refine ⟨(c : Rat) / n, if_neg some.ne', ?_⟩
  constructor
  · exact div_nonneg (by exact_mod_cast nonneg) divisor.le
  · rw [div_le_one divisor]
    exact_mod_cast bound
  · rw [div_eq_one_iff_eq divisor.ne', ← whole]
    exact_mod_cast Iff.rfl
  · rw [div_eq_zero_iff, or_iff_left divisor.ne', ← nothing]
    exact_mod_cast Iff.rfl

theorem fractionOf_tells (pieces : numPieces files ≤ INT_MAX)
    (whole : (piecesAvailability.length : Int) = numPieces files) (some : 0 < numPieces files)
    (inside : file < files.fileSizes.length) (asserted : Asserted build files file) :
    ∃ fraction, fractionOf build files piecesAvailability file = .some fraction ∧
      Tells files piecesAvailability file fraction := by
  obtain ⟨c, found, nonneg, bound, all, none⟩ :=
    fractionOf_some pieces whole some inside asserted
  have before := lastPiece_of_empty files file
  refine ⟨_, found, ?_, ?_, ?_⟩
  · intro filled
    have ordered := (first_le_last filled).2
    rw [← lastPiece_of_filled filled] at ordered
    change firstPiece files file ≤ lastPiece files file at ordered
    rw [pieces_iff_bytes filled] at all none
    exact share_of_count (by omega) nonneg bound all none
  · intro empty inner
    have same : lastPiece files file = firstPiece files file := by
      rw [lastPiece, empty, Int.add_zero]
      exact (before.resolve_left fun both => inner both.1).2
    have single (P : Int → Prop) : (∀ r, firstPiece files file ≤ r →
        r ≤ lastPiece files file → P r) ↔ P (firstPiece files file) := by
      rw [same]
      constructor
      · intro every
        exact every _ le_rfl le_rfl
      · intro here r low high
        rw [le_antisymm high low]
        exact here
    rw [single] at all none
    exact share_of_count (by omega) nonneg bound all none
  · intro empty boundary
    have last : lastPiece files file = firstPiece files file - 1 := by
      rw [lastPiece, empty, Int.add_zero]
      exact (before.resolve_right fun both => both.1 boundary).2
    exact if_pos (by omega)

/- All files. -/

theorem fractionsFrom_asserted (pieces : numPieces files ≤ INT_MAX) (count : Nat)
    (inside : file + count ≤ files.fileSizes.length) {res : List (Option Rat)}
    (found : fractionsFrom build files piecesAvailability file count = some res) :
    ∀ i < count, Asserted build files (file + i) := by
  induction count generalizing file res with
  | zero =>
    intro i below
    exact absurd below (Nat.not_lt_zero i)
  | succ count ih =>
    obtain ⟨fraction, here, found⟩ := Option.bind_eq_some_iff.mp found
    obtain ⟨later, rest, _⟩ := Option.bind_eq_some_iff.mp found
    obtain ⟨range, made, _⟩ := Option.bind_eq_some_iff.mp here
    intro i below
    cases i with
    | zero => exact ((filePieces_some_iff pieces (by omega) range).mp made).1
    | succ i =>
      have asserted := ih (by omega) rest i (by omega)
      rwa [show file + 1 + i = file + (i + 1) by omega] at asserted

theorem fractionsFrom_tells (pieces : numPieces files ≤ INT_MAX)
    (whole : (piecesAvailability.length : Int) = numPieces files) (some : 0 < numPieces files)
    (count : Nat) (inside : file + count ≤ files.fileSizes.length)
    (asserted : ∀ i < count, Asserted build files (file + i)) :
    ∃ res, fractionsFrom build files piecesAvailability file count = .some res ∧
      res.length = count ∧ ∀ i < count, ∃ fraction, res[i]? = .some fraction ∧
        Tells files piecesAvailability (file + i) fraction := by
  induction count generalizing file with
  | zero =>
    refine ⟨[], rfl, rfl, ?_⟩
    intro i below
    exact absurd below (Nat.not_lt_zero i)
  | succ count ih =>
    obtain ⟨fraction, here, tells⟩ := fractionOf_tells pieces whole some
      (by omega : file < files.fileSizes.length) (asserted 0 (by omega))
    have others (i : Nat) (below : i < count) : Asserted build files (file + 1 + i) := by
      rw [show file + 1 + i = file + (i + 1) by omega]
      exact asserted (i + 1) (by omega)
    obtain ⟨later, rest, length, each⟩ := ih (by omega : file + 1 + count ≤ _) others
    refine ⟨fraction :: later, ?_, by rw [List.length_cons, length], ?_⟩
    · rw [fractionsFrom, here, Option.bind_eq_bind, Option.bind_some, rest]
      rfl
    · intro i below
      cases i with
      | zero => exact ⟨fraction, rfl, tells⟩
      | succ i =>
        obtain ⟨other, held, tells'⟩ := each i (by omega)
        rw [show file + 1 + i = file + (i + 1) by omega] at tells'
        exact ⟨other, held, tells'⟩

/-- The function answers unless an assertion stops it, and its answer tells of every file what its
    pieces do. -/
theorem fractions_tell (pieces : numPieces files ≤ INT_MAX)
    (whole : (piecesAvailability.length : Int) = numPieces files) (some : piecesAvailability ≠ []) :
    ((∃ res, availableFileFractions build (.some files) piecesAvailability = .some res) ↔
      ∀ file < files.fileSizes.length, Asserted build files file) ∧
    ∀ res, availableFileFractions build (.some files) piecesAvailability = .some res →
      res.length = files.fileSizes.length ∧ ∀ file < files.fileSizes.length,
        ∃ fraction, res[file]? = .some fraction ∧
          Tells files piecesAvailability file fraction := by
  have positive := numPieces_pos whole some
  have loop : availableFileFractions build (.some files) piecesAvailability =
      fractionsFrom build files piecesAvailability 0 files.fileSizes.length := if_neg some
  have answered (asserted : ∀ file < files.fileSizes.length, Asserted build files file) :=
    fractionsFrom_tells pieces whole positive files.fileSizes.length
      (by omega : 0 + files.fileSizes.length ≤ _) (by simpa using asserted)
  have stopped {res : List (Option Rat)}
      (found : fractionsFrom build files piecesAvailability 0 files.fileSizes.length = .some res) :
      ∀ file < files.fileSizes.length, Asserted build files file := by
    simpa using fractionsFrom_asserted pieces files.fileSizes.length (by omega) found
  rw [loop]
  constructor
  · constructor
    · rintro ⟨res, found⟩
      exact stopped found
    · intro asserted
      obtain ⟨res, found, _⟩ := answered asserted
      exact ⟨res, found⟩
  · intro res found
    obtain ⟨_, found', length, each⟩ := answered (stopped found)
    rw [found, Option.some.injEq] at found'
    subst found'
    simp only [Nat.zero_add] at each
    exact ⟨length, each⟩

/-- The middle one of three pieces is missing. -/
theorem third_file_two_thirds : ∃ res,
    availableFileFractions .debug (some threeFiles) [1, 0, 2] = some res ∧
    res[2]? = some (some (2 / 3)) ∧ Tells threeFiles [1, 0, 2] 2 (some (2 / 3)) := by
  have found : availableFileFractions .debug (some threeFiles) [1, 0, 2] =
      some [some 1, some 1, some (2 / 3)] := by decide +kernel
  obtain ⟨fraction, held, tells⟩ := ((fractions_tell (by decide) (by decide) (by decide)).2 _
    found).2 2 (by decide)
  cases held
  exact ⟨_, found, rfl, tells⟩

end FileAvailability
