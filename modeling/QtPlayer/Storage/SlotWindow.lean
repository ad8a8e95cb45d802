import QtPlayer.Storage.FlatPieceMemoryStorage
import QtPlayer.Storage.MachineGeometry

/- requestSlots in closed form: whatever consecutive list it starts from, it returns the
   window of wanted indices, each with the range recorded for it before, if any. -/
namespace StorageSlots
open FlatPieceMemoryStorage StorageRange StorageGeometry MachineGeometry

def Consecutive : Int → List Slot → Prop
  | _, [] => True
  | k, slot :: rest => slot.1 = k ∧ Consecutive (k + 1) rest

def rangeOf (slotList : List Slot) (p : Int) : Range Int :=
  match slotList.find? fun slot => slot.1 == p with
  | some slot => slot.2
  | none => Range.empty

def windowLength (g : Geometry) (k : Int) : Nat :=
  (min g.cacheSizeInPieces (g.lastPiece - k + 1)).toNat

/-- The indices k, k + 1, ... up to the cache size or the last piece of the file. -/
def window (g : Geometry) (k : Int) : List Int :=
  (List.range (windowLength g k)).map fun i : Nat => k + i

def keptWindow (g : Geometry) (slotList : List Slot) (k : Int) : List Slot :=
  (window g k).map fun p => (p, rangeOf slotList p)

def freshSlots (k : Int) (n : Nat) : List Slot :=
  (List.range n).map fun i : Nat => (k + i, Range.empty)

theorem consecutive_append {k : Int} {l m : List Slot} :
    Consecutive k (l ++ m) ↔ Consecutive k l ∧ Consecutive (k + l.length) m := by
  induction l generalizing k with
  | nil => simp [Consecutive]
  | cons slot l ih =>
    have shift : k + 1 + (l.length : Int) = k + ((slot :: l).length : Int) := by
      simp only [List.length_cons]
      omega
    simp only [List.cons_append, Consecutive, ih, shift, and_assoc]

theorem consecutive_mem {k : Int} {l : List Slot} (consecutive : Consecutive k l) {slot : Slot}
    (mem : slot ∈ l) : k ≤ slot.1 ∧ slot.1 < k + l.length := by
  induction l generalizing k with
  | nil => simp at mem
  | cons first l ih =>
    simp only [List.length_cons]
    rcases List.mem_cons.mp mem with same | later
    · rw [same, consecutive.1]
      omega
    · have := ih consecutive.2 later
      omega

theorem consecutive_getElem? {k : Int} {l : List Slot} (consecutive : Consecutive k l) {i : Nat}
    {slot : Slot} (found : l[i]? = some slot) : slot.1 = k + i := by
  induction l generalizing k i with
  | nil => simp at found
  | cons first l ih =>
    cases i with
    | zero =>
      simp only [List.getElem?_cons_zero, Option.some.injEq] at found
      rw [← found, consecutive.1]
      simp
    | succ i =>
      have := ih consecutive.2 (by simpa using found)
      simp only [Nat.cast_succ]
      omega

theorem freshSlots_succ (k : Int) (n : Nat) :
    freshSlots k (n + 1) = (k, Range.empty) :: freshSlots (k + 1) n := by
  simp only [freshSlots, List.range_succ_eq_map, List.map_cons, List.map_map]
  congr 1
  · simp
  · apply List.map_congr_left
    intro i _
    simp only [Function.comp, Nat.cast_succ]
    congr 1
    omega

theorem freshSlots_snoc (k : Int) (n : Nat) :
    freshSlots k (n + 1) = freshSlots k n ++ [(k + n, Range.empty)] := by
  simp [freshSlots, List.range_succ]

@[simp] theorem freshSlots_length (k : Int) (n : Nat) : (freshSlots k n).length = n := by
  simp [freshSlots]

theorem freshSlots_consecutive (k : Int) (n : Nat) : Consecutive k (freshSlots k n) := by
  induction n generalizing k with
  | zero => simp [freshSlots, Consecutive]
  | succ n ih =>
    rw [freshSlots_succ]
    exact ⟨rfl, ih (k + 1)⟩

theorem freshSlots_mem {k : Int} {n : Nat} {slot : Slot} (mem : slot ∈ freshSlots k n) :
    k ≤ slot.1 ∧ slot.1 < k + n ∧ slot.2 = Range.empty := by
  simp only [freshSlots, List.mem_map, List.mem_range] at mem
  obtain ⟨i, inside, eq⟩ := mem
  rw [← eq]
  exact ⟨by simp, by simpa using inside, rfl⟩

theorem rangeOf_mem {k : Int} {l : List Slot} (consecutive : Consecutive k l) {slot : Slot}
    (mem : slot ∈ l) : rangeOf l slot.1 = slot.2 := by
  induction l generalizing k with
  | nil => simp at mem
  | cons first l ih =>
    rcases List.mem_cons.mp mem with same | later
    · simp [rangeOf, same]
    · have beyond := (consecutive_mem consecutive.2 later).1
      have different : (first.1 == slot.1) = false := by
        have := consecutive.1
        simp only [beq_eq_false_iff_ne, ne_eq]
        omega
      simpa [rangeOf, List.find?_cons, different] using ih consecutive.2 later

theorem rangeOf_not_mem {l : List Slot} {p : Int} (absent : ∀ slot ∈ l, slot.1 ≠ p) :
    rangeOf l p = Range.empty := by
  have none : l.find? (fun slot => slot.1 == p) = none := by
    simpa using absent
  simp [rangeOf, none]

theorem consecutive_eq_map {k : Int} {l : List Slot} {f : Int → Range Int}
    (consecutive : Consecutive k l) (ranges : ∀ slot ∈ l, slot.2 = f slot.1) :
    l = (List.range l.length).map fun i : Nat => (k + i, f (k + i)) := by
  apply List.ext_getElem?
  intro i
  cases found : l[i]? with
  | none =>
    have short : l.length ≤ i := by simpa using found
    simp [short]
  | some slot =>
    have inside : i < l.length := by
      obtain ⟨bound, _⟩ := List.getElem?_eq_some_iff.mp found
      exact bound
    have index := consecutive_getElem? consecutive found
    have range := ranges slot (List.mem_of_getElem? found)
    simp only [List.getElem?_map, List.getElem?_range inside, Option.map_some, Option.some.injEq]
    exact Prod.ext index (by rw [range, index])

theorem eq_keptWindow {g : Geometry} {slotList l : List Slot} {k : Int}
    (consecutive : Consecutive k l) (length : l.length = windowLength g k)
    (ranges : ∀ slot ∈ l, slot.2 = rangeOf slotList slot.1) : l = keptWindow g slotList k := by
  rw [consecutive_eq_map consecutive ranges, keptWindow, window, List.map_map, length]
  rfl

/- The loops. -/

theorem filter_eq_drop {j k : Int} {l : List Slot} (consecutive : Consecutive j l) :
    (l.filter fun slot => ¬ slot.1 < k) = l.drop (k - j).toNat := by
  induction l generalizing j with
  | nil => simp
  | cons first l ih =>
    by_cases below : j < k
    · have skip : (k - j).toNat = (k - (j + 1)).toNat + 1 := by omega
      rw [skip, List.drop_succ_cons, ← ih consecutive.2]
      simp [consecutive.1, below]
    · have none : (k - j).toNat = 0 := by omega
      rw [none, List.drop_zero, List.filter_eq_self]
      intro slot mem
      have := (consecutive_mem consecutive mem).1
      simp only [decide_not, Bool.not_eq_eq_eq_not, Bool.not_true, decide_eq_false_iff_not]
      omega

theorem consecutive_drop {j : Int} {l : List Slot} (consecutive : Consecutive j l) (n : Nat)
    (bound : n ≤ l.length) : Consecutive (j + n) (l.drop n) := by
  have parts := List.take_append_drop n l
  rw [← parts, consecutive_append] at consecutive
  simpa [Nat.min_eq_left bound] using consecutive.2

theorem consecutive_take {j : Int} {l : List Slot} (consecutive : Consecutive j l) (n : Nat) :
    Consecutive j (l.take n) := by
  have parts := List.take_append_drop n l
  rw [← parts, consecutive_append] at consecutive
  exact consecutive.1

theorem trimSlots_eq {cacheSizeInPieces gapSize : Int} (nonneg : 0 ≤ gapSize)
    (room : gapSize < cacheSizeInPieces) (fuel : Nat) (l : List Slot) (enough : l.length ≤ fuel)
    (counted : gapSize + l.length ≤ INT_MAX) :
    trimSlots cacheSizeInPieces gapSize fuel l =
      l.take (cacheSizeInPieces - gapSize).toNat := by
  induction fuel generalizing l with
  | zero =>
    have empty : l = [] := List.length_eq_zero_iff.mp (by omega)
    simp [empty, trimSlots]
  | succ fuel ih =>
    rw [trimSlots, int_of_fits (by omega) counted]
    split
    · rename_i tooLong
      have shorter : l.dropLast.length = l.length - 1 := List.length_dropLast
      rw [ih l.dropLast (by omega) (by omega), List.dropLast_eq_take, List.take_take]
      congr 1
      omega
    · rename_i fits
      rw [List.take_of_length_le (by omega)]

theorem prependSlots_eq (fuel : Nat) (slotIndex : Int) (l : List Slot) (start : fuel ≤ slotIndex)
    (counted : slotIndex ≤ INT_MAX) :
    prependSlots fuel slotIndex l = freshSlots (slotIndex - fuel) fuel ++ l := by
  induction fuel generalizing slotIndex l with
  | zero => simp [prependSlots, freshSlots]
  | succ fuel ih =>
    have below : slotIndex - 1 - (fuel : Int) = slotIndex - (fuel + 1 : Nat) := by
      simp only [Nat.cast_succ]
      omega
    have final : slotIndex - ((fuel + 1 : Nat) : Int) + fuel = slotIndex - 1 := by
      simp only [Nat.cast_succ]
      omega
    rw [prependSlots, int_of_fits (by omega) (by omega), ih _ _ (by omega) (by omega), below,
      freshSlots_snoc, List.append_assoc, final]
    rfl

theorem appendSlots_eq (g : Geometry) [g.Counted] (fuel : Nat) (k : Int) (l : List Slot)
    (nonneg : 0 ≤ k) (enough : g.cacheSizeInPieces ≤ l.length + fuel) :
    appendSlots g fuel k l =
      l ++ freshSlots k (min (g.cacheSizeInPieces - l.length) (g.lastPiece - k + 1)).toNat := by
  induction fuel generalizing k l with
  | zero =>
    have none : (min (g.cacheSizeInPieces - l.length) (g.lastPiece - k + 1)).toNat = 0 := by
      omega
    simp [appendSlots, none, freshSlots]
  | succ fuel ih =>
    have counts := lastPiece_counts g
    simp only [appendSlots, lastPiece_counted]
    split
    · rename_i more
      have one : (min (g.cacheSizeInPieces - l.length) (g.lastPiece - k + 1)).toNat =
          (min (g.cacheSizeInPieces - (l ++ [(k, Range.empty)]).length)
            (g.lastPiece - (k + 1) + 1)).toNat + 1 := by
        simp only [List.length_append, List.length_singleton, Nat.cast_add, Nat.cast_one]
        omega
      rw [int_of_fits (by omega) (by omega), ih (k + 1) _ (by omega) (by simp; omega), one,
        freshSlots_succ, List.append_assoc]
      rfl
    · rename_i done
      have none : (min (g.cacheSizeInPieces - l.length) (g.lastPiece - k + 1)).toNat = 0 := by
        omega
      simp [none, freshSlots]

theorem consecutiveFrom_true {k : Int} (nonneg : 0 ≤ k) {l : List Slot}
    (consecutive : Consecutive (k + 1) l) (counted : ∀ slot ∈ l, slot.1 ≤ INT_MAX) :
    consecutiveFrom k l = true := by
  induction l generalizing k with
  | nil => rfl
  | cons slot l ih =>
    have seen : k ≠ -1 := by omega
    have index := consecutive.1
    have here := counted slot (by simp)
    have rest := ih (by omega) consecutive.2 fun other mem => counted other (by simp [mem])
    have next : int (k + 1) = k + 1 := int_of_fits (by omega) (by omega)
    simp [consecutiveFrom, seen, next, index, rest]

theorem checkSlotsInvariant_true {k : Int} (nonneg : 0 ≤ k) {l : List Slot}
    (consecutive : Consecutive k l) (counted : ∀ slot ∈ l, slot.1 ≤ INT_MAX) :
    checkSlotsInvariant l = true := by
  cases l with
  | nil => rfl
  | cons slot l =>
    simp only [checkSlotsInvariant, consecutiveFrom, ne_eq, not_true_eq_false, ↓reduceIte]
    rw [consecutive.1]
    exact consecutiveFrom_true nonneg consecutive.2 fun other mem => counted other (by simp [mem])

/-- What requestSlots relies on: no gap, no more slots than the cache has room for, none past
    the end of the file. -/
structure Windowed (g : Geometry) (j : Int) (l : List Slot) : Prop where
  consecutive : Consecutive j l
  short : l.length ≤ g.cacheSizeInPieces
  inFile : ∀ slot ∈ l, slot.1 ≤ g.lastPiece

theorem consecutive_mem_of_bounds {k p : Int} {l : List Slot} (consecutive : Consecutive k l)
    (low : k ≤ p) (high : p < k + l.length) : ∃ slot ∈ l, slot.1 = p := by
  have inside : (p - k).toNat < l.length := by omega
  refine ⟨l[(p - k).toNat], List.getElem_mem inside, ?_⟩
  have := consecutive_getElem? consecutive (List.getElem?_eq_getElem inside)
  omega

/-- Appending to a consecutive list up to the window length keeps what the list records, as
    long as no slot of the window was lost on the way. -/
theorem append_completes_window {g : Geometry} [g.Counted] {slotList kept : List Slot} {k : Int}
    (nonneg : 0 ≤ k) (consecutive : Consecutive k kept) (short : kept.length ≤ windowLength g k)
    (known : ∀ slot ∈ kept, slot.2 = rangeOf slotList slot.1)
    (beyond : ∀ slot ∈ slotList, k + kept.length ≤ slot.1 → k + windowLength g k ≤ slot.1) :
    appendSlots g g.cacheSizeInPieces.toNat (k + kept.length) kept =
      keptWindow g slotList k := by
  have positive := cacheSizeInPieces_positive g
  rw [appendSlots_eq g _ _ _ (by omega) (by omega)]
  refine eq_keptWindow (consecutive_append.mpr ⟨consecutive, freshSlots_consecutive _ _⟩) ?_ ?_
  · simp only [List.length_append, freshSlots_length]
    unfold windowLength at *
    omega
  · intro slot mem
    rcases List.mem_append.mp mem with old | new
    · exact known slot old
    · obtain ⟨above, below, empty⟩ := freshSlots_mem new
      rw [empty, rangeOf_not_mem]
      intro other present same
      have := beyond other present (by omega)
      unfold windowLength at this short
      omega

theorem remaining_consecutive {slotList rest : List Slot} {first : Slot} {j k : Int}
    (consecutive : Consecutive j slotList)
    (remaining : (slotList.filter fun slot => ¬ slot.1 < k) = first :: rest) :
    Consecutive first.1 (first :: rest) := by
  rw [filter_eq_drop consecutive] at remaining
  have bound : (k - j).toNat ≤ slotList.length := by
    by_contra far
    rw [List.drop_eq_nil_of_le (by omega)] at remaining
    cases remaining
  have dropped := consecutive_drop consecutive _ bound
  rw [remaining] at dropped
  exact ⟨rfl, by rw [dropped.1]; exact dropped.2⟩

theorem fresh_then_consecutive {k : Int} {gap : Nat} {l : List Slot}
    (consecutive : Consecutive (k + gap) l) : Consecutive k (freshSlots k gap ++ l) :=
  consecutive_append.mpr ⟨freshSlots_consecutive k gap, by rwa [freshSlots_length]⟩

theorem last_of_consecutive {k : Int} {l : List Slot} (consecutive : Consecutive k l)
    (nonempty : l ≠ []) : ∃ last ∈ l, l.getLast? = some last ∧ last.1 + 1 = k + l.length := by
  have final := List.getLast?_eq_some_getLast nonempty
  refine ⟨l.getLast nonempty, List.getLast_mem nonempty, final, ?_⟩
  have positive := List.length_pos_of_ne_nil nonempty
  rw [List.getLast?_eq_getElem?] at final
  have := consecutive_getElem? consecutive final
  omega

theorem turnsDown_eq {slotIndex k : Int} (le : k ≤ slotIndex) (nonneg : 0 ≤ k)
    (counted : slotIndex ≤ INT_MAX) : turnsDown slotIndex k = slotIndex - k := by
  unfold INT_MAX at counted
  exact Int.emod_eq_of_lt (by omega) (by omega)

/-- New slots fill the gap in front, and only as many of the old ones stay as have room. -/
theorem keepSlots_near {g : Geometry} (build : Build) {first : Slot} {rest : List Slot} {k : Int}
    {gap room : Nat} (consecutive : Consecutive first.1 (first :: rest)) (start : first.1 = k + gap)
    (fits : g.cacheSizeInPieces = gap + room + 1) (nonneg : 0 ≤ k)
    (counted : first.1 + (first :: rest).length ≤ INT_MAX) :
    keepSlots g build (first :: rest) k =
      .ok (freshSlots k gap ++ (first :: rest).take (room + 1),
        k + (freshSlots k gap ++ (first :: rest).take (room + 1)).length) := by
  have gapEq : int (first.1 - k) = gap := by
    rw [int_of_fits (by omega) (by omega)]
    omega
  have near : ¬ (gap : Int) ≥ g.cacheSizeInPieces := by omega
  have trimmed : trimSlots g.cacheSizeInPieces gap (first :: rest).length
      (first :: rest) = (first :: rest).take (room + 1) := by
    rw [trimSlots_eq (by omega) (by omega) _ _ (Nat.le_refl _) (by omega)]
    congr 1
    omega
  have turns : turnsDown first.1 k = gap := by
    rw [turnsDown_eq (by omega) nonneg (by omega)]
    omega
  have short := List.length_take_le (room + 1) (first :: rest)
  have short' := List.length_take_le' (room + 1) (first :: rest)
  have roomy : ¬ (gap : Int) + ((first :: rest).take (room + 1)).length > INT_MAX := by omega
  have prepended : prependSlots gap first.1 ((first :: rest).take (room + 1)) =
      freshSlots k gap ++ (first :: rest).take (room + 1) := by
    rw [prependSlots_eq _ _ _ (by omega) (by omega), show first.1 - (gap : Int) = k by omega]
  have kept := fresh_then_consecutive (start ▸ consecutive_take consecutive (room + 1))
  obtain ⟨last, _, lastEq, lastIndex⟩ := last_of_consecutive kept (by simp)
  have next : int (k + (freshSlots k gap ++ (first :: rest).take (room + 1)).length) =
      k + (freshSlots k gap ++ (first :: rest).take (room + 1)).length := by
    rw [List.length_append, freshSlots_length]
    exact int_of_fits (by omega) (by push_cast; omega)
  simp only [keepSlots, check_holds _ _ (show first.1 ≥ k by omega), ok_bind, gapEq, near,
    ↓reduceIte, trimmed, List.take_succ_cons] at prepended lastEq lastIndex next roomy ⊢
  simp only [turns, roomy, ↓reduceIte, Int.toNat_natCast, prepended, lastEq, lastIndex, next]

theorem keepSlots_spec {g : Geometry} [g.Counted] (build : Build) {slotList : List Slot} {j k : Int}
    (windowed : Windowed g j slotList) (nonneg : 0 ≤ k) :
    ∃ kept, keepSlots g build (slotList.filter fun slot => ¬ slot.1 < k) k =
        .ok (kept, k + kept.length) ∧
      Consecutive k kept ∧ kept.length ≤ windowLength g k ∧
      (∀ slot ∈ kept, slot.2 = rangeOf slotList slot.1) ∧
      ∀ slot ∈ slotList, k + kept.length ≤ slot.1 → k + windowLength g k ≤ slot.1 := by
  have positive := cacheSizeInPieces_positive g
  have remainingMem : ∀ slot, slot ∈ (slotList.filter fun slot => ¬ slot.1 < k) ↔
      slot ∈ slotList ∧ k ≤ slot.1 := by
    intro slot
    simp
  cases remaining : slotList.filter fun slot => ¬ slot.1 < k with
  | nil =>
    rw [remaining] at remainingMem
    refine ⟨[], by simp [keepSlots], trivial, by simp, by simp, ?_⟩
    intro slot mem above
    have listed := (remainingMem slot).mpr ⟨mem, by simpa using above⟩
    exact absurd listed List.not_mem_nil
  | cons first rest =>
    rw [remaining] at remainingMem
    have consecutive := remaining_consecutive windowed.consecutive remaining
    obtain ⟨firstListed, firstAbove⟩ := (remainingMem first).mp (by simp)
    have counts := lastPiece_counts g
    have firstInFile := windowed.inFile first firstListed
    by_cases far : first.1 - k ≥ g.cacheSizeInPieces
    · have gap : int (first.1 - k) ≥ g.cacheSizeInPieces := by
        rwa [int_of_fits (by omega) (by omega)]
      refine ⟨[], by simp [keepSlots, firstAbove, gap], trivial, by simp, by simp, ?_⟩
      intro slot mem above
      have present := (remainingMem slot).mpr ⟨mem, by simpa using above⟩
      have := (consecutive_mem consecutive present).1
      unfold windowLength
      omega
    · obtain ⟨gap, start⟩ : ∃ gap : Nat, first.1 = k + gap := ⟨(first.1 - k).toNat, by omega⟩
      obtain ⟨room, fits⟩ : ∃ room : Nat, g.cacheSizeInPieces = gap + room + 1 :=
        ⟨(g.cacheSizeInPieces - gap - 1).toNat, by omega⟩
      have stay : Consecutive (k + gap) ((first :: rest).take (room + 1)) :=
        start ▸ consecutive_take consecutive (room + 1)
      have stayMem : ∀ slot ∈ (first :: rest).take (room + 1), slot ∈ slotList :=
        fun slot mem => ((remainingMem slot).mp (List.mem_of_mem_take mem)).1
      obtain ⟨last, lastMem, _, lastIndex⟩ := last_of_consecutive stay (by simp)
      have lastInFile := windowed.inFile last (stayMem last lastMem)
      obtain ⟨final, finalMem, _, finalIndex⟩ := last_of_consecutive consecutive (by simp)
      have finalInFile := windowed.inFile final ((remainingMem final).mp finalMem).1
      refine ⟨_, keepSlots_near build consecutive start fits nonneg (by omega),
        fresh_then_consecutive stay, ?_, ?_, ?_⟩
      · rw [List.length_append, freshSlots_length]
        have short := List.length_take_le (room + 1) (first :: rest)
        unfold windowLength
        omega
      · intro slot mem
        rcases List.mem_append.mp mem with new | old
        · obtain ⟨above, below, empty⟩ := freshSlots_mem new
          rw [empty, rangeOf_not_mem]
          intro other present same
          have := (consecutive_mem consecutive ((remainingMem other).mpr ⟨present, by omega⟩)).1
          omega
        · exact (rangeOf_mem windowed.consecutive (stayMem slot old)).symm
      · intro slot mem above
        have bounds := consecutive_mem consecutive ((remainingMem slot).mpr ⟨mem, by omega⟩)
        simp only [List.length_append, freshSlots_length, List.length_cons, List.length_take]
          at above bounds
        unfold windowLength
        omega

/- What the kept window holds. -/

@[simp] theorem keptWindow_length (g : Geometry) (slotList : List Slot) (k : Int) :
    (keptWindow g slotList k).length = windowLength g k := by
  simp [keptWindow, window]

theorem keptWindow_consecutive (g : Geometry) (slotList : List Slot) (k : Int) :
    Consecutive k (keptWindow g slotList k) := by
  simp only [keptWindow, window, List.map_map]
  generalize windowLength g k = n
  induction n generalizing k with
  | zero => simp [Consecutive]
  | succ n ih =>
    rw [List.range_succ_eq_map, List.map_cons, List.map_map]
    refine ⟨by simp, ?_⟩
    have shifted := ih (k + 1)
    convert shifted using 2
    funext i
    simp only [Function.comp, Nat.cast_succ]
    rw [show k + ((i : Int) + 1) = k + 1 + i by omega]

theorem keptWindow_mem {g : Geometry} {slotList : List Slot} {k : Int} {slot : Slot}
    (mem : slot ∈ keptWindow g slotList k) :
    k ≤ slot.1 ∧ slot.1 < k + g.cacheSizeInPieces ∧ slot.1 ≤ g.lastPiece ∧
      slot.2 = rangeOf slotList slot.1 := by
  have bounds := consecutive_mem (keptWindow_consecutive g slotList k) mem
  rw [keptWindow_length] at bounds
  simp only [keptWindow, List.mem_map] at mem
  obtain ⟨p, _, eq⟩ := mem
  rw [← eq] at bounds ⊢
  unfold windowLength at bounds
  exact ⟨by omega, by simp only; omega, by simp only; omega, rfl⟩

theorem windowSlots_eq {g : Geometry} [g.Counted] (build : Build) {slotList : List Slot}
    {j k : Int} (windowed : Windowed g j slotList) (nonneg : 0 ≤ k) :
    windowSlots g build slotList k = .ok (keptWindow g slotList k) := by
  obtain ⟨kept, eq, consecutive, short, known, beyond⟩ := keepSlots_spec build windowed nonneg
  have completed := append_completes_window nonneg consecutive short known beyond
  have passes : checkSlotsInvariant (keptWindow g slotList k) = true := by
    apply checkSlotsInvariant_true nonneg (keptWindow_consecutive g slotList k)
    intro slot mem
    have := (keptWindow_mem mem).2.2.1
    have := lastPiece_counts g
    omega
  simp only [windowSlots, eq, ok_bind, completed, passes, check_true]

theorem keptWindow_ranges {P : Range Int → Prop} {g : Geometry} {slotList : List Slot} {j k : Int}
    (consecutive : Consecutive j slotList) (ranges : ∀ slot ∈ slotList, P slot.2)
    (empty : P Range.empty) : ∀ slot ∈ keptWindow g slotList k, P slot.2 := by
  intro slot mem
  rw [(keptWindow_mem mem).2.2.2]
  by_cases present : ∃ other ∈ slotList, other.1 = slot.1
  · obtain ⟨other, otherMem, same⟩ := present
    rw [← same, rangeOf_mem consecutive otherMem]
    exact ranges other otherMem
  · rw [rangeOf_not_mem fun other mem same => present ⟨other, mem, same⟩]
    exact empty

theorem keptWindow_indices (g : Geometry) (slotList : List Slot) (k : Int) :
    (keptWindow g slotList k).map Prod.fst = window g k := by
  simp [keptWindow, Function.comp_def]

theorem mem_window {g : Geometry} {k p : Int} :
    p ∈ window g k ↔ k ≤ p ∧ p < k + g.cacheSizeInPieces ∧ p ≤ g.lastPiece := by
  simp only [window, List.mem_map, List.mem_range, windowLength]
  constructor
  · rintro ⟨i, inside, rfl⟩
    omega
  · rintro ⟨low, high, inFile⟩
    exact ⟨(p - k).toNat, by omega, by omega⟩

theorem empty_windowed (g : Geometry) (j : Int) : Windowed g j [] :=
  ⟨trivial, by have := cacheSizeInPieces_positive g; simp; omega, by simp⟩

theorem keptWindow_self {g : Geometry} {slotList : List Slot} {k : Int}
    (consecutive : Consecutive k slotList) (length : slotList.length = windowLength g k) :
    keptWindow g slotList k = slotList :=
  (eq_keptWindow consecutive length
    (fun _ mem => (rangeOf_mem consecutive mem).symm)).symm

end StorageSlots
