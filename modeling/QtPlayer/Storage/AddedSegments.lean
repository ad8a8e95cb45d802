import Mathlib.Data.List.Perm.Basic
import Mathlib.Order.Bounds.Basic
import QtPlayer.Storage.Range

/- What a Range holds after any segments were added to it, in any order. -/
namespace AddedSegments
open HalfOpenSegments StorageRange

variable {T : Type} [LinearOrder T]

def addAll (r : Range T) (added : List (Segment T)) : Range T := added.foldl Range.add r

def Sorted (l : List (Segment T)) : Prop := l.Pairwise fun s t => ¬ Before t s

def NoCommonPoint (l : List (Segment T)) : Prop :=
  l.Pairwise fun s t => ∀ x, Inside s x → ¬ Inside t x

variable {r : Range T} {added : List (Segment T)}

theorem sorted_of_ordered {l : List (Segment T)} (ordered : Ordered l) : Sorted l := by
  induction l with
  | nil => exact List.Pairwise.nil
  | cons s l ih =>
    apply List.Pairwise.cons
    · intro t mem
      exact ordered_head_first ordered mem
    · exact ih ordered.of_cons

theorem covered_tail {s : Segment T} {l : List (Segment T)} {x : T} (covered : Covered l x) :
    Covered (s :: l) x :=
  (covered_cons s l x).mpr (Or.inr covered)

theorem empty_proper : Proper (Range.empty : Range T).segments := by
  simp [Range.empty, Proper]

theorem empty_uncovered (x : T) : ¬ Covered (Range.empty : Range T).segments x :=
  covered_nil x

theorem addAll_proper (valid : Proper added) (proper : Proper r.segments) :
    Proper (addAll r added).segments := by
  induction added generalizing r with
  | nil => exact proper
  | cons s l ih =>
    obtain ⟨nonempty, others⟩ := List.forall_mem_cons.mp valid
    exact ih others (addSegment_proper nonempty _ proper)

theorem addAll_ordered (valid : Proper added) (proper : Proper r.segments)
    (ordered : Ordered r.segments) : Ordered (addAll r added).segments := by
  induction added generalizing r with
  | nil => exact ordered
  | cons s l ih =>
    obtain ⟨nonempty, others⟩ := List.forall_mem_cons.mp valid
    exact ih others (addSegment_proper nonempty _ proper)
      (addSegment_ordered nonempty proper ordered)

theorem addAll_covered (valid : Proper added) (proper : Proper r.segments) (x : T) :
    Covered (addAll r added).segments x ↔ Covered r.segments x ∨ Covered added x := by
  induction added generalizing r with
  | nil => simp [addAll, covered_nil]
  | cons s l ih =>
    obtain ⟨nonempty, others⟩ := List.forall_mem_cons.mp valid
    have later := ih (r := r.add s) others (addSegment_proper nonempty _ proper)
    have here : Covered (r.add s).segments x ↔ Covered r.segments x ∨ Inside s x :=
      addSegment_covered nonempty r.segments proper x
    rw [covered_cons, ← or_assoc, ← here]
    exact later

theorem addAll_separated (valid : Proper added) (disjoint : NoCommonPoint added)
    (fresh : ∀ x, Covered r.segments x → ¬ Covered added x) (proper : Proper r.segments)
    (separated : Separated r.segments) : Separated (addAll r added).segments := by
  induction added generalizing r with
  | nil => exact separated
  | cons s l ih =>
    obtain ⟨nonempty, others⟩ := List.forall_mem_cons.mp valid
    obtain ⟨first, rest⟩ := List.pairwise_cons.mp disjoint
    have new : ∀ x, Covered r.segments x → ¬ Inside s x := by
      intro x covered inside
      exact fresh x covered ((covered_cons s l x).mpr (Or.inl inside))
    apply ih others rest
    · intro x covered later
      rcases (addSegment_covered nonempty r.segments proper x).mp covered with before | inside
      · exact fresh x before (covered_tail later)
      · obtain ⟨t, mem, within⟩ := later
        exact first t mem x inside within
    · exact addSegment_proper nonempty _ proper
    · exact addSegment_separated nonempty proper new separated

theorem addAll_within {lo hi : T} (within : Within lo hi added)
    (before : Within lo hi r.segments) : Within lo hi (addAll r added).segments := by
  induction added generalizing r with
  | nil => exact before
  | cons s l ih =>
    obtain ⟨ends, others⟩ := List.forall_mem_cons.mp within
    exact ih others (addSegment_within ends.1 ends.2 _ before)

theorem separated_from_empty (valid : Proper added) (disjoint : NoCommonPoint added) :
    Separated (addAll Range.empty added).segments :=
  addAll_separated valid disjoint (fun x covered => absurd covered (empty_uncovered x))
    empty_proper List.isChain_nil

theorem disjoint_perm {other : List (Segment T)} (perm : added.Perm other)
    (disjoint : NoCommonPoint added) : NoCommonPoint other := by
  apply perm.pairwise disjoint
  intro s t apart x inside inside'
  exact apart x inside' inside

theorem covered_perm {other : List (Segment T)} (perm : added.Perm other) (x : T) :
    Covered added x ↔ Covered other x :=
  exists_congr fun _ => and_congr_left fun _ => perm.mem_iff

theorem addAll_perm {other : List (Segment T)} (perm : added.Perm other) (valid : Proper added)
    (disjoint : NoCommonPoint added) : addAll Range.empty other = addAll Range.empty added := by
  have valid' : Proper other := fun s mem => valid s (perm.mem_iff.mpr mem)
  have same : (addAll Range.empty other).segments = (addAll Range.empty added).segments := by
    apply separated_ext
    · exact addAll_proper valid' empty_proper
    · exact separated_from_empty valid' (disjoint_perm perm disjoint)
    · exact addAll_proper valid empty_proper
    · exact separated_from_empty valid disjoint
    · intro x
      rw [addAll_covered valid' empty_proper, addAll_covered valid empty_proper,
        covered_perm perm]
  exact congrArg Range.mk same

/- The available bytes. -/

variable [AddGroup T]

theorem exists_bound (l : List (Segment T)) : ∃ hi : T, 0 ≤ hi ∧ ∀ s ∈ l, s.2 ≤ hi := by
  induction l with
  | nil => exact ⟨0, le_refl _, by simp⟩
  | cons s l ih =>
    obtain ⟨hi, nonneg, below⟩ := ih
    refine ⟨max hi s.2, le_max_of_le_left nonneg, ?_⟩
    intro t mem
    rcases List.mem_cons.mp mem with same | later
    · rw [same]
      exact le_max_right _ _
    · exact le_max_of_le_left (below t later)

theorem bytesAvailable_greatest {hi : T} (valid : r.Valid hi) (nonneg : 0 ≤ hi)
    (separated : Separated r.segments) :
    IsGreatest {k | 0 ≤ k ∧ ∀ x, 0 ≤ x → x < k → Covered r.segments x} r.bytesAvailable := by
  have start := (bytesAvailable_bounds valid nonneg).1
  constructor
  · exact ⟨start, fun x low high => bytesAvailable_covered low high⟩
  · rintro k ⟨_, covered⟩
    by_contra longer
    exact bytesAvailable_gap valid separated
      (covered r.bytesAvailable start (not_le.mp longer))

/-- Whatever is added, in whatever order, the segments stay sorted and cover just what was added.
    Without a common point they are the one separated list for it, and the available bytes are
    all of the prefix. -/
theorem addAll_represents (valid : Proper added) :
    Sorted (addAll Range.empty added).segments ∧ Proper (addAll Range.empty added).segments ∧
    (∀ x, Covered (addAll Range.empty added).segments x ↔ Covered added x) ∧
    (NoCommonPoint added →
      Separated (addAll Range.empty added).segments ∧
      (∀ other : List (Segment T), added.Perm other →
        addAll Range.empty other = addAll Range.empty added) ∧
      ((∀ s ∈ added, 0 ≤ s.1) →
        IsGreatest {k | 0 ≤ k ∧ ∀ x, 0 ≤ x → x < k → Covered added x}
          (addAll Range.empty added).bytesAvailable)) := by
  have proper := addAll_proper valid empty_proper
  have ordered := addAll_ordered valid empty_proper List.isChain_nil
  have covered : ∀ x, Covered (addAll Range.empty added).segments x ↔ Covered added x := by
    intro x
    rw [addAll_covered valid empty_proper]
    exact or_iff_right (empty_uncovered x)
  refine ⟨sorted_of_ordered ordered, proper, covered, ?_⟩
  intro disjoint
  have separated := separated_from_empty valid disjoint
  refine ⟨separated, fun other perm => addAll_perm perm valid disjoint, ?_⟩
  intro starts
  obtain ⟨hi, nonneg, ends⟩ := exists_bound added
  have within : Within 0 hi (addAll Range.empty added).segments :=
    addAll_within (fun s mem => ⟨starts s mem, ends s mem⟩) (by simp [Range.empty, Within])
  have greatest := bytesAvailable_greatest ⟨proper, ordered, within⟩ nonneg separated
  simpa only [covered] using greatest

def backwards : List (Segment Int) := [(5, 10), (0, 5)]

theorem backwards_represented :
    IsGreatest {k | 0 ≤ k ∧ ∀ x, 0 ≤ x → x < k → Covered backwards x}
      (addAll Range.empty backwards).bytesAvailable := by
  have valid : Proper backwards := by simp [Proper, backwards]
  have disjoint : NoCommonPoint backwards := by
    simp only [NoCommonPoint, backwards, List.pairwise_cons, List.mem_singleton, forall_eq, Inside]
    refine ⟨fun x inside => ?_, by simp⟩
    omega
  exact ((addAll_represents valid).2.2.2 disjoint).2.2 (by simp [backwards])

end AddedSegments
