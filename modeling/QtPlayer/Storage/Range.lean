import Mathlib.Algebra.Order.Ring.Int
import QtPlayer.Library.HalfOpenSegments

/- The segment list of Range.h. `addSegment` is the template's own insertion: it joins the
   new segment only with the neighbours found at the qLowerBound position. -/
namespace StorageRange
open HalfOpenSegments

structure Range (T : Type) where
  segments : List (Segment T)
  deriving DecidableEq, Repr

variable {T : Type}

def Range.empty : Range T := ⟨[]⟩

/-- The first segment counts only when it starts at zero. -/
def Range.bytesAvailable [DecidableEq T] [Zero T] [Sub T] (r : Range T) : T :=
  match r.segments with
  | [] => 0
  | first :: _ => if first.1 ≠ 0 then 0 else first.2 - first.1

variable [LinearOrder T]

/-- Insert in front of `after`, or extend its first segment to the left. The result is the
    segment at the insertion iterator and what stands behind it. -/
def insertOrExtend (segment : Segment T) : List (Segment T) → Segment T × List (Segment T)
  | ins :: rest =>
    if ins.1 = segment.2 then ((segment.1, ins.2), rest) else (segment, ins :: rest)
  | [] => (segment, [])

def addSegment (segments : List (Segment T)) (segment : Segment T) : List (Segment T) :=
  let before := segments.takeWhile fun s => Before s segment
  let after := segments.dropWhile fun s => Before s segment
  let ins := insertOrExtend segment after
  match before.getLast? with
  | some prev =>
    if prev.2 = segment.1 then before.dropLast ++ (prev.1, ins.1.2) :: ins.2
    else before ++ ins.1 :: ins.2
  | none => ins.1 :: ins.2

def Range.add (r : Range T) (segment : Segment T) : Range T := ⟨addSegment r.segments segment⟩

def InsertsAtHead (segment : Segment T) (l : List (Segment T)) : Prop :=
  ∀ t ∈ l.head?, ¬ Before t segment

theorem addSegment_at_head {segment : Segment T} {l : List (Segment T)}
    (head : InsertsAtHead segment l) :
    addSegment l segment = (insertOrExtend segment l).1 :: (insertOrExtend segment l).2 := by
  cases l with
  | nil => rfl
  | cons t l =>
    have no : ¬ Before t segment := head t (by simp)
    simp [addSegment, no]

theorem addSegment_joins_left {s segment : Segment T} {l : List (Segment T)}
    (before : Before s segment) (head : InsertsAtHead segment l) (touch : s.2 = segment.1) :
    addSegment (s :: l) segment =
      (s.1, (insertOrExtend segment l).1.2) :: (insertOrExtend segment l).2 := by
  cases l with
  | nil => simp [addSegment, before, touch]
  | cons t l =>
    have no : ¬ Before t segment := head t (by simp)
    simp [addSegment, before, no, touch]

theorem addSegment_keeps_head {s segment : Segment T} {l : List (Segment T)}
    (before : Before s segment) (free : InsertsAtHead segment l → s.2 ≠ segment.1) :
    addSegment (s :: l) segment = s :: addSegment l segment := by
  cases l with
  | nil =>
    have apart := free (by simp [InsertsAtHead])
    simp [addSegment, before, apart, insertOrExtend]
  | cons t l =>
    by_cases more : Before t segment
    · simp only [addSegment, List.takeWhile_cons, List.dropWhile_cons, before, more, decide_true,
        ↓reduceIte, List.getLast?_cons_cons]
      cases last : (t :: l.takeWhile fun s => decide (Before s segment)).getLast? with
      | none => simp at last
      | some prev =>
        dsimp only
        split <;> rfl
    · have apart := free (by simpa [InsertsAtHead] using more)
      simp [addSegment, before, more, apart]

/-- Every insertion ends at the head of some tail of the list, with the segment in front of
    that tail either joined to it or left alone. -/
theorem addSegment_induction {P : List (Segment T) → List (Segment T) → Prop}
    (segment : Segment T)
    (atHead : ∀ l, InsertsAtHead segment l →
      P l ((insertOrExtend segment l).1 :: (insertOrExtend segment l).2))
    (joins : ∀ s l, Before s segment → InsertsAtHead segment l → s.2 = segment.1 →
      P (s :: l) ((s.1, (insertOrExtend segment l).1.2) :: (insertOrExtend segment l).2))
    (keeps : ∀ s l, Before s segment → (InsertsAtHead segment l → s.2 ≠ segment.1) →
      P l (addSegment l segment) → P (s :: l) (s :: addSegment l segment))
    (l : List (Segment T)) : P l (addSegment l segment) := by
  induction l with
  | nil =>
    rw [addSegment_at_head (by simp [InsertsAtHead])]
    exact atHead [] (by simp [InsertsAtHead])
  | cons s l ih =>
    by_cases before : Before s segment
    · by_cases joined : InsertsAtHead segment l ∧ s.2 = segment.1
      · rw [addSegment_joins_left before joined.1 joined.2]
        exact joins s l before joined.1 joined.2
      · have free : InsertsAtHead segment l → s.2 ≠ segment.1 :=
          fun head touch => joined ⟨head, touch⟩
        rw [addSegment_keeps_head before free]
        exact keeps s l before free ih
    · have head : InsertsAtHead segment (s :: l) := by simpa [InsertsAtHead] using before
      rw [addSegment_at_head head]
      exact atHead _ head

theorem insertOrExtend_start (segment : Segment T) (l : List (Segment T)) :
    (insertOrExtend segment l).1.1 = segment.1 := by
  cases l with
  | nil => rfl
  | cons t l => simp only [insertOrExtend]; split <;> rfl

theorem insertOrExtend_end (segment : Segment T) {l : List (Segment T)} (proper : Proper l) :
    segment.2 ≤ (insertOrExtend segment l).1.2 := by
  cases l with
  | nil => exact le_refl _
  | cons t l =>
    have step := proper t (by simp)
    simp only [insertOrExtend]
    split
    · rename_i touch
      exact touch ▸ le_of_lt step
    · exact le_refl _

theorem insertOrExtend_tail {segment u : Segment T} {l : List (Segment T)}
    (mem : u ∈ (insertOrExtend segment l).2) : u ∈ l := by
  cases l with
  | nil => simp [insertOrExtend] at mem
  | cons t l =>
    simp only [insertOrExtend] at mem
    split at mem
    · simp [mem]
    · exact mem

theorem insertOrExtend_end_mem (segment : Segment T) (l : List (Segment T)) :
    (insertOrExtend segment l).1.2 = segment.2 ∨
      ∃ t ∈ l, (insertOrExtend segment l).1.2 = t.2 := by
  cases l with
  | nil => exact Or.inl rfl
  | cons t l =>
    simp only [insertOrExtend]
    split
    · exact Or.inr ⟨t, by simp, rfl⟩
    · exact Or.inl rfl

theorem insertOrExtend_covered {segment : Segment T} {l : List (Segment T)}
    (valid : segment.1 < segment.2) (proper : Proper l) (x : T) :
    Covered ((insertOrExtend segment l).1 :: (insertOrExtend segment l).2) x ↔
      Covered l x ∨ Inside segment x := by
  cases l with
  | nil => simp [insertOrExtend, Covered]
  | cons t l =>
    simp only [insertOrExtend]
    split
    · rename_i touch
      have step := proper t (by simp)
      rw [covered_cons, covered_cons, inside_join (le_of_lt valid) (touch ▸ le_of_lt step)]
      have same : (segment.2, t.2) = t := by rw [← touch]
      rw [same]
      tauto
    · rw [covered_cons, covered_cons]
      tauto

theorem addSegment_changes {segment : Segment T} (valid : segment.1 < segment.2)
    (l : List (Segment T)) : addSegment l segment ≠ l := by
  have placed : ∀ l : List (Segment T),
      (insertOrExtend segment l).1 :: (insertOrExtend segment l).2 ≠ l := by
    intro l same
    cases l with
    | nil => simp at same
    | cons t l =>
      simp only [insertOrExtend] at same
      split at same
      · rename_i touch
        have start := congrArg Prod.fst (List.cons.inj same).1
        exact ne_of_lt valid (start.trans touch)
      · exact absurd (congrArg List.length same) (by simp)
  refine addSegment_induction (P := fun l l' => l' ≠ l) segment ?_ ?_ ?_ l
  · exact fun l _ => placed l
  · intro s l _ _ touch same
    cases l with
    | nil => exact ne_of_gt valid ((congrArg Prod.snd (List.cons.inj same).1).trans touch)
    | cons t l =>
      simp only [insertOrExtend] at same
      split at same
      · exact absurd (congrArg List.length (List.cons.inj same).2) (by simp)
      · exact ne_of_gt valid ((congrArg Prod.snd (List.cons.inj same).1).trans touch)
  · intro s l _ _ changed same
    exact changed (List.cons.inj same).2

theorem addSegment_proper {segment : Segment T} (valid : segment.1 < segment.2)
    (l : List (Segment T)) (proper : Proper l) : Proper (addSegment l segment) := by
  refine addSegment_induction (P := fun l l' => Proper l → Proper l') segment ?_ ?_ ?_ l proper
  · intro l _ proper u mem
    rcases List.mem_cons.mp mem with same | later
    · rw [same, insertOrExtend_start]
      exact lt_of_lt_of_le valid (insertOrExtend_end segment proper)
    · exact proper u (insertOrExtend_tail later)
  · intro s l _ _ touch proper u mem
    have tailProper : Proper l := fun t ht => proper t (by simp [ht])
    rcases List.mem_cons.mp mem with same | later
    · rw [same]
      have reach : s.1 < segment.2 := lt_trans (proper s (by simp)) (touch ▸ valid)
      exact lt_of_lt_of_le reach (insertOrExtend_end _ tailProper)
    · exact tailProper u (insertOrExtend_tail later)
  · intro s l _ _ ih proper u mem
    rcases List.mem_cons.mp mem with same | later
    · rw [same]
      exact proper s (by simp)
    · exact ih (fun t ht => proper t (by simp [ht])) u later

theorem addSegment_covered {segment : Segment T} (valid : segment.1 < segment.2)
    (l : List (Segment T)) (proper : Proper l) (x : T) :
    Covered (addSegment l segment) x ↔ Covered l x ∨ Inside segment x := by
  refine addSegment_induction
    (P := fun l l' => Proper l → (Covered l' x ↔ Covered l x ∨ Inside segment x))
    segment ?_ ?_ ?_ l proper
  · intro l _ proper
    exact insertOrExtend_covered valid proper x
  · intro s l _ _ touch proper
    have tailProper : Proper l := fun t ht => proper t (by simp [ht])
    have tail := insertOrExtend_covered valid tailProper x
    have step := proper s (by simp)
    have reach : segment.1 ≤ (insertOrExtend segment l).1.2 :=
      le_trans (le_of_lt valid) (insertOrExtend_end _ tailProper)
    rw [covered_cons] at tail ⊢
    rw [inside_join (le_of_lt step) (touch ▸ reach), covered_cons]
    have same : (s.2, (insertOrExtend segment l).1.2) = (insertOrExtend segment l).1 := by
      rw [touch, ← insertOrExtend_start segment l]
    rw [same]
    tauto
  · intro s l _ _ ih proper
    rw [covered_cons, covered_cons, ih (fun t ht => proper t (by simp [ht]))]
    tauto

theorem addSegment_within {segment : Segment T} {lo hi : T} (low : lo ≤ segment.1)
    (high : segment.2 ≤ hi) (l : List (Segment T)) (within : Within lo hi l) :
    Within lo hi (addSegment l segment) := by
  have endBound : ∀ l, Within lo hi l → (insertOrExtend segment l).1.2 ≤ hi := by
    intro l within
    rcases insertOrExtend_end_mem segment l with eq | ⟨t, mem, eq⟩
    · rw [eq]
      exact high
    · rw [eq]
      exact (within t mem).2
  refine addSegment_induction (P := fun l l' => Within lo hi l → Within lo hi l')
    segment ?_ ?_ ?_ l within
  · intro l _ within u mem
    rcases List.mem_cons.mp mem with same | later
    · rw [same, insertOrExtend_start]
      exact ⟨low, endBound l within⟩
    · exact within u (insertOrExtend_tail later)
  · intro s l _ _ _ within u mem
    have tailWithin : Within lo hi l := fun t ht => within t (by simp [ht])
    rcases List.mem_cons.mp mem with same | later
    · rw [same]
      exact ⟨(within s (by simp)).1, endBound l tailWithin⟩
    · exact tailWithin u (insertOrExtend_tail later)
  · intro s l _ _ ih within u mem
    rcases List.mem_cons.mp mem with same | later
    · rw [same]
      exact within s (by simp)
    · exact ih (fun t ht => within t (by simp [ht])) u later

theorem follows_extend_left {a a' b : T} {u : Segment T} (le : a' ≤ a)
    (follows : Follows (a, b) u) : Follows (a', b) u := by
  unfold Follows Before at *
  grind

theorem insertOrExtend_ordered {segment : Segment T} (valid : segment.1 < segment.2)
    {l : List (Segment T)} (head : InsertsAtHead segment l) (ordered : Ordered l) :
    Ordered ((insertOrExtend segment l).1 :: (insertOrExtend segment l).2) := by
  cases l with
  | nil => exact List.isChain_singleton _
  | cons t l =>
    have notBefore : ¬ Before t segment := head t (by simp)
    simp only [insertOrExtend]
    split
    · rename_i touch
      cases l with
      | nil => exact List.isChain_singleton _
      | cons u l =>
        obtain ⟨link, tail⟩ := List.isChain_cons_cons.mp ordered
        exact List.isChain_cons_cons.mpr
          ⟨follows_extend_left (touch ▸ le_of_lt valid) link, tail⟩
    · rename_i apart
      exact List.isChain_cons_cons.mpr ⟨⟨notBefore, Ne.symm apart⟩, ordered⟩

theorem ordered_extend_head {a a' b : T} {l : List (Segment T)} (le : a' ≤ a)
    (ordered : Ordered ((a, b) :: l)) : Ordered ((a', b) :: l) := by
  cases l with
  | nil => exact List.isChain_singleton _
  | cons u l =>
    obtain ⟨link, tail⟩ := List.isChain_cons_cons.mp ordered
    exact List.isChain_cons_cons.mpr ⟨follows_extend_left le link, tail⟩

/-- The second half follows the segment in front of the insertion point, which the
    induction needs at every earlier segment. -/
theorem addSegment_ordered_below {segment : Segment T} (valid : segment.1 < segment.2)
    (l : List (Segment T)) (proper : Proper l) :
    (Ordered l → Ordered (addSegment l segment)) ∧
      ∀ s, Before s segment → (InsertsAtHead segment l → s.2 ≠ segment.1) →
        Ordered (s :: l) → Ordered (s :: addSegment l segment) := by
  refine addSegment_induction
    (P := fun l l' => Proper l → (Ordered l → Ordered l') ∧
      ∀ s, Before s segment → (InsertsAtHead segment l → s.2 ≠ segment.1) →
        Ordered (s :: l) → Ordered (s :: l')) segment ?_ ?_ ?_ l proper
  · intro l head proper
    refine ⟨insertOrExtend_ordered valid head, ?_⟩
    intro s before free ordered
    have placed := insertOrExtend_ordered valid head ordered.of_cons
    refine List.isChain_cons_cons.mpr ⟨⟨?_, ?_⟩, placed⟩
    · have start := insertOrExtend_start segment l
      have finish := insertOrExtend_end segment proper
      unfold Before at *
      grind
    · rw [insertOrExtend_start]
      exact free head
  · intro s l before head touch proper
    have tailProper : Proper l := fun t ht => proper t (by simp [ht])
    have joined : Ordered (s :: l) →
        Ordered ((s.1, (insertOrExtend segment l).1.2) :: (insertOrExtend segment l).2) := by
      intro ordered
      have placed := insertOrExtend_ordered valid head ordered.of_cons
      have start : s.1 ≤ (insertOrExtend segment l).1.1 := by
        rw [insertOrExtend_start, ← touch]
        exact le_of_lt (proper s (by simp))
      exact ordered_extend_head start placed
    refine ⟨joined, ?_⟩
    intro r _ _ ordered
    obtain ⟨link, tail⟩ := List.isChain_cons_cons.mp ordered
    refine List.isChain_cons_cons.mpr ⟨⟨?_, link.2⟩, joined tail⟩
    have longer : s.2 ≤ (insertOrExtend segment l).1.2 :=
      le_trans (touch ▸ le_of_lt valid) (insertOrExtend_end _ tailProper)
    have notBefore := link.1
    unfold Before at *
    grind
  · intro s l before free ih proper
    have tailProper : Proper l := fun t ht => proper t (by simp [ht])
    have placed := (ih tailProper).2 s before free
    refine ⟨placed, ?_⟩
    intro r _ _ ordered
    obtain ⟨link, tail⟩ := List.isChain_cons_cons.mp ordered
    exact List.isChain_cons_cons.mpr ⟨link, placed tail⟩

theorem addSegment_ordered {segment : Segment T} (valid : segment.1 < segment.2)
    {l : List (Segment T)} (proper : Proper l) (ordered : Ordered l) :
    Ordered (addSegment l segment) :=
  (addSegment_ordered_below valid l proper).1 ordered

theorem disjoint_before {s segment : Segment T}
    (valid : segment.1 < segment.2) (disjoint : ∀ x, Inside s x → ¬ Inside segment x)
    (before : Before s segment) : s.2 ≤ segment.1 := by
  by_contra overlap
  have start : s.1 ≤ segment.1 := before.elim le_of_lt fun later => not_lt.mp later.1
  exact disjoint segment.1 ⟨start, not_le.mp overlap⟩ ⟨le_refl _, valid⟩

theorem disjoint_not_before {t segment : Segment T} (proper : t.1 < t.2)
    (disjoint : ∀ x, Inside t x → ¬ Inside segment x) (notBefore : ¬ Before t segment) :
    segment.2 ≤ t.1 := by
  by_contra overlap
  have start : segment.1 ≤ t.1 := not_lt.mp fun less => notBefore (Or.inl less)
  exact disjoint t.1 ⟨le_refl _, proper⟩ ⟨start, not_le.mp overlap⟩

theorem separated_move_head {a b : T} (a' : T) {l : List (Segment T)}
    (separated : Separated ((a, b) :: l)) : Separated ((a', b) :: l) := by
  cases l with
  | nil => exact List.isChain_singleton _
  | cons u l =>
    obtain ⟨link, tail⟩ := List.isChain_cons_cons.mp separated
    exact List.isChain_cons_cons.mpr ⟨link, tail⟩

theorem insertOrExtend_separated {segment : Segment T} {l : List (Segment T)}
    (head : InsertsAtHead segment l) (proper : Proper l)
    (disjoint : ∀ x, Covered l x → ¬ Inside segment x) (separated : Separated l) :
    Separated ((insertOrExtend segment l).1 :: (insertOrExtend segment l).2) := by
  cases l with
  | nil => exact List.isChain_singleton _
  | cons t l =>
    have ahead := disjoint_not_before (proper t (by simp))
      (fun x inside => disjoint x ⟨t, by simp, inside⟩) (head t (by simp))
    simp only [insertOrExtend]
    split
    · exact separated_move_head _ separated
    · rename_i apart
      exact List.isChain_cons_cons.mpr ⟨lt_of_le_of_ne ahead (Ne.symm apart), separated⟩

theorem addSegment_separated_below {segment : Segment T} (valid : segment.1 < segment.2)
    (l : List (Segment T)) (proper : Proper l)
    (disjoint : ∀ x, Covered l x → ¬ Inside segment x) :
    (Separated l → Separated (addSegment l segment)) ∧
      ∀ s : Segment T, s.2 ≤ segment.1 → (InsertsAtHead segment l → s.2 ≠ segment.1) →
        Separated (s :: l) → Separated (s :: addSegment l segment) := by
  refine addSegment_induction
    (P := fun l l' => Proper l → (∀ x, Covered l x → ¬ Inside segment x) →
      (Separated l → Separated l') ∧
      ∀ s : Segment T, s.2 ≤ segment.1 → (InsertsAtHead segment l → s.2 ≠ segment.1) →
        Separated (s :: l) → Separated (s :: l')) segment ?_ ?_ ?_ l proper disjoint
  · intro l head proper disjoint
    have placed := insertOrExtend_separated head proper disjoint
    refine ⟨placed, ?_⟩
    intro s below free separated
    refine List.isChain_cons_cons.mpr ⟨?_, placed separated.of_cons⟩
    rw [insertOrExtend_start]
    exact lt_of_le_of_ne below (free head)
  · intro s l _ head _ proper disjoint
    have joined : Separated (s :: l) →
        Separated ((s.1, (insertOrExtend segment l).1.2) :: (insertOrExtend segment l).2) := by
      intro separated
      have tail := insertOrExtend_separated head (fun t ht => proper t (by simp [ht]))
        (fun x covered => disjoint x ((covered_cons s l x).mpr (Or.inr covered)))
        separated.of_cons
      exact separated_move_head _ tail
    refine ⟨joined, ?_⟩
    intro r _ _ separated
    obtain ⟨link, tail⟩ := List.isChain_cons_cons.mp separated
    exact List.isChain_cons_cons.mpr ⟨link, joined tail⟩
  · intro s l before free ih proper disjoint
    have below := disjoint_before valid
      (fun x inside => disjoint x ⟨s, by simp, inside⟩) before
    have next := (ih (fun t ht => proper t (by simp [ht]))
      (fun x covered => disjoint x ((covered_cons s l x).mpr (Or.inr covered)))).2 s below free
    refine ⟨next, ?_⟩
    intro r _ _ separated
    obtain ⟨link, tail⟩ := List.isChain_cons_cons.mp separated
    exact List.isChain_cons_cons.mpr ⟨link, next tail⟩

theorem addSegment_separated {segment : Segment T} (valid : segment.1 < segment.2)
    {l : List (Segment T)} (proper : Proper l)
    (disjoint : ∀ x, Covered l x → ¬ Inside segment x) (separated : Separated l) :
    Separated (addSegment l segment) :=
  (addSegment_separated_below valid l proper disjoint).1 separated

/- A range kept inside `[0, hi)`, the shape every insertion preserves. -/
section Bounded

variable [AddGroup T] {hi : T}

structure Range.Valid (hi : T) (r : Range T) : Prop where
  proper : Proper r.segments
  ordered : Ordered r.segments
  within : Within 0 hi r.segments

theorem empty_valid : (Range.empty : Range T).Valid hi :=
  ⟨by simp [Range.empty, Proper], List.isChain_nil, by simp [Range.empty, Within]⟩

theorem Range.Valid.add {r : Range T} (valid : r.Valid hi) {segment : Segment T}
    (low : 0 ≤ segment.1) (nonempty : segment.1 < segment.2) (high : segment.2 ≤ hi) :
    (r.add segment).Valid hi :=
  ⟨addSegment_proper nonempty _ valid.proper,
    addSegment_ordered nonempty valid.proper valid.ordered,
    addSegment_within low high _ valid.within⟩

@[simp] theorem bytesAvailable_empty : (Range.empty : Range T).bytesAvailable = 0 := rfl

@[simp] theorem bytesAvailable_from_zero (stop : T) (l : List (Segment T)) :
    (⟨(0, stop) :: l⟩ : Range T).bytesAvailable = stop := by
  simp [Range.bytesAvailable]

theorem bytesAvailable_covered {r : Range T} {x : T} (low : 0 ≤ x)
    (high : x < r.bytesAvailable) : Covered r.segments x := by
  cases shape : r.segments with
  | nil =>
    simp only [Range.bytesAvailable, shape] at high
    exact absurd high (not_lt.mpr low)
  | cons s l =>
    simp only [Range.bytesAvailable, shape] at high
    split at high
    · exact absurd high (not_lt.mpr low)
    · rename_i zero
      have start : s.1 = 0 := not_not.mp zero
      rw [start, sub_zero] at high
      exact ⟨s, by simp, start ▸ low, high⟩

theorem bytesAvailable_bounds {r : Range T} (valid : r.Valid hi) (nonneg : 0 ≤ hi) :
    0 ≤ r.bytesAvailable ∧ r.bytesAvailable ≤ hi := by
  cases shape : r.segments with
  | nil => simpa [Range.bytesAvailable, shape] using nonneg
  | cons s l =>
    have proper := valid.proper s (by simp [shape])
    have within := valid.within s (by simp [shape])
    simp only [Range.bytesAvailable, shape]
    split
    · exact ⟨le_refl _, nonneg⟩
    · rename_i zero
      have start : s.1 = 0 := not_not.mp zero
      rw [start, sub_zero]
      exact ⟨le_of_lt (start ▸ proper), within.2⟩

theorem bytesAvailable_gap {r : Range T} (valid : r.Valid hi)
    (separated : Separated r.segments) : ¬ Covered r.segments r.bytesAvailable := by
  cases shape : r.segments with
  | nil => exact covered_nil _
  | cons s l =>
    have proper := valid.proper
    rw [shape] at proper separated
    simp only [Range.bytesAvailable, shape]
    split
    · rename_i positive
      rintro ⟨t, mem, low, _⟩
      have first := (valid.within s (by simp [shape])).1
      have above : 0 < s.1 := lt_of_le_of_ne first (Ne.symm positive)
      rcases List.mem_cons.mp mem with same | later
      · exact absurd (same ▸ low) (not_le.mpr above)
      · have beyond := separated_head_below proper separated later
        exact absurd low (not_le.mpr (lt_trans above (lt_trans (proper s (by simp)) beyond)))
    · rename_i zero
      have start : s.1 = 0 := not_not.mp zero
      rw [start, sub_zero]
      exact separated_gap_after_head proper separated

end Bounded

example : (((Range.empty : Range Int).add (1, 10)).add (0, 1)).bytesAvailable = 10 := by decide

end StorageRange
