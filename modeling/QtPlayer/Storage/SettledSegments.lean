import QtPlayer.Storage.Range

/- When inserting a segment that is already covered goes unnoticed. A segment that ends at the
   capacity, or runs into its successor, can never be joined to what stands behind it; a
   duplicate behind such a segment is never seen, any other one is brought to light by
   filling the gaps in front of it. -/
namespace SettledSegments
open HalfOpenSegments StorageRange

variable {T : Type} [LinearOrder T]

/-- No insertion ever joins this segment to what stands behind it. -/
def Barrier (hi : T) (e : Segment T) (rest : List (Segment T)) : Prop :=
  e.2 = hi ∨ ∃ x ∈ rest.head?, x.1 < e.2

/-- The segment is inserted behind a barrier, or equals it. -/
def Settled (hi : T) (segment : Segment T) (l : List (Segment T)) : Prop :=
  ∃ before e rest, l = before ++ e :: rest ∧ ¬ Before segment e ∧ Barrier hi e rest

inductive Agree (hi : T) : List (Segment T) → List (Segment T) → Prop where
  | same (l : List (Segment T)) : Agree hi l l
  | barrier {e : Segment T} {rest rest' : List (Segment T)} (blocked : Barrier hi e rest)
      (blocked' : Barrier hi e rest') : Agree hi (e :: rest) (e :: rest')
  | cons (s : Segment T) {l l' : List (Segment T)} (tail : Agree hi l l') :
      Agree hi (s :: l) (s :: l')

variable {hi : T} {segment : Segment T} {l l' : List (Segment T)}

theorem agree_head (agree : Agree hi l l') : l.head? = l'.head? := by
  cases agree <;> rfl

theorem agree_restart (a : T) {x x' : Segment T} (agree : Agree hi (x :: l) (x' :: l')) :
    Agree hi ((a, x.2) :: l) ((a, x'.2) :: l') := by
  cases agree with
  | same => exact .same _
  | barrier blocked blocked' => exact .barrier blocked blocked'
  | cons _ tail => exact .cons _ tail

theorem agree_insertOrExtend (segment : Segment T) (agree : Agree hi l l') :
    Agree hi ((insertOrExtend segment l).1 :: (insertOrExtend segment l).2)
      ((insertOrExtend segment l').1 :: (insertOrExtend segment l').2) := by
  have heads := agree_head agree
  cases l with
  | nil =>
    rw [List.head?_nil, eq_comm, List.head?_eq_none_iff] at heads
    rw [heads]
    exact .same _
  | cons x t =>
    cases l' with
    | nil => simp at heads
    | cons x' t' =>
      simp only [List.head?_cons, Option.some.injEq] at heads
      subst heads
      simp only [insertOrExtend]
      split
      · exact agree_restart segment.1 agree
      · exact .cons _ agree

theorem insertsAtHead_congr (segment : Segment T) (heads : l.head? = l'.head?) :
    InsertsAtHead segment l ↔ InsertsAtHead segment l' := by
  simp only [InsertsAtHead, heads]

theorem addSegment_head_start (segment : Segment T) {x : Segment T} (first : l.head? = some x) :
    ∃ y, (addSegment l segment).head? = some y ∧ y.1 ≤ x.1 := by
  obtain ⟨t, rfl⟩ := List.head?_eq_some_iff.mp first
  by_cases before : Before x segment
  · by_cases joined : InsertsAtHead segment t ∧ x.2 = segment.1
    · rw [addSegment_joins_left before joined.1 joined.2]
      exact ⟨_, rfl, le_refl _⟩
    · rw [addSegment_keeps_head before fun head touch => joined ⟨head, touch⟩]
      exact ⟨x, rfl, le_refl _⟩
  · have head : InsertsAtHead segment (x :: t) := by simpa [InsertsAtHead] using before
    rw [addSegment_at_head head]
    refine ⟨_, rfl, ?_⟩
    rw [insertOrExtend_start]
    exact not_lt.mp fun less => before (Or.inl less)

theorem barrier_not_touched {e : Segment T} (valid : segment.1 < segment.2)
    (high : segment.2 ≤ hi) (blocked : Barrier hi e l) (head : InsertsAtHead segment l) :
    e.2 ≠ segment.1 := by
  rcases blocked with full | ⟨x, first, overlaps⟩
  · rw [full]
    exact ne_of_gt (lt_of_lt_of_le valid high)
  · have notBefore := head x first
    have start : segment.1 ≤ x.1 := not_lt.mp fun less => notBefore (Or.inl less)
    exact ne_of_gt (lt_of_le_of_lt start overlaps)

theorem barrier_addSegment {e : Segment T} (segment : Segment T) (blocked : Barrier hi e l) :
    Barrier hi e (addSegment l segment) := by
  rcases blocked with full | ⟨x, first, overlaps⟩
  · exact Or.inl full
  · obtain ⟨y, head, start⟩ := addSegment_head_start segment first
    exact Or.inr ⟨y, head, lt_of_le_of_lt start overlaps⟩

theorem agree_addSegment (valid : segment.1 < segment.2) (high : segment.2 ≤ hi)
    (agree : Agree hi l l') : Agree hi (addSegment l segment) (addSegment l' segment) := by
  induction agree with
  | same l => exact .same _
  | @barrier e rest rest' blocked blocked' =>
    by_cases before : Before e segment
    · rw [addSegment_keeps_head before (barrier_not_touched valid high blocked),
        addSegment_keeps_head before (barrier_not_touched valid high blocked')]
      exact .barrier (barrier_addSegment segment blocked) (barrier_addSegment segment blocked')
    · rw [addSegment_at_head (by simpa [InsertsAtHead] using before),
        addSegment_at_head (by simpa [InsertsAtHead] using before)]
      exact agree_insertOrExtend segment (.barrier blocked blocked')
  | @cons s l l' tail ih =>
    have same := insertsAtHead_congr segment (agree_head tail)
    by_cases before : Before s segment
    · by_cases joined : InsertsAtHead segment l ∧ s.2 = segment.1
      · rw [addSegment_joins_left before joined.1 joined.2,
          addSegment_joins_left before (same.mp joined.1) joined.2]
        exact agree_restart s.1 (agree_insertOrExtend segment tail)
      · rw [addSegment_keeps_head before fun head touch => joined ⟨head, touch⟩,
          addSegment_keeps_head before fun head touch => joined ⟨same.mpr head, touch⟩]
        exact .cons s ih
    · rw [addSegment_at_head (by simpa [InsertsAtHead] using before),
        addSegment_at_head (by simpa [InsertsAtHead] using before)]
      exact agree_insertOrExtend segment (.cons s tail)

theorem not_settled_nil : ¬ Settled hi segment [] := by
  rintro ⟨before, e, rest, split, _⟩
  simp at split

theorem settled_cons {e : Segment T} : Settled hi segment (e :: l) ↔
    (¬ Before segment e ∧ Barrier hi e l) ∨ Settled hi segment l := by
  constructor
  · rintro ⟨before, f, rest, split, notBefore, blocked⟩
    cases before with
    | nil =>
      obtain ⟨rfl, rfl⟩ := List.cons.inj split
      exact Or.inl ⟨notBefore, blocked⟩
    | cons b before =>
      obtain ⟨_, rfl⟩ := List.cons.inj split
      exact Or.inr ⟨before, f, rest, rfl, notBefore, blocked⟩
  · rintro (⟨notBefore, blocked⟩ | ⟨before, f, rest, rfl, notBefore, blocked⟩)
    · exact ⟨[], e, l, rfl, notBefore, blocked⟩
    · exact ⟨e :: before, f, rest, rfl, notBefore, blocked⟩

theorem addSegment_equal (valid : segment.1 < segment.2) (l : List (Segment T)) :
    addSegment (segment :: l) segment = segment :: segment :: l := by
  have head : InsertsAtHead segment (segment :: l) := by simp [InsertsAtHead, before_irrefl]
  rw [addSegment_at_head head]
  simp only [insertOrExtend, ne_of_lt valid, ↓reduceIte]

theorem settled_head (ordered : Ordered l) (settled : Settled hi segment l) :
    ∃ x, l.head? = some x ∧ ¬ Before segment x := by
  obtain ⟨before, f, rest, rfl, notBefore, _⟩ := settled
  cases before with
  | nil => exact ⟨f, rfl, notBefore⟩
  | cons x before =>
    exact ⟨x, rfl, not_before_trans (ordered_head_first ordered (by simp)) notBefore⟩

theorem agree_of_settled (valid : segment.1 < segment.2) (high : segment.2 ≤ hi)
    (ordered : Ordered l) (settled : Settled hi segment l) :
    Agree hi l (addSegment l segment) := by
  induction l with
  | nil => exact (not_settled_nil settled).elim
  | cons e rest ih =>
    rcases settled_cons.mp settled with ⟨notBefore, blocked⟩ | later
    · by_cases before : Before e segment
      · rw [addSegment_keeps_head before (barrier_not_touched valid high blocked)]
        exact .barrier blocked (barrier_addSegment segment blocked)
      · have equal := eq_of_not_before before notBefore
        subst equal
        rw [addSegment_equal valid]
        exact .barrier blocked (Or.inr ⟨e, rfl, valid⟩)
    · obtain ⟨x, first, notBefore⟩ := settled_head ordered.of_cons later
      obtain ⟨t, shape⟩ := List.head?_eq_some_iff.mp first
      obtain ⟨sorted, apart⟩ : Follows e x := by
        rw [shape] at ordered
        exact (List.isChain_cons_cons.mp ordered).1
      by_cases before : Before e segment
      · rw [addSegment_keeps_head before ?_]
        · exact .cons e (ih ordered.of_cons later)
        · intro head touch
          have equal := eq_of_not_before (head x first) notBefore
          exact apart (by rw [touch, equal])
      · have equal := eq_of_not_before before (not_before_trans sorted notBefore)
        subst equal
        have again := eq_of_not_before sorted notBefore
        subst again
        rw [addSegment_equal valid]
        exact .barrier (Or.inr ⟨x, first, valid⟩) (Or.inr ⟨x, rfl, valid⟩)

/- The other direction: a duplicate that is not settled. -/

/-- Two lists that an insertion told apart: the second holds a piece of a segment of the first,
    and nothing up to there runs into its successor. -/
inductive Diverging (hi : T) : List (Segment T) → List (Segment T) → Prop where
  | contained {e d : Segment T} {rest : List (Segment T)} (start : e.1 ≤ d.1) (valid : d.1 < d.2)
      (stop : d.2 ≤ e.2) (room : e.2 < hi) (apart : ∀ x ∈ rest.head?, e.2 < x.1) :
      Diverging hi (e :: rest) (e :: d :: rest)
  | shorter {d f : Segment T} {rest : List (Segment T)} (start : d.1 = f.1) (valid : d.1 < d.2)
      (stop : d.2 < f.2) : Diverging hi (f :: rest) (d :: f :: rest)
  | later {e : Segment T} {l l' : List (Segment T)} (apart : ∀ x ∈ l.head?, e.2 < x.1)
      (tail : Diverging hi l l') : Diverging hi (e :: l) (e :: l')

theorem apart_all {y : T} (ordered : Ordered l) (apart : ∀ x ∈ l.head?, y < x.1) :
    ∀ u ∈ l, y < u.1 := by
  cases l with
  | nil => simp
  | cons x t =>
    intro u mem
    have first := apart x rfl
    rcases List.mem_cons.mp mem with same | behind
    · rwa [same]
    · exact lt_of_lt_of_le first
        (not_lt.mp fun less => ordered_head_first ordered behind (Or.inl less))

theorem addSegment_before (clear : ∀ x ∈ l.head?, segment.2 < x.1)
    (valid : segment.1 < segment.2) : addSegment l segment = segment :: l := by
  have head : InsertsAtHead segment l := by
    intro x first before
    have after := lt_trans valid (clear x first)
    rcases before with less | same
    · exact lt_asymm less after
    · exact same.1 after
  rw [addSegment_at_head head]
  cases l with
  | nil => rfl
  | cons x t => simp only [insertOrExtend, ne_of_gt (clear x rfl), ↓reduceIte]

theorem addSegment_contained {e : Segment T} {rest : List (Segment T)} (proper : e.1 < e.2)
    (after : ¬ Before segment e) (valid : segment.1 < segment.2) (inside : segment.1 < e.2)
    (stop : segment.2 ≤ e.2) (apart : ∀ x ∈ rest.head?, e.2 < x.1) :
    addSegment (e :: rest) segment = e :: segment :: rest := by
  by_cases before : Before e segment
  · rw [addSegment_keeps_head before fun _ => ne_of_gt inside]
    rw [addSegment_before fun x head => lt_of_le_of_lt stop (apart x head)]
    exact valid
  · rw [← eq_of_not_before before after, addSegment_equal proper]

theorem addSegment_shorter {e : Segment T} (rest : List (Segment T)) (before : Before segment e)
    (low : e.1 ≤ segment.1) (valid : segment.1 < segment.2) :
    segment.1 = e.1 ∧ segment.2 < e.2 ∧ addSegment (e :: rest) segment = segment :: e :: rest := by
  have head : InsertsAtHead segment (e :: rest) := by
    simpa [InsertsAtHead] using before_asymm before
  rcases before with less | ⟨high, shorter⟩
  · exact absurd low (not_le.mpr less)
  · have start : segment.1 = e.1 := le_antisymm (not_lt.mp high) low
    have apart : e.1 ≠ segment.2 := by
      rw [← start]
      exact ne_of_lt valid
    refine ⟨start, shorter, ?_⟩
    rw [addSegment_at_head head]
    simp only [insertOrExtend, apart, ↓reduceIte]

theorem head_starts_below {e : Segment T} {rest : List (Segment T)} {x : T}
    (ordered : Ordered (e :: rest)) (covered : Covered (e :: rest) x) : e.1 ≤ x := by
  obtain ⟨u, mem, low, _⟩ := covered
  rcases List.mem_cons.mp mem with same | behind
  · rwa [← same]
  · have first : e.1 ≤ u.1 := not_lt.mp fun less => ordered_head_first ordered behind (Or.inl less)
    exact le_trans first low

/-- A covered segment that is not settled is stored in front of what would hide it. -/
theorem diverging_of_unsettled (valid : segment.1 < segment.2) {lo : T}
    (proper : Proper l) (ordered : Ordered l) (within : Within lo hi l)
    (covered : ∀ x, Inside segment x → Covered l x) (unsettled : ¬ Settled hi segment l) :
    Diverging hi l (addSegment l segment) := by
  induction l with
  | nil => exact (covered_nil _ (covered segment.1 ⟨le_refl _, valid⟩)).elim
  | cons e rest ih =>
    rw [settled_cons, not_or] at unsettled
    obtain ⟨noBarrier, unsettledRest⟩ := unsettled
    have startCovered := covered segment.1 ⟨le_refl _, valid⟩
    have startBelow := head_starts_below ordered startCovered
    by_cases first : Before segment e
    · obtain ⟨start, shorter, placed⟩ := addSegment_shorter rest first startBelow valid
      rw [placed]
      exact .shorter start valid shorter
    · have free : ¬ Barrier hi e rest := fun blocked => noBarrier ⟨first, blocked⟩
      obtain ⟨notFull, clear⟩ := not_or.mp free
      have room : e.2 < hi := lt_of_le_of_ne (within e (by simp)).2 notFull
      have apart : ∀ x ∈ rest.head?, e.2 < x.1 := by
        intro x head
        obtain ⟨t, shape⟩ := List.head?_eq_some_iff.mp head
        rw [shape] at ordered
        have touch := (List.isChain_cons_cons.mp ordered).1.2
        exact lt_of_le_of_ne (not_lt.mp fun less => clear ⟨x, head, less⟩) touch
      have beyond := apart_all ordered.of_cons apart
      rcases lt_or_ge segment.1 e.2 with inside | outside
      · have stop : segment.2 ≤ e.2 := by
          by_contra exceeds
          have goesOn := covered e.2 ⟨le_of_lt inside, not_le.mp exceeds⟩
          rcases (covered_cons e rest e.2).mp goesOn with here | ⟨v, behind, low, _⟩
          · exact lt_irrefl _ here.2
          · exact absurd low (not_le.mpr (beyond v behind))
        rw [addSegment_contained (proper e (by simp)) first valid inside stop apart]
        exact .contained startBelow valid stop room apart
      · have strictly : e.2 < segment.1 := by
          rcases (covered_cons e rest segment.1).mp startCovered with here | ⟨u, behind, low, _⟩
          · exact absurd here.2 (not_lt.mpr outside)
          · exact lt_of_lt_of_le (beyond u behind) low
        have before : Before e segment := Or.inl (lt_trans (proper e (by simp)) strictly)
        rw [addSegment_keeps_head before fun _ => ne_of_lt strictly]
        refine .later apart (ih (fun v mem => proper v (by simp [mem])) ordered.of_cons
          (fun v mem => within v (by simp [mem])) ?_ unsettledRest)
        intro x inside
        rcases (covered_cons e rest x).mp (covered x inside) with here | later
        · exact absurd here.2 (not_lt.mpr (le_trans outside inside.1))
        · exact later

/- Bringing the difference to light, by filling the gaps from the left. -/

theorem fill_gap {e x : Segment T} {t : List (Segment T)} (valid : e.1 < e.2) (gap : e.2 < x.1) :
    addSegment (e :: x :: t) (e.2, x.1) = (e.1, x.2) :: t := by
  have before : Before e (e.2, x.1) := Or.inl valid
  have head : InsertsAtHead (e.2, x.1) (x :: t) := by
    simp [InsertsAtHead, Before, gap, le_of_lt gap]
  rw [addSegment_joins_left before head rfl]
  simp [insertOrExtend]

theorem fill_end {e : Segment T} (y : T) (valid : e.1 < e.2) :
    addSegment [e] (e.2, y) = [(e.1, y)] := by
  have before : Before e (e.2, y) := Or.inl valid
  rw [addSegment_joins_left before (by simp [InsertsAtHead]) rfl]
  rfl

theorem fill_behind {e d : Segment T} {t : List (Segment T)} (y : T) (valid : e.1 < e.2)
    (inner : d.1 < d.2) (stop : d.2 ≤ e.2) :
    addSegment (e :: d :: t) (e.2, y) = e :: addSegment (d :: t) (e.2, y) := by
  have before : Before e (e.2, y) := Or.inl valid
  apply addSegment_keeps_head before
  intro head
  have inFront : Before d (e.2, y) := Or.inl (lt_of_lt_of_le inner stop)
  exact absurd inFront (head d rfl)

theorem diverging_heads (diverging : Diverging hi l l') (proper : Proper l) :
    ∃ x t x' t', l = x :: t ∧ l' = x' :: t' ∧ x'.1 = x.1 ∧ x'.1 < x'.2 := by
  cases diverging with
  | @contained e d rest => exact ⟨e, rest, e, _, rfl, rfl, rfl, proper e (by simp)⟩
  | @shorter d f rest start valid => exact ⟨f, rest, d, _, rfl, rfl, start, valid⟩
  | @later e l l' => exact ⟨e, l, e, l', rfl, rfl, rfl, proper e (by simp)⟩

theorem gap_after {e : Segment T} {y : T} (ordered : Ordered l) (stop : e.2 ≤ y)
    (apart : ∀ x ∈ l.head?, y < x.1) : ¬ Covered (e :: l) y := by
  rw [covered_cons]
  rintro (inside | ⟨u, mem, low, _⟩)
  · exact absurd inside.2 (not_lt.mpr stop)
  · exact absurd low (not_le.mpr (apart_all ordered apart u mem))

section Revealed

variable [AddGroup T] {r r' : Range T}

/-- After the same insertions the second range has fewer bytes available, and before the last
    of them the first range missed a byte that the last one reaches. -/
structure Reveals (hi : T) (r r' : Range T) (fills : List (Segment T)) (last : Segment T)
    (gap : T) : Prop where
  valid : ∀ s ∈ fills ++ [last], 0 ≤ s.1 ∧ s.1 < s.2 ∧ s.2 ≤ hi
  nonneg : 0 ≤ gap
  missing : ¬ Covered (fills.foldl Range.add r).segments gap
  below : gap ≤ ((fills.foldl Range.add r').add last).bytesAvailable
  fewer : ((fills.foldl Range.add r').add last).bytesAvailable <
    ((fills.foldl Range.add r).add last).bytesAvailable

def Revealed (hi : T) (r r' : Range T) : Prop :=
  r'.bytesAvailable < r.bytesAvailable ∨ ∃ fills last gap, Reveals hi r r' fills last gap

theorem revealed_step (segment : Segment T) {gap : T} (low : 0 ≤ segment.1)
    (valid : segment.1 < segment.2) (high : segment.2 ≤ hi) (nonneg : 0 ≤ gap)
    (missing : ¬ Covered r.segments gap)
    (below : gap ≤ (r'.add segment).bytesAvailable)
    (after : Revealed hi (r.add segment) (r'.add segment)) : Revealed hi r r' := by
  rcases after with fewer | ⟨fills, last, gap, reveals⟩
  · exact Or.inr
      ⟨[], segment, gap, by simpa using ⟨low, valid, high⟩, nonneg, missing, below, fewer⟩
  · refine Or.inr ⟨segment :: fills, last, gap, ?_, reveals.nonneg, reveals.missing,
      reveals.below, reveals.fewer⟩
    intro s mem
    rcases List.mem_cons.mp mem with same | later
    · rw [same]
      exact ⟨low, valid, high⟩
    · exact reveals.valid s later

theorem fill_start {x : Segment T} {t : List (Segment T)} (gap : 0 < x.1) :
    addSegment (x :: t) (0, x.1) = (0, x.2) :: t := by
  have head : InsertsAtHead (0, x.1) (x :: t) := by
    simp [InsertsAtHead, Before, gap, le_of_lt gap]
  rw [addSegment_at_head head]
  simp [insertOrExtend]

def fromZero : List (Segment T) → List (Segment T)
  | [] => []
  | x :: t => (0, x.2) :: t

theorem revealed_from_zero (diverging : Diverging hi l l') (proper : Proper l)
    (ordered : Ordered l) (within : Within 0 hi l) :
    Revealed hi ⟨fromZero l⟩ ⟨fromZero l'⟩ := by
  induction diverging with
  | @contained e d rest start valid stop room apart =>
    have nonneg : 0 < e.2 := lt_of_le_of_lt (within e (by simp)).1 (proper e (by simp))
    have missing : ¬ Covered ((0, e.2) :: rest) e.2 := gap_after ordered.of_cons (le_refl _) apart
    have ends : (0 : T) < e.2 := nonneg
    cases rest with
    | nil =>
      have joined := fill_end (e := (0, e.2)) hi ends
      have kept := fill_behind (e := (0, e.2)) (t := []) hi ends valid stop
      simp only at joined kept
      refine revealed_step (e.2, hi) (le_of_lt nonneg) room (le_refl _)
        (le_of_lt nonneg) missing ?_ (Or.inl ?_)
      · simp [Range.add, fromZero, kept]
      · simpa [Range.add, fromZero, kept, joined] using room
    | cons x t =>
      have gap := apart x rfl
      have proper' := proper x (by simp)
      have joined := fill_gap (e := (0, e.2)) (t := t) ends gap
      have kept := fill_behind (e := (0, e.2)) (t := x :: t) x.1 ends valid stop
      simp only at joined kept
      refine revealed_step (e.2, x.1) (le_of_lt nonneg) gap
        (le_trans (le_of_lt proper') (within x (by simp)).2) (le_of_lt nonneg) missing ?_
        (Or.inl ?_)
      · simp [Range.add, fromZero, kept]
      · simpa [Range.add, fromZero, kept, joined] using lt_trans gap proper'
  | @shorter d f rest start valid stop => exact Or.inl (by simpa [fromZero] using stop)
  | @later e l l' apart tail ih =>
    have properTail : Proper l := fun v mem => proper v (by simp [mem])
    have withinTail : Within 0 hi l := fun v mem => within v (by simp [mem])
    have rest := ih properTail ordered.of_cons withinTail
    obtain ⟨x, t, x', t', rfl, rfl, start, valid⟩ := diverging_heads tail properTail
    have nonneg : 0 < e.2 := lt_of_le_of_lt (within e (by simp)).1 (proper e (by simp))
    have gap := apart x rfl
    have gap' : e.2 < x'.1 := by rw [start]; exact gap
    have missing : ¬ Covered ((0, e.2) :: x :: t) e.2 :=
      gap_after ordered.of_cons (le_refl _) apart
    have joined := fill_gap (e := (0, e.2)) (t := t) nonneg gap
    have joined' := fill_gap (e := (0, e.2)) (t := t') nonneg gap'
    simp only [start] at joined joined'
    refine revealed_step (e.2, x.1) (le_of_lt nonneg) gap
      (le_trans (le_of_lt (properTail x (by simp))) (withinTail x (by simp)).2)
      (le_of_lt nonneg) missing ?_ ?_
    · simpa [Range.add, fromZero, joined'] using le_of_lt (lt_trans gap' valid)
    · simpa only [Range.add, fromZero, joined, joined'] using rest

theorem diverging_revealed (diverging : Diverging hi l l') (proper : Proper l)
    (ordered : Ordered l) (within : Within 0 hi l) : Revealed hi ⟨l⟩ ⟨l'⟩ := by
  have zeroed := revealed_from_zero diverging proper ordered within
  obtain ⟨x, t, x', t', rfl, rfl, start, valid⟩ := diverging_heads diverging proper
  by_cases zero : x.1 = 0
  · have same : x = (0, x.2) := Prod.ext zero rfl
    have same' : x' = (0, x'.2) := Prod.ext (start.trans zero) rfl
    rw [same, same']
    exact zeroed
  · have gap : 0 < x.1 := lt_of_le_of_ne (within x (by simp)).1 (Ne.symm zero)
    have gap' : 0 < x'.1 := by rw [start]; exact gap
    have missing : ¬ Covered (x :: t) 0 := by
      rintro ⟨u, mem, low, _⟩
      rcases List.mem_cons.mp mem with same | behind
      · exact absurd (same ▸ low) (not_le.mpr gap)
      · have notBelow := ordered_head_first ordered behind
        exact notBelow (Or.inl (lt_of_le_of_lt low gap))
    have joined := fill_start (t := t) gap
    have joined' := fill_start (t := t') gap'
    rw [start] at joined'
    refine revealed_step (0, x.1) (le_refl _) gap
      (le_trans (le_of_lt (proper x (by simp))) (within x (by simp)).2) (le_refl _) missing ?_ ?_
    · simpa [Range.add, joined'] using le_of_lt (lt_trans gap' valid)
    · simp only [Range.add, joined, joined']
      exact zeroed

end Revealed

end SettledSegments
