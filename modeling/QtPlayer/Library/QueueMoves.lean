import Mathlib.Data.List.Induction
import Mathlib.Data.List.Sort

/- Priority queues, and queues whose elements are moved to one end one after the other. -/
namespace QueueMoves

variable {α : Type}

section PriorityQueues

variable {first : α → α → Prop}

/-- The items stand in the order in which they are popped. -/
structure PriorityQueue (first : α → α → Prop) where
  items : List α
  sorted : items.Pairwise first

def empty : PriorityQueue first := ⟨[], .nil⟩

def push [DecidableRel first] [Std.Total first] [IsTrans α first]
    (queue : PriorityQueue first) (x : α) : PriorityQueue first :=
  ⟨queue.items.orderedInsert first x, queue.sorted.orderedInsert x _⟩

theorem mem_push [DecidableRel first] [Std.Total first] [IsTrans α first]
    (queue : PriorityQueue first) (x y : α) :
    y ∈ (push queue x).items ↔ y = x ∨ y ∈ queue.items :=
  List.mem_orderedInsert first

end PriorityQueues

variable [DecidableEq α] {queue : List α}

def moveToFront (queue : List α) (x : α) : List α :=
  if x ∈ queue then x :: queue.erase x else queue

def moveToBack (queue : List α) (x : α) : List α :=
  if x ∈ queue then queue.erase x ++ [x] else queue

theorem mem_moveToFront (queue : List α) (x y : α) : y ∈ moveToFront queue x ↔ y ∈ queue := by
  unfold moveToFront
  split
  · rename_i here
    by_cases same : y = x
    · simp [same, here]
    · simp [same, List.mem_erase_of_ne same]
  · rfl

theorem moveToFront_nodup (once : queue.Nodup) (x : α) : (moveToFront queue x).Nodup := by
  unfold moveToFront
  split
  · exact List.nodup_cons.mpr ⟨once.not_mem_erase, once.erase x⟩
  · exact once

theorem moveToBack_eq_reverse (once : queue.Nodup) (x : α) :
    moveToBack queue x = (moveToFront queue.reverse x).reverse := by
  have reversed := List.nodup_reverse.mpr once
  simp only [moveToBack, moveToFront, List.mem_reverse, once.erase_eq_filter,
    reversed.erase_eq_filter, List.filter_reverse]
  split <;> simp

theorem moveToBack_nodup (once : queue.Nodup) (x : α) : (moveToBack queue x).Nodup := by
  rw [moveToBack_eq_reverse once]
  exact List.nodup_reverse.mpr (moveToFront_nodup (List.nodup_reverse.mpr once) x)

theorem moveToBack_absent {x : α} (absent : x ∉ queue) : moveToBack queue x = queue :=
  if_neg absent

theorem moveToFront_append {front rest : List α} {x : α} (once : (front ++ rest).Nodup)
    (here : x ∈ front ++ rest) : moveToFront (front ++ rest) x =
      (x :: front.filter (· != x)) ++ rest.filter (· != x) := by
  rw [moveToFront, if_pos here, once.erase_eq_filter, List.filter_append, List.cons_append]

/-- After any moves to the front the moved elements stand there, the last one first, and the
    others follow as they stood. -/
theorem foldl_moveToFront (once : queue.Nodup) (moved : List α) :
    ∃ front, moved.foldl moveToFront queue = front ++ queue.filter (· ∉ moved) ∧
      (front ++ queue.filter (· ∉ moved)).Nodup ∧ front.Sublist moved.reverse ∧
      ∀ x, x ∈ front ↔ x ∈ moved ∧ x ∈ queue := by
  induction moved using List.reverseRecOn with
  | nil => exact ⟨[], by simp, by simpa using once, .slnil, by simp⟩
  | append_singleton moved x ih =>
    obtain ⟨front, same, before, sub, mem⟩ := ih
    have others : queue.filter (· ∉ moved ++ [x]) =
        (queue.filter (· ∉ moved)).filter (· != x) := by
      rw [List.filter_filter]
      apply List.filter_congr
      intro y _
      by_cases eq : y = x <;> simp [eq]
    rw [List.foldl_append, List.foldl_cons, List.foldl_nil, same, others]
    by_cases here : x ∈ queue
    · have present : x ∈ front ++ queue.filter (· ∉ moved) := by
        by_cases old : x ∈ moved
        · exact List.mem_append_left _ ((mem x).mpr ⟨old, here⟩)
        · exact List.mem_append_right _ (List.mem_filter.mpr ⟨here, by simpa using old⟩)
      have step := moveToFront_append before present
      refine ⟨x :: front.filter (· != x), step, ?_, ?_, ?_⟩
      · rw [← step]
        exact moveToFront_nodup before x
      · rw [List.reverse_append]
        exact (List.filter_sublist.trans sub).cons_cons x
      · intro y
        by_cases eq : y = x
        · simp [eq, here]
        · simp [eq, mem y]
    · have absent : x ∉ front ++ queue.filter (· ∉ moved) := by
        intro present
        rcases List.mem_append.mp present with left | right
        · exact here ((mem x).mp left).2
        · exact here (List.mem_filter.mp right).1
      have unfiltered : (queue.filter (· ∉ moved)).filter (· != x) =
          queue.filter (· ∉ moved) := by
        apply List.filter_eq_self.mpr
        intro y listed
        have differs : y ≠ x := fun eq => here (eq ▸ (List.mem_filter.mp listed).1)
        simpa using differs
      rw [unfiltered]
      refine ⟨front, if_neg absent, before, ?_, ?_⟩
      · rw [List.reverse_append]
        exact sub.cons x
      · intro y
        rw [mem y, List.mem_append, List.mem_singleton]
        constructor
        · intro both
          exact ⟨Or.inl both.1, both.2⟩
        · intro both
          rcases both.1 with old | eq
          · exact ⟨old, both.2⟩
          · exact absurd (eq ▸ both.2) here

theorem foldl_moveToBack (once : queue.Nodup) (moved : List α) :
    moved.foldl moveToBack queue = (moved.foldl moveToFront queue.reverse).reverse := by
  induction moved generalizing queue with
  | nil => simp
  | cons x moved ih =>
    rw [List.foldl_cons, List.foldl_cons, ih (moveToBack_nodup once x),
      moveToBack_eq_reverse once, List.reverse_reverse]

variable (above : α → α → Prop) [Std.Irrefl above] [Std.Antisymm above]

theorem front_kept_iff (once : queue.Nodup) (moved : List α)
    (ascending : moved.reverse.Pairwise fun x y => x ≠ y → above x y) :
    moved.foldl moveToFront queue = queue.filter (· ∈ moved) ++ queue.filter (· ∉ moved) ↔
      (queue.filter (· ∈ moved)).Pairwise above := by
  obtain ⟨front, same, whole, sub, mem⟩ := foldl_moveToFront once moved
  have falls : front.Pairwise above :=
    ((ascending.sublist sub).and (List.nodup_append.mp whole).1).imp fun both => both.1 both.2
  rw [same]
  constructor
  · intro kept
    rw [← List.append_cancel_right kept]
    exact falls
  · intro fell
    congr 1
    apply falls.eq_of_mem_iff fell
    intro x
    simp [mem x, and_comm]

theorem back_kept_iff (once : queue.Nodup) (moved : List α)
    (descending : moved.Pairwise fun x y => x ≠ y → above x y) :
    moved.foldl moveToBack queue = queue.filter (· ∉ moved) ++ queue.filter (· ∈ moved) ↔
      (queue.filter (· ∈ moved)).Pairwise above := by
  have mirrored := front_kept_iff (fun x y => above y x)
    (List.nodup_reverse.mpr once) moved
    (List.pairwise_reverse.mpr (descending.imp fun falls differ => falls differ.symm))
  rw [List.filter_reverse, List.pairwise_reverse] at mirrored
  rw [← mirrored, foldl_moveToBack once, List.reverse_eq_iff, List.reverse_append,
    List.filter_reverse]

end QueueMoves
