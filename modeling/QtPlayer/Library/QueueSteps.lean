import Mathlib.Data.List.Nodup

/- Queues whose elements are moved one place towards the front, one after the other. Of the other
   elements each is to pass one. -/
namespace QueueSteps

variable {α : Type} [DecidableEq α]

def moveUp : List α → α → List α
  | a :: b :: rest, x => if b = x then x :: a :: rest else a :: moveUp (b :: rest) x
  | queue, _ => queue

def moveAllUp (queue moves : List α) : List α := moves.foldl moveUp queue

/-- The elements of the kind `still` ahead of `x`, all of them where `x` is not in the queue. -/
def ahead (still : α → Bool) (x : α) : List α → List α
  | [] => []
  | a :: rest =>
    if a = x then [] else if still a then a :: ahead still x rest else ahead still x rest

def Adjacent (p t : α) : List α → Prop
  | a :: b :: rest => (a = p ∧ b = t) ∨ Adjacent p t (b :: rest)
  | _ => False

def MovedFirst (moves : List α) (p t : α) : Prop :=
  ∃ before after, moves = before ++ t :: after ∧ p ∈ before

/-- What is directly ahead of an element that is to pass one of the kind `kept` stands still, or
    is moved first. -/
def Leads (still kept : α → Bool) (moves queue : List α) : Prop :=
  ∀ p t, Adjacent p t queue → t ∈ moves → ahead kept t queue ≠ [] →
    still p = true ∨ MovedFirst moves p t

def PassesOne (still : α → Bool) (queue after : List α) (x : α) : Prop :=
  (ahead still x after).length + 1 = (ahead still x queue).length

variable {still kept : α → Bool} {queue moves before after : List α} {p t x : α}

/- One move. -/

theorem moveUp_absent (absent : x ∉ queue) : moveUp queue x = queue := by
  induction queue with
  | nil => rfl
  | cons a rest ih =>
    cases rest with
    | nil => rfl
    | cons b rest =>
      have other : b ≠ x := by
        intro same
        exact absent (by simp [same])
      rw [moveUp, if_neg other, ih (by intro mem; exact absent (List.mem_cons_of_mem a mem))]

theorem moveUp_head (once : (x :: queue).Nodup) : moveUp (x :: queue) x = x :: queue := by
  cases queue with
  | nil => rfl
  | cons b rest =>
    have absent := (List.nodup_cons.mp once).1
    have other : b ≠ x := by
      intro same
      exact absent (by simp [same])
    rw [moveUp, if_neg other, moveUp_absent absent]

theorem moveUp_at (once : (before ++ p :: x :: after).Nodup) :
    moveUp (before ++ p :: x :: after) x = before ++ x :: p :: after := by
  induction before with
  | nil => rw [List.nil_append, moveUp, if_pos rfl, List.nil_append]
  | cons a before ih =>
    have rest := ih (List.nodup_cons.mp once).2
    cases before with
    | nil =>
      have other : p ≠ x := by
        intro same
        simp [same] at once
      simp only [List.cons_append, List.nil_append] at rest ⊢
      rw [moveUp, if_neg other, rest]
    | cons b before =>
      have other : b ≠ x := by
        intro same
        simp [same] at once
      simp only [List.cons_append] at rest ⊢
      rw [moveUp, if_neg other, rest]

theorem place_cases (queue : List α) (x : α) : x ∉ queue ∨ (∃ rest, queue = x :: rest) ∨
    ∃ before p after, queue = before ++ p :: x :: after := by
  by_cases here : x ∈ queue
  · obtain ⟨front, after, rfl⟩ := List.append_of_mem here
    rcases List.eq_nil_or_concat front with rfl | ⟨before, p, rfl⟩
    · exact Or.inr (Or.inl ⟨after, rfl⟩)
    · exact Or.inr (Or.inr ⟨before, p, after, by simp⟩)
  · exact Or.inl here

theorem moveUp_perm (queue : List α) (x : α) : (moveUp queue x).Perm queue := by
  induction queue with
  | nil => exact List.Perm.refl []
  | cons a rest ih =>
    cases rest with
    | nil => exact List.Perm.refl [a]
    | cons b rest =>
      rw [moveUp]
      split
      · rename_i same
        rw [same]
        exact List.Perm.swap a x rest
      · exact ih.cons a

theorem moveUp_nodup (once : queue.Nodup) (x : α) : (moveUp queue x).Nodup :=
  (moveUp_perm queue x).nodup_iff.mpr once

/- What is ahead. -/

theorem ahead_here (still : α → Bool) (x : α) (rest : List α) : ahead still x (x :: rest) = [] :=
  if_pos rfl

theorem ahead_still (mem : p ∈ ahead still x queue) : still p = true := by
  induction queue with
  | nil => cases mem
  | cons a rest ih =>
    rw [ahead] at mem
    split at mem
    · cases mem
    · split at mem
      · rename_i stands
        rcases List.mem_cons.mp mem with rfl | later
        · exact stands
        · exact ih later
      · exact ih mem

theorem ahead_append (absent : x ∉ before) :
    ahead still x (before ++ after) = before.filter still ++ ahead still x after := by
  induction before with
  | nil => rfl
  | cons a before ih =>
    have other : a ≠ x := by
      intro same
      exact absent (by simp [same])
    rw [List.cons_append, ahead, if_neg other, ih fun mem => absent (List.mem_cons_of_mem a mem),
      List.filter_cons]
    split <;> rfl

theorem ahead_at (absent : x ∉ before) :
    ahead still x (before ++ x :: after) = before.filter still := by
  rw [ahead_append absent, ahead_here, List.append_nil]

omit [DecidableEq α] in
theorem not_mem_front (once : (before ++ x :: after).Nodup) : x ∉ before := by
  intro mem
  exact (List.nodup_append.mp once).2.2 x mem x (List.mem_cons_self ..) rfl

omit [DecidableEq α] in
theorem not_mem_behind (once : (before ++ p :: x :: after).Nodup) : x ∉ before ++ [p] := by
  have split : (before ++ [p] ++ x :: after).Nodup := by
    simpa using once
  exact not_mem_front split

theorem ahead_behind (still : α → Bool) (once : (before ++ p :: x :: after).Nodup) :
    ahead still x (before ++ p :: x :: after) = (before ++ [p]).filter still := by
  rw [← ahead_at (not_mem_behind once), List.append_assoc, List.singleton_append]

theorem ahead_moveUp (once : queue.Nodup) (moved : still x = false) (other : t ≠ x) :
    ahead still t (moveUp queue x) = ahead still t queue := by
  rcases place_cases queue x with absent | ⟨rest, rfl⟩ | ⟨before, p, after, rfl⟩
  · rw [moveUp_absent absent]
  · rw [moveUp_head once]
  · have differ : x ≠ t := other.symm
    rw [moveUp_at once]
    induction before with
    | nil =>
      simp only [List.nil_append, ahead, differ, moved, if_false, Bool.false_eq_true]
    | cons a before ih =>
      simp only [List.cons_append, ahead]
      rw [ih (List.nodup_cons.mp once).2]

theorem ahead_moveUp_self (still : α → Bool) (once : queue.Nodup) (x : α) :
    ∃ passed, ahead still x queue = ahead still x (moveUp queue x) ++ passed ∧
      passed.length ≤ 1 := by
  rcases place_cases queue x with absent | ⟨rest, rfl⟩ | ⟨before, p, after, rfl⟩
  · rw [moveUp_absent absent]
    exact ⟨[], by simp, by simp⟩
  · rw [moveUp_head once]
    exact ⟨[], by simp, by simp⟩
  · have front : x ∉ before := fun mem => not_mem_behind once (List.mem_append_left _ mem)
    refine ⟨[p].filter still, ?_, List.length_filter_le _ _⟩
    rw [moveUp_at once, ahead_at front, ← List.filter_append, ahead_behind still once]

/- All moves. -/

theorem moveAllUp_nodup (once : queue.Nodup) (moves : List α) : (moveAllUp queue moves).Nodup := by
  induction moves generalizing queue with
  | nil => exact once
  | cons x moves ih => exact ih (moveUp_nodup once x)

theorem moveAllUp_perm (queue moves : List α) : (moveAllUp queue moves).Perm queue := by
  induction moves generalizing queue with
  | nil => exact List.Perm.refl queue
  | cons x moves ih => exact (ih _).trans (moveUp_perm queue x)

theorem moveUp_filter (once : queue.Nodup) (moved : still x = false) :
    (moveUp queue x).filter still = queue.filter still := by
  rcases place_cases queue x with absent | ⟨rest, rfl⟩ | ⟨before, p, after, rfl⟩
  · rw [moveUp_absent absent]
  · rw [moveUp_head once]
  · rw [moveUp_at once]
    simp only [List.filter_append, List.filter_cons, moved, Bool.false_eq_true, if_false]

theorem moveAllUp_filter (once : queue.Nodup) (moved : ∀ x ∈ moves, still x = false) :
    (moveAllUp queue moves).filter still = queue.filter still := by
  induction moves generalizing queue with
  | nil => rfl
  | cons x moves ih =>
    obtain ⟨first, others⟩ := List.forall_mem_cons.mp moved
    exact (ih (moveUp_nodup once x) others).trans (moveUp_filter once first)

theorem ahead_moveAllUp (once : queue.Nodup) (moved : ∀ x ∈ moves, still x = false) (t : α) :
    ∃ passed, ahead still t queue = ahead still t (moveAllUp queue moves) ++ passed ∧
      passed.length ≤ moves.count t := by
  induction moves generalizing queue with
  | nil => exact ⟨[], (List.append_nil _).symm, Nat.zero_le _⟩
  | cons x moves ih =>
    obtain ⟨first, others⟩ := List.forall_mem_cons.mp moved
    obtain ⟨later, rest, few⟩ := ih (moveUp_nodup once x) others
    by_cases same : t = x
    · subst same
      obtain ⟨passed, now, one⟩ := ahead_moveUp_self still once t
      refine ⟨later ++ passed, ?_, ?_⟩
      · rw [now, rest, List.append_assoc]
        rfl
      · rw [List.length_append, List.count_cons_self]
        omega
    · rw [ahead_moveUp once first same] at rest
      refine ⟨later, rest, ?_⟩
      rw [List.count_cons_of_ne (Ne.symm same)]
      exact few

theorem ahead_unmoved (once : queue.Nodup) (moved : ∀ x ∈ moves, still x = false)
    (unmoved : t ∉ moves) : ahead still t (moveAllUp queue moves) = ahead still t queue := by
  obtain ⟨passed, same, few⟩ := ahead_moveAllUp once moved t
  rw [List.count_eq_zero_of_not_mem unmoved, Nat.le_zero, List.length_eq_zero_iff] at few
  rw [same, few, List.append_nil]

/- Neighbours. -/

section Neighbours

omit [DecidableEq α]

theorem adjacent_append_left (after : List α) (near : Adjacent p t before) :
    Adjacent p t (before ++ after) := by
  induction before with
  | nil => exact near.elim
  | cons a before ih =>
    cases before with
    | nil => exact near.elim
    | cons b before =>
      rcases near with here | later
      · exact Or.inl here
      · exact Or.inr (ih later)

theorem adjacent_append_right (before : List α) (near : Adjacent p t after) :
    Adjacent p t (before ++ after) := by
  induction before with
  | nil => exact near
  | cons a before ih =>
    cases rest : before ++ after with
    | nil =>
      rw [rest] at ih
      exact ih.elim
    | cons b later =>
      rw [List.cons_append, rest]
      rw [rest] at ih
      exact Or.inr ih

theorem adjacent_cut (near : Adjacent p t (before ++ x :: after)) :
    Adjacent p t (before ++ [x]) ∨ Adjacent p t (x :: after) := by
  induction before with
  | nil => exact Or.inr near
  | cons a before ih =>
    cases before with
    | nil =>
      rcases near with here | later
      · exact Or.inl (Or.inl here)
      · exact Or.inr later
    | cons b before =>
      rcases near with here | later
      · exact Or.inl (Or.inl here)
      · rcases ih later with left | right
        · exact Or.inl (Or.inr left)
        · exact Or.inr right

theorem adjacent_snoc (near : Adjacent p t (before ++ [x])) (other : t ≠ x) :
    Adjacent p t before := by
  induction before with
  | nil => exact near.elim
  | cons a before ih =>
    cases before with
    | nil =>
      rcases near with here | later
      · exact absurd here.2.symm other
      · exact later.elim
    | cons b before =>
      rcases near with here | later
      · exact Or.inl here
      · exact Or.inr (ih later)

theorem adjacent_mem (near : Adjacent p t queue) : p ∈ queue ∧ t ∈ queue := by
  induction queue with
  | nil => exact near.elim
  | cons a rest ih =>
    cases rest with
    | nil => exact near.elim
    | cons b rest =>
      rcases near with ⟨rfl, rfl⟩ | later
      · simp
      · exact ⟨List.mem_cons_of_mem a (ih later).1, List.mem_cons_of_mem a (ih later).2⟩

theorem adjacent_at (near : Adjacent p t queue) :
    ∃ before after, queue = before ++ p :: t :: after := by
  induction queue with
  | nil => exact near.elim
  | cons a rest ih =>
    cases rest with
    | nil => exact near.elim
    | cons b rest =>
      rcases near with ⟨rfl, rfl⟩ | later
      · exact ⟨[], rest, rfl⟩
      · obtain ⟨before, after, same⟩ := ih later
        exact ⟨a :: before, after, by rw [same, List.cons_append]⟩

theorem adjacent_ne (once : queue.Nodup) (near : Adjacent p t queue) : p ≠ t := by
  rintro rfl
  obtain ⟨before, after, same⟩ := adjacent_at near
  rw [same] at once
  exact (List.nodup_cons.mp (List.nodup_append.mp once).2.1).1 (List.mem_cons_self ..)

end Neighbours

/- When every element passes one. -/

omit [DecidableEq α] in
theorem movedFirst_tail {r : α} (first : MovedFirst (r :: moves) p t) (other : p ≠ r) :
    MovedFirst moves p t := by
  obtain ⟨front, rest, same, mem⟩ := first
  cases front with
  | nil => cases mem
  | cons a front =>
    obtain ⟨rfl, rfl⟩ := List.cons.inj same
    rcases List.mem_cons.mp mem with here | later
    · exact absurd here other
    · exact ⟨front, rest, rfl, later⟩

omit [DecidableEq α] in
theorem none_before_first {r : α} (order : (r :: moves).Nodup) : ¬ MovedFirst (r :: moves) p r := by
  rintro ⟨front, rest, same, mem⟩
  cases front with
  | nil => cases mem
  | cons a front =>
    obtain ⟨rfl, rfl⟩ := List.cons.inj same
    exact (List.nodup_cons.mp order).1 (List.mem_append_right _ (List.mem_cons_self ..))

omit [DecidableEq α] in
theorem not_kept (stands : ∀ x, kept x = true → still x = true) (moves : still x = false) :
    kept x = false := by
  rw [Bool.eq_false_iff]
  intro isKept
  rw [stands x isKept] at moves
  cases moves

section FirstMove

variable {r : α} (once : queue.Nodup) (order : (r :: moves).Nodup)
variable (leads : Leads still kept (r :: moves) queue)
include once order leads

theorem passes_first (here : r ∈ queue) (some : ahead kept r queue ≠ []) :
    PassesOne still queue (moveUp queue r) r := by
  rcases place_cases queue r with absent | ⟨rest, rfl⟩ | ⟨before, p, after, rfl⟩
  · exact absurd here absent
  · exact absurd (ahead_here kept r rest) some
  · have near : Adjacent p r (before ++ p :: r :: after) :=
      adjacent_append_right before (Or.inl ⟨rfl, rfl⟩)
    have stands := (leads p r near (List.mem_cons_self ..) some).resolve_right
      (none_before_first order)
    have front : r ∉ before := fun mem => not_mem_behind once (List.mem_append_left _ mem)
    rw [PassesOne, moveUp_at once, ahead_at front, ahead_behind still once, List.filter_append,
      List.length_append]
    simp [stands]

/-- The element that is moved and the one it passes have only to do with elements that are not to
    pass any, or stand still. -/
theorem leads_step (stands : ∀ x, kept x = true → still x = true)
    (moved : ∀ x ∈ r :: moves, still x = false) : Leads still kept moves (moveUp queue r) := by
  intro p t near mem some
  have first := not_kept stands (moved r (List.mem_cons_self ..))
  have later := moved t (List.mem_cons_of_mem r mem)
  have differ : t ≠ r := by
    rintro rfl
    exact (List.nodup_cons.mp order).1 mem
  rw [ahead_moveUp once first differ] at some
  have old (near : Adjacent p t queue) (other : p ≠ r) :
      still p = true ∨ MovedFirst moves p t := by
    rcases leads p t near (List.mem_cons_of_mem r mem) some with stands | before
    · exact Or.inl stands
    · exact Or.inr (movedFirst_tail before other)
  rcases place_cases queue r with absent | ⟨rest, rfl⟩ | ⟨before, q, after, rfl⟩
  · rw [moveUp_absent absent] at near
    apply old near
    rintro rfl
    exact absent (adjacent_mem near).1
  · rw [moveUp_head once] at near
    apply old near
    rintro rfl
    cases rest with
    | nil => exact near
    | cons b rest =>
      rcases near with ⟨_, rfl⟩ | behind
      · rw [ahead, if_neg differ.symm, if_neg (by simp [first]), ahead_here] at some
        exact some rfl
      · exact (List.nodup_cons.mp once).1 (adjacent_mem behind).1
  · have passed : Adjacent q r (before ++ q :: r :: after) :=
      adjacent_append_right before (Or.inl ⟨rfl, rfl⟩)
    have passable (some : ahead kept r (before ++ q :: r :: after) ≠ []) : still q = true :=
      (leads q r passed (List.mem_cons_self ..) some).resolve_right (none_before_first order)
    have absent := not_mem_behind once
    have aheadR := ahead_behind kept once
    rw [moveUp_at once] at near
    rcases adjacent_cut near with front | ⟨rfl, rfl⟩ | behind
    · have inFront := adjacent_snoc front differ
      apply old (adjacent_append_left _ inFront)
      rintro rfl
      exact absent (List.mem_append_left _ (adjacent_mem inFront).1)
    · rw [ahead_at (not_mem_front once)] at some
      have stood := passable (by rw [aheadR, List.filter_append]; simp [some])
      rw [later] at stood
      cases stood
    · cases after with
      | nil => exact behind.elim
      | cons w after =>
        have whole : before ++ q :: r :: w :: after = (before ++ [q, r]) ++ w :: after := by simp
        rcases behind with ⟨rfl, rfl⟩ | further
        · apply Or.inl
          apply passable
          intro none
          rw [aheadR] at none
          rw [whole] at some once
          rw [ahead_at (not_mem_front once)] at some
          apply some
          rw [show before ++ [q, r] = (before ++ [q]) ++ [r] by simp, List.filter_append, none]
          simp [first]
        · apply old
          · rw [whole]
            exact adjacent_append_right _ further
          · rintro rfl
            rw [show before ++ q :: p :: w :: after = (before ++ [q]) ++ p :: (w :: after) by simp]
              at once
            have alone := (List.nodup_cons.mp (List.nodup_append.mp once).2.1).1
            exact alone (adjacent_mem further).1

end FirstMove

/-- Every element that has one to pass does so, when the moves come in such an order. -/
theorem passes_of_leads (stands : ∀ x, kept x = true → still x = true) (once : queue.Nodup)
    (order : moves.Nodup) (moved : ∀ x ∈ moves, still x = false)
    (leads : Leads still kept moves queue) (mem : t ∈ moves) (here : t ∈ queue)
    (some : ahead kept t queue ≠ []) :
    PassesOne still queue (moveAllUp queue moves) t := by
  induction moves generalizing queue with
  | nil => cases mem
  | cons r moves ih =>
    obtain ⟨first, others⟩ := List.forall_mem_cons.mp moved
    obtain ⟨notMoved, rest⟩ := List.nodup_cons.mp order
    have next := moveUp_nodup once r
    by_cases same : t = r
    · subst same
      have passes := passes_first once order leads here some
      rw [PassesOne, ← ahead_unmoved next others notMoved] at passes
      exact passes
    · have unchanged := ahead_moveUp once first same
      rw [PassesOne, ← unchanged]
      apply ih next rest others (leads_step once order leads stands moved)
      · exact (List.mem_cons.mp mem).resolve_left same
      · exact (moveUp_perm queue r).mem_iff.mpr here
      · rw [ahead_moveUp once (not_kept stands first) same]
        exact some

theorem stuck_behind (once : queue.Nodup) (moved : ∀ x ∈ moves, still x = false)
    (unmoved : t ∉ moves) (unmoved' : p ∉ moves) (notP : still p = false)
    (near : Adjacent p t queue) :
    ahead still t (moveUp (moveAllUp queue moves) t) = ahead still t queue := by
  have after := moveAllUp_nodup once moves
  have aheadT := ahead_unmoved once moved unmoved
  have aheadP := ahead_unmoved once moved unmoved'
  have order : ahead (fun x => decide (x ∉ moves)) t (moveAllUp queue moves) =
      ahead (fun x => decide (x ∉ moves)) t queue := ahead_unmoved once (by simp) unmoved
  obtain ⟨front, rest, rfl⟩ := adjacent_at near
  rw [ahead_at (not_mem_front once)] at aheadP
  rw [ahead_behind _ once] at order
  rw [← aheadT]
  rcases place_cases (moveAllUp (front ++ p :: t :: rest) moves) t with
    gone | ⟨later, same⟩ | ⟨before, v, later, same⟩
  · rw [moveUp_absent gone]
  · rw [same] at after ⊢
    rw [moveUp_head after]
  · rw [same] at after aheadT aheadP order ⊢
    rw [ahead_behind _ after] at order
    rw [ahead_behind _ after, ahead_behind _ once] at aheadT
    have front' : t ∉ before := fun mem => not_mem_behind after (List.mem_append_left _ mem)
    rw [moveUp_at after, ahead_behind _ after, ahead_at front', List.filter_append]
    cases stands : still v with
    | false => simp [stands]
    | true =>
      -- then `v` stands between the two, which keep their order and what is ahead of them
      exfalso
      have among : p ∈ (before ++ [v]).filter fun x => decide (x ∉ moves) := by
        rw [order]
        exact List.mem_filter.mpr ⟨by simp, by simpa using unmoved'⟩
      have differ : p ≠ v := by
        rintro rfl
        rw [notP] at stands
        cases stands
      have between : p ∈ before := by
        have mem := (List.mem_filter.mp among).1
        simpa [differ] using mem
      obtain ⟨first, second, rfl⟩ := List.append_of_mem between
      have split : (first ++ p :: second) ++ v :: t :: later =
          first ++ p :: (second ++ v :: t :: later) := by simp
      rw [split] at after aheadP
      rw [ahead_at (not_mem_front after)] at aheadP
      have passed : v ∈ (front ++ [p]).filter still := by
        rw [← aheadT]
        exact List.mem_filter.mpr ⟨by simp, stands⟩
      rw [List.filter_append, ← aheadP] at passed
      have inFirst : v ∈ first := by
        simpa [notP, stands] using passed
      exact (List.nodup_append.mp after).2.2 v inFirst v (by simp) rfl

omit [DecidableEq α] in
theorem movedFirst_iff {first : α → α → Prop} [Std.Antisymm first]
    (sorted : moves.Pairwise fun x y => x ≠ y → first x y) (differ : p ≠ t) (memP : p ∈ moves)
    (memT : t ∈ moves) : MovedFirst moves p t ↔ first p t := by
  constructor
  · rintro ⟨before, after, rfl, mem⟩
    exact (List.pairwise_append.mp sorted).2.2 p mem t (List.mem_cons_self ..) differ
  · intro leads
    obtain ⟨before, after, rfl⟩ := List.append_of_mem memT
    rcases List.mem_append.mp memP with mem | mem
    · exact ⟨before, after, rfl, mem⟩
    · have behind := (List.mem_cons.mp mem).resolve_left differ
      have trails := (List.pairwise_cons.mp (List.pairwise_append.mp sorted).2.1).1 p behind
      exact absurd (Std.Antisymm.antisymm p t leads (trails differ.symm)) differ

theorem passes_iff_leads (stands : ∀ x, kept x = true → still x = true) (once : queue.Nodup)
    (order : moves.Nodup) (kinds : ∀ x, still x = false ↔ x ∈ moves) :
    (∀ t ∈ moves, t ∈ queue → ahead kept t queue ≠ [] →
      PassesOne still queue (moveAllUp queue moves) t) ↔ Leads still kept moves queue := by
  have moved : ∀ x ∈ moves, still x = false := fun x mem => (kinds x).mpr mem
  constructor
  · intro every p t near mem some
    cases moves' : still p with
    | true => exact Or.inl rfl
    | false =>
      apply Or.inr
      have memP := (kinds p).mp moves'
      have passes := every t mem (adjacent_mem near).2 some
      obtain ⟨early, late, rfl⟩ := List.append_of_mem mem
      by_cases before : p ∈ early
      · exact ⟨early, late, rfl, before⟩
      · have movedEarly : ∀ x ∈ early, still x = false :=
          fun x mem => moved x (List.mem_append_left _ mem)
        have movedLate : ∀ x ∈ late, still x = false :=
          fun x mem => moved x (List.mem_append_right _ (List.mem_cons_of_mem t mem))
        have notLate : t ∉ late := (List.nodup_cons.mp (List.nodup_append.mp order).2.1).1
        have stuck := stuck_behind once movedEarly (not_mem_front order) before moves' near
        have next := moveUp_nodup (moveAllUp_nodup once early) t
        have unchanged := ahead_unmoved next movedLate notLate
        have split : moveAllUp queue (early ++ t :: late) =
            moveAllUp (moveUp (moveAllUp queue early) t) late := by
          rw [moveAllUp, List.foldl_append]
          rfl
        rw [PassesOne, split, unchanged, stuck] at passes
        exact absurd passes (Nat.succ_ne_self _)
  · intro leads t mem here some
    exact passes_of_leads stands once order moved leads mem here some

/- A kind among those that stand still. -/

theorem ahead_filter (stands : ∀ x, kept x = true → still x = true) (t : α) (queue : List α) :
    ahead kept t queue = (ahead still t queue).filter kept := by
  induction queue with
  | nil => rfl
  | cons a rest ih =>
    rw [ahead, ahead]
    split
    · rfl
    · cases isKept : kept a with
      | true => simp [stands a isKept, isKept, ih]
      | false =>
        rw [ih, if_neg Bool.false_ne_true]
        split
        · rw [List.filter_cons_of_neg (by simp [isKept])]
        · rfl

/-- Elements that are neither kept nor the one that looks ahead may be left out. -/
theorem ahead_among {among : α → Bool} (within : ∀ x, kept x = true → among x = true)
    (here : among t = true) (queue : List α) :
    ahead kept t (queue.filter among) = ahead kept t queue := by
  induction queue with
  | nil => rfl
  | cons a rest ih =>
    cases has : among a with
    | true =>
      rw [List.filter_cons_of_pos has, ahead, ahead, ih]
    | false =>
      have other : a ≠ t := by
        rintro rfl
        rw [has] at here
        cases here
      rw [List.filter_cons_of_neg (by simp [has]), ih, ahead, if_neg other,
        if_neg (by simp [not_kept within has])]

theorem passesOne_kept_iff (stands : ∀ x, kept x = true → still x = true)
    {passed : List α} (passes : ahead still t queue = ahead still t after ++ passed)
    (one : passed.length ≤ 1) : PassesOne kept queue after t ↔
      PassesOne still queue after t ∧ ∀ x ∈ (ahead still t queue).getLast?, kept x = true := by
  rw [PassesOne, PassesOne, ahead_filter stands, ahead_filter stands, passes]
  match passed, one with
  | [], _ => simp
  | [x], _ => cases isKept : kept x <;> simp [isKept]

end QueueSteps
