import Mathlib.Data.List.Nodup

/- A store that is written one key at a time, and lists of writes to it. -/
namespace KeyedWrites

variable {Store Write Key : Type}

structure Writable (Store Write Key : Type) where
  key : Write → Key
  set : Store → Write → Store
  holds : Store → Write → Prop
  holds_set : ∀ s x, holds (set s x) x
  holds_set_other : ∀ s x y, key x ≠ key y → (holds (set s x) y ↔ holds s y)

variable (m : Writable Store Write Key)

def setAll (s : Store) (xs : List Write) : Store := xs.foldl m.set s

/-- The store already holds what the writes would put there. -/
def Agrees (s : Store) (xs : List Write) : Prop := ∀ x ∈ xs, m.holds s x

variable {m} {s t : Store} {xs ys : List Write}

theorem agrees_append : Agrees m s (xs ++ ys) ↔ Agrees m s xs ∧ Agrees m s ys := by
  simp only [Agrees, List.mem_append, or_imp, forall_and]

theorem holds_setAll_other {y : Write} (absent : ∀ x ∈ xs, m.key x ≠ m.key y) :
    m.holds (setAll m s xs) y ↔ m.holds s y := by
  induction xs generalizing s with
  | nil => rfl
  | cons x xs ih =>
    have first := absent x (by simp)
    have rest := ih (s := m.set s x) fun z mem => absent z (by simp [mem])
    exact rest.trans (m.holds_set_other s x y first)

theorem agrees_setAll (nodup : (xs.map m.key).Nodup) : Agrees m (setAll m s xs) xs := by
  induction xs generalizing s with
  | nil => simp [Agrees]
  | cons x xs ih =>
    obtain ⟨fresh, rest⟩ := List.nodup_cons.mp nodup
    intro y mem
    rcases List.mem_cons.mp mem with first | later
    · subst first
      apply (holds_setAll_other (s := m.set s y) ?_).mpr (m.holds_set s y)
      intro z there same
      exact fresh (same ▸ List.mem_map_of_mem there)
    · exact ih rest y later

theorem agrees_setAll_other (apart : ∀ x ∈ xs, ∀ y ∈ ys, m.key x ≠ m.key y) :
    Agrees m (setAll m s xs) ys ↔ Agrees m s ys := by
  apply forall₂_congr
  intro y mem
  exact holds_setAll_other fun x there => apart x there y mem

theorem apart_of_nodup (nodup : ((xs ++ ys).map m.key).Nodup) :
    ∀ x ∈ xs, ∀ y ∈ ys, m.key x ≠ m.key y := by
  intro x mem y mem'
  rw [List.map_append] at nodup
  exact (List.nodup_append.mp nodup).2.2 _ (List.mem_map_of_mem mem) _ (List.mem_map_of_mem mem')

end KeyedWrites
