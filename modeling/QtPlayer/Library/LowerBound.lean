import Mathlib.Data.List.Basic

/- std::lower_bound: a binary search for the first element that does not come before a key. It is
   promised to find it in a list whose first elements, and no others, come before. -/
namespace LowerBound

variable {α : Type} {before : α → Bool} {l : List α} {n : Nat}

/-- The search among the `len` elements from `first` on; each turn leaves fewer of them. -/
def search (before : α → Bool) (l : List α) : Nat → Nat → Nat → Nat
  | 0, first, _ => first
  | turns + 1, first, len =>
    if len = 0 then first
    else
      let half := len / 2
      match l[first + half]? with
      | none => first
      | some middle =>
        if before middle then search before l turns (first + half + 1) (len - half - 1)
        else search before l turns first half

def lowerBound (before : α → Bool) (l : List α) : Nat := search before l l.length 0 l.length

/-- Exactly the first `n` elements come before. -/
structure Partitioned (before : α → Bool) (l : List α) (n : Nat) : Prop where
  short : n ≤ l.length
  iff : ∀ i x, l[i]? = some x → (before x = true ↔ i < n)

theorem search_eq (parts : Partitioned before l n) (turns : Nat) : ∀ {first len : Nat},
    len ≤ turns → first ≤ n → n ≤ first + len → first + len ≤ l.length →
      search before l turns first len = n := by
  induction turns with
  | zero =>
    intro first len few low high inside
    rw [search]
    omega
  | succ turns ih =>
    intro first len few low high inside
    rw [search]
    split
    · omega
    · rename_i some
      have there : first + len / 2 < l.length := by omega
      have middle := List.getElem?_eq_getElem there
      have side := parts.iff _ _ middle
      simp only [middle]
      split
      · rename_i below
        have := side.mp below
        exact ih (by omega) (by omega) (by omega) (by omega)
      · rename_i above
        have : ¬ first + len / 2 < n := fun less => above (side.mpr less)
        exact ih (by omega) (by omega) (by omega) (by omega)

theorem lowerBound_eq (parts : Partitioned before l n) : lowerBound before l = n :=
  search_eq parts l.length (Nat.le_refl _) (Nat.zero_le _) (by have := parts.short; omega)
    (by omega)

/-- A list without its first part may miss an element it has. -/
example : lowerBound (fun x : Nat => decide (x < 5)) [5, 1] = 2 := by decide

end LowerBound
