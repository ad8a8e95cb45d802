import Mathlib.Data.List.Basic

/- A vector that is written at computed positions. A position outside of it is an error, and of
   several writes to one position the last one stays. -/
namespace VectorWrites

variable {α : Type}

def entry (xs : List α) (position : Int) : Option α :=
  if position < 0 then none else xs[position.toNat]?

/-- None is a write outside of the vector. -/
def assign (xs : List α) (write : Int × α) : Option (List α) :=
  if 0 ≤ write.1 ∧ write.1 < xs.length then some (xs.set write.1.toNat write.2) else none

def assignAll (xs : List α) (writes : List (Int × α)) : Option (List α) :=
  writes.foldlM assign xs

variable {xs ys : List α} {writes : List (Int × α)}

theorem assign_some_iff {write : Int × α} :
    assign xs write = some ys ↔
      (0 ≤ write.1 ∧ write.1 < xs.length) ∧ xs.set write.1.toNat write.2 = ys := by
  unfold assign
  split
  · rename_i inside
    simp only [Option.some.injEq, inside, and_self, true_and]
  · rename_i outside
    simp only [reduceCtorEq, outside, false_and]

theorem entry_set {write : Int × α} (inside : 0 ≤ write.1 ∧ write.1 < xs.length)
    (position : Int) : entry (xs.set write.1.toNat write.2) position =
      if write.1 = position then some write.2 else entry xs position := by
  unfold entry
  by_cases same : write.1 = position
  · subst same
    rw [if_neg (by omega), if_pos rfl, List.getElem?_set_self (by omega)]
  · rw [if_neg same]
    by_cases negative : position < 0
    · rw [if_pos negative, if_pos negative]
    · rw [if_neg negative, if_neg negative, List.getElem?_set_ne (by omega)]

theorem assignAll_cons (xs : List α) (write : Int × α) (writes : List (Int × α)) :
    assignAll xs (write :: writes) = (assign xs write).bind fun ys => assignAll ys writes :=
  List.foldlM_cons ..

theorem assignAll_some_iff (xs : List α) (writes : List (Int × α)) :
    (∃ ys, assignAll xs writes = some ys) ↔
      ∀ write ∈ writes, 0 ≤ write.1 ∧ write.1 < xs.length := by
  induction writes generalizing xs with
  | nil => simp [assignAll]
  | cons write writes ih =>
    rw [assignAll_cons, List.forall_mem_cons]
    by_cases inside : 0 ≤ write.1 ∧ write.1 < xs.length
    · have written : assign xs write = some (xs.set write.1.toNat write.2) := if_pos inside
      rw [written, Option.bind_some, ih, List.length_set]
      simp only [inside, and_self, true_and]
    · have refused : assign xs write = none := if_neg inside
      simp [refused, inside]

theorem entry_assignAll (done : assignAll xs writes = some ys) (position : Int) :
    (∃ write ∈ writes, write.1 = position ∧ entry ys position = some write.2) ∨
      ((∀ write ∈ writes, write.1 ≠ position) ∧ entry ys position = entry xs position) := by
  induction writes generalizing xs with
  | nil =>
    cases done
    exact Or.inr ⟨by simp, rfl⟩
  | cons write writes ih =>
    rw [assignAll_cons] at done
    obtain ⟨next, written, rest⟩ := Option.bind_eq_some_iff.mp done
    obtain ⟨inside, rfl⟩ := assign_some_iff.mp written
    rcases ih rest with ⟨later, mem, same, held⟩ | ⟨absent, held⟩
    · exact Or.inl ⟨later, List.mem_cons_of_mem _ mem, same, held⟩
    · rw [entry_set inside] at held
      by_cases same : write.1 = position
      · rw [if_pos same] at held
        exact Or.inl ⟨write, List.mem_cons_self, same, held⟩
      · rw [if_neg same] at held
        exact Or.inr ⟨List.forall_mem_cons.mpr ⟨same, absent⟩, held⟩

end VectorWrites
