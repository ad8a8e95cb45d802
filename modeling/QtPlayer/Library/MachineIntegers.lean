import Mathlib.Algebra.Order.Ring.Int

/- Signed machine integers read as Int. An operation is the exact one on Int followed by a wrap,
   which nothing but an overflow can notice. -/
namespace MachineIntegers

def Fits (bits : Nat) (n : Int) : Prop := -2 ^ bits ≤ n ∧ n < 2 ^ bits

instance (bits : Nat) (n : Int) : Decidable (Fits bits n) := inferInstanceAs (Decidable (_ ∧ _))

/-- What is left of a value in two's complement. -/
def wrap (bits : Nat) (n : Int) : Int := Int.bmod n (2 ^ (bits + 1))

variable {bits : Nat} {n m : Int}

theorem halves (bits : Nat) : ((2 ^ (bits + 1) : Nat) : Int) = 2 * 2 ^ bits := by
  push_cast
  rw [pow_succ, Int.mul_comm]

theorem fits_wrap (bits : Nat) (n : Int) : Fits bits (wrap bits n) := by
  have low := Int.le_bmod (x := n) (m := 2 ^ (bits + 1)) (Nat.two_pow_pos _)
  have high := Int.bmod_lt (x := n) (m := 2 ^ (bits + 1)) (Nat.two_pow_pos _)
  rw [halves] at low high
  unfold Fits wrap
  omega

theorem wrap_of_fits (fits : Fits bits n) : wrap bits n = n := by
  obtain ⟨low, high⟩ := fits
  apply Int.bmod_eq_of_le <;> rw [halves] <;> omega

theorem wrap_turns (bits : Nat) (n : Int) : ∃ turns, wrap bits n = n - 2 * 2 ^ bits * turns := by
  obtain ⟨turns, eq⟩ := Int.dvd_self_sub_bmod (x := n) (m := 2 ^ (bits + 1))
  rw [halves] at eq
  refine ⟨turns, ?_⟩
  unfold wrap
  omega

end MachineIntegers
