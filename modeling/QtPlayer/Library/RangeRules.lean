import Mathlib.Algebra.Order.Ring.Nat

/- Rules for ranges of values, of which a later one overrides an earlier one, and ranges that share
   their leading bits. -/
namespace RangeRules

structure Rule (Value Flags : Type) where
  first : Value
  last : Value
  flags : Flags

variable {Value Flags : Type} [LE Value] [DecidableLE Value]
variable {rules later : List (Rule Value Flags)} {flags other : Flags} {a : Value}

def Rule.Has (rule : Rule Value Flags) (a : Value) : Prop := rule.first ≤ a ∧ a ≤ rule.last

instance (rule : Rule Value Flags) (a : Value) : Decidable (rule.Has a) :=
  inferInstanceAs (Decidable (_ ∧ _))

/-- The last rule for a value counts, or what holds without a rule. -/
def access (without : Flags) (rules : List (Rule Value Flags)) (a : Value) : Flags :=
  rules.foldl (fun flags rule => if rule.Has a then rule.flags else flags) without

theorem access_append (without : Flags) (rules later : List (Rule Value Flags)) (a : Value) :
    access without (rules ++ later) a = access (access without rules a) later a :=
  List.foldl_append

theorem access_none (none : ∀ rule ∈ rules, ¬ rule.Has a) (without : Flags) :
    access without rules a = without := by
  induction rules with
  | nil => rfl
  | cons rule rules ih =>
    obtain ⟨first, others⟩ := List.forall_mem_cons.mp none
    rw [access, List.foldl_cons, if_neg first]
    exact ih others

theorem access_some (same : ∀ rule ∈ rules, rule.flags = flags) (some : ∃ rule ∈ rules, rule.Has a)
    (without : Flags) : access without rules a = flags := by
  induction rules generalizing without with
  | nil =>
    obtain ⟨rule, mem, _⟩ := some
    cases mem
  | cons rule rules ih =>
    obtain ⟨first, others⟩ := List.forall_mem_cons.mp same
    by_cases later : ∃ rule ∈ rules, rule.Has a
    · exact ih others later _
    · have here : rule.Has a := by
        obtain ⟨found, mem, has⟩ := some
        rcases List.mem_cons.mp mem with rfl | mem
        · exact has
        · exact absurd ⟨found, mem, has⟩ later
      rw [access, List.foldl_cons, if_pos here, first]
      apply access_none
      intro rule mem has
      exact later ⟨rule, mem, has⟩

theorem leading_iff (lead bits a : Nat) :
    lead * 2 ^ bits ≤ a ∧ a ≤ lead * 2 ^ bits + (2 ^ bits - 1) ↔ a >>> bits = lead := by
  have positive := Nat.two_pow_pos bits
  rw [Nat.shiftRight_eq_div_pow, Nat.div_eq_iff positive]
  omega

end RangeRules
