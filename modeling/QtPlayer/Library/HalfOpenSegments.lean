import Mathlib.Order.Lattice
import Mathlib.Data.List.Chain

/- Lists of half-open segments over any linear order, compared lexicographically. The list
   stands for the set of points it covers; order, touching and separation are properties
   of neighbours. -/
namespace HalfOpenSegments

variable {T : Type} [LinearOrder T]

abbrev Segment (T : Type) := T × T

def Inside (s : Segment T) (x : T) : Prop := s.1 ≤ x ∧ x < s.2

def Covered (l : List (Segment T)) (x : T) : Prop := ∃ s ∈ l, Inside s x

def Before (s t : Segment T) : Prop := s.1 < t.1 ∨ (¬ t.1 < s.1 ∧ s.2 < t.2)

instance (s t : Segment T) : Decidable (Before s t) := inferInstanceAs (Decidable (_ ∨ _))

def Proper (l : List (Segment T)) : Prop := ∀ s ∈ l, s.1 < s.2

def Within (lo hi : T) (l : List (Segment T)) : Prop := ∀ s ∈ l, lo ≤ s.1 ∧ s.2 ≤ hi

def Follows (s t : Segment T) : Prop := ¬ Before t s ∧ s.2 ≠ t.1

def Ordered (l : List (Segment T)) : Prop := l.IsChain Follows

/-- Every segment ends strictly before the next one begins. -/
def Separated (l : List (Segment T)) : Prop := l.IsChain fun s t => s.2 < t.1

theorem before_irrefl (s : Segment T) : ¬ Before s s := by
  simp [Before]

theorem before_asymm {s t : Segment T} (h : Before s t) : ¬ Before t s := by
  unfold Before at *
  grind

theorem not_before_trans {s t u : Segment T} (h : ¬ Before t s) (h' : ¬ Before u t) :
    ¬ Before u s := by
  unfold Before at *
  grind

theorem eq_of_not_before {s t : Segment T} (h : ¬ Before s t) (h' : ¬ Before t s) : s = t := by
  apply Prod.ext <;> unfold Before at * <;> grind

theorem covered_nil (x : T) : ¬ Covered [] x := by simp [Covered]

theorem covered_cons (s : Segment T) (l : List (Segment T)) (x : T) :
    Covered (s :: l) x ↔ Inside s x ∨ Covered l x := by
  simp [Covered]

theorem covered_within {lo hi x : T} {l : List (Segment T)} (within : Within lo hi l)
    (covered : Covered l x) : lo ≤ x ∧ x < hi := by
  obtain ⟨s, mem, low, high⟩ := covered
  obtain ⟨lower, upper⟩ := within s mem
  exact ⟨le_trans lower low, lt_of_lt_of_le high upper⟩

theorem inside_join {a b c x : T} (ab : a ≤ b) (bc : b ≤ c) :
    Inside (a, c) x ↔ Inside (a, b) x ∨ Inside (b, c) x := by
  unfold Inside
  grind

theorem ordered_head_first {s : Segment T} {l : List (Segment T)} (ordered : Ordered (s :: l))
    {t : Segment T} (mem : t ∈ l) : ¬ Before t s := by
  induction l generalizing s with
  | nil => simp at mem
  | cons u l ih =>
    obtain ⟨link, tail⟩ := List.isChain_cons_cons.mp ordered
    rcases List.mem_cons.mp mem with same | later
    · rw [same]
      exact link.1
    · exact not_before_trans link.1 (ih tail later)

theorem separated_head_below {s : Segment T} {l : List (Segment T)} (proper : Proper (s :: l))
    (separated : Separated (s :: l)) {t : Segment T} (mem : t ∈ l) : s.2 < t.1 := by
  induction l generalizing s with
  | nil => simp at mem
  | cons u l ih =>
    obtain ⟨link, tail⟩ := List.isChain_cons_cons.mp separated
    rcases List.mem_cons.mp mem with same | later
    · rw [same]
      exact link
    · have further := ih (fun v hv => proper v (by simp [hv])) tail later
      have valid := proper u (by simp)
      exact lt_trans link (lt_trans valid further)

theorem separated_gap_after_head {s : Segment T} {l : List (Segment T)}
    (proper : Proper (s :: l)) (separated : Separated (s :: l)) : ¬ Covered (s :: l) s.2 := by
  rintro ⟨t, mem, low, high⟩
  rcases List.mem_cons.mp mem with same | later
  · rw [same] at high
    exact lt_irrefl _ high
  · exact absurd (separated_head_below proper separated later) (not_lt.mpr low)

theorem covered_tail_iff {s : Segment T} {l : List (Segment T)} (proper : Proper (s :: l))
    (separated : Separated (s :: l)) (x : T) :
    Covered l x ↔ Covered (s :: l) x ∧ ¬ Inside s x := by
  rw [covered_cons]
  constructor
  · rintro ⟨t, mem, inside⟩
    refine ⟨Or.inr ⟨t, mem, inside⟩, fun first => ?_⟩
    have beyond := separated_head_below proper separated mem
    exact lt_irrefl x (lt_of_lt_of_le (lt_trans first.2 beyond) inside.1)
  · rintro ⟨here | later, outside⟩
    · exact (outside here).elim
    · exact later

theorem separated_head_start_le {s t : Segment T} {l m : List (Segment T)}
    (proper : Proper (s :: l)) (separated : Separated (s :: l)) (proper' : Proper (t :: m))
    (same : ∀ x, Covered (s :: l) x ↔ Covered (t :: m) x) : s.1 ≤ t.1 := by
  have start : Covered (s :: l) t.1 := by
    rw [same]
    exact ⟨t, by simp, le_refl _, proper' t (by simp)⟩
  obtain ⟨u, mem, low, _⟩ := start
  rcases List.mem_cons.mp mem with here | later
  · rwa [here] at low
  · have first := proper s (by simp)
    have beyond := separated_head_below proper separated later
    exact le_trans (le_of_lt (lt_trans first beyond)) low

theorem separated_head_end_le {s t : Segment T} {l m : List (Segment T)}
    (proper : Proper (t :: m)) (separated : Separated (t :: m)) (starts : s.1 = t.1)
    (same : ∀ x, Covered (s :: l) x ↔ Covered (t :: m) x) : s.2 ≤ t.2 := by
  by_contra longer
  have first := proper t (by simp)
  apply separated_gap_after_head proper separated
  rw [← same]
  exact ⟨s, by simp, starts ▸ le_of_lt first, not_le.mp longer⟩

theorem separated_ext {l m : List (Segment T)} (proper : Proper l) (separated : Separated l)
    (proper' : Proper m) (separated' : Separated m) (same : ∀ x, Covered l x ↔ Covered m x) :
    l = m := by
  induction l generalizing m with
  | nil =>
    cases m with
    | nil => rfl
    | cons t m =>
      have start : Covered (t :: m) t.1 := ⟨t, by simp, le_refl _, proper' t (by simp)⟩
      exact absurd ((same t.1).mpr start) (covered_nil _)
  | cons s l ih =>
    cases m with
    | nil =>
      have start : Covered (s :: l) s.1 := ⟨s, by simp, le_refl _, proper s (by simp)⟩
      exact absurd ((same s.1).mp start) (covered_nil _)
    | cons t m =>
      have starts : s.1 = t.1 := le_antisymm
        (separated_head_start_le proper separated proper' same)
        (separated_head_start_le proper' separated' proper fun x => (same x).symm)
      have ends : s.2 = t.2 := le_antisymm
        (separated_head_end_le proper' separated' starts same)
        (separated_head_end_le proper separated starts.symm fun x => (same x).symm)
      have head : s = t := Prod.ext starts ends
      subst head
      have tails : ∀ x, Covered l x ↔ Covered m x := by
        intro x
        rw [covered_tail_iff proper separated, covered_tail_iff proper' separated', same]
      rw [ih (fun u mem => proper u (by simp [mem])) separated.of_cons
        (fun u mem => proper' u (by simp [mem])) separated'.of_cons tails]

end HalfOpenSegments
