import QtPlayer.Library.TransitionRuns
import Mathlib.Data.Finset.Card

/- Systems made of parts, where each step is one move of one part and leaves the other parts
   alone. What holds of a part on its own then holds of every part of the system. -/
namespace IndexedComponents
open TransitionRuns

variable {State Label Index Part Move : Type}

structure Components (sys : System State Label) (machine : System Part Move) (Index : Type) where
  part : State → Index → Part
  target : Label → Index
  move : Label → Move
  start : ∀ s i, sys.start s → machine.start (part s i)
  moved : ∀ s l t, sys.step s l t → machine.step (part s (target l)) (move l) (part t (target l))
  kept : ∀ s l t i, sys.step s l t → i ≠ target l → part t i = part s i

variable {sys : System State Label} {machine : System Part Move}
  (c : Components sys machine Index)

theorem parts_preserved {good : Part → Prop} {s t : State} {l : Label}
    (moved : good (c.part s (c.target l)) → good (c.part t (c.target l)))
    (before : ∀ i, good (c.part s i)) (taken : sys.step s l t) : ∀ i, good (c.part t i) := by
  intro i
  by_cases here : i = c.target l
  · subst here
    exact moved (before _)
  · rw [c.kept s l t i taken here]
    exact before i

/-- A guard that is exact for the machine of one part is exact for the whole system. -/
theorem parts_exact_guard {inv good : Part → Prop} {allowed : Part → Move → Prop}
    (preserved : ∀ v m v', inv v → machine.step v m v' → inv v')
    (exactly : ∀ v m v', inv v → good v → machine.step v m v' → (good v' ↔ allowed v m))
    {s t : State} {steps : List (State × Label)} (run : Run sys s steps t)
    (first : ∀ i, inv (c.part s i)) (goodFirst : ∀ i, good (c.part s i)) :
    Throughout (fun s => ∀ i, good (c.part s i)) steps t ↔
      EveryStep (fun s l => allowed (c.part s (c.target l)) (c.move l)) steps := by
  have keeps : ∀ s l t, (∀ i, inv (c.part s i)) → sys.step s l t → ∀ i, inv (c.part t i) :=
    fun s l t before taken => parts_preserved c
      (fun here => preserved _ _ _ here (c.moved s l t taken)) before taken
  refine exact_guard keeps ?_ run first goodFirst
  intro s l t held goodBefore taken
  have here := exactly _ _ _ (held _) (goodBefore _) (c.moved s l t taken)
  constructor
  · intro goodAfter
    exact here.mp (goodAfter _)
  · intro allowedHere
    exact parts_preserved c (fun _ => here.mpr allowedHere) goodBefore taken

/- A counter beside the parts that should be the number of parts of some kind. -/
section Tally

variable [DecidableEq Index] {counted : Part → Bool} {members : State → Finset Index}

theorem members_elsewhere (counts : ∀ s i, i ∈ members s ↔ counted (c.part s i) = true)
    {s t : State} {l : Label} (taken : sys.step s l t) :
    (members t).erase (c.target l) = (members s).erase (c.target l) := by
  ext i
  simp only [Finset.mem_erase, counts]
  apply and_congr_right
  intro elsewhere
  rw [c.kept s l t i taken elsewhere]

theorem card_erase_counted (counts : ∀ s i, i ∈ members s ↔ counted (c.part s i) = true)
    (s : State) (i : Index) :
    (members s).card = ((members s).erase i).card + (counted (c.part s i)).toNat := by
  by_cases mem : i ∈ members s
  · rw [(counts s i).mp mem]
    have := Finset.card_erase_add_one mem
    simp only [Bool.toNat_true]
    omega
  · have absent : counted (c.part s i) = false := by
      rw [← Bool.not_eq_true]
      exact fun is_counted => mem ((counts s i).mpr is_counted)
    rw [absent, Finset.erase_eq_of_notMem mem]
    rfl

theorem card_step (counts : ∀ s i, i ∈ members s ↔ counted (c.part s i) = true)
    {s t : State} {l : Label} (taken : sys.step s l t) :
    (members t).card + (counted (c.part s (c.target l))).toNat =
      (members s).card + (counted (c.part t (c.target l))).toNat := by
  have before := card_erase_counted c counts s (c.target l)
  have after := card_erase_counted c counts t (c.target l)
  rw [members_elsewhere c counts taken] at after
  omega

/-- The counter stays right exactly while each move changes it as it changes the kind of its
    part. -/
theorem tally_exact_guard {inv : Part → Prop} {allowed : Part → Move → Prop}
    {counter : State → Int} {change : Part → Move → Int}
    (counts : ∀ s i, i ∈ members s ↔ counted (c.part s i) = true)
    (counterStep : ∀ s l t, sys.step s l t →
      counter t = counter s + change (c.part s (c.target l)) (c.move l))
    (preserved : ∀ v m v', inv v → machine.step v m v' → allowed v m → inv v')
    (exactly : ∀ v m v', inv v → machine.step v m v' →
      (change v m = (counted v').toNat - (counted v).toNat ↔ allowed v m))
    {s t : State} {steps : List (State × Label)} (run : Run sys s steps t)
    (first : ∀ i, inv (c.part s i)) (right : counter s = (members s).card) :
    Throughout (fun s => counter s = (members s).card) steps t ↔
      EveryStep (fun s l => allowed (c.part s (c.target l)) (c.move l)) steps := by
  have keeps : ∀ s l t, (∀ i, inv (c.part s i)) → sys.step s l t →
      allowed (c.part s (c.target l)) (c.move l) → ∀ i, inv (c.part t i) :=
    fun s l t before taken allowedHere => parts_preserved c
      (fun here => preserved _ _ _ here (c.moved s l t taken) allowedHere) before taken
  refine exact_guard_while_allowed keeps ?_ run first right
  intro s l t held rightBefore taken
  rw [← exactly _ _ _ (held _) (c.moved s l t taken), counterStep s l t taken, rightBefore]
  have := card_step c counts taken
  omega

end Tally

end IndexedComponents
