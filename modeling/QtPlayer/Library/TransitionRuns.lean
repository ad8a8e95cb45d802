import Mathlib.Data.List.Basic

/- Labelled transition relations, their runs and the rules that carry a fact from one
   step to a whole run. A run remembers every state it left and the label it took there,
   so a property of the visited states can be compared with a condition on the steps. -/
namespace TransitionRuns

variable {State Label : Type}

structure System (State Label : Type) where
  start : State → Prop
  step : State → Label → State → Prop

inductive Reachable (sys : System State Label) : State → Prop where
  | start {s : State} (initial : sys.start s) : Reachable sys s
  | step {s t : State} {l : Label} (before : Reachable sys s) (taken : sys.step s l t) :
      Reachable sys t

/-- Each entry is the state a step left and the label it took there. -/
inductive Run (sys : System State Label) : State → List (State × Label) → State → Prop where
  | nil (s : State) : Run sys s [] s
  | snoc {s t u : State} {l : Label} {steps : List (State × Label)}
      (run : Run sys s steps t) (taken : sys.step t l u) : Run sys s (steps ++ [(t, l)]) u

/-- A property of every state a run visits, the last one included. -/
def Throughout (good : State → Prop) (steps : List (State × Label)) (last : State) : Prop :=
  (∀ p ∈ steps, good p.1) ∧ good last

def EveryStep (allowed : State → Label → Prop) (steps : List (State × Label)) : Prop :=
  ∀ p ∈ steps, allowed p.1 p.2

theorem reachable_invariant {sys : System State Label} {inv : State → Prop}
    (initially : ∀ s, sys.start s → inv s)
    (preserved : ∀ s l t, inv s → sys.step s l t → inv t)
    {s : State} (reach : Reachable sys s) : inv s := by
  induction reach with
  | start initial => exact initially _ initial
  | step before taken ih => exact preserved _ _ _ ih taken

theorem reachable_extends {sys : System State Label} {s t : State}
    {steps : List (State × Label)} (reach : Reachable sys s) (run : Run sys s steps t) :
    Reachable sys t := by
  induction run with
  | nil => exact reach
  | snoc run taken ih => exact .step ih taken

theorem run_invariant {sys : System State Label} {inv : State → Prop}
    (preserved : ∀ s l t, inv s → sys.step s l t → inv t) {s t : State}
    {steps : List (State × Label)} (run : Run sys s steps t) (first : inv s) :
    Throughout inv steps t := by
  induction run with
  | nil => exact ⟨by simp, first⟩
  | snoc run taken ih =>
    obtain ⟨earlier, here⟩ := ih
    refine ⟨?_, preserved _ _ _ here taken⟩
    intro p mem
    rcases List.mem_append.mp mem with old | new
    · exact earlier p old
    · rw [List.mem_singleton.mp new]
      exact here

theorem run_append {sys : System State Label} {s t u : State}
    {steps later : List (State × Label)} (run : Run sys s steps t) (rest : Run sys t later u) :
    Run sys s (steps ++ later) u := by
  induction rest with
  | nil => rwa [List.append_nil]
  | snoc rest taken ih =>
    rw [← List.append_assoc]
    exact .snoc ih taken

theorem everyStep_append {allowed : State → Label → Prop}
    {steps later : List (State × Label)} :
    EveryStep allowed (steps ++ later) ↔ EveryStep allowed steps ∧ EveryStep allowed later := by
  simp only [EveryStep, List.mem_append, or_imp, forall_and]

def sinceLast (kind : Label → Bool) (steps : List (State × Label)) : List (State × Label) :=
  steps.foldl (fun since p => if kind p.2 then [] else since ++ [p]) []

theorem sinceLast_snoc (kind : Label → Bool) (steps : List (State × Label)) (t : State)
    (l : Label) : sinceLast kind (steps ++ [(t, l)]) =
      if kind l then [] else sinceLast kind steps ++ [(t, l)] := by
  rw [sinceLast, List.foldl_append]
  rfl

theorem run_taken {sys : System State Label} {s t : State} {steps : List (State × Label)}
    (run : Run sys s steps t) : EveryStep (fun s l => ∃ t, sys.step s l t) steps := by
  induction run with
  | nil => simp [EveryStep]
  | snoc run taken ih =>
    intro p mem
    rcases List.mem_append.mp mem with old | new
    · exact ih p old
    · rw [List.mem_singleton.mp new]
      exact ⟨_, taken⟩

theorem throughout_snoc {good : State → Prop} {steps : List (State × Label)}
    {t u : State} {l : Label} :
    Throughout good (steps ++ [(t, l)]) u ↔ Throughout good steps t ∧ good u := by
  simp only [Throughout, List.mem_append, List.mem_singleton, or_imp, forall_and, forall_eq]

theorem everyStep_snoc {allowed : State → Label → Prop} {steps : List (State × Label)}
    {t : State} {l : Label} :
    EveryStep allowed (steps ++ [(t, l)]) ↔ EveryStep allowed steps ∧ allowed t l := by
  simp only [EveryStep, List.mem_append, List.mem_singleton, or_imp, forall_and, forall_eq]

theorem guarded_run_invariant {sys : System State Label} {inv : State → Prop}
    {allowed : State → Label → Prop}
    (preserved : ∀ s l t, inv s → sys.step s l t → allowed s l → inv t) {s t : State}
    {steps : List (State × Label)} (run : Run sys s steps t) (first : inv s)
    (guard : EveryStep allowed steps) : Throughout inv steps t := by
  induction run with
  | nil => exact ⟨by simp, first⟩
  | snoc run taken ih =>
    obtain ⟨earlier, allowedHere⟩ := everyStep_snoc.mp guard
    have before := ih earlier
    exact throughout_snoc.mpr ⟨before, preserved _ _ _ before.2 taken allowedHere⟩

/-- When a step from a good state is good again exactly if it was allowed, a run is good
    throughout exactly if every one of its steps was allowed. The invariant need only last
    as long as the steps are allowed. -/
theorem exact_guard_while_allowed {sys : System State Label} {inv good : State → Prop}
    {allowed : State → Label → Prop}
    (preserved : ∀ s l t, inv s → sys.step s l t → allowed s l → inv t)
    (exactly : ∀ s l t, inv s → good s → sys.step s l t → (good t ↔ allowed s l))
    {s t : State} {steps : List (State × Label)} (run : Run sys s steps t)
    (first : inv s) (goodFirst : good s) :
    Throughout good steps t ↔ EveryStep allowed steps := by
  induction run with
  | nil => simp [Throughout, EveryStep, goodFirst]
  | snoc run taken ih =>
    rw [throughout_snoc, everyStep_snoc, ← ih]
    apply and_congr_right
    intro before
    have here := (guarded_run_invariant preserved run first (ih.mp before)).2
    exact exactly _ _ _ here before.2 taken

theorem exact_guard {sys : System State Label} {inv good : State → Prop}
    {allowed : State → Label → Prop}
    (preserved : ∀ s l t, inv s → sys.step s l t → inv t)
    (exactly : ∀ s l t, inv s → good s → sys.step s l t → (good t ↔ allowed s l))
    {s t : State} {steps : List (State × Label)} (run : Run sys s steps t)
    (first : inv s) (goodFirst : good s) :
    Throughout good steps t ↔ EveryStep allowed steps :=
  exact_guard_while_allowed (fun s l t held taken _ => preserved s l t held taken) exactly run
    first goodFirst

theorem run_of_simulation {Abstract : Type} {sys : System State Label}
    {spec : System Abstract Label} {R : State → Abstract → Prop}
    (simulates : ∀ s a l t, R s a → sys.step s l t → ∃ b, spec.step a l b ∧ R t b)
    {s t : State} {a : Abstract} {steps : List (State × Label)} (run : Run sys s steps t)
    (related : R s a) : ∃ steps' b, Run spec a steps' b ∧ R t b ∧
      steps'.map Prod.snd = steps.map Prod.snd := by
  induction run with
  | nil => exact ⟨[], a, .nil a, related, rfl⟩
  | snoc run taken ih =>
    obtain ⟨steps', b, run', here, labels⟩ := ih
    obtain ⟨c, taken', after⟩ := simulates _ _ _ _ here taken
    refine ⟨_, c, .snoc run' taken', after, ?_⟩
    simp only [List.map_append, List.map_cons, List.map_nil, labels]

/- What an observer sees of a run: the events of its steps. -/
section Traces

variable {Event : Type}

inductive Trace (step : State → Event → State → Prop) : State → List Event → Prop where
  | nil (s : State) : Trace step s []
  | cons {s t : State} {e : Event} {events : List Event} (taken : step s e t)
      (rest : Trace step t events) : Trace step s (e :: events)

theorem trace_of_simulation {step : State → Event → State → Prop} {R : State → State → Prop}
    (simulates : ∀ s t e s', R s t → step s e s' → ∃ t', step t e t' ∧ R s' t') {s t : State}
    {events : List Event} (related : R s t) (trace : Trace step s events) :
    Trace step t events := by
  induction trace generalizing t with
  | nil => exact .nil t
  | cons taken _ ih =>
    obtain ⟨t', taken', after⟩ := simulates _ _ _ _ related taken
    exact .cons taken' (ih after)

/-- States related by a symmetric simulation have the same traces. -/
theorem trace_iff_of_bisimulation {step : State → Event → State → Prop}
    {R : State → State → Prop} (symmetric : ∀ s t, R s t → R t s)
    (simulates : ∀ s t e s', R s t → step s e s' → ∃ t', step t e t' ∧ R s' t') {s t : State}
    (related : R s t) (events : List Event) : Trace step s events ↔ Trace step t events :=
  ⟨trace_of_simulation simulates related, trace_of_simulation simulates (symmetric s t related)⟩

end Traces

/- Runs computed from a list of labels. -/
section Replay

def replay (next : State → Label → Option State) : State → List Label → Option State
  | s, [] => some s
  | s, l :: labels =>
    match next s l with
    | some t => replay next t labels
    | none => none

theorem run_cons {sys : System State Label} {s t u : State} {l : Label}
    {steps : List (State × Label)} (taken : sys.step s l t) (run : Run sys t steps u) :
    Run sys s ((s, l) :: steps) u := by
  induction run with
  | nil => exact .snoc (.nil s) taken
  | snoc run later ih => exact .snoc ih later

def trail (next : State → Label → Option State) : State → List Label → List (State × Label)
  | _, [] => []
  | s, l :: labels =>
    (s, l) :: match next s l with
      | some t => trail next t labels
      | none => []

theorem trail_run {sys : System State Label} {next : State → Label → Option State}
    (sound : ∀ s l t, next s l = some t → sys.step s l t) {labels : List Label} {s t : State}
    (replayed : replay next s labels = some t) : Run sys s (trail next s labels) t := by
  induction labels generalizing s with
  | nil =>
    simp only [replay, Option.some.injEq] at replayed
    subst replayed
    exact .nil s
  | cons l labels ih =>
    simp only [replay] at replayed
    split at replayed
    · rename_i u taken
      have rest := run_cons (sound s l u taken) (ih replayed)
      rwa [trail, taken]
    · cases replayed

theorem trail_labels {next : State → Label → Option State} {labels : List Label} {s t : State}
    (replayed : replay next s labels = some t) : (trail next s labels).map Prod.snd = labels := by
  induction labels generalizing s with
  | nil => rfl
  | cons l labels ih =>
    simp only [replay] at replayed
    split at replayed
    · rename_i u taken
      simp only [trail, taken, List.map_cons, ih replayed]
    · cases replayed

theorem replay_run {sys : System State Label} {next : State → Label → Option State}
    (sound : ∀ s l t, next s l = some t → sys.step s l t) {labels : List Label} {s t : State}
    (replayed : replay next s labels = some t) :
    ∃ steps, Run sys s steps t ∧ steps.map Prod.snd = labels :=
  ⟨_, trail_run sound replayed, trail_labels replayed⟩

theorem replay_reachable {sys : System State Label} {next : State → Label → Option State}
    (sound : ∀ s l t, next s l = some t → sys.step s l t) {labels : List Label} {s t : State}
    (reach : Reachable sys s) (replayed : replay next s labels = some t) : Reachable sys t := by
  obtain ⟨_, run, _⟩ := replay_run sound replayed
  exact reachable_extends reach run

end Replay

/- Deterministic machines that may stop with an error. -/
section Deterministic

variable {Op Err View : Type}

/-- What is seen of the state after a whole list of operations, or the error that ended it. -/
def observe (exec : State → Op → Except Err State) (view : State → View) :
    State → List Op → Except Err View
  | s, [] => .ok (view s)
  | s, op :: ops =>
    match exec s op with
    | .ok t => observe exec view t ops
    | .error e => .error e

/-- Both sides stop with the same error, or both go on in related states. -/
def Matches (R : State → State → Prop) : Except Err State → Except Err State → Prop
  | .ok s, .ok t => R s t
  | .error e, .error f => e = f
  | _, _ => False

theorem observe_eq_of_matching {exec : State → Op → Except Err State} {view : State → View}
    {R : State → State → Prop} {legal : Op → Prop}
    (sameView : ∀ s t, R s t → view s = view t)
    (matching : ∀ s t op, R s t → legal op → Matches R (exec s op) (exec t op)) :
    ∀ (ops : List Op) (s t : State), (∀ op ∈ ops, legal op) → R s t →
      observe exec view s ops = observe exec view t ops := by
  intro ops
  induction ops with
  | nil => intro s t _ related; simp [observe, sameView s t related]
  | cons op ops ih =>
    intro s t legalAll related
    have now := matching s t op related (legalAll op (by simp))
    have later : ∀ o ∈ ops, legal o := fun o mem => legalAll o (by simp [mem])
    simp only [observe]
    cases first : exec s op with
    | ok s' =>
      cases second : exec t op with
      | ok t' =>
        rw [first, second] at now
        exact ih s' t' later now
      | error f => rw [first, second] at now; exact now.elim
    | error e =>
      cases second : exec t op with
      | ok t' => rw [first, second] at now; exact now.elim
      | error f => rw [first, second] at now; exact congrArg Except.error now

theorem observe_append (exec : State → Op → Except Err State) (view : State → View)
    (s : State) (early late : List Op) (t : State)
    (reached : observe exec id s early = .ok t) :
    observe exec view s (early ++ late) = observe exec view t late := by
  induction early generalizing s with
  | nil =>
    simp only [observe, id_eq, Except.ok.injEq] at reached
    simp [reached]
  | cons op early ih =>
    simp only [observe, List.cons_append] at reached ⊢
    cases next : exec s op with
    | ok s' => rw [next] at reached; exact ih s' reached
    | error e => rw [next] at reached; cases reached

end Deterministic

end TransitionRuns
