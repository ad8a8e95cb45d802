import Mathlib.Data.List.Infix
import Mathlib.Tactic.SplitIfs
import QtPlayer.Library.TransitionRuns

/- How session.cpp reads the alerts of libtorrent 1.1 and later: libtorrent's thread posts them at
   any time and calls the function of set_alert_notify, which queues a call of readAlerts for the
   event loop of the session's own thread. -/
namespace AlertQueue
open TransitionRuns

/-- libtorrent's queue of alerts, from the new session on. `post` may drop an alert, and tells
    whether it calls the notify function, if there is one, as `set_alert_notify` does. -/
structure Libtorrent (Queue Alert : Type) where
  session : Queue
  post : Queue → Alert → Option (Queue × Bool)
  set_alert_notify : Queue → Bool
  pop_alerts : Queue → List Alert × Queue

variable {Queue Alert : Type} (libt : Libtorrent Queue Alert)

/-- The alerts that the next pop_alerts gives. -/
def waiting (queue : Queue) : List Alert := (libt.pop_alerts queue).1

structure Documented : Prop where
  created : waiting libt libt.session = []
  posted : ∀ queue alert queue' told, libt.post queue alert = some (queue', told) →
    waiting libt queue' = waiting libt queue ++ [alert] ∧ told = (waiting libt queue).isEmpty
  set : ∀ queue, libt.set_alert_notify queue = !(waiting libt queue).isEmpty
  popped : ∀ queue, waiting libt (libt.pop_alerts queue).2 = []

inductive Reader (Alert : Type) where
  | eventLoop
  | handling (alerts : List Alert)

/-- `invoked` counts the queued calls of readAlerts; `posted` and `handled` are all the alerts so
    far, and of these the first `freed` are gone with the pop_alerts after theirs. -/
structure Machine (Queue Alert : Type) where
  queue : Queue
  notified : Bool
  invoked : Nat
  reader : Reader Alert
  posted : List Alert
  handled : List Alert
  freed : Nat

inductive Action (Alert : Type) where
  | post (alert : Alert)
  | setAlertNotify
  | readAlerts
  | handleAlert
  | returned

def invokeReadAlerts (m : Machine Queue Alert) : Machine Queue Alert :=
  { m with invoked := m.invoked + 1 }

/-- wait_for_alert is left out, as readAlerts gives no time. -/
def getPendingAlerts (m : Machine Queue Alert) : Machine Queue Alert :=
  let popped := libt.pop_alerts m.queue
  { m with
    queue := popped.2
    reader := .handling popped.1
    freed := m.posted.length - popped.1.length }

def next (m : Machine Queue Alert) : Action Alert → Option (Machine Queue Alert)
  | .post alert =>
    match libt.post m.queue alert with
    | none => some m
    | some (queue, told) =>
      let m := { m with queue, posted := m.posted ++ [alert] }
      some (if m.notified ∧ told then invokeReadAlerts m else m)
  | .setAlertNotify =>
    if m.notified then none
    else
      let m := { m with notified := true }
      some (if libt.set_alert_notify m.queue then invokeReadAlerts m else m)
  | .readAlerts =>
    match m.reader, m.invoked with
    | .eventLoop, invoked + 1 => some (getPendingAlerts libt { m with invoked })
    | _, _ => none
  | .handleAlert =>
    match m.reader with
    | .handling (alert :: rest) =>
      some { m with reader := .handling rest, handled := m.handled ++ [alert] }
    | _ => none
  | .returned =>
    match m.reader with
    | .handling [] => some { m with reader := .eventLoop }
    | _ => none

def Machine.first : Machine Queue Alert := ⟨libt.session, false, 0, .eventLoop, [], [], 0⟩

def threads : System (Machine Queue Alert) (Action Alert) where
  start m := m = .first libt
  step m action m' := next libt m action = some m'

theorem next_step (m : Machine Queue Alert) (action : Action Alert) (m' : Machine Queue Alert)
    (taken : next libt m action = some m') : (threads libt).step m action m' := taken

def inHand (m : Machine Queue Alert) : List Alert :=
  match m.reader with
  | .handling alerts => alerts
  | _ => []

def due (m : Machine Queue Alert) : Nat :=
  if m.notified ∧ waiting libt m.queue ≠ [] then 1 else 0

structure Orderly (m : Machine Queue Alert) : Prop where
  all : m.handled ++ inHand m ++ waiting libt m.queue = m.posted
  called : m.invoked = due libt m
  kept : m.freed ≤ m.handled.length

inductive Outcome (m : Machine Queue Alert) : Action Alert → Machine Queue Alert → Prop where
  | dropped (alert : Alert) : Outcome m (.post alert) m
  | posted (alert : Alert) (queue : Queue)
      (grown : waiting libt queue = waiting libt m.queue ++ [alert]) :
      Outcome m (.post alert) { m with
        queue
        posted := m.posted ++ [alert]
        invoked := if m.notified then 1 else 0 }
  | connected (invoked : Nat) (unread : m.notified = false)
      (called : invoked = due libt { m with notified := true }) :
      Outcome m .setAlertNotify { m with notified := true, invoked }
  | read (queue : Queue) (idle : m.reader = .eventLoop) (emptied : waiting libt queue = []) :
      Outcome m .readAlerts { m with
        queue
        invoked := 0
        reader := .handling (waiting libt m.queue)
        freed := m.posted.length - (waiting libt m.queue).length }
  | handled (alert : Alert) (rest : List Alert) (busy : m.reader = .handling (alert :: rest)) :
      Outcome m .handleAlert { m with reader := .handling rest, handled := m.handled ++ [alert] }
  | returned (done : m.reader = .handling []) :
      Outcome m .returned { m with reader := .eventLoop }

variable {libt} {m m' : Machine Queue Alert} {action : Action Alert}

theorem posted_once (called : m.invoked = due libt m) {queue : Queue} {posted : List Alert} :
    (if m.notified ∧ (waiting libt m.queue).isEmpty then
        invokeReadAlerts { m with queue, posted }
      else { m with queue, posted }) =
    { m with queue, posted, invoked := if m.notified then 1 else 0 } := by
  unfold due at called
  split
  · rename_i first
    rw [if_neg (fun both => both.2 (List.isEmpty_iff.mp first.2))] at called
    rw [invokeReadAlerts, called, if_pos first.1]
  · rename_i later
    cases notified : m.notified with
    | false =>
      rw [if_neg (by simp [notified])] at called
      rw [← called, if_neg Bool.false_ne_true]
    | true =>
      have some : waiting libt m.queue ≠ [] := fun empty => later ⟨notified, by rw [empty]; rfl⟩
      rw [if_pos ⟨notified, some⟩] at called
      rw [← called, if_pos rfl]

theorem next_outcome (documented : Documented libt) (orderly : Orderly libt m)
    (taken : next libt m action = some m') : Outcome libt m action m' := by
  have called := orderly.called
  cases action with
  | post alert =>
    simp only [next] at taken
    split at taken
    · obtain rfl := Option.some.inj taken
      exact .dropped alert
    · rename_i queue told post
      obtain ⟨grown, rfl⟩ := documented.posted _ _ _ _ post
      obtain rfl := Option.some.inj taken
      rw [posted_once called]
      exact .posted alert queue grown
  | setAlertNotify =>
    simp only [next] at taken
    split at taken
    · cases taken
    · rename_i unread
      obtain rfl := Option.some.inj taken
      have none : m.invoked = 0 := by rw [called, due, if_neg (fun both => unread both.1)]
      have told : (libt.set_alert_notify m.queue = true) ↔ waiting libt m.queue ≠ [] := by
        simp [documented.set]
      split
      · rename_i some
        refine .connected (m.invoked + 1) (by simpa using unread) ?_
        rw [none, due, if_pos ⟨rfl, told.mp some⟩]
      · rename_i empty
        refine .connected m.invoked (by simpa using unread) ?_
        rw [none, due, if_neg (fun both => empty (told.mpr both.2))]
  | readAlerts =>
    simp only [next] at taken
    split at taken
    · rename_i invoked idle one
      obtain rfl := Option.some.inj taken
      have zero : invoked = 0 := by
        rw [one, due] at called
        split at called <;> omega
      subst zero
      exact .read _ idle (documented.popped _)
    · cases taken
  | handleAlert =>
    simp only [next] at taken
    split at taken
    · rename_i alert rest busy
      obtain rfl := Option.some.inj taken
      exact .handled alert rest busy
    · cases taken
  | returned =>
    simp only [next] at taken
    split at taken
    · rename_i done
      obtain rfl := Option.some.inj taken
      exact .returned done
    · cases taken

theorem outcome_orderly (orderly : Orderly libt m) (outcome : Outcome libt m action m') :
    Orderly libt m' := by
  have sound := orderly
  obtain ⟨all, called, kept⟩ := orderly
  cases outcome with
  | dropped alert => exact sound
  | posted alert queue grown =>
    refine ⟨?_, ?_, kept⟩
    · rw [grown, ← all, ← List.append_assoc]
      rfl
    · simp [due, grown]
  | connected invoked unread called => exact ⟨all, called, kept⟩
  | read queue idle emptied =>
    refine ⟨?_, ?_, ?_⟩
    · rw [emptied, ← all]
      simp [inHand, idle]
    · simp [due, emptied]
    · have lengths := congrArg List.length all
      simp only [inHand, idle, List.append_nil, List.length_append] at lengths
      show m.posted.length - (waiting libt m.queue).length ≤ m.handled.length
      omega
  | handled alert rest busy =>
    refine ⟨?_, called, ?_⟩
    · rw [← all]
      simp [inHand, busy]
    · rw [List.length_append]
      exact kept.trans (Nat.le_add_right _ _)
  | returned done =>
    refine ⟨?_, called, kept⟩
    rw [← all]
    simp [inHand, done]

theorem reachable_orderly (documented : Documented libt)
    (reach : Reachable (threads libt) m) : Orderly libt m := by
  refine reachable_invariant ?_ ?_ reach
  · rintro _ rfl
    exact ⟨documented.created, by simp [Machine.first, due], Nat.le_refl _⟩
  · exact fun _ _ _ orderly taken =>
      outcome_orderly orderly (next_outcome documented orderly taken)

/-- Every alert posted is handled once and in order, or is in hand or in libtorrent's queue, a
    call of readAlerts is queued exactly while alerts wait, and no alert in hand is freed. -/
theorem alerts_in_order (documented : Documented libt) (reach : Reachable (threads libt) m) :
    m.handled ++ inHand m ++ waiting libt m.queue = m.posted ∧
      m.invoked = (if m.notified ∧ waiting libt m.queue ≠ [] then 1 else 0) ∧
      m.freed ≤ m.handled.length := by
  obtain ⟨all, called, kept⟩ := reachable_orderly documented reach
  exact ⟨all, called, kept⟩

def roomy : Libtorrent (List Nat) Nat where
  session := []
  post queue alert := some (queue ++ [alert], queue.isEmpty)
  set_alert_notify queue := !queue.isEmpty
  pop_alerts queue := (queue, [])

theorem roomy_documented : Documented roomy where
  created := rfl
  posted := by
    rintro queue alert _ _ ⟨⟩
    exact ⟨rfl, rfl⟩
  set _ := rfl
  popped _ := rfl

def twoPosted : Option (Machine (List Nat) Nat) :=
  replay (next roomy) (.first roomy) [.post 5, .setAlertNotify, .readAlerts, .post 6]

theorem second_alert_queued : ∃ m, twoPosted = some m ∧ inHand m = [5] ∧
    m.handled ++ inHand m ++ waiting roomy m.queue = m.posted ∧ m.posted = [5, 6] ∧
    m.invoked = 1 ∧ m.freed ≤ m.handled.length := by
  have run := trail_run (next_step roomy) (show replay (next roomy) (.first roomy)
    [.post 5, .setAlertNotify, .readAlerts, .post 6] = some _ from rfl)
  obtain ⟨all, called, kept⟩ :=
    alerts_in_order roomy_documented (reachable_extends (.start rfl) run)
  exact ⟨_, rfl, rfl, all, rfl, called, kept⟩

/- How long an alert waits. -/

def isReader : Action Alert → Bool
  | .post _ => false
  | .setAlertNotify => false
  | _ => true

/-- The steps of the reader until `n` alerts are handled. -/
def owed (m : Machine Queue Alert) (n : Nat) : Nat :=
  if n ≤ m.handled.length then 0
  else match m.reader with
    | .handling alerts =>
      if n ≤ m.handled.length + alerts.length then n - m.handled.length
      else n - m.handled.length + 2
    | _ => n - m.handled.length + 1

theorem outcome_owed (orderly : Orderly libt m) {n : Nat} (arrived : n ≤ m.posted.length)
    (outcome : Outcome libt m action m') :
    owed m' n ≤ owed m n - if isReader action then 1 else 0 := by
  have all := congrArg List.length orderly.all
  simp only [List.length_append] at all
  cases outcome with
  | dropped | posted | connected => simp [owed, isReader]
  | read queue idle emptied =>
    simp only [inHand, idle, List.length_nil] at all
    simp only [owed, idle, isReader, ↓reduceIte]
    split_ifs <;> omega
  | handled alert rest busy =>
    simp only [inHand, busy, List.length_cons] at all
    simp only [owed, busy, isReader, List.length_append, List.length_cons, List.length_nil,
      ↓reduceIte]
    split_ifs <;> omega
  | returned done =>
    simp only [owed, done, isReader, List.length_nil, ↓reduceIte]
    split_ifs <;> omega

theorem owed_le (orderly : Orderly libt m) :
    owed m m.posted.length ≤ (inHand m).length + (waiting libt m.queue).length + 2 := by
  have all := congrArg List.length orderly.all
  simp only [List.length_append] at all
  simp only [owed]
  split
  · omega
  · cases reader : m.reader <;> simp only [inHand, reader, List.length_nil] at all ⊢
    · omega
    · split_ifs <;> omega

theorem outcome_arrived (outcome : Outcome libt m action m') : m.posted <+: m'.posted := by
  cases outcome with
  | posted alert queue grown => exact List.prefix_append _ _
  | dropped | connected | read | handled | returned => exact List.prefix_refl _

def readerSteps (steps : List (Machine Queue Alert × Action Alert)) : Nat :=
  steps.countP fun (p : Machine Queue Alert × Action Alert) => isReader p.2

theorem run_owed (documented : Documented libt)
    {steps : List (Machine Queue Alert × Action Alert)} (reach : Reachable (threads libt) m)
    (run : Run (threads libt) m steps m') : m.posted <+: m'.posted ∧
      owed m' m.posted.length ≤ owed m m.posted.length - readerSteps steps := by
  induction run with
  | nil => exact ⟨List.prefix_refl _, by simp [readerSteps]⟩
  | @snoc t u action steps run taken ih =>
    have orderly := reachable_orderly documented (reachable_extends reach run)
    have outcome := next_outcome documented orderly taken
    have now := outcome_owed orderly ih.1.length_le outcome
    refine ⟨ih.1.trans (outcome_arrived outcome), ?_⟩
    have counted : readerSteps (steps ++ [(t, action)]) =
        readerSteps steps + if isReader action then 1 else 0 := by
      simp [readerSteps, List.countP_append, List.countP_singleton]
    omega

theorem reader_enabled (orderly : Orderly libt m) (notified : m.notified = true)
    (left : m.handled ≠ m.posted) :
    ∃ action m', isReader action ∧ (threads libt).step m action m' := by
  obtain ⟨all, called, _⟩ := orderly
  cases reader : m.reader with
  | handling alerts =>
    cases alerts with
    | nil =>
      exact ⟨.returned, { m with reader := .eventLoop }, rfl, by simp [threads, next, reader]⟩
    | cons alert rest =>
      exact ⟨.handleAlert,
        { m with reader := .handling rest, handled := m.handled ++ [alert] }, rfl,
        by simp [threads, next, reader]⟩
  | eventLoop =>
    have some : waiting libt m.queue ≠ [] := by
      intro empty
      simp only [inHand, reader, empty, List.append_nil] at all
      exact left all
    rw [due, if_pos ⟨notified, some⟩] at called
    refine ⟨.readAlerts, getPendingAlerts libt { m with invoked := 0 }, rfl, ?_⟩
    simp only [threads, next, reader]
    rw [called]

/-- Whatever else is posted in between, an alert is handled after at most as many steps of the
    reader as there are alerts before it and itself, and two more. -/
theorem alert_handled_in_time (documented : Documented libt)
    {steps : List (Machine Queue Alert × Action Alert)} (reach : Reachable (threads libt) m)
    (run : Run (threads libt) m steps m') :
    (m.notified = true → m.handled ≠ m.posted →
      ∃ action m', isReader action ∧ (threads libt).step m action m') ∧
    ((inHand m).length + (waiting libt m.queue).length + 2 ≤ readerSteps steps →
      m.posted <+: m'.handled) := by
  have orderly := reachable_orderly documented reach
  refine ⟨reader_enabled orderly, ?_⟩
  intro enough
  obtain ⟨arrived, rest⟩ := run_owed documented reach run
  have zero : owed m' m.posted.length = 0 := by
    have := owed_le orderly
    omega
  have long : m.posted.length ≤ m'.handled.length := by
    by_contra short
    simp only [owed, short, ↓reduceIte] at zero
    split at zero
    · split at zero <;> omega
    · omega
  have handled : m'.handled <+: m'.posted := by
    rw [← (reachable_orderly documented (reachable_extends reach run)).all, List.append_assoc]
    exact List.prefix_append _ _
  exact List.prefix_of_prefix_length_le arrived handled long

def onePosted : Machine (List Nat) Nat := ⟨[5], true, 1, .eventLoop, [5], [], 0⟩

theorem first_alert_handled : ∃ m', replay (next roomy) onePosted
      [.readAlerts, .post 6, .handleAlert, .returned] = some m' ∧ m'.queue = [6] ∧
    (onePosted.notified = true → onePosted.handled ≠ onePosted.posted →
      ∃ action m', isReader action ∧ (threads roomy).step onePosted action m') ∧
    [5] <+: m'.handled := by
  have first := trail_run (next_step roomy) (show replay (next roomy) (.first roomy)
    [.setAlertNotify, .post 5] = some onePosted from rfl)
  have run := trail_run (next_step roomy) (show replay (next roomy) onePosted
    [.readAlerts, .post 6, .handleAlert, .returned] = some _ from rfl)
  obtain ⟨enabled, handled⟩ :=
    alert_handled_in_time roomy_documented (reachable_extends (.start rfl) first) run
  exact ⟨_, rfl, rfl, enabled, handled (by decide)⟩

end AlertQueue
