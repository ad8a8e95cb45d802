import QtPlayer.Session.SessionPhases

/- session.cpp: file errors are reported with fullDiskError, but not again for a torrent before
   a timer that every error starts anew has run out. -/
namespace FileErrors
open TorrentData TorrentSession SessionPhases TransitionRuns

/-- `timerStarted` is when m_recentErroredTorrentsTimer was last started, if it is running. -/
structure World where
  session : Session
  recentErroredTorrents : Finset Sha1Hash
  timerStarted : Option Nat
  now : Nat

def handleFileErrorAlert (w : World) (hash : Sha1Hash) (message : String) :
    World × List (Sha1Hash × String) :=
  match w.session.torrents.lookup hash with
  | none => (w, [])
  | some torrent =>
    let reported : World × List (Sha1Hash × String) :=
      if torrent.hash ∈ w.recentErroredTorrents then (w, [])
      else ({ w with recentErroredTorrents := insert torrent.hash w.recentErroredTorrents },
        [(torrent.hash, message)])
    ({ reported.1 with timerStarted := some w.now }, reported.2)

def timeout (w : World) : World := { w with recentErroredTorrents := ∅, timerStarted := none }

inductive Action where
  | happens (h : Happening)
  | fileError (hash : Sha1Hash) (message : String)
  | timeout
  | pass (milliseconds : Nat)

def next (w : World) : Action → World
  | .happens h => { w with session := after w.session h }
  | .fileError hash message => (handleFileErrorAlert w hash message).1
  | .timeout => timeout w
  | .pass milliseconds => { w with now := w.now + milliseconds }

/-- A Qt::CoarseTimer may run out up to 5 % before its interval is over. -/
def Due (interval started now : Nat) : Prop := 20 * started + 19 * interval ≤ 20 * now

instance (interval started now : Nat) : Decidable (Due interval started now) :=
  inferInstanceAs (Decidable (_ ≤ _))

def MayHappen (interval : Nat) (w : World) : Action → Prop
  | .timeout => ∃ started ∈ w.timerStarted, Due interval started w.now
  | _ => True

instance (interval : Nat) (w : World) : (action : Action) → Decidable (MayHappen interval w action)
  | .timeout =>
    match started : w.timerStarted with
    | none => isFalse (by simp [MayHappen, started])
    | some since => decidable_of_iff (Due interval since w.now) (by simp [MayHappen, started])
  | .happens _ | .fileError _ _ | .pass _ => isTrue trivial

def erring (interval : Nat) : System World Action where
  start w := Fresh w.session ∧ w.recentErroredTorrents = ∅ ∧ w.timerStarted = none
  step w action t := MayHappen interval w action ∧ t = next w action

def isTimeout : Action → Bool
  | .timeout => true
  | _ => false

def Errs (p : World × Action) (hash : Sha1Hash) : Prop :=
  ∃ alerted message torrent, p.2 = .fileError alerted message ∧
    p.1.session.torrents.lookup alerted = some torrent ∧ torrent.hash = hash

/-- The torrent had an error since the timer last ran out. -/
def RecentlyErred (steps : List (World × Action)) (hash : Sha1Hash) : Prop :=
  ∃ p ∈ sinceLast isTimeout steps, Errs p hash

/-- The two steps are an error and a timeout that is not due for a timer started at the error. -/
def TooSoon (interval : Nat) (p q : World × Action) : Prop :=
  q.2 = .timeout ∧ (∃ hash, Errs p hash) ∧ ¬ Due interval p.1.now q.1.now

/- The invariant of a run. -/

structure Inv (interval : Nat) (steps : List (World × Action)) (t : World) : Prop where
  recent : ∀ hash, hash ∈ t.recentErroredTorrents ↔ RecentlyErred steps hash
  running : t.timerStarted.isSome = true ↔ ∃ hash, RecentlyErred steps hash
  past : ∀ p ∈ steps, p.1.now ≤ t.now
  latest : ∀ started ∈ t.timerStarted, ∀ p ∈ steps, ∀ hash, Errs p hash → p.1.now ≤ started
  quiet : steps.Pairwise fun p q => ¬ TooSoon interval p q

section Steps

variable {interval : Nat} {steps : List (World × Action)} {t : World}

theorem not_errs {action : Action} (other : ∀ hash message, action ≠ .fileError hash message)
    (hash : Sha1Hash) : ¬ Errs (t, action) hash := by
  rintro ⟨alerted, message, _, same, _⟩
  exact other alerted message same

theorem recentlyErred_timeout (hash : Sha1Hash) :
    ¬ RecentlyErred (steps ++ [(t, .timeout)]) hash := by
  rw [RecentlyErred, sinceLast_snoc]
  simp [isTimeout]

theorem recentlyErred_snoc {action : Action} (kept : isTimeout action = false) (hash : Sha1Hash) :
    RecentlyErred (steps ++ [(t, action)]) hash ↔
      RecentlyErred steps hash ∨ Errs (t, action) hash := by
  simp [RecentlyErred, sinceLast_snoc, kept, or_and_right, exists_or]

theorem quiet_snoc {action : Action} (quiet : steps.Pairwise fun p q => ¬ TooSoon interval p q)
    (last : ∀ p ∈ steps, ¬ TooSoon interval p (t, action)) :
    (steps ++ [(t, action)]).Pairwise fun p q => ¬ TooSoon interval p q := by
  rw [List.pairwise_append]
  refine ⟨quiet, List.pairwise_singleton _ _, ?_⟩
  intro p mem q here
  rw [List.mem_singleton.mp here]
  exact last p mem

theorem inv_quiet {action : Action} {u : World} (inv : Inv interval steps t)
    (kept : isTimeout action = false) (silent : ∀ hash, ¬ Errs (t, action) hash)
    (recent : u.recentErroredTorrents = t.recentErroredTorrents)
    (timer : u.timerStarted = t.timerStarted) (later : t.now ≤ u.now) :
    Inv interval (steps ++ [(t, action)]) u := by
  have same (hash : Sha1Hash) : RecentlyErred (steps ++ [(t, action)]) hash ↔
      RecentlyErred steps hash := by rw [recentlyErred_snoc kept, or_iff_left (silent hash)]
  constructor
  · intro hash
    rw [recent, inv.recent, same]
  · simp only [timer, inv.running, same]
  · intro p mem
    rcases List.mem_append.mp mem with old | new
    · exact (inv.past p old).trans later
    · rw [List.mem_singleton.mp new]
      exact later
  · intro started running p mem hash errs
    rcases List.mem_append.mp mem with old | new
    · exact inv.latest started (timer ▸ running) p old hash errs
    · rw [List.mem_singleton.mp new] at errs
      exact absurd errs (silent hash)
  · apply quiet_snoc inv.quiet
    rintro p _ ⟨rfl, _⟩
    cases kept

theorem error_listed {hash : Sha1Hash} {torrent : TorrentHandle}
    (listed : t.session.torrents.lookup hash = some torrent) (message : String) :
    handleFileErrorAlert t hash message =
      ({ t with
          recentErroredTorrents := insert torrent.hash t.recentErroredTorrents
          timerStarted := some t.now },
        if torrent.hash ∈ t.recentErroredTorrents then [] else [(torrent.hash, message)]) := by
  simp only [handleFileErrorAlert, listed]
  split
  · rename_i known
    rw [Finset.insert_eq_of_mem known]
  · rfl

theorem inv_error (inv : Inv interval steps t) (hash : Sha1Hash) (message : String) :
    Inv interval (steps ++ [(t, .fileError hash message)])
      (handleFileErrorAlert t hash message).1 := by
  cases listed : t.session.torrents.lookup hash with
  | none =>
    have silent (other : Sha1Hash) : ¬ Errs (t, .fileError hash message) other := by
      rintro ⟨_, _, torrent, same, found, _⟩
      cases same
      rw [listed] at found
      cases found
    simp only [handleFileErrorAlert, listed]
    exact inv_quiet inv rfl silent rfl rfl le_rfl
  | some torrent =>
    have errs (other : Sha1Hash) :
        Errs (t, .fileError hash message) other ↔ other = torrent.hash := by
      constructor
      · rintro ⟨_, _, found, same, there, rfl⟩
        cases same
        rw [listed, Option.some.injEq] at there
        rw [there]
      · rintro rfl
        exact ⟨hash, message, torrent, rfl, listed, rfl⟩
    have erred (other : Sha1Hash) : RecentlyErred (steps ++ [(t, .fileError hash message)]) other ↔
        RecentlyErred steps other ∨ other = torrent.hash := by
      rw [recentlyErred_snoc rfl, errs]
    have before : ∀ p ∈ steps ++ [(t, Action.fileError hash message)], p.1.now ≤ t.now := by
      intro p mem
      rcases List.mem_append.mp mem with old | new
      · exact inv.past p old
      · rw [List.mem_singleton.mp new]
    rw [error_listed listed]
    constructor
    · intro other
      rw [erred, ← inv.recent, Finset.mem_insert, or_comm]
    · exact iff_of_true rfl ⟨torrent.hash, (erred _).mpr (Or.inr rfl)⟩
    · exact before
    · rintro _ ⟨⟩ p mem _ _
      exact before p mem
    · apply quiet_snoc inv.quiet
      rintro p _ ⟨timeout, _⟩
      cases timeout

theorem inv_timeout (inv : Inv interval steps t) (due : MayHappen interval t .timeout) :
    Inv interval (steps ++ [(t, .timeout)]) (timeout t) := by
  obtain ⟨started, running, elapsed⟩ := due
  constructor
  · intro hash
    exact iff_of_false (Finset.notMem_empty hash) (recentlyErred_timeout hash)
  · refine iff_of_false Bool.false_ne_true ?_
    rintro ⟨hash, erred⟩
    exact recentlyErred_timeout hash erred
  · intro p mem
    rcases List.mem_append.mp mem with old | new
    · exact inv.past p old
    · rw [List.mem_singleton.mp new]
      exact le_rfl
  · rintro _ ⟨⟩
  · apply quiet_snoc inv.quiet
    rintro p mem ⟨_, ⟨hash, errs⟩, soon⟩
    have before := inv.latest started running p mem hash errs
    unfold Due at elapsed soon
    dsimp only at soon
    omega

theorem inv_step {action : Action} {u : World} (inv : Inv interval steps t)
    (taken : (erring interval).step t action u) : Inv interval (steps ++ [(t, action)]) u := by
  obtain ⟨may, rfl⟩ := taken
  cases action with
  | happens h => exact inv_quiet inv rfl (not_errs fun _ _ => Action.noConfusion) rfl rfl le_rfl
  | fileError hash message => exact inv_error inv hash message
  | timeout => exact inv_timeout inv may
  | pass milliseconds =>
    exact inv_quiet inv rfl (not_errs fun _ _ => Action.noConfusion) rfl rfl
      (Nat.le_add_right _ _)

theorem inv_run {s : World} (initial : (erring interval).start s)
    (run : Run (erring interval) s steps t) : Inv interval steps t := by
  induction run with
  | nil =>
    obtain ⟨_, recent, timer⟩ := initial
    constructor <;> simp [recent, timer, RecentlyErred, sinceLast]
  | snoc run taken ih => exact inv_step ih taken

end Steps

/-- A file error is reported exactly if the torrent had none since the timer last ran out. The
    timer runs exactly if some torrent had one since, and it runs out only when none had one for
    95 % of the interval. -/
theorem reported_once_a_spell {interval : Nat} {s t : World} {steps : List (World × Action)}
    (initial : (erring interval).start s) (run : Run (erring interval) s steps t) :
    (∀ hash torrent message, t.session.torrents.lookup hash = some torrent →
      (RecentlyErred steps torrent.hash →
        (handleFileErrorAlert t hash message).2 = []) ∧
      (¬ RecentlyErred steps torrent.hash →
        (handleFileErrorAlert t hash message).2 = [(torrent.hash, message)])) ∧
    (t.timerStarted.isSome = true ↔ ∃ hash, RecentlyErred steps hash) ∧
    steps.Pairwise fun p q => ¬ TooSoon interval p q := by
  have inv := inv_run initial run
  refine ⟨?_, inv.running, inv.quiet⟩
  intro hash torrent message listed
  rw [error_listed listed, ← inv.recent]
  exact ⟨fun known => if_pos known, fun unknown => if_neg unknown⟩

/- A disk that stays full. -/

def nextWorld (w : World) (action : Action) : Option World :=
  if MayHappen 1000 w action then some (next w action) else none

theorem nextWorld_step (w : World) (action : Action) (t : World)
    (taken : nextWorld w action = some t) : (erring 1000).step w action t := by
  unfold nextWorld at taken
  split at taken
  · rename_i may
    exact ⟨may, (Option.some.inj taken).symm⟩
  · cases taken

def started : World := ⟨newSession, ∅, none, 0⟩

def fullDisk : List Action :=
  [.happens (.call (.loadMetadata someMagnet false)),
    .happens (.call (.addTorrentImpl {} someMagnet TorrentInfo.empty true)),
    .fileError someHash "no space", .pass 600, .fileError someHash "no space", .pass 600]

def quietSecond : List Action := fullDisk ++ [.pass 350, .timeout]

/-- The second error keeps the timer from running out 600 ms later; 950 ms later it may. -/
theorem error_after_quiet_second :
    (∃ t, replay nextWorld started fullDisk = some t ∧ ¬ MayHappen 1000 t .timeout ∧
      (handleFileErrorAlert t someHash "no space").2 = []) ∧
    ∃ t, replay nextWorld started quietSecond = some t ∧
      (handleFileErrorAlert t someHash "no space").2 = [(someHash, "no space")] := by
  have start : (erring 1000).start started := ⟨newWorld_starts.1, rfl, rfl⟩
  have listed : ∀ t, replay nextWorld started fullDisk = some t ∨
      replay nextWorld started quietSecond = some t →
      ∃ torrent, t.session.torrents.lookup someHash = some torrent ∧ torrent.hash = someHash := by
    rintro t (same | same) <;> cases same <;> exact ⟨_, rfl, rfl⟩
  constructor
  · refine ⟨_, rfl, by decide, ?_⟩
    obtain ⟨torrent, found, same⟩ := listed _ (Or.inl rfl)
    have run : Run (erring 1000) started (trail nextWorld started fullDisk) _ :=
      trail_run nextWorld_step rfl
    have errors := reported_once_a_spell start run
    refine (errors.1 someHash torrent "no space" found).1 ?_
    rw [same]
    exact ⟨_, .tail _ (.tail _ (.head _)), someHash, "no space", torrent, rfl, found, same⟩
  · refine ⟨_, rfl, ?_⟩
    obtain ⟨torrent, found, same⟩ := listed _ (Or.inr rfl)
    have run : Run (erring 1000) started (trail nextWorld started quietSecond) _ :=
      trail_run nextWorld_step rfl
    have errors := reported_once_a_spell start run
    have reported := (errors.1 someHash torrent "no space" found).2 ?_
    · rwa [same] at reported
    · rintro ⟨p, mem, _⟩
      cases mem

end FileErrors
