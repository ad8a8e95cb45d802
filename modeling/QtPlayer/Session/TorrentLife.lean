import QtPlayer.Library.TransitionRuns

/- What one info hash goes through between the application, the session and libtorrent. -/
namespace TorrentLife
open TransitionRuns

/-- A hash inside libtorrent. `queued` asynchronous additions of it, `added` and `heard` alerts
    of a success and of metadata are outstanding; `bare` is a torrent without metadata. -/
structure NativeLife where
  present : Bool
  bare : Bool
  removing : Bool
  queued : Nat
  added : Nat
  heard : Nat

def arrive (v : NativeLife) (bare : Bool) : NativeLife :=
  if v.present && !v.removing then v
  else { v with present := true, bare := bare, removing := false }

def remove (v : NativeLife) : NativeLife := { v with removing := v.removing || v.present }

@[simp] theorem arrive_present (v : NativeLife) (bare : Bool) :
    (arrive v bare).present = true := by
  unfold arrive
  split
  · rename_i there
    exact (Bool.and_eq_true_iff.mp there).1
  · rfl

@[simp] theorem arrive_removing (v : NativeLife) (bare : Bool) :
    (arrive v bare).removing = false := by
  unfold arrive
  split
  · rename_i there
    exact Bool.not_eq_eq_eq_not.mp (Bool.and_eq_true_iff.mp there).2
  · rfl

theorem arrive_outstanding (v : NativeLife) (bare : Bool) :
    (arrive v bare).queued = v.queued ∧ (arrive v bare).added = v.added ∧
      (arrive v bare).heard = v.heard := by
  unfold arrive
  split <;> exact ⟨rfl, rfl, rfl⟩

def perform (v : NativeLife) (accepted bare : Bool) : NativeLife :=
  let v := { v with queued := v.queued - 1 }
  if accepted then { arrive v bare with added := (arrive v bare).added + 1 } else v

def hear (v : NativeLife) : NativeLife := { v with bare := false, heard := v.heard + 1 }

def leave (v : NativeLife) : NativeLife :=
  { v with present := false, bare := false, removing := false }

theorem remove_absent {v : NativeLife} (absent : v.present = false) : remove v = v := by
  cases v with
  | mk present => simp_all [remove]

structure Life where
  listed : Bool
  adding : Bool
  loading : Bool
  unanswered : Bool
  native : NativeLife

inductive Move where
  | add (fromMagnetUri fills found : Bool)
  | load (accepted : Bool)
  | cancel (found : Bool)
  | delete
  | list
  | drop
  | answer
  | perform (accepted bare : Bool)
  | hear
  | endRemoval
  | idle

def Finds (v : NativeLife) (found : Bool) : Prop :=
  (found = true → v.present = true) ∧ (v.present = true → v.removing = false → found = true)

def Open (v : NativeLife) : Move → Prop
  | .add fromMagnetUri _ found => fromMagnetUri = true → Finds v found
  | .cancel found => Finds v found
  | .list => 0 < v.added
  | .answer => 0 < v.heard
  | .perform _ _ => 0 < v.queued
  | .hear => v.present = true ∧ v.bare = true
  | .endRemoval => v.removing = true
  | _ => True

def createHandle (v : Life) : Life :=
  if v.adding && v.native.present then { v with adding := false, listed := true } else v

def next (v : Life) : Move → Life
  | .add fromMagnetUri fills found =>
    if fromMagnetUri && v.loading then
      let v := { v with loading := false, adding := true }
      if found then createHandle v else v
    else if v.adding || v.loading || v.listed || !fills then v
    else { v with adding := true, native := { v.native with queued := v.native.queued + 1 } }
  | .load accepted =>
    if !accepted || v.listed || v.adding || v.loading then v
    else { v with loading := true, unanswered := true, native := arrive v.native true }
  | .cancel found =>
    if v.loading then
      { v with loading := false, native := if found then remove v.native else v.native }
    else v
  | .delete => { v with listed := false }
  | .list => createHandle { v with native := { v.native with added := v.native.added - 1 } }
  | .drop => { v with loading := false }
  | .answer =>
    let native := { v.native with heard := v.native.heard - 1 }
    { v with
      unanswered := false
      native := if v.loading then remove native else native }
  | .perform accepted bare => { v with native := perform v.native accepted bare }
  | .hear => { v with native := hear v.native }
  | .endRemoval => { v with native := leave v.native }
  | .idle => v

def unknown : Life := ⟨false, false, false, false, ⟨false, false, false, 0, 0, 0⟩⟩

def machine : System Life Move where
  start v := v = unknown
  step v m t := Open v.native m ∧ t = next v m

/- What no order of moves breaks. -/

/-- The hash is in one phase at most, an addition on its way is in addingTorrents, and a torrent
    whose metadata is still missing is active. -/
structure Sound (v : Life) : Prop where
  listedAlone : v.listed = true → v.adding = false ∧ v.loading = false
  addingAlone : v.adding = true → v.loading = false
  onTheWay : v.native.queued + v.native.added ≤ v.adding.toNat
  barePresent : v.native.bare = true → v.native.present = true
  waitingActive : v.loading = true → v.unanswered = true →
    v.native.present = true ∧ v.native.removing = false

theorem sound_unknown : Sound unknown := by
  constructor <;> simp [unknown]

theorem sound_createHandle {v : Life} (sound : Sound v)
    (handled : v.native.queued + v.native.added = 0) : Sound (createHandle v) := by
  unfold createHandle
  split
  · rename_i ready
    have adding := (Bool.and_eq_true_iff.mp ready).1
    have notLoading := sound.addingAlone adding
    refine ⟨fun _ => ⟨rfl, notLoading⟩, fun _ => notLoading, ?_, sound.barePresent,
      sound.waitingActive⟩
    simp only [handled, Bool.toNat_false, Nat.le_refl]
  · exact sound

theorem Sound.loading_alone {v : Life} (sound : Sound v) (loading : v.loading = true) :
    v.listed = false ∧ v.adding = false := by
  constructor
  · by_contra listed
    have alone := (sound.listedAlone (Bool.not_eq_false _ ▸ listed)).2
    rw [loading] at alone
    cases alone
  · by_contra adding
    have alone := sound.addingAlone (Bool.not_eq_false _ ▸ adding)
    rw [loading] at alone
    cases alone

theorem createHandle_keeps (v : Life) : (createHandle v).native = v.native ∧
    (createHandle v).loading = v.loading ∧ (createHandle v).unanswered = v.unanswered := by
  unfold createHandle
  split <;> exact ⟨rfl, rfl, rfl⟩

theorem Sound.settled {v : Life} (sound : Sound v) (notAdding : v.adding = false) :
    v.native.queued + v.native.added = 0 := by
  have way := sound.onTheWay
  rw [notAdding, Bool.toNat_false] at way
  omega

theorem Sound.adding_of_queued {v : Life} (sound : Sound v) (queued : 0 < v.native.queued) :
    v.adding = true := by
  by_contra notAdding
  have settled := sound.settled (Bool.not_eq_true _ ▸ notAdding)
  omega

theorem sound_add {v : Life} (sound : Sound v) (fromMagnetUri fills found : Bool) :
    Sound (next v (.add fromMagnetUri fills found)) := by
  dsimp only [next]
  split
  · rename_i preloaded
    have loading := (Bool.and_eq_true_iff.mp preloaded).2
    obtain ⟨notListed, notAdding⟩ := sound.loading_alone loading
    have settled := sound.settled notAdding
    -- in addingTorrents, as createTorrentHandle finds it
    have started : Sound { v with loading := false, adding := true } := by
      refine ⟨fun listed => ?_, fun _ => rfl, ?_, sound.barePresent,
        fun never => absurd never Bool.false_ne_true⟩
      · rw [notListed] at listed
        cases listed
      · simp only [settled, Nat.zero_le]
    split
    · exact sound_createHandle started settled
    · exact started
  · split
    · exact sound
    · rename_i accepted
      simp only [Bool.or_eq_true, not_or, Bool.not_eq_true] at accepted
      obtain ⟨⟨⟨notAdding, notLoading⟩, notListed⟩, _⟩ := accepted
      have settled := sound.settled notAdding
      refine ⟨fun listed => ?_, fun _ => notLoading, ?_, sound.barePresent, sound.waitingActive⟩
      · rw [notListed] at listed
        cases listed
      · simp only [Bool.toNat_true]
        omega

theorem sound_perform {v : Life} (sound : Sound v) (queued : 0 < v.native.queued)
    (accepted bare : Bool) : Sound (next v (.perform accepted bare)) := by
  have way := sound.onTheWay
  cases accepted with
  | false =>
    refine ⟨sound.listedAlone, sound.addingAlone, ?_, sound.barePresent, sound.waitingActive⟩
    simp only [next, perform, Bool.false_eq_true, ↓reduceIte]
    omega
  | true =>
    have outstanding := arrive_outstanding { v.native with queued := v.native.queued - 1 } bare
    refine ⟨sound.listedAlone, sound.addingAlone, ?_, fun _ => ?_, fun _ _ => ?_⟩
    · simp only [next, perform, ↓reduceIte, outstanding]
      omega
    · simp only [next, perform, ↓reduceIte, arrive_present]
    · simp only [next, perform, ↓reduceIte, arrive_present, arrive_removing, and_self]

theorem sound_load {v : Life} (sound : Sound v) (accepted : Bool) :
    Sound (next v (.load accepted)) := by
  dsimp only [next]
  split
  · exact sound
  · rename_i known
    simp only [Bool.or_eq_true, not_or, Bool.not_eq_true] at known
    obtain ⟨⟨⟨_, notListed⟩, notAdding⟩, notLoading⟩ := known
    refine ⟨fun listed => ?_, fun adding => ?_, ?_, fun _ => ?_, fun _ _ => ?_⟩
    · rw [notListed] at listed
      cases listed
    · rw [notAdding] at adding
      cases adding
    · simp only [arrive_outstanding]
      exact sound.onTheWay
    · exact arrive_present _ _
    · exact ⟨arrive_present _ _, arrive_removing _ _⟩

theorem sound_next {v : Life} {m : Move} (sound : Sound v) (opened : Open v.native m) :
    Sound (next v m) := by
  cases m with
  | add fromMagnetUri fills found => exact sound_add sound fromMagnetUri fills found
  | load accepted => exact sound_load sound accepted
  | perform accepted bare => exact sound_perform sound opened accepted bare
  | cancel found =>
    dsimp only [next]
    split
    · refine ⟨fun listed => ⟨(sound.listedAlone listed).1, rfl⟩, fun _ => rfl, ?_, ?_,
        fun never => absurd never Bool.false_ne_true⟩
      · cases found <;> exact sound.onTheWay
      · cases found <;> exact sound.barePresent
    · exact sound
  | delete =>
    exact ⟨fun never => absurd never Bool.false_ne_true, sound.addingAlone, sound.onTheWay,
      sound.barePresent, sound.waitingActive⟩
  | list =>
    have way := sound.onTheWay
    have one := Bool.toNat_le v.adding
    have posted : 0 < v.native.added := opened
    have handled : v.native.queued + (v.native.added - 1) = 0 := by omega
    have taken : Sound { v with native := { v.native with added := v.native.added - 1 } } := by
      refine ⟨sound.listedAlone, sound.addingAlone, ?_, sound.barePresent, sound.waitingActive⟩
      simp only [handled, Nat.zero_le]
    exact sound_createHandle taken handled
  | drop =>
    exact ⟨fun listed => ⟨(sound.listedAlone listed).1, rfl⟩, fun _ => rfl, sound.onTheWay,
      sound.barePresent, fun never => absurd never Bool.false_ne_true⟩
  | answer =>
    dsimp only [next]
    refine ⟨sound.listedAlone, sound.addingAlone, ?_, ?_,
      fun _ never => absurd never Bool.false_ne_true⟩
    · dsimp only
      split <;> exact sound.onTheWay
    · dsimp only
      split <;> exact sound.barePresent
  | hear =>
    exact ⟨sound.listedAlone, sound.addingAlone, sound.onTheWay,
      fun never => absurd never Bool.false_ne_true, sound.waitingActive⟩
  | endRemoval =>
    refine ⟨sound.listedAlone, sound.addingAlone, sound.onTheWay,
      fun never => absurd never Bool.false_ne_true, fun loading unanswered => ?_⟩
    have staying := (sound.waitingActive loading unanswered).2
    rw [show v.native.removing = true from opened] at staying
    cases staying
  | idle => exact sound

end TorrentLife
