import QtPlayer.Session.SessionLives

/- Orphans: torrents libtorrent goes on with although no map of the session knows them and
   nobody asked libtorrent to remove them. -/
namespace OrphanTorrents
open TorrentData TorrentSession TorrentLife SessionLives TransitionRuns IndexedComponents

/- One life. -/

def Active (v : NativeLife) : Prop := v.present = true ∧ v.removing = false

def Known (v : Life) : Prop := v.listed = true ∨ v.adding = true ∨ v.loading = true

def Orphan (v : Life) : Prop := Active v.native ∧ ¬ Known v

/-- A phase is not left while libtorrent goes on with the torrent. -/
def parts (v : Life) : Move → Prop
  | .delete => v.listed = true → ¬ Active v.native
  | .drop => v.loading = true → ¬ Active v.native
  | _ => True

theorem not_orphan_of_known {v : Life} (known : Known v) : ¬ Orphan v :=
  fun orphan => orphan.2 known

theorem not_orphan_of_inactive {v : Life} (inactive : ¬ Active v.native) : ¬ Orphan v :=
  fun orphan => inactive orphan.1

theorem remove_inactive (v : NativeLife) : ¬ Active (remove v) := by
  rintro ⟨present, staying⟩
  have absent : v.present = false := (Bool.or_eq_false_iff.mp staying).2
  exact Bool.false_ne_true (absent.symm.trans present)

theorem createHandle_known {v : Life} (known : Known v) : Known (createHandle v) := by
  unfold createHandle
  split
  · exact Or.inl rfl
  · exact known

theorem createHandle_not_orphan {v : Life} (kept : ¬ Orphan v) : ¬ Orphan (createHandle v) := by
  unfold createHandle
  split
  · exact not_orphan_of_known (Or.inl rfl)
  · exact kept

theorem deleted_orphan_iff {v : Life} (sound : Sound v) (kept : ¬ Orphan v) :
    ¬ Orphan (next v .delete) ↔ parts v .delete := by
  constructor
  · intro after listed active
    obtain ⟨notAdding, notLoading⟩ := sound.listedAlone listed
    refine after ⟨active, ?_⟩
    rintro (never | adding | loading)
    · exact absurd never Bool.false_ne_true
    · exact absurd (notAdding ▸ adding) Bool.false_ne_true
    · exact absurd (notLoading ▸ loading) Bool.false_ne_true
  · rintro inactive ⟨active, unknown⟩
    refine kept ⟨active, ?_⟩
    rintro (listed | other)
    · exact inactive listed active
    · exact unknown (Or.inr other)

theorem dropped_orphan_iff {v : Life} (sound : Sound v) (kept : ¬ Orphan v) :
    ¬ Orphan (next v .drop) ↔ parts v .drop := by
  constructor
  · intro after loading active
    obtain ⟨notListed, notAdding⟩ := sound.loading_alone loading
    refine after ⟨active, ?_⟩
    rintro (listed | adding | never)
    · exact absurd (notListed ▸ listed) Bool.false_ne_true
    · exact absurd (notAdding ▸ adding) Bool.false_ne_true
    · exact absurd never Bool.false_ne_true
  · rintro inactive ⟨active, unknown⟩
    refine kept ⟨active, ?_⟩
    rintro (listed | adding | loading)
    · exact unknown (Or.inl listed)
    · exact unknown (Or.inr (Or.inl adding))
    · exact inactive loading active

theorem orphan_next_iff {v : Life} {m : Move} (sound : Sound v) (kept : ¬ Orphan v)
    (opened : Open v.native m) : ¬ Orphan (next v m) ↔ parts v m := by
  cases m with
  | delete => exact deleted_orphan_iff sound kept
  | drop => exact dropped_orphan_iff sound kept
  | add fromMagnetUri fills found =>
    refine iff_of_true ?_ trivial
    dsimp only [next]
    split
    · apply not_orphan_of_known
      split
      · exact createHandle_known (Or.inr (Or.inl rfl))
      · exact Or.inr (Or.inl rfl)
    · split
      · exact kept
      · exact not_orphan_of_known (Or.inr (Or.inl rfl))
  | load accepted =>
    refine iff_of_true ?_ trivial
    dsimp only [next]
    split
    · exact kept
    · exact not_orphan_of_known (Or.inr (Or.inr rfl))
  | cancel found =>
    refine iff_of_true ?_ trivial
    dsimp only [next]
    split
    · apply not_orphan_of_inactive
      cases found with
      | true => exact remove_inactive v.native
      | false => exact fun active => absurd (opened.2 active.1 active.2) Bool.false_ne_true
    · exact kept
  | list => exact iff_of_true (createHandle_not_orphan kept) trivial
  | answer =>
    refine iff_of_true ?_ trivial
    dsimp only [next]
    split
    · exact not_orphan_of_inactive (remove_inactive _)
    · exact kept
  | perform accepted bare =>
    have adding := sound.adding_of_queued opened
    exact iff_of_true (not_orphan_of_known (Or.inr (Or.inl adding))) trivial
  | hear => exact iff_of_true kept trivial
  | endRemoval =>
    have gone : ¬ Active (leave v.native) := fun active => absurd active.1 Bool.false_ne_true
    exact iff_of_true (not_orphan_of_inactive gone) trivial
  | idle => exact iff_of_true kept trivial

/- The session. -/

def ActiveIn (native : NativeSession) (hash : Sha1Hash) : Prop :=
  hash ∈ native.torrents ∧ hash ∉ native.removing

def NoOrphans (w : World) : Prop :=
  ∀ hash ∈ w.session.nativeSession.torrents, hash ∈ w.session.torrents ∨
    hash ∈ w.session.addingTorrents ∨ hash ∈ w.session.loadedMetadata ∨
    hash ∈ w.session.nativeSession.removing

/-- A listed or preloaded torrent is let go of only when libtorrent does not go on with it. -/
def PartsCleanly (w : World) : Event → Prop
  | .deleteTorrent hash => hash ∈ w.session.torrents → ¬ ActiveIn w.session.nativeSession hash
  | .handleAlert (.torrentRemoved hash) =>
    hash ∈ w.session.loadedMetadata → ¬ ActiveIn w.session.nativeSession hash
  | _ => True

theorem noOrphans_iff (w : World) : NoOrphans w ↔ ∀ hash, ¬ Orphan (lifeIn w hash) := by
  apply forall_congr'
  intro hash
  simp only [Orphan, Active, Known, lifeIn, life, nativeLife, decide_eq_true_eq,
    decide_eq_false_iff_not]
  tauto

theorem active_iff (native : NativeSession) (hash : Sha1Hash) :
    Active (nativeLife native hash) ↔ ActiveIn native hash := by
  simp [Active, ActiveIn, nativeLife]

theorem partsCleanly_iff (w : World) (e : Event) :
    parts (lifeIn w (target e)) (move e) ↔ PartsCleanly w e := by
  cases e with
  | deleteTorrent hash =>
    simp only [parts, move, PartsCleanly, target, lifeIn, life, active_iff]
    exact imp_congr_left decide_eq_true_iff
  | handleAlert alert =>
    cases alert with
    | torrentRemoved hash =>
      simp only [parts, move, alertMove, PartsCleanly, target, alertTarget, lifeIn, life,
        active_iff]
      exact imp_congr_left decide_eq_true_iff
    | addTorrent hash error => cases error <;> exact Iff.rfl
    | _ => exact Iff.rfl
  | _ => exact Iff.rfl

/-- Nothing in libtorrent is orphaned in a run exactly if every deletion and every
    torrent_removed_alert in it parts from a torrent that libtorrent does not go on with. -/
theorem no_orphans_iff {w w' : World} {steps : List (World × Event)} (initial : runs.start w)
    (run : Run runs w steps w') : Throughout NoOrphans steps w' ↔ EveryStep PartsCleanly steps := by
  have orphans : NoOrphans = fun w => ∀ hash, ¬ Orphan (lives.part w hash) :=
    funext fun w => propext (noOrphans_iff w)
  have cleanly : PartsCleanly = fun w e => parts (lives.part w (lives.target e)) (lives.move e) :=
    funext fun w => funext fun e => propext (partsCleanly_iff w e).symm
  have preserved : ∀ v m v', Sound v → machine.step v m v' → Sound v' := by
    rintro v m _ sound ⟨opened, rfl⟩
    exact sound_next sound opened
  have exactly : ∀ v m v', Sound v → ¬ Orphan v → machine.step v m v' →
      (¬ Orphan v' ↔ parts v m) := by
    rintro v m _ sound kept ⟨opened, rfl⟩
    exact orphan_next_iff sound kept opened
  have fresh : ∀ hash, lives.part w hash = unknown := fun hash => lives.start w hash initial
  have whole := parts_exact_guard lives preserved exactly run
    (fun hash => by rw [fresh hash]; exact sound_unknown)
    (fun hash => by rw [fresh hash]; simp [Orphan, Active, unknown])
  rw [orphans, cleanly]
  exact whole

instance (native : NativeSession) (hash : Sha1Hash) : Decidable (ActiveIn native hash) :=
  inferInstanceAs (Decidable (_ ∧ _))

instance (w : World) : (e : Event) → Decidable (PartsCleanly w e)
  | .deleteTorrent hash => inferInstanceAs (Decidable
      (hash ∈ w.session.torrents → ¬ ActiveIn w.session.nativeSession hash))
  | .handleAlert (.torrentRemoved hash) => inferInstanceAs (Decidable
      (hash ∈ w.session.loadedMetadata → ¬ ActiveIn w.session.nativeSession hash))
  | .handleAlert (.addTorrent ..) | .handleAlert (.torrentDeleted _)
  | .handleAlert (.torrentDeleteFailed _) | .handleAlert (.metadataReceived _)
  | .addTorrentImpl .. | .loadMetadata .. | .cancelLoadMetadata .. | .asyncAddTorrent ..
  | .receiveMetadata .. | .endRemoval _ | .deleteFiles .. => .isTrue trivial

theorem no_orphans_while_preloading : ∃ w,
    Run runs newWorld (trail nextWorld newWorld preloading) w ∧
      Throughout NoOrphans (trail nextWorld newWorld preloading) w := by
  obtain ⟨w, replayed⟩ := preloading_replays
  have run := trail_run nextWorld_step replayed
  refine ⟨w, run, (no_orphans_iff newWorld_starts run).mpr ?_⟩
  unfold EveryStep
  decide

def deletion : List Event :=
  [.loadMetadata someMagnet false, .addTorrentImpl {} someMagnet TorrentInfo.empty true,
    .deleteTorrent someHash]

theorem deletion_leaves_orphan : ¬ ∀ (w w' : World) (steps : List (World × Event)),
    runs.start w → Run runs w steps w' → Throughout NoOrphans steps w' := by
  intro always
  obtain ⟨w, replayed⟩ : ∃ w, replay nextWorld newWorld deletion = some w :=
    Option.isSome_iff_exists.mp (by decide)
  have ended := life_replay someHash replayed
  rw [show lifeIn newWorld someHash = unknown from lives.start _ someHash newWorld_starts] at ended
  have kept := (always newWorld w _ newWorld_starts (trail_run nextWorld_step replayed)).2
  apply (noOrphans_iff w).mp kept someHash
  rw [ended]
  refine ⟨⟨rfl, rfl⟩, ?_⟩
  rintro (listed | adding | loading)
  · exact Bool.false_ne_true listed
  · exact Bool.false_ne_true adding
  · exact Bool.false_ne_true loading

end OrphanTorrents
