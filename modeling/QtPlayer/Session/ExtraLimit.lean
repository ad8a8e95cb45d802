import QtPlayer.Session.SessionLives

/- m_extraLimit against the magnets whose metadata is still waited for. -/
namespace ExtraLimit
open TorrentData TorrentSession TorrentLife SessionLives TransitionRuns IndexedComponents

/- One life. -/

def change (v : Life) : Move → Int
  | .add fromMagnetUri _ _ => if fromMagnetUri && v.loading then -1 else 0
  | .load accepted => if !accepted || v.listed || v.adding || v.loading then 0 else 1
  | .answer => if v.native.present && v.loading then -1 else 0
  | _ => 0

def counted (v : Life) : Bool := v.loading && v.unanswered

/-- The metadata of a preloaded torrent is added before it came, and let go of after. -/
def timely (v : Life) : Move → Prop
  | .add fromMagnetUri _ _ => fromMagnetUri = true → v.loading = true → v.unanswered = true
  | .cancel _ | .drop => v.loading = true → v.unanswered = false
  | _ => True

/-- Metadata is heard of once for each arrival of a torrent, and not once the session has it. -/
structure Heard (v : Life) : Prop where
  sound : Sound v
  few : v.native.heard ≤ 1
  once : v.native.bare = true → v.native.heard = 0
  silent : v.native.present = false ∨ v.native.removing = true ∨
    (v.loading = true ∧ v.unanswered = false) → v.native.heard = 0 ∧ v.native.bare = false

theorem heard_unknown : Heard unknown := by
  refine ⟨sound_unknown, ?_, ?_, ?_⟩ <;> simp [unknown]

theorem arrive_heard {n : NativeLife} (few : n.heard ≤ 1) (once : n.bare = true → n.heard = 0)
    (quiet : n.present = false ∨ n.removing = true → n.heard = 0) (bare : Bool) :
    (arrive n bare).heard ≤ 1 ∧ ((arrive n bare).bare = true → (arrive n bare).heard = 0) := by
  unfold arrive
  split
  · exact ⟨few, once⟩
  · rename_i fresh
    have gone : n.present = false ∨ n.removing = true := by
      cases present : n.present with
      | false => exact Or.inl rfl
      | true =>
        cases removing : n.removing with
        | true => exact Or.inr rfl
        | false => exact absurd (by rw [present, removing]; rfl) fresh
    exact ⟨by simp only [quiet gone, Nat.zero_le], fun _ => quiet gone⟩

theorem Heard.same_native {v w : Life} (heard : Heard v) (sound : Sound w)
    (alerts : w.native.heard = v.native.heard) (bare : w.native.bare = v.native.bare)
    (present : w.native.present = v.native.present)
    (removing : w.native.removing = v.native.removing)
    (loading : w.loading = false ∨ (w.loading = v.loading ∧ w.unanswered = v.unanswered)) :
    Heard w := by
  refine ⟨sound, alerts ▸ heard.few, fun isBare => ?_, fun quiet => ?_⟩
  · rw [alerts]
    exact heard.once (bare ▸ isBare)
  · rw [alerts, bare]
    rw [present, removing] at quiet
    apply heard.silent
    rcases loading with ended | ⟨sameLoading, sameAnswer⟩
    · rcases quiet with absent | leaving | ⟨now, _⟩
      · exact .inl absent
      · exact .inr (.inl leaving)
      · rw [ended] at now
        cases now
    · rwa [sameLoading, sameAnswer] at quiet

theorem heard_add {v : Life} (heard : Heard v) (fromMagnetUri fills found : Bool) :
    Heard (next v (.add fromMagnetUri fills found)) := by
  have sound := sound_add heard.sound fromMagnetUri fills found
  dsimp only [next] at sound ⊢
  split at sound
  · rename_i preloaded
    rw [if_pos preloaded]
    split at sound
    · rename_i found
      rw [if_pos found]
      obtain ⟨native, loading, _⟩ := createHandle_keeps { v with loading := false, adding := true }
      refine heard.same_native sound ?_ ?_ ?_ ?_ (.inl loading) <;> rw [native]
    · rename_i notFound
      rw [if_neg notFound]
      exact heard.same_native sound rfl rfl rfl rfl (.inl rfl)
  · rename_i notPreloaded
    rw [if_neg notPreloaded]
    split
    · exact heard
    · rename_i accepted
      rw [if_neg accepted] at sound
      exact heard.same_native sound rfl rfl rfl rfl (.inr ⟨rfl, rfl⟩)

theorem heard_load {v : Life} (heard : Heard v) (accepted : Bool) :
    Heard (next v (.load accepted)) := by
  have sound := sound_load heard.sound accepted
  dsimp only [next] at sound ⊢
  split
  · exact heard
  · rename_i fresh
    rw [if_neg fresh] at sound
    obtain ⟨few, once⟩ := arrive_heard heard.few heard.once
      (fun gone => (heard.silent (gone.imp_right Or.inl)).1) true
    refine ⟨sound, few, once, ?_⟩
    rintro (absent | removing | ⟨_, answered⟩)
    · exact absurd (absent.symm.trans (arrive_present v.native true)) Bool.false_ne_true
    · exact absurd ((arrive_removing v.native true).symm.trans removing) Bool.false_ne_true
    · cases answered

theorem heard_perform {v : Life} (heard : Heard v) (queued : 0 < v.native.queued)
    (accepted bare : Bool) : Heard (next v (.perform accepted bare)) := by
  have sound := sound_perform heard.sound queued accepted bare
  cases accepted with
  | false => exact heard.same_native sound rfl rfl rfl rfl (.inr ⟨rfl, rfl⟩)
  | true =>
    have notLoading := heard.sound.addingAlone (heard.sound.adding_of_queued queued)
    let n := { v.native with queued := v.native.queued - 1 }
    obtain ⟨few, once⟩ := arrive_heard (n := n) heard.few heard.once
      (fun gone => (heard.silent (gone.imp_right Or.inl)).1) bare
    refine ⟨sound, few, once, ?_⟩
    rintro (absent | removing | ⟨loading, _⟩)
    · exact absurd (absent.symm.trans (arrive_present n bare)) Bool.false_ne_true
    · exact absurd ((arrive_removing n bare).symm.trans removing) Bool.false_ne_true
    · exact absurd (notLoading.symm.trans loading) Bool.false_ne_true

theorem heard_next {v : Life} {m : Move} (heard : Heard v) (opened : Open v.native m)
    (inTime : timely v m) : Heard (next v m) := by
  have sound := sound_next heard.sound opened
  cases m with
  | add fromMagnetUri fills found => exact heard_add heard fromMagnetUri fills found
  | load accepted => exact heard_load heard accepted
  | perform accepted bare => exact heard_perform heard opened accepted bare
  | cancel found =>
    dsimp only [next] at sound ⊢
    split
    · rename_i loading
      rw [if_pos loading] at sound
      -- the metadata has come, so that nothing more is heard of the torrent
      have quiet := heard.silent (.inr (.inr ⟨loading, inTime loading⟩))
      cases found with
      | true => exact ⟨sound, heard.few, heard.once, fun _ => quiet⟩
      | false => exact ⟨sound, heard.few, heard.once, fun _ => quiet⟩
    · exact heard
  | list =>
    obtain ⟨native, loading, unanswered⟩ := createHandle_keeps
      { v with native := { v.native with added := v.native.added - 1 } }
    refine heard.same_native sound ?_ ?_ ?_ ?_ (.inr ⟨loading, unanswered⟩) <;>
      simp only [next, native]
  | drop => exact heard.same_native sound rfl rfl rfl rfl (.inl rfl)
  | answer =>
    have posted : 0 < v.native.heard := opened
    have few := heard.few
    have spent : v.native.heard - 1 = 0 := by omega
    have metadata : v.native.bare = false := by
      by_contra bare
      have := heard.once (Bool.not_eq_false _ ▸ bare)
      omega
    dsimp only [next] at sound ⊢
    split
    · rename_i loading
      rw [if_pos loading] at sound
      exact ⟨sound, by simp only [TorrentLife.remove, spent, Nat.zero_le], fun _ => spent,
        fun _ => ⟨spent, metadata⟩⟩
    · rename_i notLoading
      rw [if_neg notLoading] at sound
      exact ⟨sound, by simp only [spent, Nat.zero_le], fun _ => spent,
        fun _ => ⟨spent, metadata⟩⟩
  | hear =>
    have none := heard.once opened.2
    refine ⟨sound, ?_, fun never => absurd never Bool.false_ne_true, fun quiet => ?_⟩
    · simp only [next, TorrentLife.hear, none, Nat.zero_add, Nat.le_refl]
    · have bare := (heard.silent quiet).2
      rw [opened.2] at bare
      cases bare
  | endRemoval =>
    have quiet := heard.silent (.inr (.inl opened))
    exact ⟨sound, heard.few, fun _ => quiet.1, fun _ => ⟨quiet.1, rfl⟩⟩
  | delete => exact heard.same_native sound rfl rfl rfl rfl (.inr ⟨rfl, rfl⟩)
  | idle => exact heard

theorem unchanged {v w : Life} (same : counted w = counted v) :
    (0 : Int) = (counted w).toNat - (counted v).toNat := by
  rw [same, Int.sub_self]

theorem change_add_iff (v : Life) (fromMagnetUri fills found : Bool) :
    change v (.add fromMagnetUri fills found) =
        (counted (next v (.add fromMagnetUri fills found))).toNat - (counted v).toNat ↔
      timely v (.add fromMagnetUri fills found) := by
  dsimp only [next, change, timely]
  split
  · rename_i preloaded
    obtain ⟨rfl, loading⟩ := Bool.and_eq_true_iff.mp preloaded
    have ended : counted (if found = true then
        createHandle { v with loading := false, adding := true }
        else { v with loading := false, adding := true }) = false := by
      split
      · rw [counted, (createHandle_keeps _).2.1, Bool.false_and]
      · rfl
    rw [ended, counted, loading]
    cases v.unanswered <;> simp
  · rename_i notPreloaded
    refine iff_of_true (unchanged ?_) fun fromMagnetUri loading => ?_
    · split <;> rfl
    · exact absurd (Bool.and_eq_true_iff.mpr ⟨fromMagnetUri, loading⟩) notPreloaded

/-- The counter and the number of waiting magnets change alike just in time. -/
theorem change_iff {v : Life} {m : Move} (heard : Heard v) (opened : Open v.native m) :
    change v m = (counted (next v m)).toNat - (counted v).toNat ↔ timely v m := by
  cases m with
  | add fromMagnetUri fills found => exact change_add_iff v fromMagnetUri fills found
  | load accepted =>
    refine iff_of_true ?_ trivial
    dsimp only [next, change]
    split
    · exact unchanged rfl
    · rename_i known
      simp only [Bool.or_eq_true, not_or, Bool.not_eq_true] at known
      simp [counted, known.2]
  | cancel found =>
    dsimp only [next, change, timely]
    cases loading : v.loading <;> cases unanswered : v.unanswered <;>
      simp [counted, loading, unanswered]
  | drop =>
    dsimp only [next, change, timely]
    cases loading : v.loading <;> cases unanswered : v.unanswered <;>
      simp [counted, loading, unanswered]
  | answer =>
    have posted : 0 < v.native.heard := opened
    have audible : ¬ (v.native.present = false ∨ v.native.removing = true ∨
        (v.loading = true ∧ v.unanswered = false)) := fun quiet => by
      have := (heard.silent quiet).1
      omega
    simp only [not_or, Bool.not_eq_false, not_and] at audible
    refine iff_of_true ?_ trivial
    dsimp only [next, change]
    cases loading : v.loading with
    | false => simp [counted, loading]
    | true => simp [counted, loading, audible.1, audible.2.2 loading]
  | list =>
    obtain ⟨_, loading, unanswered⟩ := createHandle_keeps
      { v with native := { v.native with added := v.native.added - 1 } }
    refine iff_of_true (unchanged ?_) trivial
    simp only [next, counted, loading, unanswered]
  | _ => exact iff_of_true (unchanged rfl) trivial

/- The session. -/

theorem extraLimit_adjustLimits (s : Session) : (adjustLimits s).extraLimit = s.extraLimit := by
  unfold adjustLimits
  split <;> rfl

theorem extraLimit_createTorrentHandle (s : Session) (nativeHandle : Option Sha1Hash) :
    (createTorrentHandle s nativeHandle).1.extraLimit = s.extraLimit := by
  unfold createTorrentHandle
  split
  · rfl
  · split
    · rfl
    · dsimp only
      split
      · rfl
      · split <;> rfl

theorem extraLimit_addPreloaded (s : Session) (params : CreateTorrentParams) (hash : Sha1Hash)
    (found : Bool) : (addPreloaded s params hash found).1.extraLimit = s.extraLimit - 1 := by
  simp only [addPreloaded, extraLimit_createTorrentHandle, extraLimit_adjustLimits]

theorem extraLimit_addNew (s : Session) (params : CreateTorrentParams) (p : AddRequest)
    (isPrivate : Bool) (piecesCount : Int) :
    (addNew s params p isPrivate piecesCount).1.extraLimit = s.extraLimit := by
  unfold addNew
  split
  · rfl
  · split
    · split
      · rfl
      · split <;> rfl
    · split <;> rfl

theorem extraLimit_handleTorrentRemovedAlert (s : Session) (hash : Sha1Hash) :
    (handleTorrentRemovedAlert s hash).extraLimit = s.extraLimit := by
  unfold handleTorrentRemovedAlert
  dsimp only
  split
  · split <;> split <;> rfl
  · split <;> rfl

theorem extraLimit_handleFilesDeleted (s : Session) (hash : Sha1Hash) :
    (handleFilesDeleted s hash).extraLimit = s.extraLimit := by
  unfold handleFilesDeleted
  split <;> rfl

theorem extraLimit_dispatchMetadataReceived (s : Session) (hash : Sha1Hash) :
    (dispatchMetadataReceived s hash).extraLimit = s.extraLimit := by
  unfold dispatchMetadataReceived
  split <;> rfl

theorem extraLimit_handleMetadataReceivedAlert (s : Session) (hash : Sha1Hash) :
    (handleMetadataReceivedAlert s hash).extraLimit = s.extraLimit +
      if hash ∈ s.nativeSession.torrents ∧ hash ∈ s.loadedMetadata then -1 else 0 := by
  unfold handleMetadataReceivedAlert
  split
  · rename_i torrent found
    have present : hash ∈ s.nativeSession.torrents := AList.lookup_isSome.mp (by rw [found]; rfl)
    split
    · rename_i loading
      rw [if_pos ⟨present, loading⟩]
      exact extraLimit_adjustLimits _
    · rename_i notLoading
      rw [if_neg fun both => notLoading both.2, Int.add_zero]
  · rename_i absent
    rw [if_neg fun both => AList.lookup_eq_none.mp absent both.1, Int.add_zero]

theorem extraLimit_handleAlert (w : World) (alert : Alert) :
    (handleAlert (takeAlert w.session alert) alert).extraLimit = w.session.extraLimit +
      change (lifeIn w (alertTarget alert)) (alertMove alert) := by
  cases alert with
  | addTorrent hash error =>
    cases error with
    | none => exact (extraLimit_createTorrentHandle _ _).trans (Int.add_zero _).symm
    | some message => exact (Int.add_zero _).symm
  | torrentRemoved hash =>
    exact (extraLimit_handleTorrentRemovedAlert _ _).trans (Int.add_zero _).symm
  | torrentDeleted hash => exact (extraLimit_handleFilesDeleted _ _).trans (Int.add_zero _).symm
  | torrentDeleteFailed hash =>
    exact (extraLimit_handleFilesDeleted _ _).trans (Int.add_zero _).symm
  | metadataReceived hash =>
    apply (extraLimit_dispatchMetadataReceived _ _).trans
    apply (extraLimit_handleMetadataReceivedAlert _ _).trans
    have seen : ((lifeIn w hash).native.present && (lifeIn w hash).loading) =
        decide (hash ∈ w.session.nativeSession.torrents ∧ hash ∈ w.session.loadedMetadata) := by
      simp [lifeIn, life]
    change _ = w.session.extraLimit +
      if ((lifeIn w hash).native.present && (lifeIn w hash).loading) = true then -1 else 0
    rw [seen]
    simp only [decide_eq_true_eq]
    rfl

theorem extraLimit_step (w : World) (e : Event) :
    (worldAfter w e).session.extraLimit = w.session.extraLimit +
      change (lifeIn w (target e)) (move e) := by
  cases e with
  | addTorrentImpl params magnetUri torrentInfo found =>
    simp only [worldAfter, sessionAfter, move, change, target]
    unfold addTorrentImpl
    by_cases fromMagnetUri : magnetUri.isValid = true
    · by_cases loading : magnetUri.hash ∈ w.session.loadedMetadata
      · simp [fromMagnetUri, extraLimit_addPreloaded, lifeIn, life, loading, Int.sub_eq_add_neg]
      · simp [fromMagnetUri, extraLimit_addNew, lifeIn, life, loading]
    · rw [Bool.not_eq_true] at fromMagnetUri
      simp only [fromMagnetUri, Bool.false_eq_true, ↓reduceIte, Bool.false_and, Int.add_zero]
      split
      · exact extraLimit_addNew _ _ _ _ _
      · rfl
  | loadMetadata magnetUri ec =>
    have refused : (!(magnetUri.isValid && !ec) || (lifeIn w magnetUri.hash).listed ||
        (lifeIn w magnetUri.hash).adding || (lifeIn w magnetUri.hash).loading) =
        (!magnetUri.isValid || isKnownTorrent w.session magnetUri.hash || ec) := by
      simp only [isKnownTorrent, lifeIn, life]
      cases magnetUri.isValid <;> cases ec <;> simp [Bool.or_assoc]
    simp only [worldAfter, sessionAfter, move, change, target, loadMetadata, refused]
    split
    · exact (Int.add_zero _).symm
    · exact extraLimit_adjustLimits _
  | handleAlert alert => exact extraLimit_handleAlert w alert
  | cancelLoadMetadata hash found =>
    simp only [worldAfter, sessionAfter, move, change, Int.add_zero]
    unfold cancelLoadMetadata
    split
    · cases found <;> rfl
    · rfl
  | deleteTorrent hash =>
    simp only [worldAfter, sessionAfter, move, change, Int.add_zero]
    unfold deleteTorrent
    split <;> rfl
  | _ => exact (Int.add_zero _).symm

def waiting (w : World) : Finset Sha1Hash := w.session.loadedMetadata.keys.toFinset ∩ w.unanswered

def CountsWaiting (w : World) : Prop :=
  w.session.extraLimit = (waiting w).card ∧ 0 ≤ w.session.extraLimit ∧
    (w.session.loadedMetadata = ∅ → w.session.extraLimit = 0)

/-- A preloaded magnet is added while it waits for its metadata, and let go of when it does
    not wait any more. -/
def InTime (w : World) : Event → Prop
  | .addTorrentImpl _ magnetUri _ _ => magnetUri.isValid = true →
    magnetUri.hash ∈ w.session.loadedMetadata → magnetUri.hash ∈ waiting w
  | .cancelLoadMetadata hash _ | .handleAlert (.torrentRemoved hash) => hash ∉ waiting w
  | _ => True

theorem mem_waiting (w : World) (hash : Sha1Hash) :
    hash ∈ waiting w ↔ counted (lifeIn w hash) = true := by
  simp [waiting, counted, lifeIn, life, AList.mem_keys]

theorem countsWaiting_iff (w : World) :
    CountsWaiting w ↔ w.session.extraLimit = (waiting w).card := by
  constructor
  · exact fun counts => counts.1
  · intro right
    refine ⟨right, by omega, fun nothing => ?_⟩
    rw [right, waiting, nothing]
    rfl

theorem inTime_iff (w : World) (e : Event) :
    timely (lifeIn w (target e)) (move e) ↔ InTime w e := by
  have unseen (hash : Sha1Hash) : hash ∉ waiting w ↔
      ((lifeIn w hash).loading = true → (lifeIn w hash).unanswered = false) := by
    rw [mem_waiting, counted]
    cases (lifeIn w hash).loading <;> cases (lifeIn w hash).unanswered <;> simp
  cases e with
  | addTorrentImpl params magnetUri torrentInfo found =>
    apply forall_congr'
    intro fromMagnetUri
    simp only [target, fromMagnetUri, ↓reduceIte, mem_waiting, counted, lifeIn, life,
      Bool.and_eq_true, decide_eq_true_eq]
    tauto
  | cancelLoadMetadata hash found => exact (unseen hash).symm
  | handleAlert alert =>
    cases alert with
    | torrentRemoved hash => exact (unseen hash).symm
    | addTorrent hash error => cases error <;> exact Iff.rfl
    | _ => exact Iff.rfl
  | _ => exact Iff.rfl

/-- The extra limit counts the waiting magnets in every state of a run exactly if every step
    of it is in time. -/
theorem extra_limit_iff {w w' : World} {steps : List (World × Event)} (initial : runs.start w)
    (run : Run runs w steps w') : Throughout CountsWaiting steps w' ↔ EveryStep InTime steps := by
  have counts : CountsWaiting = fun w => w.session.extraLimit = (waiting w).card :=
    funext fun w => propext (countsWaiting_iff w)
  have inTime : InTime = fun w e => timely (lives.part w (lives.target e)) (lives.move e) :=
    funext fun w => funext fun e => propext (inTime_iff w e).symm
  have counterStep : ∀ w e t, runs.step w e t → t.session.extraLimit =
      w.session.extraLimit + change (lives.part w (lives.target e)) (lives.move e) := by
    rintro w e _ ⟨_, rfl⟩
    exact extraLimit_step w e
  have preserved : ∀ v m v', Heard v → machine.step v m v' → timely v m → Heard v' := by
    rintro v m _ heard ⟨opened, rfl⟩ inTime
    exact heard_next heard opened inTime
  have exactly : ∀ v m v', Heard v → machine.step v m v' →
      (change v m = (counted v').toNat - (counted v).toNat ↔ timely v m) := by
    rintro v m _ heard ⟨opened, rfl⟩
    exact change_iff heard opened
  have right : w.session.extraLimit = (waiting w).card := by
    rw [initial.1.extraLimit, waiting, initial.2, Finset.inter_empty]
    rfl
  have whole := tally_exact_guard lives mem_waiting counterStep preserved exactly run
    (fun hash => by rw [lives.start w hash initial]; exact heard_unknown) right
  rw [counts, inTime]
  exact whole

instance (w : World) : (e : Event) → Decidable (InTime w e)
  | .addTorrentImpl _ magnetUri _ _ => inferInstanceAs (Decidable (magnetUri.isValid = true →
      magnetUri.hash ∈ w.session.loadedMetadata → magnetUri.hash ∈ waiting w))
  | .cancelLoadMetadata hash _ | .handleAlert (.torrentRemoved hash) =>
    inferInstanceAs (Decidable (hash ∉ waiting w))
  | .handleAlert (.addTorrent ..) | .handleAlert (.torrentDeleted _)
  | .handleAlert (.torrentDeleteFailed _) | .handleAlert (.metadataReceived _)
  | .loadMetadata .. | .deleteTorrent _ | .asyncAddTorrent .. | .receiveMetadata ..
  | .endRemoval _ | .deleteFiles .. => .isTrue trivial

theorem extra_limit_while_preloading : ∃ w,
    Run runs newWorld (trail nextWorld newWorld preloading) w ∧
      Throughout CountsWaiting (trail nextWorld newWorld preloading) w := by
  obtain ⟨w, replayed⟩ := preloading_replays
  have run := trail_run nextWorld_step replayed
  refine ⟨w, run, (extra_limit_iff newWorld_starts run).mpr ?_⟩
  unfold EveryStep
  decide

def cancelling : List Event := [.loadMetadata someMagnet false, .cancelLoadMetadata someHash true]

theorem cancelling_keeps_extra_limit : ¬ ∀ (w w' : World) (steps : List (World × Event)),
    runs.start w → Run runs w steps w' → Throughout CountsWaiting steps w' := by
  intro always
  have replayed : replay nextWorld newWorld cancelling = some
      (worldAfter (worldAfter newWorld (.loadMetadata someMagnet false))
        (.cancelLoadMetadata someHash true)) := rfl
  have counts := (always newWorld _ _ newWorld_starts (trail_run nextWorld_step replayed)).2
  have none := counts.2.2 rfl
  exact absurd none (by decide)

end ExtraLimit
