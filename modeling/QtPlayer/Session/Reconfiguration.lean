import Std.Data.String.ToNat
import QtPlayer.Session.QueueLimits
import QtPlayer.Session.SessionSetters

/- Whether the settings of the libtorrent session follow the options: every setter has to leave
   them as they are, write them itself or schedule configure(), which skips what is listened on
   unless a second flag is raised. -/
namespace Reconfiguration
open TorrentSession TransitionRuns KeyedWrites SettingsPacks SessionSettings QueueLimits

variable {host : Host} {w t : ConfiguredSession}

def fullWrites (host : Host) (w : ConfiguredSession) : List Setting :=
  configureWrites host { w with listenInterfaceChanged := true }

/-- With nothing scheduled, every key that a full configuration would write has its value. -/
def AgreesFully (host : Host) (w : ConfiguredSession) : Prop :=
  w.deferredConfigureScheduled = false → Agrees pack (getSettings w) (fullWrites host w)

def NowhereToListen (host : Host) (f : Fields) : Prop :=
  ∀ port, listenInterfaces host port (getListeningIPs host f) = none

/-- setUseRandomPort is not called, or what is listened on is written anyway, or the port stays
    the one it was. -/
def KeepsPort (host : Host) (w : ConfiguredSession) : Act → Prop
  | .set (.setUseRandomPort value) => w.listenInterfaceChanged = true ∨
    toUShort (port { w.fields with useRandomPort := value }) = toUShort (port w.fields) ∨
    NowhereToListen host w.fields
  | _ => True

/- The keys. -/

def restWrites (w : ConfiguredSession) : List Setting :=
  bandwidthLimits w.fields ++ (transferWrites w.fields ++
    (queueingWrites w.session w.fields ++ networkWrites w.fields))

theorem fullWrites_eq (host : Host) (w : ConfiguredSession) :
    fullWrites host w = listeningWrites host w.fields ++ restWrites w := rfl

theorem configureWrites_eq (host : Host) (w : ConfiguredSession) : configureWrites host w =
    (if w.listenInterfaceChanged then listeningWrites host w.fields else []) ++ restWrites w := rfl

theorem fullWrites_nodup (host : Host) (w : ConfiguredSession) :
    ((fullWrites host w).map Setting.key).Nodup := by
  rw [fullWrites_eq]
  unfold restWrites listeningWrites bandwidthLimits transferWrites queueingWrites queueLimits
    networkWrites
  dsimp only
  -- the values do not matter, only which of the optional keys are there
  cases listenInterfaces host (toUShort (port w.fields)) (getListeningIPs host w.fields) <;>
    cases w.session.isQueueingEnabled <;> cases w.fields.isDHTEnabled <;>
    simp only [List.map_append, List.map_cons, List.map_nil, Setting.key, Option.toList,
      Bool.false_eq_true, ↓reduceIte] <;>
    decide

theorem restWrites_nodup (w : ConfiguredSession) : ((restWrites w).map Setting.key).Nodup := by
  have nodup := fullWrites_nodup ⟨fun _ => false, fun _ => none, fun _ => none⟩ w
  rw [fullWrites_eq, List.map_append] at nodup
  exact nodup.of_append_right

theorem listening_apart (host : Host) (w : ConfiguredSession) :
    ∀ x ∈ listeningWrites host w.fields, ∀ y ∈ restWrites w, pack.key x ≠ pack.key y :=
  apart_of_nodup (m := pack) (fullWrites_nodup host w)

/- What is kept between two calls. -/

structure Tracked (host : Host) (w : ConfiguredSession) : Prop where
  rest : w.deferredConfigureScheduled = false → Agrees pack (getSettings w) (restWrites w)
  listening : w.listenInterfaceChanged = false →
    Agrees pack (getSettings w) (listeningWrites host w.fields)
  pending : w.listenInterfaceChanged = true → w.deferredConfigureScheduled = true

theorem agrees_of_tracked (tracked : Tracked host w) : AgreesFully host w := by
  intro idle
  have unchanged : w.listenInterfaceChanged = false := by
    by_contra changed
    rw [Bool.not_eq_false] at changed
    rw [tracked.pending changed] at idle
    cases idle
  rw [fullWrites_eq]
  exact agrees_append.mpr ⟨tracked.listening unchanged, tracked.rest idle⟩

theorem tracked_of_same (tracked : Tracked host w) (settings : getSettings t = getSettings w)
    (rest : restWrites t = restWrites w)
    (listening : listeningWrites host t.fields = listeningWrites host w.fields)
    (scheduled : t.deferredConfigureScheduled = w.deferredConfigureScheduled)
    (changed : t.listenInterfaceChanged = w.listenInterfaceChanged) : Tracked host t := by
  constructor
  · rw [scheduled, settings, rest]
    exact tracked.rest
  · rw [changed, settings, listening]
    exact tracked.listening
  · rw [changed, scheduled]
    exact tracked.pending

theorem tracked_configureDeferred (tracked : Tracked host w)
    (settings : getSettings t = getSettings w)
    (listening : listeningWrites host t.fields = listeningWrites host w.fields)
    (changed : t.listenInterfaceChanged = w.listenInterfaceChanged) :
    Tracked host (configureDeferred t) := by
  constructor
  · intro idle
    cases idle
  · intro unchanged
    have before := tracked.listening (changed.symm.trans unchanged)
    rw [← settings, ← listening] at before
    exact before
  · intro _
    rfl

theorem tracked_configureListeningInterface : Tracked host (configureListeningInterface t) := by
  constructor
  · intro idle
    cases idle
  · intro unchanged
    cases unchanged
  · intro _
    rfl

section Setters

variable {α : Type} [DecidableEq α] {current value : α}

theorem tracked_setDirectly (tracked : Tracked host w) (settings : getSettings t = getSettings w)
    (rest : restWrites t = restWrites w)
    (listening : listeningWrites host t.fields = listeningWrites host w.fields)
    (scheduled : t.deferredConfigureScheduled = w.deferredConfigureScheduled)
    (changed : t.listenInterfaceChanged = w.listenInterfaceChanged) :
    Tracked host (setDirectly w current value t) := by
  unfold setDirectly
  split
  · exact tracked_of_same tracked settings rest listening scheduled changed
  · exact tracked

theorem tracked_setDeferred (tracked : Tracked host w) (settings : getSettings t = getSettings w)
    (listening : listeningWrites host t.fields = listeningWrites host w.fields)
    (changed : t.listenInterfaceChanged = w.listenInterfaceChanged) :
    Tracked host (setDeferred w current value t) := by
  unfold setDeferred
  split
  · exact tracked_configureDeferred tracked settings listening changed
  · exact tracked

theorem tracked_setListening (tracked : Tracked host w) :
    Tracked host (setListening w current value t) := by
  unfold setListening
  split
  · exact tracked_configureListeningInterface
  · exact tracked

end Setters

/- The calls that write. -/

theorem getSettings_applySettings (w : ConfiguredSession) (p : SettingsPack) :
    getSettings (applySettings w p) = p := by
  have ints : (getSettings (applySettings w p)).ints = p.ints := by
    funext k
    cases k <;> rfl
  exact congrArg (fun ints => { p with ints := ints }) ints

/-- configure() needs no more than that what is listened on was written when it was changed. -/
theorem tracked_configure (listening : w.listenInterfaceChanged = false →
    Agrees pack (getSettings w) (listeningWrites host w.fields)) :
    Tracked host (configure host w) := by
  have settings : getSettings (configure host w) =
      setAll pack (getSettings w) (configureWrites host w) := getSettings_applySettings w _
  have apart := listening_apart host w
  constructor
  · intro _
    change Agrees pack (getSettings (configure host w)) (restWrites w)
    rw [settings, configureWrites_eq]
    split
    · exact (agrees_append.mp (agrees_setAll (fullWrites_nodup host w))).2
    · exact agrees_setAll (restWrites_nodup w)
  · intro _
    change Agrees pack (getSettings (configure host w)) (listeningWrites host w.fields)
    rw [settings, configureWrites_eq]
    split
    · exact (agrees_append.mp (agrees_setAll (fullWrites_nodup host w))).1
    · rename_i unchanged
      rw [Bool.not_eq_true] at unchanged
      rw [List.nil_append, agrees_setAll_other fun x mem y mem' => (apart y mem' x mem).symm]
      exact listening unchanged
  · intro changed
    cases changed

theorem tracked_setAltGlobalSpeedLimitEnabled (tracked : Tracked host w) (enabled : Bool) :
    Tracked host (setAltGlobalSpeedLimitEnabled w enabled) := by
  unfold setAltGlobalSpeedLimitEnabled
  split
  · exact tracked
  · have apart := listening_apart host
      (setFields w fun f => { f with isAltGlobalSpeedLimitEnabled := enabled })
    have nodup := restWrites_nodup
      (setFields w fun f => { f with isAltGlobalSpeedLimitEnabled := enabled })
    unfold restWrites at apart nodup
    have settings := getSettings_applySettings
      (setFields w fun f => { f with isAltGlobalSpeedLimitEnabled := enabled })
    constructor
    · intro idle
      have before := tracked.rest idle
      unfold applyBandwidthLimits
      rw [settings]
      apply agrees_append.mpr
      constructor
      · rw [List.map_append] at nodup
        exact agrees_setAll nodup.of_append_left
      · apply (agrees_setAll_other (apart_of_nodup (m := pack) nodup)).mpr
        exact (agrees_append.mp before).2
    · intro unchanged
      have before := tracked.listening unchanged
      unfold applyBandwidthLimits
      rw [settings]
      apply (agrees_setAll_other ?_).mpr
      · exact before
      · intro x mem y mem'
        exact (apart y mem' x (List.mem_append_left _ mem)).symm
    · exact tracked.pending

/- Events: only the two limits of the queue are ever written. -/

def IsQueueLimit (x : Setting) : Prop :=
  x.key = .inl .activeDownloads ∨ x.key = .inl .activeLimit

theorem limit_written (w : ConfiguredSession) {x : Setting} (limit : IsQueueLimit x) :
    ∃ y ∈ queueingWrites w.session w.fields, y.key = x.key := by
  unfold queueingWrites queueLimits
  rcases limit with same | same <;> rw [same] <;> split <;> simp [Setting.key]

theorem other_writes (host : Host) (w : ConfiguredSession) {x : Setting}
    (mem : x ∈ listeningWrites host w.fields ++ (bandwidthLimits w.fields ++
      transferWrites w.fields) ∨ x ∈ networkWrites w.fields) : ¬ IsQueueLimit x := by
  have nodup := fullWrites_nodup host w
  have parts : fullWrites host w =
      (listeningWrites host w.fields ++ (bandwidthLimits w.fields ++ transferWrites w.fields)) ++
        (queueingWrites w.session w.fields ++ networkWrites w.fields) := by
    simp only [fullWrites_eq, restWrites, List.append_assoc]
  rw [parts] at nodup
  intro limit
  obtain ⟨y, written, same⟩ := limit_written w limit
  rcases mem with before | after
  · exact apart_of_nodup (m := pack) nodup x before y (List.mem_append_left _ written) same.symm
  · rw [List.map_append] at nodup
    exact apart_of_nodup (m := pack) nodup.of_append_right y written x after same

theorem holds_after {s : Session} {x : Setting} (other : ¬ IsQueueLimit x) :
    pack.holds (getSettings { w with session := s }) x ↔ pack.holds (getSettings w) x := by
  cases x with
  | int k v =>
    cases k with
    | activeDownloads => exact (other (Or.inl rfl)).elim
    | activeLimit => exact (other (Or.inr rfl)).elim
    | _ => rfl
  | _ => rfl

theorem agrees_after {s : Session} {xs : List Setting} (others : ∀ x ∈ xs, ¬ IsQueueLimit x)
    (agrees : Agrees pack (getSettings w) xs) :
    Agrees pack (getSettings { w with session := s }) xs := by
  intro x mem
  exact (holds_after (others x mem)).mpr (agrees x mem)

theorem queueLimits_only (s : Session) : ∀ x ∈ queueLimits s, IsQueueLimit x := by
  simp [queueLimits, IsQueueLimit, Setting.key]

theorem limits_iff (w : ConfiguredSession) :
    (∀ x ∈ queueingWrites w.session w.fields, IsQueueLimit x → pack.holds (getSettings w) x) ↔
      LimitsHeld w.session := by
  unfold queueingWrites queueLimits LimitsHeld raised nativeLimits
  cases w.session.isQueueingEnabled <;>
    simp [IsQueueLimit, Setting.key, pack, Setting.holds, getSettings]

theorem mem_queueingWrites {s s' : Session} {f : Fields} {x : Setting}
    (enabled : s'.isQueueingEnabled = s.isQueueingEnabled) (other : ¬ IsQueueLimit x)
    (mem : x ∈ queueingWrites s' f) : x ∈ queueingWrites s f := by
  unfold queueingWrites at mem ⊢
  rw [enabled] at mem
  split
  · rename_i on
    rw [if_pos on] at mem
    rcases List.mem_append.mp mem with limit | later
    · exact (other (queueLimits_only s' x limit)).elim
    · exact List.mem_append_right _ later
  · rename_i off
    rwa [if_neg off] at mem

theorem queueing_of_kept {s : Session} (kept : Kept w.session s)
    (agrees : Agrees pack (getSettings w) (queueingWrites w.session w.fields)) :
    Agrees pack (getSettings { w with session := s }) (queueingWrites s w.fields) := by
  have held := (limits_iff w).mp fun x mem _ => agrees x mem
  have after := (limits_iff { w with session := s }).mpr (kept.limits held)
  intro x mem
  by_cases limit : IsQueueLimit x
  · exact after x mem limit
  · exact (holds_after limit).mpr (agrees x (mem_queueingWrites kept.enabled limit mem))

theorem rest_of_kept (host : Host) {s : Session} (kept : Kept w.session s)
    (agrees : Agrees pack (getSettings w) (restWrites w)) :
    Agrees pack (getSettings { w with session := s }) (restWrites { w with session := s }) := by
  have others {x : Setting} := other_writes (x := x) host w
  obtain ⟨bandwidth, rest⟩ := agrees_append.mp agrees
  obtain ⟨transfer, rest⟩ := agrees_append.mp rest
  obtain ⟨queueing, network⟩ := agrees_append.mp rest
  apply agrees_append.mpr
  constructor
  · exact agrees_after (fun x mem => others (by simp [mem])) bandwidth
  · apply agrees_append.mpr
    constructor
    · exact agrees_after (fun x mem => others (by simp [mem])) transfer
    · apply agrees_append.mpr
      constructor
      · exact queueing_of_kept kept queueing
      · exact agrees_after (fun x mem => others (Or.inr mem)) network

theorem tracked_of_kept {s : Session} (tracked : Tracked host w) (kept : Kept w.session s) :
    Tracked host { w with session := s } := by
  constructor
  · intro idle
    exact rest_of_kept host kept (tracked.rest idle)
  · intro unchanged
    apply agrees_after fun x mem => other_writes host w (Or.inl (List.mem_append_left _ mem))
    exact tracked.listening unchanged
  · exact tracked.pending

/- Setters. -/

theorem useRandomPort_unwritten {value : Bool}
    (same : toUShort (port { w.fields with useRandomPort := value }) = toUShort (port w.fields) ∨
      NowhereToListen host w.fields) :
    listeningWrites host { w.fields with useRandomPort := value } =
      listeningWrites host w.fields := by
  have addresses : getListeningIPs host { w.fields with useRandomPort := value } =
      getListeningIPs host w.fields := rfl
  unfold listeningWrites
  dsimp only
  rw [addresses]
  rcases same with port | nowhere
  · rw [port]
  · simp [nowhere _]

theorem tracked_setUseRandomPort (tracked : Tracked host w) {value : Bool}
    (keeps : KeepsPort host w (.set (.setUseRandomPort value))) :
    Tracked host (setUseRandomPort w value) := by
  rcases keeps with raised | same
  · constructor
    · exact tracked.rest
    · intro unchanged
      exact absurd (raised.symm.trans unchanged) Bool.false_ne_true.symm
    · exact tracked.pending
  · exact tracked_of_same tracked rfl rfl (useRandomPort_unwritten same) rfl rfl

theorem tracked_setBTProtocol (tracked : Tracked host w) (protocol : Int) :
    Tracked host (setBTProtocol w protocol) := by
  unfold setBTProtocol
  dsimp only
  split
  · exact tracked_setDeferred tracked rfl rfl rfl
  · split
    · exact tracked_setDeferred tracked rfl rfl rfl
    · split
      · exact tracked_setDeferred tracked rfl rfl rfl
      · exact tracked

theorem tracked_setSpeedLimit (tracked : Tracked host w) {limit old : Int} {applies : Bool}
    {change : Int → Fields → Fields}
    (listening : ∀ n, listeningWrites host (change n w.fields) = listeningWrites host w.fields)
    (others : ∀ n f, (transferWrites (change n f), queueingWrites w.session (change n f),
      networkWrites (change n f)) = (transferWrites f, queueingWrites w.session f, networkWrites f))
    (unused : applies = false → ∀ n,
      bandwidthLimits (change n w.fields) = bandwidthLimits w.fields) :
    Tracked host (setSpeedLimit w limit old applies change) := by
  unfold setSpeedLimit
  dsimp only
  split
  · exact tracked
  · split
    · exact tracked_configureDeferred tracked rfl (listening _) rfl
    · rename_i off
      rw [Bool.not_eq_true] at off
      have rest := others (max (limit.tdiv 1024) 0) w.fields
      simp only [Prod.mk.injEq] at rest
      have same : restWrites (setFields w (change (max (limit.tdiv 1024) 0))) = restWrites w := by
        simp only [restWrites, setFields, unused off, rest]
      exact tracked_of_same tracked rfl same (listening _) rfl rfl

theorem tracked_setGlobalDownloadSpeedLimit (tracked : Tracked host w) (limit : Int) :
    Tracked host (setGlobalDownloadSpeedLimit w limit) := by
  apply tracked_setSpeedLimit tracked
  · intro _
    rfl
  · intro _ _
    rfl
  · intro off n
    have mode : w.fields.isAltGlobalSpeedLimitEnabled = true := by simpa using off
    simp only [bandwidthLimits, mode, ↓reduceIte]
    rfl

theorem tracked_setGlobalUploadSpeedLimit (tracked : Tracked host w) (limit : Int) :
    Tracked host (setGlobalUploadSpeedLimit w limit) := by
  apply tracked_setSpeedLimit tracked
  · intro _
    rfl
  · intro _ _
    rfl
  · intro off n
    have mode : w.fields.isAltGlobalSpeedLimitEnabled = true := by simpa using off
    simp only [bandwidthLimits, mode, ↓reduceIte]
    rfl

theorem tracked_setAltGlobalDownloadSpeedLimit (tracked : Tracked host w) (limit : Int) :
    Tracked host (setAltGlobalDownloadSpeedLimit w limit) := by
  apply tracked_setSpeedLimit tracked
  · intro _
    rfl
  · intro _ _
    rfl
  · intro off n
    simp only [bandwidthLimits, off, Bool.false_eq_true, ↓reduceIte]
    rfl

theorem tracked_setAltGlobalUploadSpeedLimit (tracked : Tracked host w) (limit : Int) :
    Tracked host (setAltGlobalUploadSpeedLimit w limit) := by
  apply tracked_setSpeedLimit tracked
  · intro _
    rfl
  · intro _ _
    rfl
  · intro off n
    simp only [bandwidthLimits, off, Bool.false_eq_true, ↓reduceIte]
    rfl

theorem tracked_setDownloadSpeedLimit (tracked : Tracked host w) (limit : Int) :
    Tracked host (setDownloadSpeedLimit w limit) := by
  unfold setDownloadSpeedLimit
  split
  · exact tracked_setAltGlobalDownloadSpeedLimit tracked limit
  · exact tracked_setGlobalDownloadSpeedLimit tracked limit

theorem tracked_setUploadSpeedLimit (tracked : Tracked host w) (limit : Int) :
    Tracked host (setUploadSpeedLimit w limit) := by
  unfold setUploadSpeedLimit
  split
  · exact tracked_setAltGlobalUploadSpeedLimit tracked limit
  · exact tracked_setGlobalUploadSpeedLimit tracked limit

/-- Every setter but one leaves the settings right or schedules what will make them right. -/
theorem tracked_applySetter (tracked : Tracked host w) (setter : Setter)
    (keeps : KeepsPort host w (.set setter)) : Tracked host (applySetter w setter) := by
  cases setter with
  | setBandwidthSchedulerEnabled _ => exact tracked
  | setBTProtocol protocol => exact tracked_setBTProtocol tracked protocol
  | setUseRandomPort value => exact tracked_setUseRandomPort tracked keeps
  | setGlobalDownloadSpeedLimit limit => exact tracked_setGlobalDownloadSpeedLimit tracked limit
  | setGlobalUploadSpeedLimit limit => exact tracked_setGlobalUploadSpeedLimit tracked limit
  | setAltGlobalDownloadSpeedLimit limit =>
    exact tracked_setAltGlobalDownloadSpeedLimit tracked limit
  | setAltGlobalUploadSpeedLimit limit => exact tracked_setAltGlobalUploadSpeedLimit tracked limit
  | setDownloadSpeedLimit limit => exact tracked_setDownloadSpeedLimit tracked limit
  | setUploadSpeedLimit limit => exact tracked_setUploadSpeedLimit tracked limit
  | setAltGlobalSpeedLimitEnabled enabled =>
    exact tracked_setAltGlobalSpeedLimitEnabled tracked enabled
  | _ =>
    first
    | exact tracked_setDeferred tracked rfl rfl rfl
    | exact tracked_setListening tracked
    | exact tracked_setDirectly tracked rfl rfl rfl rfl rfl
    | exact tracked_of_same tracked rfl rfl rfl rfl rfl

/- Runs. -/

theorem tracked_construct (initial : (configuring host).start w) : Tracked host w := by
  obtain ⟨defaults, rfl⟩ := initial
  apply tracked_configure
  intro unchanged
  cases unchanged

theorem tracked_step (w : ConfiguredSession) (act : Act) (t : ConfiguredSession)
    (tracked : Tracked host w) (taken : (configuring host).step w act t)
    (keeps : KeepsPort host w act) : Tracked host t := by
  obtain ⟨_, rfl⟩ := taken
  cases act with
  | set setter => exact tracked_applySetter tracked setter keeps
  | event e => exact tracked_of_kept tracked (kept_sessionAfter w.session e)
  | addTorrent2 torrentInfo thrown =>
    exact tracked_of_kept tracked (kept_of_same (queueState_addTorrent2 _ _ _))
  | configure => exact tracked_configure tracked.listening

theorem listenInterfaces_port {ips : List String} {p : Nat} {interface : String}
    (found : listenInterfaces host p ips = some interface) :
    ∃ ip isV6, ∀ q, listenInterfaces host q ips = some (endpoint ip isV6 q) := by
  induction ips with
  | nil => cases found
  | cons ip ips ih =>
    unfold listenInterfaces at found ⊢
    by_cases any : ip = ""
    · exact ⟨"0.0.0.0", false, fun q => if_pos any⟩
    · simp only [any, ↓reduceIte] at found ⊢
      cases parsed : host.isV6 ip with
      | some isV6 => exact ⟨ip, isV6, fun q => rfl⟩
      | none =>
        rw [parsed] at found
        exact ih found

theorem endpoint_port {ip : String} {isV6 : Bool} {p q : Nat}
    (same : endpoint ip isV6 p = endpoint ip isV6 q) : p = q := by
  unfold endpoint at same
  exact Nat.repr_injective ((String.append_right_inj _).mp same)

/-- A port that is not kept while nothing is scheduled stays unwritten. -/
theorem unkept_port (tracked : Tracked host w) (idle : w.deferredConfigureScheduled = false)
    {value : Bool} (unkept : ¬ KeepsPort host w (.set (.setUseRandomPort value))) :
    ¬ AgreesFully host (setUseRandomPort w value) := by
  intro agrees
  have before := agrees_append.mp (agrees_of_tracked tracked idle)
  have after := agrees_append.mp (agrees idle)
  simp only [KeepsPort, not_or] at unkept
  obtain ⟨_, moved, somewhere⟩ := unkept
  have addresses : getListeningIPs host (setUseRandomPort w value).fields =
      getListeningIPs host w.fields := rfl
  unfold NowhereToListen at somewhere
  push Not at somewhere
  obtain ⟨p, found⟩ := somewhere
  obtain ⟨interface, found⟩ := Option.ne_none_iff_exists'.mp found
  obtain ⟨ip, isV6, listens⟩ := listenInterfaces_port found
  have old := before.1 (.str .listenInterfaces (endpoint ip isV6 (toUShort (port w.fields))))
    (by simp [listeningWrites, listens])
  have new := after.1 (.str .listenInterfaces
      (endpoint ip isV6 (toUShort (port (setUseRandomPort w value).fields))))
    (by simp [listeningWrites, addresses, listens])
  exact moved (endpoint_port (new.symm.trans old))

/-- In a run in which no setUseRandomPort changes the port behind the back of configure(), the
    settings are the configured ones whenever nothing is scheduled. Any other such call makes
    them differ at once, unless something else is scheduled. -/
theorem settings_follow_options {steps : List (ConfiguredSession × Act)}
    (initial : (configuring host).start w) (run : Run (configuring host) w steps t)
    (keeps : EveryStep (KeepsPort host) steps) :
    Throughout (AgreesFully host) steps t ∧
      ∀ value, t.deferredConfigureScheduled = false →
        ¬ KeepsPort host t (.set (.setUseRandomPort value)) →
        ¬ AgreesFully host (setUseRandomPort t value) := by
  obtain ⟨earlier, last⟩ := guarded_run_invariant tracked_step run (tracked_construct initial) keeps
  constructor
  · exact ⟨fun p mem => agrees_of_tracked (earlier p mem), agrees_of_tracked last⟩
  · intro value idle unkept
    exact unkept_port last idle unkept

def offlineHost : Host := ⟨fun _ => false, fun _ => none, fun _ => none⟩

def noDefaults : SettingsPack := ⟨fun _ => 0, fun _ => false, fun _ => ""⟩

def freshSession : ConfiguredSession := construct offlineHost noDefaults

theorem freshSession_start : (configuring offlineHost).start freshSession := ⟨noDefaults, rfl⟩

theorem step_set (host : Host) (w : ConfiguredSession) (setter : Setter) :
    (configuring host).step w (.set setter) (applySetter w setter) := ⟨trivial, rfl⟩

/-- Written together with a port that is set before. -/
theorem random_port_written : AgreesFully offlineHost (actAfter offlineHost
    (setUseRandomPort (setPort freshSession 6881) true) .configure) := by
  have run : Run (configuring offlineHost) freshSession
      [(freshSession, .set (.setPort 6881)),
        (setPort freshSession 6881, .set (.setUseRandomPort true)),
        (setUseRandomPort (setPort freshSession 6881) true, .configure)]
      (actAfter offlineHost (setUseRandomPort (setPort freshSession 6881) true) .configure) := by
    have ported := Run.snoc (.nil freshSession) (step_set offlineHost _ (.setPort 6881))
    have random := ported.snoc (step_set _ _ (.setUseRandomPort true))
    exact random.snoc ⟨rfl, rfl⟩
  have keeps : EveryStep (KeepsPort offlineHost)
      [(freshSession, .set (.setPort 6881)),
        (setPort freshSession 6881, .set (.setUseRandomPort true)),
        (setUseRandomPort (setPort freshSession 6881) true, .configure)] := by
    intro p mem
    rcases List.mem_cons.mp mem with rfl | mem
    · trivial
    · rcases List.mem_cons.mp mem with rfl | mem
      · exact Or.inl rfl
      · rw [List.mem_singleton.mp mem]
        trivial
  exact (settings_follow_options freshSession_start run keeps).1.2

theorem random_port_unwritten : ∃ steps t,
    (configuring offlineHost).start freshSession ∧
    Run (configuring offlineHost) freshSession steps t ∧
    ¬ Throughout (AgreesFully offlineHost) steps t := by
  refine ⟨[(freshSession, .set (.setUseRandomPort true))], setUseRandomPort freshSession true,
    freshSession_start, .snoc (.nil _) (step_set _ _ _), ?_⟩
  rintro ⟨_, agrees⟩
  have unkept : ¬ KeepsPort offlineHost freshSession (.set (.setUseRandomPort true)) := by
    rintro (raised | same | nowhere)
    · cases raised
    · revert same
      decide
    · cases nowhere 0
  exact unkept_port (tracked_construct freshSession_start) rfl unkept agrees

end Reconfiguration
