import QtPlayer.Library.MachineIntegers
import QtPlayer.Session.Reconfiguration

/- The speed limits: given and read in bytes per second, kept in KiB. -/
namespace SpeedLimits
open TransitionRuns SettingsPacks SessionSettings Reconfiguration MachineIntegers

inductive Limit where
  | globalDownload
  | globalUpload
  | altGlobalDownload
  | altGlobalUpload
  deriving DecidableEq

def stored (f : Fields) : Limit → Int
  | .globalDownload => f.globalDownloadSpeedLimit
  | .globalUpload => f.globalUploadSpeedLimit
  | .altGlobalDownload => f.altGlobalDownloadSpeedLimit
  | .altGlobalUpload => f.altGlobalUploadSpeedLimit

def getter (f : Fields) : Limit → Int
  | .globalDownload => globalDownloadSpeedLimit f
  | .globalUpload => globalUploadSpeedLimit f
  | .altGlobalDownload => altGlobalDownloadSpeedLimit f
  | .altGlobalUpload => altGlobalUploadSpeedLimit f

def downloadSpeedLimit (f : Fields) : Int :=
  if f.isAltGlobalSpeedLimitEnabled then altGlobalDownloadSpeedLimit f
  else globalDownloadSpeedLimit f

def uploadSpeedLimit (f : Fields) : Int :=
  if f.isAltGlobalSpeedLimitEnabled then altGlobalUploadSpeedLimit f
  else globalUploadSpeedLimit f

/-- The setter of a limit, or one of those that pick the limit in use. -/
inductive Call where
  | setLimit (limit : Limit)
  | setDownloadSpeedLimit
  | setUploadSpeedLimit

def Call.setter (bytes : Int) : Call → Setter
  | .setLimit .globalDownload => .setGlobalDownloadSpeedLimit bytes
  | .setLimit .globalUpload => .setGlobalUploadSpeedLimit bytes
  | .setLimit .altGlobalDownload => .setAltGlobalDownloadSpeedLimit bytes
  | .setLimit .altGlobalUpload => .setAltGlobalUploadSpeedLimit bytes
  | .setDownloadSpeedLimit => .setDownloadSpeedLimit bytes
  | .setUploadSpeedLimit => .setUploadSpeedLimit bytes

def Call.target (f : Fields) : Call → Limit
  | .setLimit limit => limit
  | .setDownloadSpeedLimit =>
    if f.isAltGlobalSpeedLimitEnabled then .altGlobalDownload else .globalDownload
  | .setUploadSpeedLimit =>
    if f.isAltGlobalSpeedLimitEnabled then .altGlobalUpload else .globalUpload

def rounded (bytes : Int) : Int := max (bytes.tdiv 1024) 0

def IntLimit : Act → Prop
  | .set (.setGlobalDownloadSpeedLimit bytes) => Fits 31 bytes
  | .set (.setGlobalUploadSpeedLimit bytes) => Fits 31 bytes
  | .set (.setAltGlobalDownloadSpeedLimit bytes) => Fits 31 bytes
  | .set (.setAltGlobalUploadSpeedLimit bytes) => Fits 31 bytes
  | .set (.setDownloadSpeedLimit bytes) => Fits 31 bytes
  | .set (.setUploadSpeedLimit bytes) => Fits 31 bytes
  | _ => True

def limiting (host : Host) : System ConfiguredSession Act where
  start := (configuring host).start
  step w act t := (configuring host).step w act t ∧ IntLimit act

/-- The target reads the rounded limit, nothing else reads otherwise than before, and no product
    of a limit leaves int. -/
structure ReadsBack (w t : ConfiguredSession) (call : Call) (bytes : Int) : Prop where
  matching : getter t.fields (call.target w.fields) = 1024 * max 0 (bytes.tdiv 1024)
  others : ∀ other, other ≠ call.target w.fields → getter t.fields other = getter w.fields other
  download : call = .setDownloadSpeedLimit →
    downloadSpeedLimit t.fields = 1024 * max 0 (bytes.tdiv 1024)
  upload : call = .setUploadSpeedLimit →
    uploadSpeedLimit t.fields = 1024 * max 0 (bytes.tdiv 1024)
  before_fits : ∀ limit, Fits 31 (stored w.fields limit * 1024)
  fits : ∀ limit, Fits 31 (stored t.fields limit * 1024)

variable {host : Host} {w t : ConfiguredSession}

theorem getter_eq (f : Fields) (limit : Limit) : getter f limit = stored f limit * 1024 := by
  cases limit <;> rfl

def put (f : Fields) (n : Int) : Limit → Fields
  | .globalDownload => { f with globalDownloadSpeedLimit := n }
  | .globalUpload => { f with globalUploadSpeedLimit := n }
  | .altGlobalDownload => { f with altGlobalDownloadSpeedLimit := n }
  | .altGlobalUpload => { f with altGlobalUploadSpeedLimit := n }

theorem stored_put (f : Fields) (n : Int) (limit other : Limit) :
    stored (put f n limit) other = if other = limit then n else stored f other := by
  cases limit <;> cases other <;> rfl

theorem put_mode (f : Fields) (n : Int) (limit : Limit) :
    (put f n limit).isAltGlobalSpeedLimitEnabled = f.isAltGlobalSpeedLimitEnabled := by
  cases limit <;> rfl

theorem setSpeedLimit_fields (bytes current : Int) (applies : Bool)
    (change : Int → Fields → Fields) :
    (setSpeedLimit w bytes current applies change).fields =
      if rounded bytes = current then w.fields else change (rounded bytes) w.fields := by
  unfold setSpeedLimit rounded
  dsimp only
  split
  · rfl
  · split <;> rfl

theorem setter_fields (call : Call) (bytes : Int) :
    (applySetter w (call.setter bytes)).fields =
      if rounded bytes = getter w.fields (call.target w.fields) then w.fields
      else put w.fields (rounded bytes) (call.target w.fields) := by
  cases call with
  | setLimit limit => cases limit <;> exact setSpeedLimit_fields _ _ _ _
  | setDownloadSpeedLimit =>
    simp only [Call.setter, applySetter, setDownloadSpeedLimit, Call.target]
    split <;> exact setSpeedLimit_fields _ _ _ _
  | setUploadSpeedLimit =>
    simp only [Call.setter, applySetter, setUploadSpeedLimit, Call.target]
    split <;> exact setSpeedLimit_fields _ _ _ _

/- What is kept in a run. -/

/-- No limit is negative, and none is more than an int can hold in bytes. -/
def Bounded (f : Fields) : Prop := ∀ limit, 0 ≤ stored f limit ∧ stored f limit ≤ 2097151

theorem rounded_bounds {bytes : Int} (int : Fits 31 bytes) :
    0 ≤ rounded bytes ∧ rounded bytes ≤ 2097151 := by
  obtain ⟨low, high⟩ := int
  unfold rounded
  have quotient : bytes.tdiv 1024 ≤ 2097151 := by
    rcases Int.le_total 0 bytes with nonneg | negative
    · rw [Int.tdiv_eq_ediv_of_nonneg nonneg]
      omega
    · have turned : bytes.tdiv 1024 = -((-bytes).tdiv 1024) := by rw [Int.neg_tdiv, Int.neg_neg]
      rw [turned, Int.tdiv_eq_ediv_of_nonneg (by omega)]
      omega
  omega

theorem bounded_put {f : Fields} (bounded : Bounded f) {n : Int} (nonneg : 0 ≤ n)
    (most : n ≤ 2097151) (limit : Limit) : Bounded (put f n limit) := by
  intro other
  rw [stored_put]
  split
  · exact ⟨nonneg, most⟩
  · exact bounded other

theorem bounded_of_same {f f' : Fields} (bounded : Bounded f) (same : stored f' = stored f) :
    Bounded f' := by
  unfold Bounded
  rw [same]
  exact bounded

theorem bounded_call (bounded : Bounded w.fields) (call : Call) {bytes : Int}
    (int : Fits 31 bytes) : Bounded (applySetter w (call.setter bytes)).fields := by
  rw [setter_fields]
  split
  · exact bounded
  · obtain ⟨nonneg, most⟩ := rounded_bounds int
    exact bounded_put bounded nonneg most _

section Setters

variable {α : Type} [DecidableEq α] {current value : α}

theorem setDirectly_stored (same : stored t.fields = stored w.fields) :
    stored (setDirectly w current value t).fields = stored w.fields := by
  unfold setDirectly
  split
  · exact same
  · rfl

theorem setDeferred_stored (same : stored t.fields = stored w.fields) :
    stored (setDeferred w current value t).fields = stored w.fields := by
  unfold setDeferred
  split
  · exact same
  · rfl

theorem setListening_stored (same : stored t.fields = stored w.fields) :
    stored (setListening w current value t).fields = stored w.fields := by
  unfold setListening
  split
  · exact same
  · rfl

end Setters

theorem setBTProtocol_stored (w : ConfiguredSession) (protocol : Int) :
    stored (setBTProtocol w protocol).fields = stored w.fields := by
  unfold setBTProtocol
  dsimp only
  split
  · exact setDeferred_stored rfl
  · split
    · exact setDeferred_stored rfl
    · split
      · exact setDeferred_stored rfl
      · rfl

theorem setAltGlobalSpeedLimitEnabled_stored (w : ConfiguredSession) (enabled : Bool) :
    stored (setAltGlobalSpeedLimitEnabled w enabled).fields = stored w.fields := by
  unfold setAltGlobalSpeedLimitEnabled
  split <;> rfl

theorem bounded_setter (bounded : Bounded w.fields) (setter : Setter)
    (int : IntLimit (.set setter)) : Bounded (applySetter w setter).fields := by
  cases setter with
  | setGlobalDownloadSpeedLimit => exact bounded_call bounded (.setLimit .globalDownload) int
  | setGlobalUploadSpeedLimit => exact bounded_call bounded (.setLimit .globalUpload) int
  | setAltGlobalDownloadSpeedLimit =>
    exact bounded_call bounded (.setLimit .altGlobalDownload) int
  | setAltGlobalUploadSpeedLimit => exact bounded_call bounded (.setLimit .altGlobalUpload) int
  | setDownloadSpeedLimit => exact bounded_call bounded .setDownloadSpeedLimit int
  | setUploadSpeedLimit => exact bounded_call bounded .setUploadSpeedLimit int
  | setBTProtocol protocol => exact bounded_of_same bounded (setBTProtocol_stored w protocol)
  | setAltGlobalSpeedLimitEnabled enabled =>
    exact bounded_of_same bounded (setAltGlobalSpeedLimitEnabled_stored w enabled)
  | setBandwidthSchedulerEnabled => exact bounded
  | _ =>
    apply bounded_of_same bounded
    first
    | exact setDeferred_stored rfl
    | exact setListening_stored rfl
    | exact setDirectly_stored rfl
    | rfl

theorem bounded_step (w : ConfiguredSession) (act : Act) (t : ConfiguredSession)
    (bounded : Bounded w.fields) (taken : (limiting host).step w act t) : Bounded t.fields := by
  obtain ⟨⟨_, rfl⟩, int⟩ := taken
  cases act with
  | set setter => exact bounded_setter bounded setter int
  | _ => exact bounded

theorem bounded_reachable (reach : Reachable (limiting host) w) : Bounded w.fields := by
  have initially : ∀ w, (limiting host).start w → Bounded w.fields := by
    rintro _ ⟨defaults, rfl⟩
    have start : Bounded initialFields := by
      intro limit
      cases limit <;> decide
    exact start
  exact reachable_invariant initially bounded_step reach

theorem product_fits {f : Fields} (bounded : Bounded f) (limit : Limit) :
    Fits 31 (stored f limit * 1024) := by
  have := bounded limit
  unfold Fits
  omega

/- Reading back. -/

def Noticed (f : Fields) (call : Call) (bytes : Int) : Prop :=
  max 0 (bytes.tdiv 1024) = getter f (call.target f) → getter f (call.target f) = 0

theorem target_getter (f : Fields) :
    downloadSpeedLimit f = getter f (Call.setDownloadSpeedLimit.target f) ∧
      uploadSpeedLimit f = getter f (Call.setUploadSpeedLimit.target f) := by
  simp only [downloadSpeedLimit, uploadSpeedLimit, Call.target]
  cases f.isAltGlobalSpeedLimitEnabled <;> exact ⟨rfl, rfl⟩

/-- A call reads back exactly if it is noticed. -/
theorem reads_back_iff (reach : Reachable (limiting host) w) (call : Call) {bytes : Int}
    (int : Fits 31 bytes) :
    ReadsBack w (applySetter w (call.setter bytes)) call bytes ↔ Noticed w.fields call bytes := by
  have bounded := bounded_reachable reach
  have fields := setter_fields (w := w) call bytes
  have swap : rounded bytes = max 0 (bytes.tdiv 1024) := Int.max_comm _ _
  rw [swap] at fields
  have matching : getter (applySetter w (call.setter bytes)).fields (call.target w.fields) =
      1024 * max 0 (bytes.tdiv 1024) ↔ Noticed w.fields call bytes := by
    rw [fields]
    unfold Noticed
    split
    · rename_i taken
      omega
    · rename_i differs
      rw [getter_eq, stored_put, if_pos rfl]
      refine iff_of_true (Int.mul_comm _ _) fun same => absurd same differs
  constructor
  · intro reads
    exact matching.mp reads.matching
  · intro noticed
    have target : call.target (applySetter w (call.setter bytes)).fields =
        call.target w.fields := by
      have mode : (applySetter w (call.setter bytes)).fields.isAltGlobalSpeedLimitEnabled =
          w.fields.isAltGlobalSpeedLimitEnabled := by
        rw [fields]
        split
        · rfl
        · exact put_mode _ _ _
      cases call <;> simp only [Call.target, mode]
    constructor
    · exact matching.mpr noticed
    · intro other apart
      rw [fields]
      split
      · rfl
      · rw [getter_eq, getter_eq, stored_put, if_neg apart]
    · rintro rfl
      rw [(target_getter _).1, target]
      exact matching.mpr noticed
    · rintro rfl
      rw [(target_getter _).2, target]
      exact matching.mpr noticed
    · exact product_fits bounded
    · exact product_fits (bounded_call bounded call int)

/-- One MiB per second is noticed while there is no limit. -/
theorem first_limit_reads_back : ReadsBack freshSession
    (applySetter freshSession (.setGlobalDownloadSpeedLimit 1048576))
    (.setLimit .globalDownload) 1048576 :=
  (reads_back_iff (.start freshSession_start) (.setLimit .globalDownload) (by decide)).mpr
    (by unfold Noticed; decide)

/-- The alternative limit of 10 KiB per second stays when 10 MiB are asked for. -/
theorem alternative_limit_stays :
    ¬ ∀ (w : ConfiguredSession) (call : Call) (bytes : Int),
      Reachable (limiting offlineHost) w → Fits 31 bytes →
      ReadsBack w (applySetter w (call.setter bytes)) call bytes := by
  intro always
  have reads := (always freshSession (.setLimit .altGlobalDownload) 10485760
    (.start freshSession_start) (by decide)).matching
  revert reads
  decide

end SpeedLimits
