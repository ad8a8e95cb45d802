import Mathlib.Algebra.Order.Ring.Int
import Mathlib.Data.List.Infix
import QtPlayer.Library.OrderedMap
import QtPlayer.Library.TransitionRuns

/- TrackModel.cpp with what it announces to its views, and what QmlPlayer.cpp puts into its three
   track models of that which Audio.cpp and Video.cpp pass on from libvlc. -/
namespace TrackModel
open OrderedMap TransitionRuns

abbrev Tracks := OrdMap Int String

abbrev Rows := List (Int × String)

inductive Change where
  | inserted
  | removed
  deriving DecidableEq

/-- The rows named to beginInsertRows or beginRemoveRows, with those the model had then and those
    it had at endInsertRows or endRemoveRows. -/
structure Announcement where
  change : Change
  first : Nat
  last : Nat
  before : Rows
  after : Rows

/-- New rows stand from first to last in the end, removed ones stood there at first; all others
    stay as they were. -/
def Truthful (a : Announcement) : Prop :=
  match a.change with
  | .inserted => a.last < a.after.length ∧
    a.after.take a.first ++ a.after.drop (a.last + 1) = a.before
  | .removed => a.last < a.before.length ∧
    a.before.take a.first ++ a.before.drop (a.last + 1) = a.after

structure VlcTrackModel where
  tracks : Tracks
  announced : List Announcement

def VlcTrackModel.first : VlcTrackModel := ⟨.empty, []⟩

def rowCount (m : VlcTrackModel) : Nat := m.tracks.entries.length

def data (m : VlcTrackModel) (row : Nat) : Option (Int × String) := m.tracks.entries[row]?

def rows (m : VlcTrackModel) : Rows := (List.range (rowCount m)).filterMap (data m)

def clear (m : VlcTrackModel) : VlcTrackModel :=
  if rowCount m = 0 then m
  else
    { tracks := .empty
      announced := m.announced ++ [⟨.removed, 0, rowCount m - 1, rows m, []⟩] }

def insert (m : VlcTrackModel) (id : Int) (title : String) : VlcTrackModel :=
  let m' := { m with tracks := m.tracks.insert id title }
  { m' with
    announced := m.announced ++ [⟨.inserted, rowCount m, rowCount m, rows m, rows m'⟩] }

def load (m : VlcTrackModel) (tracks : Tracks) : VlcTrackModel :=
  tracks.entries.foldl (fun m (e : Int × String) => insert m e.1 e.2) m

def AllTruthful (m : VlcTrackModel) : Prop := ∀ a ∈ m.announced, Truthful a

inductive Call where
  | clear
  | insert (id : Int) (title : String)

def call (m : VlcTrackModel) : Call → VlcTrackModel
  | .clear => clear m
  | .insert id title => insert m id title

def calls : System VlcTrackModel Call where
  start m := m = .first
  step m c m' := m' = call m c

def Appends (m : VlcTrackModel) : Call → Prop
  | .clear => True
  | .insert id _ => ∀ e ∈ m.tracks.entries, e.1 < id

theorem rows_eq (m : VlcTrackModel) : rows m = m.tracks.entries := by
  have all : ∀ entries : Rows,
      (List.range entries.length).filterMap (fun row => entries[row]?) = entries := by
    intro entries
    induction entries with
    | nil => rfl
    | cons e rest ih =>
      rw [List.length_cons, List.range_succ_eq_map, List.filterMap_cons_some (by rfl),
        List.filterMap_map]
      exact congrArg _ ih
  exact all m.tracks.entries

theorem allTruthful_snoc {announced : List Announcement} {a : Announcement} {tracks : Tracks}
    {m : VlcTrackModel} (grown : m = ⟨tracks, announced ++ [a]⟩) :
    AllTruthful m ↔ (∀ b ∈ announced, Truthful b) ∧ Truthful a := by
  simp only [grown, AllTruthful, List.mem_append, List.mem_singleton, or_imp, forall_and,
    forall_eq]

theorem clear_truthful (m : VlcTrackModel) :
    (AllTruthful (clear m) ↔ AllTruthful m) ∧ (clear m).tracks = .empty := by
  unfold clear
  split
  · rename_i none
    refine ⟨Iff.rfl, ?_⟩
    obtain ⟨⟨entries, ascending⟩, announced⟩ := m
    cases entries with
    | nil => rfl
    | cons e rest => cases none
  · rename_i some
    refine ⟨(allTruthful_snoc rfl).trans (and_iff_left ?_), rfl⟩
    have inside : 0 < rowCount m := Nat.pos_of_ne_zero some
    simp only [Truthful, rows_eq, List.take_zero, List.nil_append]
    have size : m.tracks.entries.length = rowCount m := rfl
    exact ⟨by omega, List.drop_eq_nil_of_le (by omega)⟩

theorem insert_truthful_iff (m : VlcTrackModel) (id : Int) (title : String) :
    AllTruthful (insert m id title) ↔
      AllTruthful m ∧ ∀ e ∈ m.tracks.entries, e.1 < id := by
  rw [allTruthful_snoc (m := insert m id title) rfl]
  apply and_congr_right
  intro _
  have entries : (m.tracks.insert id title).entries = insertEntry id title m.tracks.entries := rfl
  simp only [Truthful, rows_eq, rowCount, entries]
  constructor
  · rintro ⟨inside, same⟩
    have lengths := congrArg List.length same
    rw [List.length_append, List.length_take, List.length_drop] at lengths
    have end_ : (insertEntry id title m.tracks.entries).drop (m.tracks.entries.length + 1) = [] :=
      List.drop_eq_nil_of_le (by omega)
    rw [end_, List.append_nil] at same
    have last := List.take_append_getElem inside
    rw [List.take_of_length_le (show (insertEntry id title m.tracks.entries).length ≤
      m.tracks.entries.length + 1 by omega), same] at last
    exact (insertEntry_append_iff.mp last.symm).2
  · intro above
    rw [insertEntry_append_iff.mpr ⟨rfl, above⟩]
    simp

/-- All the model announces is true exactly if no track is inserted that is not the last. -/
theorem rows_announced_iff {m : VlcTrackModel} {steps : List (VlcTrackModel × Call)}
    (run : Run calls .first steps m) : AllTruthful m ↔ EveryStep Appends steps := by
  induction run with
  | nil => simp [AllTruthful, VlcTrackModel.first, EveryStep]
  | @snoc m m' c steps run taken ih =>
    obtain rfl : m' = call m c := taken
    rw [everyStep_snoc, ← ih]
    cases c with
    | clear => exact (clear_truthful m).1.trans (and_iff_left trivial).symm
    | insert id title => exact insert_truthful_iff m id title

theorem called (m : VlcTrackModel) (c : Call) : calls.step m c (call m c) := rfl

theorem inserted_between_untrue : ∃ steps m, Run calls .first steps m ∧
    m.tracks.entries = [(1, "English"), (2, "Deutsch"), (3, "Suomi")] ∧ ¬ AllTruthful m := by
  have run := run_cons (called .first (.insert 1 "English"))
    (run_cons (called _ (.insert 3 "Suomi")) (run_cons (called _ (.insert 2 "Deutsch")) (.nil _)))
  refine ⟨_, _, run, rfl, ?_⟩
  rw [rows_announced_iff run]
  intro appends
  have last := appends _ (List.mem_of_getLast? rfl) (3, "Suomi") (List.mem_of_getLast? rfl)
  exact absurd last (by decide)

theorem load_truthful (tracks : Tracks) {m : VlcTrackModel} (truthful : AllTruthful m)
    (none : m.tracks = .empty) : AllTruthful (load m tracks) ∧ (load m tracks).tracks = tracks := by
  have loaded : ∀ (rest : Rows) (m : VlcTrackModel), AllTruthful m →
      (m.tracks.entries ++ rest).Pairwise (·.1 < ·.1) →
      AllTruthful (rest.foldl (fun m (e : Int × String) => insert m e.1 e.2) m) ∧
        (rest.foldl (fun m (e : Int × String) => insert m e.1 e.2) m).tracks.entries =
          m.tracks.entries ++ rest := by
    intro rest
    induction rest with
    | nil => exact fun m truthful _ => ⟨truthful, by simp⟩
    | cons e rest ih =>
      intro m truthful ascending
      have above : ∀ f ∈ m.tracks.entries, f.1 < e.1 := fun f mem =>
        (List.pairwise_append.mp ascending).2.2 f mem e (by simp)
      have grown : (insert m e.1 e.2).tracks.entries = m.tracks.entries ++ [e] :=
        insertEntry_append_iff.mpr ⟨rfl, above⟩
      have next := ih (insert m e.1 e.2) ((insert_truthful_iff m e.1 e.2).mpr ⟨truthful, above⟩)
        (by rw [grown]; simpa using ascending)
      rw [grown, List.append_assoc] at next
      exact next
  have empty : m.tracks.entries = [] := by rw [none, OrdMap.empty]
  obtain ⟨told, entries⟩ := loaded tracks.entries m truthful (by rw [empty]; exact tracks.ascending)
  refine ⟨told, ?_⟩
  rw [empty, List.nil_append] at entries
  exact ordMap_ext entries

/- What libvlc tells, as Audio.cpp and Video.cpp pass it on. -/

/-- The descriptions of one kind of track, how many libvlc says there are, and the id of the
    track that is played. -/
structure Described where
  descriptions : List (Int × String)
  count : Int
  current : Int

structure Libvlc where
  hasVout : Bool
  audio : Described
  spu : Described
  video : Described

/-- libvlc counts the descriptions it gives, if it gives any. -/
def Described.Counted (d : Described) : Prop :=
  d.descriptions ≠ [] → d.count = d.descriptions.length

def Libvlc.Counted (v : Libvlc) : Prop := v.audio.Counted ∧ v.spu.Counted ∧ v.video.Counted

/-- The loop along p_next; none is a step past the end. -/
def walk : Nat → List (Int × String) → Tracks → Option Tracks
  | 0, _, tracks => some tracks
  | _ + 1, [], _ => none
  | n + 1, desc :: rest, tracks => walk n rest (tracks.insert desc.1 desc.2)

def collect (descriptions : List (Int × String)) (count : Int) : Option Tracks :=
  match descriptions with
  | [] => some .empty
  | desc :: rest =>
    let tracks := OrdMap.empty.insert desc.1 desc.2
    if count > 1 then walk (count - 1).toNat rest tracks else some tracks

def audioTracks (v : Libvlc) : Option Tracks := collect v.audio.descriptions v.audio.count

def videoTracks (v : Libvlc) : Option Tracks := collect v.video.descriptions v.video.count

def subtitleCount (v : Libvlc) : Int := if v.hasVout then v.spu.count else -1

def subtitles (v : Libvlc) : Option Tracks := collect v.spu.descriptions (subtitleCount v)

def subtitle (v : Libvlc) : Int := if v.hasVout then v.spu.current else -1

def described (descriptions : List (Int × String)) : Tracks :=
  descriptions.foldl (fun tracks desc => tracks.insert desc.1 desc.2) .empty

theorem walk_eq (rest : List (Int × String)) (tracks : Tracks) : walk rest.length rest tracks =
    some (rest.foldl (fun tracks desc => tracks.insert desc.1 desc.2) tracks) := by
  induction rest generalizing tracks with
  | nil => rfl
  | cons desc rest ih => exact ih _

theorem collect_counted {d : Described} (counted : d.Counted) :
    collect d.descriptions d.count = some (described d.descriptions) := by
  cases listed : d.descriptions with
  | nil => rfl
  | cons desc rest =>
    have count : d.count = rest.length + 1 := by
      rw [counted (by simp [listed]), listed, List.length_cons]
      rfl
    have size : (d.count - 1).toNat = rest.length := by omega
    simp only [collect, size, walk_eq]
    split
    · rfl
    · rename_i alone
      have none : rest = [] := List.length_eq_zero_iff.mp (by omega)
      rw [none]
      rfl

theorem subtitles_eq {v : Libvlc} (counted : v.spu.Counted) : subtitles v =
    some (described (if v.hasVout then v.spu.descriptions else v.spu.descriptions.take 1)) := by
  unfold subtitles subtitleCount
  split
  · exact collect_counted counted
  · cases v.spu.descriptions with
    | nil => rfl
    | cons desc rest => rfl

theorem mem_described {descriptions : List (Int × String)} {e : Int × String}
    (mem : e ∈ (described descriptions).entries) : e ∈ descriptions := by
  have all : ∀ (rest : List (Int × String)) (tracks : Tracks),
      e ∈ (rest.foldl (fun tracks desc => tracks.insert desc.1 desc.2) tracks).entries →
        e ∈ tracks.entries ∨ e ∈ rest := by
    intro rest
    induction rest with
    | nil => exact fun _ mem => Or.inl mem
    | cons desc rest ih =>
      intro tracks mem
      rcases ih _ mem with old | later
      · rcases mem_insertEntry old with rfl | old
        · exact Or.inr (List.mem_cons_self ..)
        · exact Or.inl old
      · exact Or.inr (List.mem_cons_of_mem _ later)
  exact (all descriptions .empty mem).resolve_left (by simp [OrdMap.empty])

/- QmlPlayer.cpp. -/

def contains (title language : String) : Bool := decide (language.toList <:+: title.toList)

def look (language : String) (s : Int × Bool) (e : Int × String) : Int × Bool :=
  if !s.2 && contains e.2 language then (e.1, true) else s

def preferredTrackId (m : VlcTrackModel) (languages : List String) (currentTrackId : Int) : Int :=
  (languages.foldl (fun s language => (rows m).foldl (look language) s) (currentTrackId, false)).1

inductive Signal where
  | audioTrackChanged
  | subtitleTrackChanged
  | videoTrackChanged
  | audioPreferredLanguagesChanged
  | subtitlePreferredLanguagesChanged
  deriving DecidableEq

structure VlcQmlPlayer where
  vlc : Libvlc
  audioTrackModel : VlcTrackModel
  subtitleTrackModel : VlcTrackModel
  videoTrackModel : VlcTrackModel
  audioPreferredLanguages : List String
  subtitlePreferredLanguages : List String
  signals : List Signal

def audioTrack (p : VlcQmlPlayer) : Int := p.vlc.audio.current

def subtitleTrack (p : VlcQmlPlayer) : Int := subtitle p.vlc

def videoTrack (p : VlcQmlPlayer) : Int := p.vlc.video.current

section Selecting

-- The track that libvlc plays after it was told to play one.
variable (set_track : Described → Int → Int)

/-- libvlc plays the track it is told to, if it has described it. -/
def Selects : Prop := ∀ d id title, (id, title) ∈ d.descriptions → set_track d id = id

def Described.select (d : Described) (id : Int) : Described := { d with current := set_track d id }

def setAudioTrack (p : VlcQmlPlayer) (track : Int) : VlcQmlPlayer :=
  if track = audioTrack p then p
  else { p with
    vlc := { p.vlc with audio := p.vlc.audio.select set_track track }
    signals := p.signals ++ [.audioTrackChanged] }

def setSubtitle (v : Libvlc) (subtitle : Int) : Libvlc :=
  if v.hasVout then { v with spu := v.spu.select set_track subtitle } else v

def setSubtitleTrack (p : VlcQmlPlayer) (track : Int) : VlcQmlPlayer :=
  if track = subtitleTrack p then p
  else { p with
    vlc := setSubtitle set_track p.vlc track
    signals := p.signals ++ [.subtitleTrackChanged] }

def setVideoTrack (p : VlcQmlPlayer) (track : Int) : VlcQmlPlayer :=
  if track = videoTrack p then p
  else { p with
    vlc := { p.vlc with video := p.vlc.video.select set_track track }
    signals := p.signals ++ [.videoTrackChanged] }

def setAudioPreferredLanguages (p : VlcQmlPlayer) (languages : List String) : VlcQmlPlayer :=
  if p.audioPreferredLanguages = languages then p
  else { p with
    audioPreferredLanguages := languages
    signals := p.signals ++ [.audioPreferredLanguagesChanged] }

def setSubtitlePreferredLanguages (p : VlcQmlPlayer) (languages : List String) : VlcQmlPlayer :=
  if p.subtitlePreferredLanguages = languages then p
  else { p with
    subtitlePreferredLanguages := languages
    signals := p.signals ++ [.subtitlePreferredLanguagesChanged] }

def preferredAudioTrackId (p : VlcQmlPlayer) : Int :=
  if rowCount p.audioTrackModel ≠ 0 ∧ p.audioPreferredLanguages ≠ [] then
    preferredTrackId p.audioTrackModel p.audioPreferredLanguages (audioTrack p)
  else audioTrack p

def preferredSubtitleTrackId (p : VlcQmlPlayer) : Int :=
  if rowCount p.subtitleTrackModel ≠ 0 then
    preferredTrackId p.subtitleTrackModel p.subtitlePreferredLanguages (subtitleTrack p)
  else subtitleTrack p

def mediaParsed (p : VlcQmlPlayer) (parsed : Bool) : Option VlcQmlPlayer :=
  if parsed then do
    let p := { p with audioTrackModel := clear p.audioTrackModel }
    let tracks ← audioTracks p.vlc
    let p := { p with audioTrackModel := load p.audioTrackModel tracks }
    return setAudioTrack set_track p (preferredAudioTrackId p)
  else return p

def mediaPlayerVout (p : VlcQmlPlayer) : Option VlcQmlPlayer := do
  let p := { p with subtitleTrackModel := clear p.subtitleTrackModel }
  let tracks ← subtitles p.vlc
  let p := { p with subtitleTrackModel := load p.subtitleTrackModel tracks }
  let p := setSubtitleTrack set_track p (preferredSubtitleTrackId p)
  let p := { p with videoTrackModel := clear p.videoTrackModel }
  let tracks ← videoTracks p.vlc
  let p := { p with videoTrackModel := load p.videoTrackModel tracks }
  return setVideoTrack set_track p (videoTrack p)

inductive Action where
  | mediaParsed (parsed : Bool)
  | mediaPlayerVout
  | setAudioTrack (track : Int)
  | setSubtitleTrack (track : Int)
  | setVideoTrack (track : Int)
  | setAudioPreferredLanguages (languages : List String)
  | setSubtitlePreferredLanguages (languages : List String)
  | libvlc (vlc : Libvlc)

def perform (p : VlcQmlPlayer) : Action → Option VlcQmlPlayer
  | .mediaParsed parsed => mediaParsed set_track p parsed
  | .mediaPlayerVout => mediaPlayerVout set_track p
  | .setAudioTrack track => some (setAudioTrack set_track p track)
  | .setSubtitleTrack track => some (setSubtitleTrack set_track p track)
  | .setVideoTrack track => some (setVideoTrack set_track p track)
  | .setAudioPreferredLanguages languages => some (setAudioPreferredLanguages p languages)
  | .setSubtitlePreferredLanguages languages => some (setSubtitlePreferredLanguages p languages)
  | .libvlc vlc => some { p with vlc }

def VlcQmlPlayer.first (vlc : Libvlc) : VlcQmlPlayer := ⟨vlc, .first, .first, .first, [], [], []⟩

def plays : System VlcQmlPlayer Action where
  start p := ∃ vlc : Libvlc, vlc.Counted ∧ p = .first vlc
  step p action p' := (∀ vlc, action = .libvlc vlc → vlc.Counted) ∧
    perform set_track p action = some p'

end Selecting

/-- The first track, by its id, with the first language that any track has. -/
def preferred (tracks : Tracks) (languages : List String) : Option Int :=
  languages.findSome? fun language =>
    (tracks.entries.find? fun e => contains e.2 language).map (·.1)

theorem look_found (language : String) (entries : List (Int × String)) (id : Int) :
    entries.foldl (look language) (id, true) = (id, true) := by
  induction entries with
  | nil => rfl
  | cons e rest ih => simpa [look] using ih

theorem look_all (language : String) (entries : List (Int × String)) (id : Int) :
    entries.foldl (look language) (id, false) =
      ((entries.find? fun e => contains e.2 language).elim (id, false) fun e => (e.1, true)) := by
  induction entries with
  | nil => rfl
  | cons e rest ih =>
    rw [List.foldl_cons, List.find?_cons]
    cases has : contains e.2 language with
    | true =>
      have now : look language (id, false) e = (e.1, true) := by simp [look, has]
      rw [now, look_found]
      rfl
    | false =>
      have now : look language (id, false) e = (id, false) := by simp [look, has]
      rw [now, ih]

theorem preferredTrackId_eq (m : VlcTrackModel) (languages : List String) (current : Int) :
    preferredTrackId m languages current = (preferred m.tracks languages).getD current := by
  have stays : ∀ (rest : List String) (id : Int),
      rest.foldl (fun s language => m.tracks.entries.foldl (look language) s) (id, true) =
        (id, true) := by
    intro rest id
    induction rest with
    | nil => rfl
    | cons language rest ih => rw [List.foldl_cons, look_found, ih]
  simp only [preferredTrackId, preferred, rows_eq]
  induction languages with
  | nil => rfl
  | cons language rest ih =>
    rw [List.foldl_cons, look_all, List.findSome?_cons]
    cases m.tracks.entries.find? fun e => contains e.2 language with
    | none => exact ih
    | some e =>
      rw [Option.elim_some, stays]
      rfl

theorem preferred_listed {tracks : Tracks} {languages : List String} {id : Int}
    (found : preferred tracks languages = some id) : ∃ title, (id, title) ∈ tracks.entries := by
  obtain ⟨language, _, first⟩ := List.exists_of_findSome?_eq_some found
  obtain ⟨e, here, rfl⟩ := Option.map_eq_some_iff.mp first
  exact ⟨e.2, List.mem_of_find?_eq_some here⟩

theorem preferredAudioTrackId_eq (p : VlcQmlPlayer) : preferredAudioTrackId p =
    (preferred p.audioTrackModel.tracks p.audioPreferredLanguages).getD (audioTrack p) := by
  rw [preferredAudioTrackId]
  split
  · exact preferredTrackId_eq _ _ _
  · rename_i unable
    rw [← preferredTrackId_eq, preferredTrackId, rows_eq]
    by_cases none : rowCount p.audioTrackModel = 0
    · have empty : p.audioTrackModel.tracks.entries = [] := List.eq_nil_of_length_eq_zero none
      simp [empty]
    · have silent : p.audioPreferredLanguages = [] := by
        by_contra some
        exact unable ⟨none, some⟩
      simp [silent]

theorem preferredSubtitleTrackId_eq (p : VlcQmlPlayer) : preferredSubtitleTrackId p =
    (preferred p.subtitleTrackModel.tracks p.subtitlePreferredLanguages).getD
      (subtitleTrack p) := by
  rw [preferredSubtitleTrackId]
  split
  · exact preferredTrackId_eq _ _ _
  · rename_i none
    have empty : p.subtitleTrackModel.tracks.entries = [] :=
      List.eq_nil_of_length_eq_zero (Classical.not_not.mp none)
    rw [← preferredTrackId_eq, preferredTrackId, rows_eq]
    simp [empty]

theorem reload_truthful (tracks : Tracks) {m : VlcTrackModel} (truthful : AllTruthful m) :
    AllTruthful (load (clear m) tracks) ∧ (load (clear m) tracks).tracks = tracks :=
  load_truthful tracks ((clear_truthful m).1.mpr truthful) (clear_truthful m).2

structure Sound (p : VlcQmlPlayer) : Prop where
  counted : p.vlc.Counted
  audio : AllTruthful p.audioTrackModel
  subtitle : AllTruthful p.subtitleTrackModel
  video : AllTruthful p.videoTrackModel

variable (set_track : Described → Int → Int) {p q : VlcQmlPlayer}

theorem mediaParsed_eq (sound : Sound p) : ∃ listed q,
    listed = described p.vlc.audio.descriptions ∧
    q = { p with audioTrackModel := load (clear p.audioTrackModel) listed } ∧
    mediaParsed set_track p true = some (setAudioTrack set_track q
      ((preferred listed p.audioPreferredLanguages).getD (audioTrack p))) := by
  refine ⟨_, _, rfl, rfl, ?_⟩
  have tracks : audioTracks p.vlc = _ := collect_counted sound.counted.1
  simp only [mediaParsed, if_true, tracks, Option.bind_eq_bind, Option.bind_some, Option.pure_def,
    preferredAudioTrackId_eq, (reload_truthful _ sound.audio).2]
  rfl

theorem setSubtitleTrack_rest {track : Int}
    (chosen : setSubtitleTrack set_track p track = q) :
    q.subtitleTrackModel = p.subtitleTrackModel ∧ q.audioTrackModel = p.audioTrackModel ∧
      q.videoTrackModel = p.videoTrackModel ∧ q.vlc.video = p.vlc.video ∧
      (p.vlc.Counted → q.vlc.Counted) ∧ (p.vlc.hasVout = false → q.vlc = p.vlc) := by
  subst chosen
  unfold setSubtitleTrack setSubtitle
  split
  · exact ⟨rfl, rfl, rfl, rfl, id, fun _ => rfl⟩
  · refine ⟨rfl, rfl, rfl, ?_⟩
    split
    · rename_i vout
      exact ⟨rfl, id, fun none => absurd vout (by simp [none])⟩
    · exact ⟨rfl, id, fun _ => rfl⟩

/-- The subtitles are loaded and selected first, then the tracks of the video. -/
theorem mediaPlayerVout_eq (sound : Sound p) : ∃ listed q, listed = described
      (if p.vlc.hasVout then p.vlc.spu.descriptions else p.vlc.spu.descriptions.take 1) ∧
    setSubtitleTrack set_track
      { p with subtitleTrackModel := load (clear p.subtitleTrackModel) listed }
      ((preferred listed p.subtitlePreferredLanguages).getD (subtitleTrack p)) = q ∧
    mediaPlayerVout set_track p = some { q with
      videoTrackModel := load (clear p.videoTrackModel) (described p.vlc.video.descriptions) } := by
  refine ⟨_, _, rfl, rfl, ?_⟩
  simp only [mediaPlayerVout, subtitles_eq sound.counted.2.1, Option.bind_eq_bind,
    Option.bind_some, Option.pure_def, preferredSubtitleTrackId_eq,
    (reload_truthful _ sound.subtitle).2]
  generalize chosen : setSubtitleTrack set_track _ _ = q
  obtain ⟨_, _, model, video, _, _⟩ := setSubtitleTrack_rest set_track chosen
  have tracks : videoTracks q.vlc = some (described p.vlc.video.descriptions) := by
    rw [videoTracks, video]
    exact collect_counted sound.counted.2.2
  rw [tracks, Option.bind_some, model, setVideoTrack, if_pos rfl]
  subst chosen
  rfl

theorem perform_sound (sound : Sound p) {action : Action}
    (counted : ∀ vlc, action = .libvlc vlc → vlc.Counted)
    (performed : perform set_track p action = some q) : Sound q := by
  obtain ⟨⟨audioCounted, spuCounted, videoCounted⟩, audio, subtitle, video⟩ := id sound
  cases action with
  | mediaParsed parsed =>
    cases parsed with
    | false =>
      obtain rfl := Option.some.inj performed
      exact sound
    | true =>
      obtain ⟨listed, q, _, rfl, parsed⟩ := mediaParsed_eq set_track sound
      obtain rfl := Option.some.inj (parsed.symm.trans performed)
      unfold setAudioTrack
      split <;> exact ⟨⟨audioCounted, spuCounted, videoCounted⟩,
        (reload_truthful listed audio).1, subtitle, video⟩
  | mediaPlayerVout =>
    obtain ⟨listed, q, _, chosen, shown⟩ := mediaPlayerVout_eq set_track sound
    obtain rfl := Option.some.inj (shown.symm.trans performed)
    obtain ⟨subtitleModel, audioModel, _, _, counts, _⟩ := setSubtitleTrack_rest set_track chosen
    exact ⟨counts sound.counted, by rw [audioModel]; exact audio,
      by rw [subtitleModel]; exact (reload_truthful listed subtitle).1,
      (reload_truthful _ video).1⟩
  | setSubtitleTrack track =>
    obtain ⟨subtitleModel, audioModel, videoModel, _, counts, _⟩ :=
      setSubtitleTrack_rest set_track (Option.some.inj performed)
    exact ⟨counts sound.counted, by rw [audioModel]; exact audio,
      by rw [subtitleModel]; exact subtitle, by rw [videoModel]; exact video⟩
  | setAudioTrack | setVideoTrack | setAudioPreferredLanguages | setSubtitlePreferredLanguages =>
    obtain rfl := Option.some.inj performed
    simp only [setAudioTrack, setVideoTrack, setAudioPreferredLanguages,
      setSubtitlePreferredLanguages]
    split <;> exact ⟨⟨audioCounted, spuCounted, videoCounted⟩, audio, subtitle, video⟩
  | libvlc vlc =>
    obtain rfl := Option.some.inj performed
    exact ⟨counted vlc rfl, audio, subtitle, video⟩

theorem reachable_sound (reach : Reachable (plays set_track) p) : Sound p := by
  refine reachable_invariant ?_ ?_ reach
  · rintro _ ⟨vlc, counted, rfl⟩
    have none : AllTruthful .first := fun _ mem => absurd mem List.not_mem_nil
    exact ⟨counted, none, none, none⟩
  · rintro p action q sound ⟨counted, performed⟩
    exact perform_sound set_track sound counted performed

theorem preferred_described {descriptions shown : List (Int × String)} (sub : shown ⊆ descriptions)
    (languages : List String) (current : Int) {id : Int}
    (chosen : (preferred (described shown) languages).getD current = id) :
    id = current ∨ ∃ title, (id, title) ∈ descriptions := by
  subst chosen
  cases found : preferred (described shown) languages with
  | none => exact Or.inl rfl
  | some id =>
    obtain ⟨title, listed⟩ := preferred_listed found
    exact Or.inr ⟨title, sub (mem_described listed)⟩

variable {set_track}

theorem selects_audio (selects : Selects set_track) {track : Int}
    (told : track = audioTrack p ∨ ∃ title, (track, title) ∈ p.vlc.audio.descriptions) :
    audioTrack (setAudioTrack set_track p track) = track := by
  unfold setAudioTrack
  split
  · rename_i same
    exact same.symm
  · rename_i other
    obtain ⟨title, listed⟩ := told.resolve_left other
    exact selects _ _ _ listed

theorem selects_subtitle (selects : Selects set_track) {track : Int}
    (chosen : setSubtitleTrack set_track p track = q) (vout : p.vlc.hasVout = true)
    (told : track = subtitleTrack p ∨ ∃ title, (track, title) ∈ p.vlc.spu.descriptions) :
    subtitleTrack q = track := by
  subst chosen
  unfold setSubtitleTrack setSubtitle
  split
  · rename_i same
    exact same.symm
  · rename_i other
    obtain ⟨title, listed⟩ := told.resolve_left other
    simp only [subtitleTrack, subtitle, vout, if_true]
    exact selects _ _ _ listed

structure Parsed (p q : VlcQmlPlayer) : Prop where
  listed : q.audioTrackModel.tracks = described p.vlc.audio.descriptions
  selected : audioTrack q =
    (preferred q.audioTrackModel.tracks p.audioPreferredLanguages).getD (audioTrack p)

/-- What the signal for a video output makes of p; libvlc may have closed it again by then. -/
structure VoutShown (p q : VlcQmlPlayer) : Prop where
  subtitles : q.subtitleTrackModel.tracks = described
    (if p.vlc.hasVout then p.vlc.spu.descriptions else p.vlc.spu.descriptions.take 1)
  selected : p.vlc.hasVout = true → subtitleTrack q =
    (preferred q.subtitleTrackModel.tracks p.subtitlePreferredLanguages).getD (subtitleTrack p)
  unselected : p.vlc.hasVout = false → q.vlc = p.vlc
  tracks : q.videoTrackModel.tracks = described p.vlc.video.descriptions
  video : q.vlc.video = p.vlc.video

theorem mediaParsed_parsed (selects : Selects set_track) (sound : Sound p) :
    ∃ q, mediaParsed set_track p true = some q ∧ Parsed p q := by
  obtain ⟨listed, q, rfl, rfl, parsed⟩ := mediaParsed_eq set_track sound
  have loaded := (reload_truthful (described p.vlc.audio.descriptions) sound.audio).2
  refine ⟨_, parsed, ?_, ?_⟩
  · unfold setAudioTrack
    split <;> exact loaded
  · rw [selects_audio selects]
    · unfold setAudioTrack
      split <;> rw [loaded]
    · exact preferred_described (List.Subset.refl _) p.audioPreferredLanguages (audioTrack p) rfl

theorem mediaPlayerVout_shown (selects : Selects set_track) (sound : Sound p) :
    ∃ q, mediaPlayerVout set_track p = some q ∧ VoutShown p q := by
  obtain ⟨listed, q, rfl, chosen, shown⟩ := mediaPlayerVout_eq set_track sound
  obtain ⟨subtitleModel, _, _, video, _, untold⟩ := setSubtitleTrack_rest set_track chosen
  have loaded := (reload_truthful (described (if p.vlc.hasVout then p.vlc.spu.descriptions
    else p.vlc.spu.descriptions.take 1)) sound.subtitle).2
  refine ⟨_, shown, (congrArg _ subtitleModel).trans loaded, fun vout => ?_, untold,
    (reload_truthful _ sound.video).2, video⟩
  have sub : (if p.vlc.hasVout then p.vlc.spu.descriptions
      else p.vlc.spu.descriptions.take 1) ⊆ p.vlc.spu.descriptions := by
    rw [if_pos vout]
    exact List.Subset.refl _
  refine (selects_subtitle selects chosen vout (preferred_described sub _ _ rfl)).trans ?_
  rw [show q.subtitleTrackModel.tracks = _ from (congrArg _ subtitleModel).trans loaded]

/-- In every run the models announce what is true, a parsed medium lists and selects its audio
    tracks, and a new video output lists and selects the subtitles and lists the video tracks. -/
theorem tracks_listed_and_selected (selects : Selects set_track)
    (reach : Reachable (plays set_track) p) :
    AllTruthful p.audioTrackModel ∧ AllTruthful p.subtitleTrackModel ∧
    AllTruthful p.videoTrackModel ∧
    (∃ q, mediaParsed set_track p true = some q ∧ Parsed p q) ∧
    ∃ q, mediaPlayerVout set_track p = some q ∧ VoutShown p q := by
  have sound := reachable_sound set_track reach
  exact ⟨sound.audio, sound.subtitle, sound.video, mediaParsed_parsed selects sound,
    mediaPlayerVout_shown selects sound⟩

def twoLanguages : Libvlc where
  hasVout := false
  audio := ⟨[(-1, "Disable"), (1, "English"), (2, "Stereo - [Deutsch]")], 3, 1⟩
  spu := ⟨[], -1, -1⟩
  video := ⟨[], -1, -1⟩

def obedient (_ : Described) (id : Int) : Int := id

theorem german_selected : ∃ p q, Reachable (plays obedient) p ∧
    mediaParsed obedient p true = some q ∧
    q.audioTrackModel.tracks.entries = twoLanguages.audio.descriptions ∧ audioTrack q = 2 := by
  have start : Reachable (plays obedient) (.first twoLanguages) :=
    .start ⟨twoLanguages, ⟨fun _ => rfl, (absurd rfl ·), (absurd rfl ·)⟩, rfl⟩
  have taken : (plays obedient).step (.first twoLanguages)
      (.setAudioPreferredLanguages ["Deutsch"]) _ :=
    ⟨fun _ libvlc => (nomatch libvlc), rfl⟩
  have asked := Reachable.step start taken
  obtain ⟨_, _, _, ⟨q, parsed, listed, selected⟩, _⟩ :=
    tracks_listed_and_selected (fun _ _ _ _ => rfl) asked
  refine ⟨_, q, asked, parsed, by rw [listed]; rfl, ?_⟩
  rw [selected, listed]
  decide +kernel

end TrackModel
