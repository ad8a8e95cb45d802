import Mathlib.Data.Finset.Image
import QtPlayer.Library.KeyedDifference
import QtPlayer.Library.TransitionRuns

/- torrenthandle.cpp: the trackers and the web seeds of a torrent, and what the session is told
   of their changes. QUrl and libtorrent's lists of trackers are parameters. -/
namespace TorrentSources
open KeyedDifference TransitionRuns

/-- libtorrent::announce_entry, as far as it is looked at here. -/
structure TrackerEntry where
  url : String
  tier : Nat
  deriving DecidableEq

/-- QUrl. What it writes is read as the same URL. -/
structure UrlSyntax (Url : Type) where
  parse : String → Url
  text : Url → String
  parse_text : ∀ url, parse (text url) = url

/-- A new list may come out in another order, and an unknown tracker is put anywhere into it. -/
structure NativeTrackers where
  replace_trackers : List TrackerEntry → List TrackerEntry
  add_tracker : List TrackerEntry → TrackerEntry → List TrackerEntry
  replaced : ∀ trackers, (replace_trackers trackers).Perm trackers
  added : ∀ trackers tracker, (∀ there ∈ trackers, there.url ≠ tracker.url) →
    (add_tracker trackers tracker).Perm (tracker :: trackers)

structure TorrentHandle where
  trackers : List TrackerEntry
  urlSeeds : Finset String

inductive Told (Url : Type) where
  | trackersAdded (trackers : List TrackerEntry)
  | trackersRemoved (trackers : List TrackerEntry)
  | trackersChanged
  | urlSeedsAdded (urlSeeds : List Url)
  | urlSeedsRemoved (urlSeeds : List Url)

def collect {Item : Type} (call : TorrentHandle → Item → TorrentHandle × Bool)
    (torrent : TorrentHandle) : List Item → TorrentHandle × List Item
  | [] => (torrent, [])
  | item :: items =>
    let called := call torrent item
    let rest := collect call called.1 items
    (rest.1, if called.2 then item :: rest.2 else rest.2)

section Calls

variable {Url : Type} [DecidableEq Url] (urls : UrlSyntax Url) (native : NativeTrackers)

def trackerUrl (tracker : TrackerEntry) : Url := urls.parse tracker.url

def addTracker (torrent : TorrentHandle) (tracker : TrackerEntry) : TorrentHandle × Bool :=
  if contains (trackerUrl urls) torrent.trackers tracker then (torrent, false)
  else ({ torrent with trackers := native.add_tracker torrent.trackers tracker }, true)

def addTrackers (torrent : TorrentHandle) (trackers : List TrackerEntry) :
    TorrentHandle × List (Told Url) :=
  let done := collect (addTracker urls native) torrent trackers
  (done.1, if done.2 = [] then [] else [.trackersAdded done.2])

def replaceTrackers (torrent : TorrentHandle) (trackers : List TrackerEntry) :
    TorrentHandle × List (Told Url) :=
  let found := difference (trackerUrl urls) torrent.trackers trackers
  ({ torrent with trackers := native.replace_trackers trackers },
    if found.2 = [] ∧ found.1 = [] then [.trackersChanged]
    else (if found.1 = [] then [] else [.trackersRemoved found.1]) ++
      if found.2 = [] then [] else [.trackersAdded found.2])

def hasSeed (torrent : TorrentHandle) (urlSeed : Url) : Bool :=
  decide (urlSeed ∈ torrent.urlSeeds.image urls.parse)

def addUrlSeed (torrent : TorrentHandle) (urlSeed : Url) : TorrentHandle × Bool :=
  if hasSeed urls torrent urlSeed then (torrent, false)
  else ({ torrent with urlSeeds := insert (urls.text urlSeed) torrent.urlSeeds }, true)

def removeUrlSeed (torrent : TorrentHandle) (urlSeed : Url) : TorrentHandle × Bool :=
  if hasSeed urls torrent urlSeed then
    ({ torrent with urlSeeds := torrent.urlSeeds.erase (urls.text urlSeed) }, true)
  else (torrent, false)

def addUrlSeeds (torrent : TorrentHandle) (urlSeeds : List Url) :
    TorrentHandle × List (Told Url) :=
  let done := collect (addUrlSeed urls) torrent urlSeeds
  (done.1, if done.2 = [] then [] else [.urlSeedsAdded done.2])

def removeUrlSeeds (torrent : TorrentHandle) (urlSeeds : List Url) :
    TorrentHandle × List (Told Url) :=
  let done := collect (removeUrlSeed urls) torrent urlSeeds
  (done.1, if done.2 = [] then [] else [.urlSeedsRemoved done.2])

inductive Call (Url : Type) where
  | addTrackers (trackers : List TrackerEntry)
  | replaceTrackers (trackers : List TrackerEntry)
  | addUrlSeeds (urlSeeds : List Url)
  | removeUrlSeeds (urlSeeds : List Url)

def perform (torrent : TorrentHandle) : Call Url → TorrentHandle × List (Told Url)
  | .addTrackers trackers => addTrackers urls native torrent trackers
  | .replaceTrackers trackers => replaceTrackers urls native torrent trackers
  | .addUrlSeeds urlSeeds => addUrlSeeds urls torrent urlSeeds
  | .removeUrlSeeds urlSeeds => removeUrlSeeds urls torrent urlSeeds

end Calls

/- A listener that knows a torrent only by what the session is told. -/

structure Listener (Url : Type) where
  trackers : Multiset Url
  urlSeeds : Finset Url

structure World (Url : Type) where
  torrent : TorrentHandle
  listener : Listener Url

section Listening

variable {Url : Type} [DecidableEq Url] (urls : UrlSyntax Url) (native : NativeTrackers)

def hear (listener : Listener Url) : Told Url → Listener Url
  | .trackersAdded trackers =>
    { listener with trackers := listener.trackers + keys (trackerUrl urls) trackers }
  | .trackersRemoved trackers =>
    { listener with trackers := listener.trackers - keys (trackerUrl urls) trackers }
  | .trackersChanged => listener
  | .urlSeedsAdded urlSeeds =>
    { listener with urlSeeds := listener.urlSeeds ∪ urlSeeds.toFinset }
  | .urlSeedsRemoved urlSeeds =>
    { listener with urlSeeds := listener.urlSeeds \ urlSeeds.toFinset }

def next (w : World Url) (call : Call Url) : World Url :=
  let done := perform urls native w.torrent call
  ⟨done.1, done.2.foldl (hear urls) w.listener⟩

def TrackersKnown (w : World Url) : Prop :=
  w.listener.trackers = keys (trackerUrl urls) w.torrent.trackers

def SeedsKnown (w : World Url) : Prop :=
  w.listener.urlSeeds = w.torrent.urlSeeds.image urls.parse

def listening : System (World Url) (Call Url) where
  start w := TrackersKnown urls w ∧ SeedsKnown urls w
  step w call t := t = next urls native w call

/-- Seeds to be removed stand in libtorrent's list as QUrl writes them. -/
def SpelledAlike (w : World Url) : Call Url → Prop
  | .removeUrlSeeds urlSeeds => ∀ seed ∈ w.torrent.urlSeeds, urls.parse seed ∈ urlSeeds →
    seed = urls.text (urls.parse seed)
  | _ => True

end Listening

/- Trackers. -/

section Lemmas

variable {Url : Type} [DecidableEq Url] {urls : UrlSyntax Url} {native : NativeTrackers}

theorem addTracker_keys (torrent : TorrentHandle) (tracker : TrackerEntry) :
    keys (trackerUrl urls) (addTracker urls native torrent tracker).1.trackers =
      if (addTracker urls native torrent tracker).2 = true
      then keys (trackerUrl urls) torrent.trackers + {trackerUrl urls tracker}
      else keys (trackerUrl urls) torrent.trackers := by
  unfold addTracker
  split
  · rfl
  · rename_i missing
    have unknown : ∀ there ∈ torrent.trackers, there.url ≠ tracker.url := by
      intro there mem same
      apply missing
      rw [contains, List.any_eq_true]
      exact ⟨there, mem, by simp [trackerUrl, same]⟩
    rw [keys_perm _ (native.added _ _ unknown), keys_cons, if_pos rfl, Multiset.add_comm]
    rfl

theorem collect_trackers_keys (trackers : List TrackerEntry) (torrent : TorrentHandle) :
    keys (trackerUrl urls) (collect (addTracker urls native) torrent trackers).1.trackers =
      keys (trackerUrl urls) torrent.trackers +
        keys (trackerUrl urls) (collect (addTracker urls native) torrent trackers).2 := by
  induction trackers generalizing torrent with
  | nil => simp [collect]
  | cons tracker trackers ih =>
    rw [collect]
    dsimp only
    rw [ih, addTracker_keys]
    split
    · rw [keys_cons, Multiset.add_assoc, Multiset.singleton_add]
    · rfl

theorem addTrackers_told (torrent : TorrentHandle) (trackers : List TrackerEntry)
    (listener : Listener Url) :
    (addTrackers urls native torrent trackers).2.foldl (hear urls) listener =
      { listener with
        trackers := listener.trackers +
          keys (trackerUrl urls) (collect (addTracker urls native) torrent trackers).2 } := by
  unfold addTrackers
  dsimp only
  split
  · rename_i none
    rw [none]
    simp
  · rfl

theorem replaceTrackers_told (torrent : TorrentHandle) (trackers : List TrackerEntry)
    (listener : Listener Url) :
    (replaceTrackers urls native torrent trackers).2.foldl (hear urls) listener =
      { listener with
        trackers := listener.trackers -
          keys (trackerUrl urls) (difference (trackerUrl urls) torrent.trackers trackers).1 +
          keys (trackerUrl urls) (difference (trackerUrl urls) torrent.trackers trackers).2 } := by
  unfold replaceTrackers
  dsimp only
  by_cases none : (difference (trackerUrl urls) torrent.trackers trackers).1 = []
  · by_cases fresh : (difference (trackerUrl urls) torrent.trackers trackers).2 = []
    · simp [none, fresh, hear]
    · simp [none, fresh, hear]
  · by_cases fresh : (difference (trackerUrl urls) torrent.trackers trackers).2 = []
    · simp [none, fresh, hear]
    · simp [none, fresh, hear]

theorem collect_keeps {Item α : Type} {call : TorrentHandle → Item → TorrentHandle × Bool}
    (part : TorrentHandle → α)
    (kept : ∀ torrent item, part (call torrent item).1 = part torrent) (items : List Item)
    (torrent : TorrentHandle) : part (collect call torrent items).1 = part torrent := by
  induction items generalizing torrent with
  | nil => rfl
  | cons item items ih => exact (ih _).trans (kept torrent item)

theorem addTracker_urlSeeds (urls : UrlSyntax Url) (native : NativeTrackers)
    (torrent : TorrentHandle) (tracker : TrackerEntry) :
    (addTracker urls native torrent tracker).1.urlSeeds = torrent.urlSeeds := by
  unfold addTracker
  split <;> rfl

theorem addUrlSeed_trackers (urls : UrlSyntax Url) (torrent : TorrentHandle) (urlSeed : Url) :
    (addUrlSeed urls torrent urlSeed).1.trackers = torrent.trackers := by
  unfold addUrlSeed
  split <;> rfl

theorem removeUrlSeed_trackers (urls : UrlSyntax Url) (torrent : TorrentHandle)
    (urlSeed : Url) :
    (removeUrlSeed urls torrent urlSeed).1.trackers = torrent.trackers := by
  unfold removeUrlSeed
  split <;> rfl

/- Web seeds. -/

theorem addUrlSeed_image (urls : UrlSyntax Url) (torrent : TorrentHandle) (urlSeed : Url) :
    (addUrlSeed urls torrent urlSeed).1.urlSeeds.image urls.parse =
      insert urlSeed (torrent.urlSeeds.image urls.parse) ∧
    ((addUrlSeed urls torrent urlSeed).2 = true ↔
      urlSeed ∉ torrent.urlSeeds.image urls.parse) := by
  unfold addUrlSeed hasSeed
  split
  · rename_i there
    rw [decide_eq_true_iff] at there
    exact ⟨(Finset.insert_eq_of_mem there).symm,
      iff_of_false Bool.false_ne_true (not_not.mpr there)⟩
  · rename_i missing
    rw [decide_eq_true_iff] at missing
    refine ⟨?_, iff_of_true rfl missing⟩
    dsimp only
    rw [Finset.image_insert, urls.parse_text]

theorem collect_added_image (urlSeeds : List Url) (torrent : TorrentHandle) :
    (collect (addUrlSeed urls) torrent urlSeeds).1.urlSeeds.image urls.parse =
      torrent.urlSeeds.image urls.parse ∪
        (collect (addUrlSeed urls) torrent urlSeeds).2.toFinset := by
  induction urlSeeds generalizing torrent with
  | nil => simp [collect]
  | cons urlSeed urlSeeds ih =>
    obtain ⟨image, told⟩ := addUrlSeed_image urls torrent urlSeed
    rw [collect]
    dsimp only
    rw [ih, image]
    split
    · ext u
      simp only [Finset.mem_union, Finset.mem_insert, List.mem_toFinset, List.mem_cons]
      tauto
    · rename_i kept
      rw [told, not_not] at kept
      rw [Finset.insert_eq_of_mem kept]

theorem removeUrlSeed_seeds (urls : UrlSyntax Url) (torrent : TorrentHandle) (urlSeed : Url) :
    (removeUrlSeed urls torrent urlSeed).1.urlSeeds =
      torrent.urlSeeds.erase (urls.text urlSeed) ∧
    ((removeUrlSeed urls torrent urlSeed).2 = true ↔
      urlSeed ∈ torrent.urlSeeds.image urls.parse) := by
  unfold removeUrlSeed hasSeed
  split
  · rename_i there
    rw [decide_eq_true_iff] at there
    exact ⟨rfl, iff_of_true rfl there⟩
  · rename_i missing
    rw [decide_eq_true_iff] at missing
    refine ⟨(Finset.erase_eq_of_notMem ?_).symm, iff_of_false Bool.false_ne_true missing⟩
    intro mem
    exact missing (Finset.mem_image.mpr ⟨_, mem, urls.parse_text urlSeed⟩)

theorem image_erase_mem {seeds : Finset String} {u v : Url} (apart : u ≠ v) :
    u ∈ (seeds.erase (urls.text v)).image urls.parse ↔ u ∈ seeds.image urls.parse := by
  simp only [Finset.mem_image, Finset.mem_erase]
  constructor
  · rintro ⟨seed, ⟨_, mem⟩, same⟩
    exact ⟨seed, mem, same⟩
  · rintro ⟨seed, mem, same⟩
    refine ⟨seed, ⟨?_, mem⟩, same⟩
    rintro rfl
    exact apart (same.symm.trans (urls.parse_text v))

theorem collect_removed (urls : UrlSyntax Url) (urlSeeds : List Url) (torrent : TorrentHandle) :
    (∀ seed, seed ∈ (collect (removeUrlSeed urls) torrent urlSeeds).1.urlSeeds ↔
      seed ∈ torrent.urlSeeds ∧ ∀ u ∈ urlSeeds, seed ≠ urls.text u) ∧
    ∀ u, u ∈ (collect (removeUrlSeed urls) torrent urlSeeds).2 ↔
      u ∈ urlSeeds ∧ u ∈ torrent.urlSeeds.image urls.parse := by
  induction urlSeeds generalizing torrent with
  | nil => simp [collect]
  | cons urlSeed urlSeeds ih =>
    obtain ⟨seeds, told⟩ := removeUrlSeed_seeds urls torrent urlSeed
    obtain ⟨left, removed⟩ := ih (removeUrlSeed urls torrent urlSeed).1
    rw [seeds] at left removed
    rw [collect]
    dsimp only
    constructor
    · intro seed
      rw [left seed, Finset.mem_erase, List.forall_mem_cons]
      tauto
    · intro u
      by_cases there : urlSeed ∈ torrent.urlSeeds.image urls.parse
      · rw [if_pos (told.mpr there), List.mem_cons, removed u, List.mem_cons]
        by_cases same : u = urlSeed
        · subst same
          exact iff_of_true (Or.inl rfl) ⟨Or.inl rfl, there⟩
        · rw [image_erase_mem same]
          tauto
      · have nothing : torrent.urlSeeds.erase (urls.text urlSeed) = torrent.urlSeeds := by
          apply Finset.erase_eq_of_notMem
          intro mem
          exact there (Finset.mem_image.mpr ⟨_, mem, urls.parse_text urlSeed⟩)
        rw [if_neg (mt told.mp there), removed u, nothing, List.mem_cons]
        constructor
        · rintro ⟨later, known⟩
          exact ⟨Or.inr later, known⟩
        · rintro ⟨here | later, known⟩
          · exact absurd (here ▸ known) there
          · exact ⟨later, known⟩

theorem removed_image_iff (urlSeeds : List Url) (torrent : TorrentHandle) :
    torrent.urlSeeds.image urls.parse \
        (collect (removeUrlSeed urls) torrent urlSeeds).2.toFinset =
      (collect (removeUrlSeed urls) torrent urlSeeds).1.urlSeeds.image urls.parse ↔
    ∀ seed ∈ torrent.urlSeeds, urls.parse seed ∈ urlSeeds →
      seed = urls.text (urls.parse seed) := by
  obtain ⟨left, removed⟩ := collect_removed urls urlSeeds torrent
  constructor
  · intro same seed mem asked
    by_contra spelled
    have known : urls.parse seed ∈ torrent.urlSeeds.image urls.parse :=
      Finset.mem_image_of_mem _ mem
    have stays : seed ∈ (collect (removeUrlSeed urls) torrent urlSeeds).1.urlSeeds := by
      refine (left seed).mpr ⟨mem, ?_⟩
      rintro u - rfl
      exact spelled (by rw [urls.parse_text])
    have there := Finset.mem_image_of_mem urls.parse stays
    rw [← same, Finset.mem_sdiff, List.mem_toFinset, removed] at there
    exact there.2 ⟨asked, known⟩
  · intro spelled
    ext u
    rw [Finset.mem_sdiff, List.mem_toFinset, removed, Finset.mem_image, Finset.mem_image]
    constructor
    · rintro ⟨⟨seed, mem, rfl⟩, kept⟩
      refine ⟨seed, (left seed).mpr ⟨mem, ?_⟩, rfl⟩
      rintro v asked rfl
      rw [urls.parse_text] at kept
      exact kept ⟨asked, _, mem, urls.parse_text v⟩
    · rintro ⟨seed, mem, rfl⟩
      obtain ⟨before, unasked⟩ := (left seed).mp mem
      refine ⟨⟨seed, before, rfl⟩, ?_⟩
      rintro ⟨asked, _⟩
      exact unasked _ asked (spelled seed before asked)

/- Runs. -/

theorem next_trackers {w : World Url} (known : TrackersKnown urls w) (call : Call Url) :
    TrackersKnown urls (next urls native w call) := by
  unfold TrackersKnown at known ⊢
  cases call with
  | addTrackers trackers =>
    simp only [next, perform]
    rw [addTrackers_told, known]
    exact (collect_trackers_keys trackers w.torrent).symm
  | replaceTrackers trackers =>
    simp only [next, perform]
    rw [replaceTrackers_told, known]
    dsimp only
    rw [difference_applied, replaceTrackers, keys_perm _ (native.replaced trackers)]
  | addUrlSeeds urlSeeds =>
    have kept := collect_keeps TorrentHandle.trackers (addUrlSeed_trackers urls) urlSeeds
      w.torrent
    simp only [next, perform, addUrlSeeds, kept, ← known]
    split <;> rfl
  | removeUrlSeeds urlSeeds =>
    have kept := collect_keeps TorrentHandle.trackers (removeUrlSeed_trackers urls) urlSeeds
      w.torrent
    simp only [next, perform, removeUrlSeeds, kept, ← known]
    split <;> rfl

/-- The seeds stay known exactly if those to be removed are spelled alike. -/
theorem next_seeds_iff {w : World Url} (known : SeedsKnown urls w) (call : Call Url) :
    SeedsKnown urls (next urls native w call) ↔ SpelledAlike urls w call := by
  unfold SeedsKnown at known ⊢
  cases call with
  | addTrackers trackers =>
    refine iff_of_true ?_ trivial
    simp only [next, perform]
    rw [addTrackers_told, known]
    have kept := collect_keeps TorrentHandle.urlSeeds (addTracker_urlSeeds urls native) trackers
      w.torrent
    exact congrArg (Finset.image urls.parse) kept.symm
  | replaceTrackers trackers =>
    refine iff_of_true ?_ trivial
    simp only [next, perform]
    rw [replaceTrackers_told, known]
    rfl
  | addUrlSeeds urlSeeds =>
    refine iff_of_true ?_ trivial
    simp only [next, perform, addUrlSeeds]
    rw [collect_added_image, ← known]
    split
    · rename_i none
      rw [none]
      simp
    · rfl
  | removeUrlSeeds urlSeeds =>
    rw [SpelledAlike, ← removed_image_iff, ← known]
    simp only [next, perform, removeUrlSeeds]
    split
    · rename_i none
      rw [none]
      simp
    · rfl

/-- Whoever knows a torrent by what the session is told knows its trackers in every run, and its
    web seeds exactly as long as those to be removed are spelled alike. -/
theorem sources_known {w t : World Url} {steps : List (World Url × Call Url)}
    (initial : (listening urls native).start w) (run : Run (listening urls native) w steps t) :
    Throughout (TrackersKnown urls) steps t ∧
      (Throughout (SeedsKnown urls) steps t ↔ EveryStep (SpelledAlike urls) steps) := by
  constructor
  · apply run_invariant _ run initial.1
    rintro w call _ known rfl
    exact next_trackers known call
  · apply exact_guard (fun _ _ _ (_ : True) _ => trivial) _ run trivial initial.2
    rintro w call _ _ known rfl
    exact next_seeds_iff known call

/-- A new list of trackers is told as what it lacks and what it adds, each in its own order and
    each URL as often as it is missing from the other list. -/
theorem replaced_trackers_told (torrent : TorrentHandle) (trackers : List TrackerEntry) :
    ∃ removed added, removed.Sublist torrent.trackers ∧ added.Sublist trackers ∧
      keys (trackerUrl urls) removed =
        keys (trackerUrl urls) torrent.trackers - keys (trackerUrl urls) trackers ∧
      keys (trackerUrl urls) added =
        keys (trackerUrl urls) trackers - keys (trackerUrl urls) torrent.trackers ∧
      (replaceTrackers urls native torrent trackers).2 =
        if keys (trackerUrl urls) torrent.trackers = keys (trackerUrl urls) trackers
        then [.trackersChanged]
        else (if removed = [] then [] else [.trackersRemoved removed]) ++
          if added = [] then [] else [.trackersAdded added] := by
  obtain ⟨left, new⟩ := difference_sublists (trackerUrl urls) torrent.trackers trackers
  obtain ⟨leftKeys, newKeys⟩ := difference_keys (trackerUrl urls) torrent.trackers trackers
  refine ⟨_, _, left, new, leftKeys, newKeys, ?_⟩
  simp only [← difference_empty_iff, Prod.ext_iff, replaceTrackers, and_comm]

end Lemmas

/- A web seed that libtorrent has in another spelling. -/

abbrev SeedUrl := { text : String // text ≠ "HTTP://seed/film" }

def seedUrl : SeedUrl := ⟨"http://seed/film", by decide⟩

def seedUrls : UrlSyntax SeedUrl where
  parse text := if other : text ≠ "HTTP://seed/film" then ⟨text, other⟩ else seedUrl
  text := Subtype.val
  parse_text url := by simp [url.2]

def oneTier : NativeTrackers where
  replace_trackers := id
  add_tracker trackers tracker := trackers ++ [tracker]
  replaced trackers := List.Perm.refl trackers
  added trackers tracker _ := List.perm_append_singleton tracker trackers

def filmSources (seed : String) : World SeedUrl where
  torrent := ⟨[⟨"udp://first", 0⟩], {seed}⟩
  listener := ⟨keys (trackerUrl seedUrls) [⟨"udp://first", 0⟩], {seedUrl}⟩

def removal : Call SeedUrl := .removeUrlSeeds [seedUrl]

theorem removed_as_written :
    (∃ t, Throughout (SeedsKnown seedUrls) [(filmSources "http://seed/film", removal)] t) ∧
    ∃ t, Throughout (TrackersKnown seedUrls) [(filmSources "HTTP://seed/film", removal)] t ∧
      ¬ Throughout (SeedsKnown seedUrls) [(filmSources "HTTP://seed/film", removal)] t := by
  have run (seed : String) : Run (listening seedUrls oneTier) (filmSources seed)
      [(filmSources seed, removal)] (next seedUrls oneTier (filmSources seed) removal) :=
    .snoc (.nil _) rfl
  have written : (listening seedUrls oneTier).start (filmSources "http://seed/film") :=
    ⟨rfl, rfl⟩
  have spelled : (listening seedUrls oneTier).start (filmSources "HTTP://seed/film") :=
    ⟨rfl, rfl⟩
  refine ⟨⟨_, (sources_known written (run _)).2.mpr ?_⟩, _, (sources_known spelled (run _)).1, ?_⟩
  · intro p mem
    rw [List.mem_singleton.mp mem]
    intro seed there _
    rw [Finset.mem_singleton.mp there]
    decide
  · intro known
    have kept := (sources_known spelled (run _)).2.mp known _ (List.mem_singleton.mpr rfl)
    exact absurd (kept "HTTP://seed/film" (by decide) (by decide)) (by decide)

end TorrentSources
