import QtPlayer.Library.QueueSteps
import QtPlayer.Session.QueueOrder

/- session.cpp: increaseTorrentsPriority and decreaseTorrentsPriority. libtorrent moves a torrent by
   one place of its queue. -/
namespace QueuePriorities
open QueueMoves QueueOrder QueueSteps

section Moves

variable {Hash Address : Type} [DecidableEq Hash]

def torrentQueuePositionUp (s : Session Hash Address) (hash : Hash) : Session Hash Address :=
  { s with
    queue := moveUp s.queue hash
    once := moveUp_nodup s.once hash }

def torrentQueuePositionDown (s : Session Hash Address) (hash : Hash) : Session Hash Address :=
  { s with
    queue := (moveUp s.queue.reverse hash).reverse
    once := List.nodup_reverse.mpr (moveUp_nodup (List.nodup_reverse.mpr s.once) hash) }

variable [LinearOrder Address]

def increaseTorrentsPriority (s : Session Hash Address) (hashes : List Hash) :
    Session Hash Address :=
  (torrentQueue LeastFirst s hashes).items.foldl (fun t entry =>
    torrentQueuePositionUp t (s.handleAt (ofLex entry).2).nativeHandle) s

def lowered (s : Session Hash Address) (hashes : List Hash) : Session Hash Address :=
  (torrentQueue GreatestFirst s hashes).items.foldl (fun t entry =>
    torrentQueuePositionDown t (s.handleAt (ofLex entry).2).nativeHandle) s

def decreaseTorrentsPriority (s : Session Hash Address) (hashes : List Hash) :
    Session Hash Address :=
  let t := lowered s hashes
  t.loadedMetadata.foldl torrentQueuePositionBottom t

def others (s : Session Hash Address) (hashes : List Hash) (hash : Hash) : Bool :=
  !selected s hashes hash

/-- Torrents that are not selected keep their order. A selected one stays ahead of those it was
    ahead of, and passes at most one for each time it was asked for. -/
structure Stepped (s : Session Hash Address) (hashes queue after : List Hash) : Prop where
  same : after.Perm queue
  kept : after.filter (others s hashes) = queue.filter (others s hashes)
  passes : ∀ hash, ∃ passed, ahead (others s hashes) hash queue =
    ahead (others s hashes) hash after ++ passed ∧
      passed.length ≤ (hashes.filter (selected s hashes)).count hash

def shownOthers (s : Session Hash Address) (hashes : List Hash) (hash : Hash) : Bool :=
  others s hashes hash && decide (hash ∉ s.loadedMetadata)

/-- Each selected torrent passes one of the kind `kept`, if there is one to pass. -/
def EachPasses (s : Session Hash Address) (hashes : List Hash) (kept : Hash → Bool)
    (queue after : List Hash) : Prop :=
  ∀ hash ∈ queue, selected s hashes hash = true → ahead kept hash queue ≠ [] →
    PassesOne kept queue after hash

/-- Of two selected neighbours with a torrent to pass, the one ahead comes first. -/
def NeighboursLead (s : Session Hash Address) (hashes : List Hash) (kept : Hash → Bool)
    (first : Hash → Hash → Prop) (queue : List Hash) : Prop :=
  ∀ hash next, Adjacent hash next queue → selected s hashes hash = true →
    selected s hashes next = true → ahead kept next queue ≠ [] → first hash next

def NearestKept (s : Session Hash Address) (hashes : List Hash) (kept : Hash → Bool)
    (queue : List Hash) : Prop :=
  ∀ hash ∈ queue, selected s hashes hash = true → ahead kept hash queue ≠ [] →
    ∀ other ∈ (ahead (others s hashes) hash queue).getLast?, kept other = true

end Moves

variable {Hash Address : Type} [DecidableEq Hash] {s : Session Hash Address} {hashes : List Hash}

theorem foldl_up_queue (moves : List Hash) (t : Session Hash Address) :
    (moves.foldl torrentQueuePositionUp t).queue = moveAllUp t.queue moves := by
  induction moves generalizing t with
  | nil => rfl
  | cons hash moves ih => exact ih _

theorem foldl_down_queue (moves : List Hash) (t : Session Hash Address) :
    (moves.foldl torrentQueuePositionDown t).queue = (moveAllUp t.queue.reverse moves).reverse ∧
      (moves.foldl torrentQueuePositionDown t).loadedMetadata = t.loadedMetadata := by
  induction moves generalizing t with
  | nil => exact ⟨(List.reverse_reverse _).symm, rfl⟩
  | cons hash moves ih =>
    obtain ⟨queue, hidden⟩ := ih (torrentQueuePositionDown t hash)
    refine ⟨?_, hidden⟩
    rw [List.foldl_cons, queue, torrentQueuePositionDown, List.reverse_reverse]
    rfl

section PriorityQueue

variable (first : Int ×ₗ Address → Int ×ₗ Address → Prop) [DecidableRel first]
variable [Std.Total first] [IsTrans _ first]

def leeching (s : Session Hash Address) (hash : Hash) : Bool :=
  (s.torrents hash).any fun torrent => !isSeed (s.handleAt torrent)

omit [DecidableEq Hash] in
theorem foldl_pushTorrent_perm (s : Session Hash Address) (hashes : List Hash)
    (queue : PriorityQueue first) :
    ((hashes.foldl (pushTorrent s) queue).items.map fun entry =>
      (s.handleAt (ofLex entry).2).nativeHandle).Perm
    ((queue.items.map fun entry => (s.handleAt (ofLex entry).2).nativeHandle) ++
      hashes.filter (leeching s)) := by
  induction hashes generalizing queue with
  | nil => simp
  | cons hash hashes ih =>
    rw [List.foldl_cons]
    apply (ih _).trans
    rw [pushTorrent, List.filter_cons, leeching]
    cases found : s.torrents hash with
    | none => simp
    | some torrent =>
      cases seed : isSeed (s.handleAt torrent) with
      | true => simp [seed]
      | false =>
        have pushed := (List.perm_orderedInsert first
          (toLex (queuePosition (s.handleAt torrent), torrent)) queue.items).map fun entry =>
            (s.handleAt (ofLex entry).2).nativeHandle
        simp only [List.map_cons, ofLex_toLex, s.keyed hash torrent found] at pushed
        simp only [seed, Bool.not_false, Option.any_some, if_true, if_false, Bool.false_eq_true]
        exact (pushed.append_right _).trans List.perm_middle.symm

theorem popped_perm (s : Session Hash Address) (hashes : List Hash) :
    (popped first s hashes).Perm (hashes.filter (selected s hashes)) := by
  have popped := foldl_pushTorrent_perm first s hashes empty
  have same : hashes.filter (selected s hashes) = hashes.filter (leeching s) := by
    apply List.filter_congr
    intro hash mem
    simp [selected, leeching, mem]
  rw [same]
  exact popped

theorem not_other_iff (s : Session Hash Address) (hashes : List Hash) (hash : Hash) :
    others s hashes hash = false ↔ hash ∈ popped first s hashes := by
  rw [mem_popped, others, Bool.not_eq_false']

theorem popped_stepped (s : Session Hash Address) (hashes : List Hash) {queue : List Hash}
    (once : queue.Nodup) :
    Stepped s hashes queue (moveAllUp queue (popped first s hashes)) := by
  have moved : ∀ hash ∈ popped first s hashes, others s hashes hash = false :=
    fun hash mem => (not_other_iff first s hashes hash).mpr mem
  constructor
  · exact moveAllUp_perm queue _
  · exact moveAllUp_filter once moved
  · intro hash
    rw [← (popped_perm first s hashes).count_eq]
    exact ahead_moveAllUp once moved hash

theorem popped_leads_iff {leads : Hash → Hash → Prop} [Std.Antisymm leads]
    (sorted : (popped first s hashes).Pairwise fun x y => x ≠ y → leads x y)
    (kept : Hash → Bool) {queue : List Hash} (once : queue.Nodup) :
    Leads (others s hashes) kept (popped first s hashes) queue ↔
      NeighboursLead s hashes kept leads queue := by
  have kinds := not_other_iff first s hashes
  constructor
  · intro leading hash next near chosen chosen' some
    have mem := (mem_popped first hash).mpr chosen
    have mem' := (mem_popped first next).mpr chosen'
    rcases leading hash next near mem' some with stands | before
    · rw [(kinds hash).mpr mem] at stands
      cases stands
    · exact (movedFirst_iff sorted (adjacent_ne once near) mem mem').mp before
  · intro neighbours p t near mem some
    cases stands : others s hashes p with
    | true => exact Or.inl rfl
    | false =>
      have memP := (kinds p).mp stands
      exact Or.inr ((movedFirst_iff sorted (adjacent_ne once near) memP mem).mpr
        (neighbours p t near ((mem_popped first p).mp memP) ((mem_popped first t).mp mem) some))

/-- The order in which torrents are popped, and what is nearest to them, decide whether each
    passes one that is kept. -/
theorem popped_passes_iff {leads : Hash → Hash → Prop} [Std.Antisymm leads]
    (sorted : (popped first s hashes).Pairwise fun x y => x ≠ y → leads x y)
    (single : hashes.Nodup) {kept : Hash → Bool}
    (stands : ∀ x, kept x = true → others s hashes x = true) {queue : List Hash}
    (once : queue.Nodup) :
    EachPasses s hashes kept queue (moveAllUp queue (popped first s hashes)) ↔
      NeighboursLead s hashes kept leads queue ∧ NearestKept s hashes kept queue := by
  have order : (popped first s hashes).Nodup :=
    (popped_perm first s hashes).nodup_iff.mpr (single.filter _)
  have one (hash : Hash) : PassesOne kept queue (moveAllUp queue (popped first s hashes)) hash ↔
      PassesOne (others s hashes) queue (moveAllUp queue (popped first s hashes)) hash ∧
        ∀ x ∈ (ahead (others s hashes) hash queue).getLast?, kept x = true := by
    obtain ⟨passed, same, few⟩ := (popped_stepped first s hashes once).passes hash
    exact passesOne_kept_iff stands same
      (few.trans (List.nodup_iff_count_le_one.mp (single.filter _) hash))
  rw [← popped_leads_iff first sorted kept once,
    ← passes_iff_leads stands once order (not_other_iff first s hashes)]
  constructor
  · intro every
    refine ⟨fun t mem here some => ?_, fun hash here chosen some => ?_⟩
    · exact ((one t).mp (every t here ((mem_popped first t).mp mem) some)).1
    · exact ((one hash).mp (every hash here chosen some)).2
  · rintro ⟨passes, nearest⟩ hash here chosen some
    exact (one hash).mpr ⟨passes hash ((mem_popped first hash).mpr chosen) here some,
      nearest hash here chosen some⟩

end PriorityQueue

variable [LinearOrder Address]

instance : Std.Antisymm fun x y => Above s y x where
  antisymm := by
    intro hash other above below
    exact Std.Antisymm.antisymm (r := Above s) hash other below above

theorem increase_queue (s : Session Hash Address) (hashes : List Hash) :
    (increaseTorrentsPriority s hashes).queue =
      moveAllUp s.queue (popped LeastFirst s hashes) := by
  rw [← foldl_up_queue, popped, List.foldl_map]
  rfl

theorem lowered_queue (s : Session Hash Address) (hashes : List Hash) :
    (lowered s hashes).queue.reverse =
        moveAllUp s.queue.reverse (popped GreatestFirst s hashes) ∧
      (lowered s hashes).loadedMetadata = s.loadedMetadata := by
  have moved := foldl_down_queue (popped GreatestFirst s hashes) s
  rw [popped, List.foldl_map] at moved
  obtain ⟨queue, hidden⟩ := moved
  constructor
  · rw [← List.reverse_reverse (moveAllUp _ _), popped, ← queue]
    rfl
  · exact hidden

/-- Torrents with hidden metadata end behind all others, whatever was asked for. -/
theorem decrease_queue (s : Session Hash Address) (hashes : List Hash) :
    ∃ back, (decreaseTorrentsPriority s hashes).queue =
        (lowered s hashes).queue.filter (· ∉ s.loadedMetadata) ++ back ∧
      ∀ hash, hash ∈ back ↔ hash ∈ s.loadedMetadata ∧ hash ∈ s.queue := by
  obtain ⟨down, hidden⟩ := lowered_queue s hashes
  have turned := List.nodup_reverse.mpr (lowered s hashes).once
  obtain ⟨front, same, -, -, mem⟩ := foldl_moveToFront turned s.loadedMetadata
  refine ⟨front.reverse, ?_, ?_⟩
  · have once := (lowered s hashes).once
    rw [decreaseTorrentsPriority, (foldl_bottom_queue _ _).1, foldl_moveToBack once, hidden, same,
      List.reverse_append, List.filter_reverse, List.reverse_reverse]
  · intro hash
    rw [List.mem_reverse, mem, down, (moveAllUp_perm _ _).mem_iff, List.mem_reverse]

omit [LinearOrder Address] in
theorem shownOthers_stand (s : Session Hash Address) (hashes : List Hash) (hash : Hash)
    (shown : shownOthers s hashes hash = true) : others s hashes hash = true :=
  (Bool.and_eq_true_iff.mp shown).1

theorem ahead_decrease (s : Session Hash Address) (hashes : List Hash) {hash : Hash}
    (shown : hash ∉ s.loadedMetadata) :
    ahead (shownOthers s hashes) hash (decreaseTorrentsPriority s hashes).queue.reverse =
      ahead (shownOthers s hashes) hash (lowered s hashes).queue.reverse := by
  obtain ⟨back, queue, mem⟩ := decrease_queue s hashes
  have absent : hash ∉ back.reverse := by
    rw [List.mem_reverse, mem]
    exact fun both => shown both.1
  have none : back.reverse.filter (shownOthers s hashes) = [] := by
    rw [List.filter_eq_nil_iff]
    intro other inBack
    have hidden := ((mem other).mp (List.mem_reverse.mp inBack)).1
    simp [shownOthers, hidden]
  rw [queue, List.reverse_append, ahead_append absent, none, List.nil_append,
    ← List.filter_reverse, ahead_among]
  · intro x isShown
    exact (Bool.and_eq_true_iff.mp isShown).2
  · simpa using shown

theorem priorities_stepped (s : Session Hash Address) (hashes : List Hash) :
    Stepped s hashes s.queue (increaseTorrentsPriority s hashes).queue ∧
    Stepped s hashes s.queue.reverse (lowered s hashes).queue.reverse ∧
    ∃ back, (decreaseTorrentsPriority s hashes).queue =
        (lowered s hashes).queue.filter (· ∉ s.loadedMetadata) ++ back ∧
      ∀ hash, hash ∈ back ↔ hash ∈ s.loadedMetadata ∧ hash ∈ s.queue := by
  refine ⟨?_, ?_, decrease_queue s hashes⟩
  · rw [increase_queue]
    exact popped_stepped LeastFirst s hashes s.once
  · rw [(lowered_queue s hashes).1]
    exact popped_stepped GreatestFirst s hashes (List.nodup_reverse.mpr s.once)

/-- Upwards the handles must stand by rising addresses, and downwards by falling ones from the
    back of the queue: every handle says that its position is 0. Downwards the torrents with
    hidden metadata are last in the end, so a torrent that has passed one of these has not passed
    any other. -/
theorem each_passes_iff (s : Session Hash Address) (hashes : List Hash) (single : hashes.Nodup)
    (unlisted : ∀ hash ∈ s.loadedMetadata, s.torrents hash = none) :
    (EachPasses s hashes (others s hashes) s.queue (increaseTorrentsPriority s hashes).queue ↔
      NeighboursLead s hashes (others s hashes) (fun hash next => Above s next hash) s.queue) ∧
    (EachPasses s hashes (shownOthers s hashes) s.queue.reverse
        (decreaseTorrentsPriority s hashes).queue.reverse ↔
      NeighboursLead s hashes (shownOthers s hashes) (Above s) s.queue.reverse ∧
        NearestKept s hashes (shownOthers s hashes) s.queue.reverse) := by
  constructor
  · have rising : (popped LeastFirst s hashes).Pairwise fun x y => x ≠ y → Above s y x := by
      apply (popped_rising s hashes).imp
      intro hash other rises differ
      exact rises differ.symm
    rw [increase_queue, popped_passes_iff LeastFirst rising single (fun _ => id) s.once]
    apply and_iff_left
    intro hash _ _ _ other last
    exact ahead_still (List.mem_of_getLast? last)
  · have shown (hash : Hash) (chosen : selected s hashes hash = true) :
        hash ∉ s.loadedMetadata := by
      intro hidden
      simp [selected, unlisted hash hidden] at chosen
    have same : EachPasses s hashes (shownOthers s hashes) s.queue.reverse
          (decreaseTorrentsPriority s hashes).queue.reverse ↔
        EachPasses s hashes (shownOthers s hashes) s.queue.reverse
          (lowered s hashes).queue.reverse := by
      refine forall₄_congr fun hash _ chosen _ => ?_
      rw [PassesOne, PassesOne, ahead_decrease s hashes (shown hash chosen)]
    rw [same, (lowered_queue s hashes).1]
    exact popped_passes_iff GreatestFirst (popped_falling s hashes) single
      (shownOthers_stand s hashes) (List.nodup_reverse.mpr s.once)

def threeTorrents (rising : Bool) : Session (Fin 3) (Fin 3) where
  torrents hash := some (if rising then hash else hash.rev)
  handleAt torrent := ⟨if rising then torrent else torrent.rev, .downloading, 0⟩
  queue := [0, 1, 2]
  loadedMetadata := []
  keyed := by
    intro hash torrent found
    cases rising with
    | true => exact (Option.some.inj found).symm
    | false =>
      have turned : hash.rev = torrent := Option.some.inj found
      exact turned ▸ Fin.rev_rev hash
  once := by decide

/-- The last torrent is moved first, and passes the one that then passes the first one. -/
theorem last_falls_back :
    EachPasses (threeTorrents true) [1, 2] (others (threeTorrents true) [1, 2])
      (threeTorrents true).queue (increaseTorrentsPriority (threeTorrents true) [1, 2]).queue ∧
    ¬ EachPasses (threeTorrents false) [1, 2] (others (threeTorrents false) [1, 2])
      (threeTorrents false).queue
      (increaseTorrentsPriority (threeTorrents false) [1, 2]).queue := by
  have unlisted (rising : Bool) : ∀ hash ∈ (threeTorrents rising).loadedMetadata,
      (threeTorrents rising).torrents hash = none := by
    intro hash mem
    cases mem
  constructor
  · apply (each_passes_iff (threeTorrents true) [1, 2] (by decide) (unlisted true)).1.mpr
    intro hash next near chosen _ _
    rcases near with ⟨rfl, rfl⟩ | ⟨rfl, rfl⟩ | none
    · exact absurd chosen (by decide)
    · exact ⟨2, 1, rfl, rfl, by decide⟩
    · exact none.elim
  · intro every
    have leads := (each_passes_iff (threeTorrents false) [1, 2] (by decide)
      (unlisted false)).1.mp every
    have near : Adjacent 1 2 (threeTorrents false).queue := Or.inr (Or.inl ⟨rfl, rfl⟩)
    obtain ⟨torrent, lower, found, found', below⟩ :=
      leads 1 2 near (by decide) (by decide) (by decide)
    cases found
    cases found'
    exact absurd below (by decide)

end QueuePriorities
