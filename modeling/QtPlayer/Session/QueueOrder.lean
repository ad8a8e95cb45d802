import Mathlib.Algebra.Order.Ring.Int
import Mathlib.Data.Prod.Lex
import QtPlayer.Library.QueueMoves

/- session.cpp: topTorrentsPriority and bottomTorrentsPriority. A torrent in libtorrent's queue is
   named by its info hash, and a TorrentHandle is found by its address. -/
namespace QueueOrder
open QueueMoves

inductive State where
  | checkingFiles
  | downloadingMetadata
  | downloading
  | finished
  | seeding
  | allocating
  | checkingResumeData
  deriving DecidableEq

/-- `state` and `queuePosition` are what m_nativeStatus holds. -/
structure TorrentHandle (Hash : Type) where
  nativeHandle : Hash
  state : State
  queue_position : Int

/-- createTorrent enters every handle under the hash of its native torrent. -/
structure Session (Hash Address : Type) where
  torrents : Hash → Option Address
  handleAt : Address → TorrentHandle Hash
  queue : List Hash
  loadedMetadata : List Hash
  keyed : ∀ hash torrent, torrents hash = some torrent → (handleAt torrent).nativeHandle = hash
  once : queue.Nodup

def isSeed {Hash : Type} (torrent : TorrentHandle Hash) : Bool :=
  torrent.state = .finished || torrent.state = .seeding

def queuePosition {Hash : Type} (torrent : TorrentHandle Hash) : Int :=
  if torrent.queue_position < 0 then 0 else 0

theorem queuePosition_eq {Hash : Type} (torrent : TorrentHandle Hash) :
    queuePosition torrent = 0 :=
  ite_self 0

section Moves

variable {Hash Address : Type}

def pushTorrent {first : Int ×ₗ Address → Int ×ₗ Address → Prop} [DecidableRel first]
    [Std.Total first] [IsTrans _ first] (s : Session Hash Address)
    (queue : PriorityQueue first) (hash : Hash) : PriorityQueue first :=
  match s.torrents hash with
  | some torrent =>
    if isSeed (s.handleAt torrent) then queue
    else push queue (toLex (queuePosition (s.handleAt torrent), torrent))
  | none => queue

/-- The pairs of position and address, in the order that std::greater or std::less pops. -/
def torrentQueue (first : Int ×ₗ Address → Int ×ₗ Address → Prop) [DecidableRel first]
    [Std.Total first] [IsTrans _ first] (s : Session Hash Address) (hashes : List Hash) :
    PriorityQueue first :=
  hashes.foldl (pushTorrent s) empty

section Orders

variable [LinearOrder Address]

def LeastFirst (entry other : Int ×ₗ Address) : Prop := entry ≤ other

def GreatestFirst (entry other : Int ×ₗ Address) : Prop := other ≤ entry

instance : DecidableRel (@LeastFirst Address _) :=
  fun entry other => inferInstanceAs (Decidable (entry ≤ other))

instance : DecidableRel (@GreatestFirst Address _) :=
  fun entry other => inferInstanceAs (Decidable (other ≤ entry))

instance : Std.Total (@LeastFirst Address _) := ⟨le_total⟩

instance : Std.Total (@GreatestFirst Address _) := ⟨fun a b => le_total b a⟩

instance : IsTrans _ (@LeastFirst Address _) := ⟨fun _ _ _ => le_trans⟩

instance : IsTrans _ (@GreatestFirst Address _) := ⟨fun _ _ _ ab bc => bc.trans ab⟩

end Orders

def Above [LinearOrder Address] (s : Session Hash Address) (hash other : Hash) : Prop :=
  ∃ torrent lower, s.torrents hash = some torrent ∧ s.torrents other = some lower ∧
    lower < torrent

variable [DecidableEq Hash]

def torrentQueuePositionTop (s : Session Hash Address) (hash : Hash) : Session Hash Address :=
  { s with
    queue := moveToFront s.queue hash
    once := moveToFront_nodup s.once hash }

def torrentQueuePositionBottom (s : Session Hash Address) (hash : Hash) : Session Hash Address :=
  { s with
    queue := moveToBack s.queue hash
    once := moveToBack_nodup s.once hash }

def selected (s : Session Hash Address) (hashes : List Hash) (hash : Hash) : Bool :=
  decide (hash ∈ hashes) && (s.torrents hash).any fun torrent => !isSeed (s.handleAt torrent)

def KeptAtTop (s : Session Hash Address) (hashes : List Hash) (t : Session Hash Address) : Prop :=
  t.queue = s.queue.filter (selected s hashes) ++ s.queue.filter (!selected s hashes ·)

def KeptAtBottom (s : Session Hash Address) (hashes : List Hash) (t : Session Hash Address) :
    Prop :=
  t.queue = s.queue.filter (!selected s hashes ·) ++ s.queue.filter (selected s hashes)

variable [LinearOrder Address]

def topTorrentsPriority (s : Session Hash Address) (hashes : List Hash) : Session Hash Address :=
  (torrentQueue LeastFirst s hashes).items.foldl (fun t entry =>
    torrentQueuePositionTop t (s.handleAt (ofLex entry).2).nativeHandle) s

def bottomTorrentsPriority (s : Session Hash Address) (hashes : List Hash) :
    Session Hash Address :=
  let t := (torrentQueue GreatestFirst s hashes).items.foldl (fun t entry =>
    torrentQueuePositionBottom t (s.handleAt (ofLex entry).2).nativeHandle) s
  t.loadedMetadata.foldl torrentQueuePositionBottom t

/-- The selected torrents stand in the queue by falling addresses. -/
def Falling (s : Session Hash Address) (hashes : List Hash) : Prop :=
  (s.queue.filter (selected s hashes)).Pairwise (Above s)

end Moves

variable {Hash Address : Type} {s : Session Hash Address} {hashes : List Hash}

instance [LinearOrder Address] : Std.Irrefl (Above s) where
  irrefl := by
    rintro hash ⟨torrent, lower, found, same, below⟩
    rw [found, Option.some.injEq] at same
    exact absurd (same ▸ below) (lt_irrefl _)

instance [LinearOrder Address] : Std.Antisymm (Above s) where
  antisymm := by
    rintro hash other ⟨torrent, lower, found, under, below⟩ ⟨lower', torrent', under', found', up⟩
    rw [found, Option.some.injEq] at found'
    rw [under, Option.some.injEq] at under'
    subst found' under'
    exact absurd (below.trans up) (lt_irrefl _)

section PriorityQueue

variable (first : Int ×ₗ Address → Int ×ₗ Address → Prop) [DecidableRel first]
variable [Std.Total first] [IsTrans _ first]

theorem mem_foldl_pushTorrent (queue : PriorityQueue first) (entry : Int ×ₗ Address) :
    entry ∈ (hashes.foldl (pushTorrent s) queue).items ↔ entry ∈ queue.items ∨
      ∃ hash torrent, hash ∈ hashes ∧ s.torrents hash = some torrent ∧
        isSeed (s.handleAt torrent) = false ∧ entry = toLex (0, torrent) := by
  induction hashes generalizing queue with
  | nil => simp
  | cons hash hashes ih =>
    rw [List.foldl_cons, ih, pushTorrent]
    cases found : s.torrents hash with
    | none => simp [found]
    | some torrent =>
      cases seed : isSeed (s.handleAt torrent) with
      | true => simp [found, seed]
      | false => simp [found, seed, mem_push, queuePosition_eq, or_assoc, or_left_comm]

theorem mem_torrentQueue (entry : Int ×ₗ Address) :
    entry ∈ (torrentQueue first s hashes).items ↔
      ∃ hash torrent, hash ∈ hashes ∧ s.torrents hash = some torrent ∧
        isSeed (s.handleAt torrent) = false ∧ entry = toLex (0, torrent) := by
  rw [torrentQueue, mem_foldl_pushTorrent]
  simp [empty]

def popped (s : Session Hash Address) (hashes : List Hash) : List Hash :=
  (torrentQueue first s hashes).items.map fun entry => (s.handleAt (ofLex entry).2).nativeHandle

theorem mem_popped [DecidableEq Hash] (hash : Hash) :
    hash ∈ popped first s hashes ↔ selected s hashes hash = true := by
  simp only [popped, List.mem_map, mem_torrentQueue, selected, Bool.and_eq_true,
    decide_eq_true_eq, Option.any_eq_true, Bool.not_eq_true']
  constructor
  · intro moved
    obtain ⟨entry, ⟨listed, torrent, mem, found, leeching, rfl⟩, rfl⟩ := moved
    have same := s.keyed listed torrent found
    simp only [ofLex_toLex, same]
    exact ⟨mem, torrent, found, leeching⟩
  · intro chosen
    obtain ⟨mem, torrent, found, leeching⟩ := chosen
    exact ⟨_, ⟨hash, torrent, mem, found, leeching, rfl⟩, s.keyed hash torrent found⟩

theorem popped_pairwise (s : Session Hash Address) (hashes : List Hash)
    (falls : Address → Address → Prop)
    (exactly : ∀ a b : Address, first (toLex (0, a)) (toLex (0, b)) → a ≠ b → falls a b) :
    (popped first s hashes).Pairwise fun hash other => hash ≠ other →
      ∃ torrent torrent', s.torrents hash = some torrent ∧ s.torrents other = some torrent' ∧
        falls torrent torrent' := by
  rw [popped, List.pairwise_map]
  apply (torrentQueue first s hashes).sorted.imp_of_mem
  intro entry entry' mem mem' before differ
  obtain ⟨hash, torrent, _, found, _, rfl⟩ := (mem_torrentQueue first entry).mp mem
  obtain ⟨hash', torrent', _, found', _, rfl⟩ := (mem_torrentQueue first entry').mp mem'
  simp only [ofLex_toLex, s.keyed hash torrent found, s.keyed hash' torrent' found'] at differ ⊢
  refine ⟨torrent, torrent', found, found', exactly torrent torrent' before ?_⟩
  intro same
  subst same
  rw [← s.keyed hash torrent found, ← s.keyed hash' torrent found'] at differ
  exact differ rfl

theorem filter_popped [DecidableEq Hash] (s : Session Hash Address) (hashes : List Hash) :
    s.queue.filter (· ∈ popped first s hashes) = s.queue.filter (selected s hashes) ∧
      s.queue.filter (· ∉ popped first s hashes) = s.queue.filter (!selected s hashes ·) := by
  constructor
  · apply List.filter_congr
    intro hash _
    simp [mem_popped]
  · apply List.filter_congr
    intro hash _
    simp [mem_popped]

end PriorityQueue

theorem popped_rising [LinearOrder Address] (s : Session Hash Address)
    (hashes : List Hash) :
    (popped LeastFirst s hashes).Pairwise fun x y => y ≠ x → Above s y x := by
  have rises := popped_pairwise LeastFirst s hashes (· < ·) (fun a b before differ => by
    simp only [LeastFirst, Prod.Lex.toLex_le_toLex, lt_irrefl, true_and, false_or] at before
    exact lt_of_le_of_ne before differ)
  apply rises.imp
  intro hash other below differ
  obtain ⟨torrent, torrent', found, found', less⟩ := below differ.symm
  exact ⟨torrent', torrent, found', found, less⟩

theorem popped_falling [LinearOrder Address] (s : Session Hash Address)
    (hashes : List Hash) :
    (popped GreatestFirst s hashes).Pairwise fun x y => x ≠ y → Above s x y :=
  popped_pairwise GreatestFirst s hashes (fun torrent lower => lower < torrent)
    (fun a b before differ => by
      simp only [GreatestFirst, Prod.Lex.toLex_le_toLex, lt_irrefl, true_and, false_or] at before
      exact lt_of_le_of_ne before differ.symm)

variable [DecidableEq Hash]

theorem foldl_top_queue (moved : List Hash) (t : Session Hash Address) :
    (moved.foldl torrentQueuePositionTop t).queue = moved.foldl moveToFront t.queue := by
  induction moved generalizing t with
  | nil => rfl
  | cons hash moved ih => exact ih _

theorem foldl_bottom_queue (moved : List Hash) (t : Session Hash Address) :
    (moved.foldl torrentQueuePositionBottom t).queue = moved.foldl moveToBack t.queue ∧
      (moved.foldl torrentQueuePositionBottom t).loadedMetadata = t.loadedMetadata := by
  induction moved generalizing t with
  | nil => exact ⟨rfl, rfl⟩
  | cons hash moved ih => exact ih _

theorem mem_foldl_moveToBack (queue moved : List Hash) (hash : Hash) (once : queue.Nodup) :
    hash ∈ moved.foldl moveToBack queue ↔ hash ∈ queue := by
  induction moved generalizing queue with
  | nil => rfl
  | cons x moved ih =>
    rw [List.foldl_cons, ih _ (moveToBack_nodup once x), moveToBack_eq_reverse once,
      List.mem_reverse, mem_moveToFront, List.mem_reverse]

theorem foldl_moveToBack_absent (queue moved : List Hash) (absent : ∀ x ∈ moved, x ∉ queue) :
    moved.foldl moveToBack queue = queue := by
  induction moved with
  | nil => rfl
  | cons x moved ih =>
    rw [List.foldl_cons, moveToBack_absent (absent x (List.mem_cons_self ..))]
    exact ih fun y mem => absent y (List.mem_cons_of_mem x mem)

variable [LinearOrder Address]

theorem topTorrentsPriority_queue (s : Session Hash Address) (hashes : List Hash) :
    (topTorrentsPriority s hashes).queue =
      (popped LeastFirst s hashes).foldl moveToFront s.queue := by
  rw [← foldl_top_queue, popped, List.foldl_map]
  rfl

theorem bottomTorrentsPriority_queue (hidden : ∀ hash ∈ s.loadedMetadata, hash ∉ s.queue)
    (hashes : List Hash) : (bottomTorrentsPriority s hashes).queue =
      (popped GreatestFirst s hashes).foldl moveToBack s.queue := by
  have moved := foldl_bottom_queue (popped GreatestFirst s hashes) s
  rw [popped, List.foldl_map] at moved
  obtain ⟨queue, same⟩ := moved
  rw [bottomTorrentsPriority, (foldl_bottom_queue _ _).1, queue, same]
  apply foldl_moveToBack_absent
  intro hash mem
  rw [← List.foldl_map, mem_foldl_moveToBack _ _ _ s.once]
  exact hidden hash mem

/-- Both moves keep the order of the selected torrents exactly if that order is the one of the
    falling addresses: every handle says that its position is 0. -/
theorem order_kept_iff (s : Session Hash Address) (hashes : List Hash)
    (hidden : ∀ hash ∈ s.loadedMetadata, hash ∉ s.queue) :
    (KeptAtTop s hashes (topTorrentsPriority s hashes) ↔ Falling s hashes) ∧
      (KeptAtBottom s hashes (bottomTorrentsPriority s hashes) ↔ Falling s hashes) := by
  obtain ⟨chosen, others⟩ := filter_popped LeastFirst s hashes
  obtain ⟨chosen', others'⟩ := filter_popped GreatestFirst s hashes
  constructor
  · have front := front_kept_iff (Above s) s.once _
      (List.pairwise_reverse.mpr (popped_rising s hashes))
    rw [chosen, others] at front
    rw [KeptAtTop, topTorrentsPriority_queue]
    exact front
  · have back := back_kept_iff (Above s) s.once _ (popped_falling s hashes)
    rw [chosen', others'] at back
    rw [KeptAtBottom, bottomTorrentsPriority_queue hidden]
    exact back

def twoTorrents (low : Bool) : Session Bool Nat where
  torrents hash := some (if hash = low then 1 else 2)
  handleAt torrent := ⟨if torrent = 1 then low else !low, .downloading, 0⟩
  queue := [false, true]
  loadedMetadata := []
  keyed := by
    intro hash torrent found
    cases low <;> cases hash <;> cases found <;> rfl
  once := by decide

theorem falling_kept :
    KeptAtTop (twoTorrents true) [false, true]
      (topTorrentsPriority (twoTorrents true) [false, true]) ∧
    KeptAtBottom (twoTorrents true) [false, true]
      (bottomTorrentsPriority (twoTorrents true) [false, true]) := by
  have falls : Falling (twoTorrents true) [false, true] := by
    have queue : (twoTorrents true).queue.filter (selected (twoTorrents true) [false, true]) =
        [false, true] := by decide
    rw [Falling, queue]
    exact List.pairwise_pair.mpr ⟨2, 1, rfl, rfl, by decide⟩
  have kept := order_kept_iff (twoTorrents true) [false, true] (by decide)
  exact ⟨kept.1.mpr falls, kept.2.mpr falls⟩

/-- Both are moved, and end the other way round. -/
theorem rising_turned_round :
    ¬ ∀ (s : Session Bool Nat) (hashes : List Bool),
      (∀ hash ∈ s.loadedMetadata, hash ∉ s.queue) →
        KeptAtTop s hashes (topTorrentsPriority s hashes) ∧
          KeptAtBottom s hashes (bottomTorrentsPriority s hashes) := by
  intro always
  have kept := (always (twoTorrents false) [false, true] (by decide)).1
  have turned : (topTorrentsPriority (twoTorrents false) [false, true]).queue =
      [true, false] := by decide
  rw [KeptAtTop, turned] at kept
  exact absurd kept (by decide)

end QueueOrder
