import Mathlib.Data.List.Pairwise

/- Hash tables whose nodes remember the hash of their key. A node is found under a key with the
   same hash that is equal to its own, so equal keys with different hashes are strangers. -/
namespace HashTable

variable {Key Value : Type}

/-- What a type of keys brings along: its hash for a seed, and an equality. -/
structure Hashing (Key : Type) where
  hash : Key → UInt32 → UInt32
  same : Key → Key → Bool
  equivalence : Equivalence fun a b => same a b = true

structure Node (Key Value : Type) where
  h : UInt32
  key : Key
  value : Value

structure Table (Key Value : Type) where
  seed : UInt32
  nodes : List (Node Key Value)

variable (hashing : Hashing Key)

def sameKey (t : Table Key Value) (key : Key) (node : Node Key Value) : Bool :=
  node.h == hashing.hash key t.seed && hashing.same node.key key

def findNode (t : Table Key Value) (key : Key) : Option (Node Key Value) :=
  t.nodes.find? (sameKey hashing t key)

def value (t : Table Key Value) (key : Key) : Option Value :=
  (findNode hashing t key).map Node.value

def renew (t : Table Key Value) (key : Key) (x : Value) (node : Node Key Value) :
    Node Key Value :=
  if sameKey hashing t key node then { node with value := x } else node

def insert (t : Table Key Value) (key : Key) (x : Value) : Table Key Value :=
  match findNode hashing t key with
  | some _ => { t with nodes := t.nodes.map (renew hashing t key x) }
  | none => { t with nodes := ⟨hashing.hash key t.seed, key, x⟩ :: t.nodes }

def take (t : Table Key Value) (key : Key) : Table Key Value × Option Value :=
  ({ t with nodes := t.nodes.eraseP (sameKey hashing t key) }, value hashing t key)

/-- Every node has the hash of its key, and no two keys are equal. -/
structure WellFormed (t : Table Key Value) : Prop where
  hashed : ∀ node ∈ t.nodes, node.h = hashing.hash node.key t.seed
  apart : t.nodes.Pairwise fun a b => hashing.same a.key b.key = false

/-- The key is hashed like every key of the table that it is equal to. -/
def Agrees (t : Table Key Value) (key : Key) : Prop :=
  ∀ node ∈ t.nodes, hashing.same node.key key = true →
    hashing.hash node.key t.seed = hashing.hash key t.seed

variable {hashing} {t : Table Key Value} {key : Key} {node other : Node Key Value}

theorem WellFormed.same_key (wellFormed : WellFormed hashing t) (mem : node ∈ t.nodes)
    (mem' : other ∈ t.nodes) (same : hashing.same node.key other.key = true) : node = other := by
  have symmetric : Std.Symm fun a b : Node Key Value => hashing.same a.key b.key = false :=
    ⟨fun a b differ => by
      rw [← Bool.not_eq_true] at differ ⊢
      exact fun same => differ (hashing.equivalence.symm same)⟩
  by_contra differ
  have apart := wellFormed.apart.forall mem mem' differ
  rw [same] at apart
  cases apart

theorem WellFormed.findNode_iff (wellFormed : WellFormed hashing t) (key : Key) :
    findNode hashing t key = some node ↔ node ∈ t.nodes ∧ hashing.same node.key key = true ∧
      hashing.hash node.key t.seed = hashing.hash key t.seed := by
  have matching : ∀ other ∈ t.nodes, sameKey hashing t key other = true ↔
      hashing.same other.key key = true ∧
        hashing.hash other.key t.seed = hashing.hash key t.seed := by
    intro other mem
    rw [sameKey, Bool.and_eq_true, beq_iff_eq, wellFormed.hashed other mem, and_comm]
  constructor
  · intro found
    have mem := List.mem_of_find?_eq_some found
    exact ⟨mem, (matching node mem).mp (List.find?_some found)⟩
  · intro both
    obtain ⟨mem, same⟩ := both
    have there : (findNode hashing t key).isSome := by
      rw [findNode, List.find?_isSome]
      exact ⟨node, mem, (matching node mem).mpr same⟩
    obtain ⟨other, found⟩ := Option.isSome_iff_exists.mp there
    have mem' := List.mem_of_find?_eq_some found
    have same' := (matching other mem').mp (List.find?_some found)
    rw [found, wellFormed.same_key mem' mem
      (hashing.equivalence.trans same'.1 (hashing.equivalence.symm same.1))]

theorem WellFormed.take (wellFormed : WellFormed hashing t) (key : Key) :
    WellFormed hashing (take hashing t key).1 := by
  have fewer : ((t.nodes.eraseP (sameKey hashing t key))).Sublist t.nodes := List.eraseP_sublist
  constructor
  · intro node mem
    exact wellFormed.hashed node (fewer.subset mem)
  · exact wellFormed.apart.sublist fewer

theorem renew_keeps (t : Table Key Value) (key : Key) (x : Value) (node : Node Key Value) :
    (renew hashing t key x node).h = node.h ∧ (renew hashing t key x node).key = node.key := by
  unfold renew
  split
  · exact ⟨rfl, rfl⟩
  · exact ⟨rfl, rfl⟩

theorem WellFormed.insert (wellFormed : WellFormed hashing t) (agrees : Agrees hashing t key)
    (x : Value) : WellFormed hashing (insert hashing t key x) := by
  unfold HashTable.insert
  split
  · constructor
    · intro node mem
      obtain ⟨old, mem', rfl⟩ := List.mem_map.mp mem
      rw [(renew_keeps t key x old).1, (renew_keeps t key x old).2]
      exact wellFormed.hashed old mem'
    · rw [List.pairwise_map]
      simp only [(renew_keeps t key x _).2]
      exact wellFormed.apart
  · rename_i absent
    constructor
    · intro node mem
      rcases List.mem_cons.mp mem with rfl | old
      · rfl
      · exact wellFormed.hashed node old
    · apply List.pairwise_cons.mpr
      constructor
      · intro node mem
        rw [← Bool.not_eq_true]
        intro same
        have named := hashing.equivalence.symm same
        have found := (wellFormed.findNode_iff key).mpr ⟨mem, named, agrees node mem named⟩
        rw [absent] at found
        cases found
      · exact wellFormed.apart

theorem WellFormed.mem_take_iff (wellFormed : WellFormed hashing t)
    (found : findNode hashing t key = some node) :
    other ∈ (HashTable.take hashing t key).1.nodes ↔ other ∈ t.nodes ∧ other ≠ node := by
  have mem := List.mem_of_find?_eq_some found
  have named := List.find?_some found
  obtain ⟨first, before, after, _, named', split, left⟩ := List.exists_of_eraseP mem named
  have both (a : Node Key Value) (matching : sameKey hashing t key a = true) :
      hashing.same a.key key = true := by
    rw [sameKey, Bool.and_eq_true] at matching
    exact matching.2
  have mem' : first ∈ t.nodes := by
    rw [split]
    exact List.mem_append_right _ List.mem_cons_self
  have same : first = node := wellFormed.same_key mem' mem
    (hashing.equivalence.trans (both first named') (hashing.equivalence.symm (both node named)))
  subst same
  have apart := wellFormed.apart
  rw [split, List.pairwise_append, List.pairwise_cons] at apart
  obtain ⟨_, ⟨later, _⟩, earlier⟩ := apart
  have reflexive := hashing.equivalence.refl first.key
  rw [HashTable.take, left, split]
  simp only [List.mem_append, List.mem_cons]
  constructor
  · intro either
    rcases either with old | new
    · refine ⟨Or.inl old, ?_⟩
      intro same
      subst same
      exact Bool.false_ne_true ((earlier other old other List.mem_cons_self).symm.trans reflexive)
    · refine ⟨Or.inr (Or.inr new), ?_⟩
      intro same
      subst same
      exact Bool.false_ne_true ((later other new).symm.trans reflexive)
  · intro stays
    rcases stays.1 with old | here | new
    · exact Or.inl old
    · exact absurd here stays.2
    · exact Or.inr new

end HashTable
