import QtPlayer.Library.HashTable
import QtPlayer.Library.TransitionRuns

/- infohash.cpp, and Session::findTorrent and deleteTorrent over the QHash of the torrents. Qt's
   hash of a string is a parameter. -/
namespace InfoHashes
open HashTable TransitionRuns

abbrev QString := List UInt16

def toLatin1 (text : QString) : List UInt8 :=
  text.map fun c => if c < 256 then c.toUInt8 else 63

structure Sha1Hash where
  bytes : List UInt8
  size : bytes.length = 20
  deriving DecidableEq

def Sha1Hash.zero : Sha1Hash := ⟨List.replicate 20 0, List.length_replicate⟩

def hexDigit (d : UInt8) : UInt16 := if d < 10 then 48 + d.toUInt16 else 87 + d.toUInt16

def to_hex (bytes : List UInt8) : QString :=
  bytes.flatMap fun b : UInt8 => [hexDigit (b >>> 4), hexDigit (b &&& 15)]

def hex_to_int (c : UInt8) : Option UInt8 :=
  if 48 ≤ c ∧ c ≤ 57 then some (c - 48)
  else if 65 ≤ c ∧ c ≤ 70 then some (c - 55)
  else if 97 ≤ c ∧ c ≤ 102 then some (c - 87)
  else none

/-- libtorrent::from_hex: what it answers, and what is in the buffer then. -/
def from_hex : List UInt8 → List UInt8 → Bool × List UInt8
  | t1 :: t2 :: input, byte :: out =>
    match hex_to_int t1 with
    | none => (false, byte :: out)
    | some high =>
      match hex_to_int t2 with
      | none => (false, (high <<< 4) :: out)
      | some low => ((from_hex input out).1, (high <<< 4 ||| low) :: (from_hex input out).2)
  | _, out => (true, out)

theorem from_hex_length (input out : List UInt8) : (from_hex input out).2.length = out.length := by
  induction input, out using from_hex.induct with
  | case1 t1 t2 input byte out bad => simp [from_hex, bad]
  | case2 t1 t2 input byte out high good bad => simp [from_hex, good, bad]
  | case3 t1 t2 input byte out high good low good' ih => simp [from_hex, good, good', ih]
  | case4 input out other => simp [from_hex]

structure InfoHash where
  valid : Bool
  nativeHash : Sha1Hash
  hashString : QString

def InfoHash.null : InfoHash := ⟨false, .zero, []⟩

def InfoHash.ofHash (nativeHash : Sha1Hash) : InfoHash :=
  ⟨true, nativeHash, to_hex nativeHash.bytes⟩

def InfoHash.ofString (hashString : QString) : InfoHash :=
  let raw := toLatin1 hashString
  if raw.length = 40 then
    let read := from_hex raw Sha1Hash.zero.bytes
    ⟨read.1, ⟨read.2, (from_hex_length _ _).trans Sha1Hash.zero.size⟩, hashString⟩
  else ⟨false, .zero, hashString⟩

def InfoHash.same (a b : InfoHash) : Bool := decide (a.nativeHash = b.nativeHash)

def qHash (stringHash : QString → UInt32 → UInt32) (key : InfoHash) (seed : UInt32) : UInt32 :=
  stringHash key.hashString seed

/- The digits of a text. -/

def leadingDigits : List UInt8 → List UInt8
  | [] => []
  | c :: rest =>
    match hex_to_int c with
    | none => []
    | some d => d :: leadingDigits rest

/-- Only a text of 40 characters is read. -/
def digits (text : QString) : List UInt8 :=
  if text.length = 40 then leadingDigits (toLatin1 text) else []

def padded (size : Nat) (read : List UInt8) : List UInt8 :=
  read ++ List.replicate (size - read.length) 0

def nibbles (bytes : List UInt8) : List UInt8 := bytes.flatMap fun b : UInt8 => [b >>> 4, b &&& 15]

theorem every_byte {P : UInt8 → Prop} (all : ∀ n < 256, P (UInt8.ofNat n)) (b : UInt8) : P b := by
  rw [← UInt8.ofNat_toNat (x := b)]
  exact all b.toNat b.toNat_lt

theorem every_nibble {P : UInt8 → Prop} (all : ∀ n < 16, P (UInt8.ofNat n)) {d : UInt8}
    (small : d < 16) : P d := by
  rw [← UInt8.ofNat_toNat (x := d)]
  exact all d.toNat (UInt8.lt_iff_toNat_lt.mp small)

theorem byte_of_nibbles (b : UInt8) : (b >>> 4) <<< 4 ||| (b &&& 15) = b := by
  apply every_byte _ b
  decide +kernel

theorem nibbles_of_byte {high low : UInt8} (small : high < 16) (small' : low < 16) :
    (high <<< 4 ||| low) >>> 4 = high ∧ (high <<< 4 ||| low) &&& 15 = low := by
  apply every_nibble _ small
  intro n below
  apply every_nibble _ small'
  revert n
  decide

theorem hex_to_int_small {c d : UInt8} (digit : hex_to_int c = some d) : d < 16 := by
  have small : ∀ d ∈ hex_to_int c, d < 16 := by
    apply every_byte _ c
    decide +kernel
  exact small d digit

theorem nibble_small (b : UInt8) : b >>> 4 < 16 ∧ b &&& 15 < 16 := by
  apply every_byte _ b
  decide +kernel

theorem hex_to_int_hexDigit {d : UInt8} (small : d < 16) :
    hex_to_int (hexDigit d).toUInt8 = some d ∧ hexDigit d < 256 := by
  apply every_nibble _ small
  decide

theorem nibbles_injective {bytes bytes' : List UInt8} (same : nibbles bytes = nibbles bytes') :
    bytes = bytes' := by
  induction bytes generalizing bytes' with
  | nil =>
    cases bytes' with
    | nil => rfl
    | cons byte' rest' => simp [nibbles] at same
  | cons byte rest ih =>
    cases bytes' with
    | nil => simp [nibbles] at same
    | cons byte' rest' =>
      simp only [nibbles, List.flatMap_cons, List.cons_append, List.nil_append,
        List.cons.injEq] at same
      obtain ⟨high, low, tail⟩ := same
      rw [← byte_of_nibbles byte, ← byte_of_nibbles byte', high, low, ih tail]

theorem nibbles_zero (n : Nat) : nibbles (List.replicate n 0) = List.replicate (2 * n) 0 := by
  induction n with
  | zero => rfl
  | succ n ih =>
    rw [Nat.mul_succ, List.replicate_succ, List.replicate_succ, List.replicate_succ, ← ih]
    rfl

theorem padded_cons (size : Nat) (d : UInt8) (read : List UInt8) :
    padded (size + 1) (d :: read) = d :: padded size read := by
  simp [padded]

/-- from_hex leaves the digits that it read in a buffer of zeros, and answers whether these are
    all of them. -/
theorem from_hex_spec (n : Nat) (input : List UInt8) (even : input.length = 2 * n) :
    nibbles (from_hex input (List.replicate n 0)).2 = padded (2 * n) (leadingDigits input) ∧
      ((from_hex input (List.replicate n 0)).1 = true ↔
        (leadingDigits input).length = 2 * n) := by
  induction n generalizing input with
  | zero =>
    rw [List.length_eq_zero_iff.mp even]
    exact ⟨rfl, by simp [from_hex, leadingDigits]⟩
  | succ n ih =>
    match input, even with
    | t1 :: t2 :: input, even =>
      have even' : input.length = 2 * n := by
        simp only [List.length_cons] at even
        omega
      have zeros := nibbles_zero n
      rw [List.replicate_succ, from_hex, leadingDigits, Nat.mul_succ]
      cases first : hex_to_int t1 with
      | none =>
        have all := nibbles_zero (n + 1)
        rw [List.replicate_succ, Nat.mul_succ] at all
        simp [padded, all]
      | some high =>
        rw [leadingDigits]
        have small := hex_to_int_small first
        cases second : hex_to_int t2 with
        | none =>
          have halves := nibbles_of_byte small (show (0 : UInt8) < 16 by decide)
          rw [UInt8.or_zero] at halves
          constructor
          · rw [padded_cons]
            rw [nibbles] at zeros
            simp only [nibbles, List.flatMap_cons, halves.1, halves.2, List.cons_append,
              List.nil_append, zeros, padded, List.length_nil, Nat.sub_zero, List.replicate_succ]
          · simp
        | some low =>
          have halves := nibbles_of_byte small (hex_to_int_small second)
          have rest := ih input even'
          constructor
          · rw [padded_cons, padded_cons, ← rest.1]
            simp only [nibbles, List.flatMap_cons, halves.1, halves.2, List.cons_append,
              List.nil_append]
          · simp only [List.length_cons, rest.2]
            omega

theorem leadingDigits_to_hex (bytes : List UInt8) :
    leadingDigits (toLatin1 (to_hex bytes)) = nibbles bytes := by
  induction bytes with
  | nil => rfl
  | cons byte rest ih =>
    have high := hex_to_int_hexDigit (nibble_small byte).1
    have low := hex_to_int_hexDigit (nibble_small byte).2
    simp only [to_hex, toLatin1, nibbles, List.flatMap_cons, List.cons_append, List.nil_append,
      List.map_cons, leadingDigits, high, low, if_true]
    rw [to_hex, toLatin1, nibbles] at ih
    rw [ih]

theorem length_of_pairs {α : Type} (pair : UInt8 → List α) (two : ∀ b, (pair b).length = 2)
    (bytes : List UInt8) : (bytes.flatMap pair).length = 2 * bytes.length := by
  induction bytes with
  | nil => rfl
  | cons byte rest ih =>
    rw [List.flatMap_cons, List.length_append, two, ih, List.length_cons]
    omega

theorem nibbles_length (bytes : List UInt8) : (nibbles bytes).length = 2 * bytes.length :=
  length_of_pairs _ (fun _ => rfl) bytes

theorem to_hex_length (bytes : List UInt8) : (to_hex bytes).length = 2 * bytes.length :=
  length_of_pairs _ (fun _ => rfl) bytes

/- Every InfoHash is the one of its text. -/

theorem ofString_spec (text : QString) :
    nibbles (InfoHash.ofString text).nativeHash.bytes = padded 40 (digits text) ∧
      ((InfoHash.ofString text).valid = true ↔ (digits text).length = 40) := by
  have raw : (toLatin1 text).length = text.length := List.length_map ..
  unfold InfoHash.ofString digits
  simp only [raw]
  by_cases whole : text.length = 40
  · have read := from_hex_spec 20 (toLatin1 text) (raw.trans whole)
    simp only [if_pos whole]
    exact read
  · simp only [if_neg whole]
    exact ⟨nibbles_zero 20, by simp⟩

theorem hashString_ofString (text : QString) : (InfoHash.ofString text).hashString = text := by
  unfold InfoHash.ofString
  dsimp only
  split <;> rfl

theorem same_iff (a b : InfoHash) :
    InfoHash.same a b = true ↔ nibbles a.nativeHash.bytes = nibbles b.nativeHash.bytes := by
  rw [InfoHash.same, decide_eq_true_eq]
  constructor
  · intro same
    rw [same]
  · intro same
    have bytes := nibbles_injective same
    cases ha : a.nativeHash
    cases hb : b.nativeHash
    rw [ha, hb] at bytes
    subst bytes
    rfl

theorem digits_to_hex (nativeHash : Sha1Hash) :
    digits (to_hex nativeHash.bytes) = nibbles nativeHash.bytes := by
  have size := to_hex_length nativeHash.bytes
  rw [nativeHash.size] at size
  rw [digits, if_pos size, leadingDigits_to_hex]

theorem ofString_to_hex (nativeHash : Sha1Hash) :
    InfoHash.ofString (to_hex nativeHash.bytes) = .ofHash nativeHash := by
  obtain ⟨read, valid⟩ := ofString_spec (to_hex nativeHash.bytes)
  have length := nibbles_length nativeHash.bytes
  rw [nativeHash.size] at length
  rw [digits_to_hex] at read valid
  rw [padded, length, Nat.sub_self, List.replicate_zero, List.append_nil] at read
  have same := (same_iff _ (.ofHash nativeHash)).mpr read
  rw [InfoHash.same, decide_eq_true_eq] at same
  have text := hashString_ofString (to_hex nativeHash.bytes)
  cases made : InfoHash.ofString (to_hex nativeHash.bytes)
  rw [made] at same valid text
  rw [InfoHash.ofHash, InfoHash.mk.injEq]
  exact ⟨valid.mpr length, same, text⟩

inductive Construction where
  | null
  | ofHash (nativeHash : Sha1Hash)
  | ofString (hashString : QString)

def Construction.infoHash : Construction → InfoHash
  | .null => .null
  | .ofHash nativeHash => .ofHash nativeHash
  | .ofString hashString => .ofString hashString

def Construction.text : Construction → QString
  | .null => []
  | .ofHash nativeHash => to_hex nativeHash.bytes
  | .ofString hashString => hashString

theorem infoHash_eq (c : Construction) : c.infoHash = .ofString c.text := by
  cases c with
  | null => rfl
  | ofHash nativeHash => exact (ofString_to_hex nativeHash).symm
  | ofString hashString => rfl

variable (stringHash : QString → UInt32 → UInt32)

/-- Equal keys are equally valid and have equal hashes. -/
def Lawful (a b : InfoHash) : Prop :=
  a.same b = true → a.valid = b.valid ∧ ∀ seed, qHash stringHash a seed = qHash stringHash b seed

/-- The texts spell different digits, or are the same, or both spell 40 digits or both do not and
    Qt's hash cannot tell them apart. -/
def Separated (text other : QString) : Prop :=
  padded 40 (digits text) ≠ padded 40 (digits other) ∨ text = other ∨
    (((digits text).length = 40 ↔ (digits other).length = 40) ∧
      ∀ seed, stringHash text seed = stringHash other seed)

variable {stringHash}

theorem lawful_iff (a b : Construction) :
    Lawful stringHash a.infoHash b.infoHash ↔ Separated stringHash a.text b.text := by
  obtain ⟨read, valid⟩ := ofString_spec a.text
  obtain ⟨read', valid'⟩ := ofString_spec b.text
  unfold Lawful Separated
  rw [infoHash_eq, infoHash_eq, same_iff, read, read', Bool.eq_iff_iff, valid, valid']
  simp only [qHash, hashString_ofString]
  constructor
  · intro lawful
    by_cases same : padded 40 (digits a.text) = padded 40 (digits b.text)
    · exact Or.inr (Or.inr (lawful same))
    · exact Or.inl same
  · intro separated same
    rcases separated with differ | equal | collide
    · exact absurd same differ
    · rw [equal]
      exact ⟨Iff.rfl, fun _ => rfl⟩
    · exact collide

/- The torrents of a session. -/

/-- `hash` is m_hash, which the constructor makes of the native torrent's hash. -/
structure TorrentHandle where
  address : Nat
  hash : InfoHash

abbrev Torrents := Table InfoHash TorrentHandle

def hashing (stringHash : QString → UInt32 → UInt32) : Hashing InfoHash where
  hash := qHash stringHash
  same := InfoHash.same
  equivalence := by
    simp only [InfoHash.same, decide_eq_true_eq]
    exact ⟨fun _ => rfl, Eq.symm, Eq.trans⟩

section Calls

variable (stringHash : QString → UInt32 → UInt32)

def createTorrentHandle (torrents : Torrents) (address : Nat) (nativeHash : Sha1Hash) :
    Torrents :=
  let torrent : TorrentHandle := ⟨address, .ofHash nativeHash⟩
  insert (hashing stringHash) torrents torrent.hash torrent

def findTorrent (torrents : Torrents) (hash : InfoHash) : Option TorrentHandle :=
  value (hashing stringHash) torrents hash

/-- The string becomes an InfoHash. -/
def deleteTorrent (torrents : Torrents) (hash : QString) : Torrents × Bool :=
  let taken := take (hashing stringHash) torrents (.ofString hash)
  (taken.1, taken.2.isSome)

inductive Call where
  | createTorrentHandle (address : Nat) (nativeHash : Sha1Hash)
  | deleteTorrent (hash : QString)

def after (torrents : Torrents) : Call → Torrents
  | .createTorrentHandle address nativeHash =>
    createTorrentHandle stringHash torrents address nativeHash
  | .deleteTorrent hash => (deleteTorrent stringHash torrents hash).1

def sessions : System Torrents Call where
  start t := t.nodes = []
  step s call t := t = after stringHash s call

structure Spells (text : QString) (hash : InfoHash) : Prop where
  accepted : (InfoHash.ofString text).valid = true
  named : (InfoHash.ofString text).same hash = true

/-- Under the text the torrent is found, and it is the one that is deleted. -/
structure Found (t : Torrents) (torrent : TorrentHandle) (text : QString) : Prop where
  found : findTorrent stringHash t (.ofString text) = some torrent
  deleted : (deleteTorrent stringHash t text).2 = true
  gone : ∀ node ∈ (deleteTorrent stringHash t text).1.nodes, node.value ≠ torrent

/-- Every torrent stands under its own hash, and that one was made of a native hash. -/
structure Listed (t : Torrents) : Prop where
  wellFormed : WellFormed (hashing stringHash) t
  native : ∀ node ∈ t.nodes, ∃ nativeHash, node.key = .ofHash nativeHash
  own : ∀ node ∈ t.nodes, node.value.hash = node.key

end Calls

variable {t : Torrents} {node : Node InfoHash TorrentHandle}

theorem eq_of_same {a b : Sha1Hash} (same : (InfoHash.ofHash a).same (.ofHash b) = true) : a = b :=
  of_decide_eq_true same

theorem create_listed (listed : Listed stringHash t) (address : Nat) (nativeHash : Sha1Hash) :
    Listed stringHash (createTorrentHandle stringHash t address nativeHash) := by
  have agrees : Agrees (hashing stringHash) t (.ofHash nativeHash) := by
    intro node mem same
    obtain ⟨old, key⟩ := listed.native node mem
    rw [key] at same ⊢
    rw [eq_of_same same]
  have wellFormed := listed.wellFormed.insert agrees ⟨address, .ofHash nativeHash⟩
  have entries : ∀ node ∈ (createTorrentHandle stringHash t address nativeHash).nodes,
      (∃ nativeHash, node.key = .ofHash nativeHash) ∧ node.value.hash = node.key := by
    intro node mem
    unfold createTorrentHandle HashTable.insert at mem
    dsimp only at mem
    split at mem
    · obtain ⟨old, mem', rfl⟩ := List.mem_map.mp mem
      obtain ⟨former, key⟩ := listed.native old mem'
      have own := listed.own old mem'
      unfold renew
      split
      · rename_i named
        rw [sameKey, Bool.and_eq_true, key] at named
        rw [eq_of_same named.2] at key
        exact ⟨⟨nativeHash, key⟩, key.symm⟩
      · exact ⟨⟨former, key⟩, own⟩
    · rcases List.mem_cons.mp mem with new | old
      · rw [new]
        exact ⟨⟨nativeHash, rfl⟩, rfl⟩
      · exact ⟨listed.native node old, listed.own node old⟩
  exact ⟨wellFormed, fun node mem => (entries node mem).1, fun node mem => (entries node mem).2⟩

theorem delete_listed (listed : Listed stringHash t) (hash : QString) :
    Listed stringHash (deleteTorrent stringHash t hash).1 := by
  have fewer : (deleteTorrent stringHash t hash).1.nodes ⊆ t.nodes := List.eraseP_sublist.subset
  constructor
  · exact listed.wellFormed.take _
  · intro node mem
    exact listed.native node (fewer mem)
  · intro node mem
    exact listed.own node (fewer mem)

theorem listed_reachable (reach : Reachable (sessions stringHash) t) : Listed stringHash t := by
  apply reachable_invariant _ _ reach
  · intro t empty
    have none : t.nodes = [] := empty
    constructor
    · constructor <;> simp [none]
    · simp [none]
    · simp [none]
  · intro s call t listed taken
    have same : t = after stringHash s call := taken
    rw [same]
    cases call with
    | createTorrentHandle address nativeHash => exact create_listed listed address nativeHash
    | deleteTorrent hash => exact delete_listed listed hash

/-- A torrent is found under a spelling that Qt hashes like the one in lower case. -/
theorem found_iff (listed : Listed stringHash t) (mem : node ∈ t.nodes) {text : QString}
    (spells : Spells text node.value.hash) :
    Found stringHash t node.value text ↔
      stringHash text t.seed = stringHash (to_hex node.value.hash.nativeHash.bytes) t.seed := by
  obtain ⟨nativeHash, key⟩ := listed.native node mem
  have own := listed.own node mem
  have lower : qHash stringHash node.key t.seed =
      stringHash (to_hex node.value.hash.nativeHash.bytes) t.seed := by
    rw [own, key]
    rfl
  have written : qHash stringHash (.ofString text) t.seed = stringHash text t.seed := by
    rw [qHash, hashString_ofString]
  constructor
  · intro found
    obtain ⟨other, there, value⟩ := Option.map_eq_some_iff.mp found.found
    obtain ⟨mem', same, sameHash⟩ := (listed.wellFormed.findNode_iff (.ofString text)).mp there
    have sameKey : other.key = node.key := by
      rw [← listed.own other mem', value, own]
    have sameHash' : qHash stringHash other.key t.seed = qHash stringHash (.ofString text) t.seed :=
      sameHash
    rw [sameKey, lower, written] at sameHash'
    exact sameHash'.symm
  · intro collide
    have same := (hashing stringHash).equivalence.symm spells.named
    rw [own] at same
    have there : findNode (hashing stringHash) t (.ofString text) = some node := by
      apply (listed.wellFormed.findNode_iff (.ofString text)).mpr
      refine ⟨mem, same, ?_⟩
      change qHash stringHash node.key t.seed = qHash stringHash (.ofString text) t.seed
      rw [lower, written, collide]
    have found : findTorrent stringHash t (.ofString text) = some node.value := by
      rw [findTorrent, value, there]
      rfl
    refine ⟨found, ?_, ?_⟩
    · have taken : (deleteTorrent stringHash t text).2 =
          (findTorrent stringHash t (.ofString text)).isSome := rfl
      rw [taken, found]
      rfl
    · intro other mem' sameValue
      obtain ⟨old, differs⟩ := (listed.wellFormed.mem_take_iff there).mp mem'
      have sameKey : other.key = node.key := by
        rw [← listed.own other old, sameValue, own]
      apply differs
      apply listed.wellFormed.same_key old mem
      rw [sameKey]
      exact (hashing stringHash).equivalence.refl _

/-- Two keys are a lawful pair exactly if their texts are told apart or hashed alike. What to_hex
    writes is read back, and a torrent is found under another spelling of its hash exactly if Qt
    hashes that like the spelling in lower case. -/
theorem lawful_key_iff (stringHash : QString → UInt32 → UInt32) :
    (∀ a b : Construction, Lawful stringHash a.infoHash b.infoHash ↔
      Separated stringHash a.text b.text) ∧
    (∀ nativeHash, (InfoHash.ofString (InfoHash.ofHash nativeHash).hashString).same
      (.ofHash nativeHash) = true) ∧
    ∀ (t : Torrents) (node : Node InfoHash TorrentHandle) (text : QString),
      Reachable (sessions stringHash) t → node ∈ t.nodes → Spells text node.value.hash →
        (Found stringHash t node.value text ↔ stringHash text t.seed =
          stringHash (to_hex node.value.hash.nativeHash.bytes) t.seed) := by
  constructor
  · exact lawful_iff
  · constructor
    · intro nativeHash
      have read : InfoHash.ofString (InfoHash.ofHash nativeHash).hashString =
          .ofHash nativeHash := ofString_to_hex nativeHash
      rw [read]
      exact (hashing stringHash).equivalence.refl _
    · intro t node text reach mem spells
      exact found_iff (listed_reachable reach) mem spells

/-- Qt's hash of a string where it has no hardware to do it. -/
def qtHash (text : QString) (seed : UInt32) : UInt32 :=
  text.foldl (fun h c => 31 * h + c.toUInt32) seed

def repeated : Sha1Hash := ⟨List.replicate 20 170, List.length_replicate⟩

def lowerCase : QString := List.replicate 40 97

def upperCase : QString := List.replicate 40 65

def single : Torrents := createTorrentHandle qtHash ⟨0, []⟩ 1 repeated

def only : Node InfoHash TorrentHandle :=
  ⟨qHash qtHash (.ofHash repeated) 0, .ofHash repeated, ⟨1, .ofHash repeated⟩⟩

theorem single_reachable : Reachable (sessions qtHash) single := by
  have empty : (sessions qtHash).start ⟨0, []⟩ := rfl
  have created : (sessions qtHash).step ⟨0, []⟩ (.createTorrentHandle 1 repeated) single := rfl
  exact .step (.start empty) created

theorem first_entered (stringHash : QString → UInt32 → UInt32) (seed : UInt32) (address : Nat)
    (nativeHash : Sha1Hash) :
    (createTorrentHandle stringHash ⟨seed, []⟩ address nativeHash).nodes =
      [⟨qHash stringHash (.ofHash nativeHash) seed, .ofHash nativeHash,
        ⟨address, .ofHash nativeHash⟩⟩] := rfl

theorem only_listed : only ∈ single.nodes := by
  rw [single, first_entered]
  exact List.mem_cons_self

theorem repeated_spelt :
    Spells lowerCase (.ofHash repeated) ∧ Spells upperCase (.ofHash repeated) := by
  constructor
  · constructor <;> decide +kernel
  · constructor <;> decide +kernel

theorem lower_case_found :
    Lawful qtHash (Construction.ofHash repeated).infoHash
        (Construction.ofString lowerCase).infoHash ∧
      (InfoHash.ofString (InfoHash.ofHash repeated).hashString).same (.ofHash repeated) = true ∧
      Found qtHash single only.value lowerCase := by
  obtain ⟨pairs, roundTrip, spellings⟩ := lawful_key_iff qtHash
  constructor
  · apply (pairs (.ofHash repeated) (.ofString lowerCase)).mpr
    exact Or.inr (Or.inl (by decide +kernel))
  · constructor
    · exact roundTrip repeated
    · apply (spellings single only lowerCase single_reachable only_listed repeated_spelt.1).mpr
      decide +kernel

/-- The default InfoHash equals a valid one, and a torrent is lost under its hash in upper case. -/
theorem upper_case_lost :
    (¬ ∀ a b : Construction, Lawful qtHash a.infoHash b.infoHash) ∧
      ¬ ∀ (t : Torrents) (node : Node InfoHash TorrentHandle) (text : QString),
        Reachable (sessions qtHash) t → node ∈ t.nodes → Spells text node.value.hash →
          Found qtHash t node.value text := by
  constructor
  · intro lawful
    have valid := (lawful .null (.ofHash .zero) (by decide +kernel)).1
    cases valid
  · intro all
    have found := (all single only upperCase single_reachable only_listed repeated_spelt.2).deleted
    have lost : (deleteTorrent qtHash single upperCase).2 = false := by decide +kernel
    rw [lost] at found
    cases found

end InfoHashes
