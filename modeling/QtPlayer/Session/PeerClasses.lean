import QtPlayer.Library.RangeRules
import QtPlayer.Session.Reconfiguration

/- session.cpp: configurePeerClasses. The class of a peer that libtorrent finds by its address, and
   changes by its socket, decides which rate limits hold for it. -/
namespace PeerClasses
open RangeRules TransitionRuns SessionSettings

inductive PeerClass where
  | global_peer_class_id
  | tcp_peer_class_id
  | local_peer_class_id
  deriving DecidableEq

inductive SocketType where
  | tcp_socket
  | utp_socket
  | ssl_tcp_socket
  | ssl_utp_socket
  | i2p_socket
  deriving DecidableEq

abbrev Mask := PeerClass → Bool

def bit (id : PeerClass) : Mask := fun other => other = id

inductive Address where
  | v4 (address : BitVec 32)
  | v6 (address : BitVec 128)
  deriving DecidableEq

/-- Addresses of the two families are not compared. -/
instance : LE Address where
  le
    | .v4 a, .v4 b => a ≤ b
    | .v6 a, .v6 b => a ≤ b
    | _, _ => False

instance : DecidableLE Address
  | .v4 a, .v4 b => inferInstanceAs (Decidable (a ≤ b))
  | .v6 a, .v6 b => inferInstanceAs (Decidable (a ≤ b))
  | .v4 _, .v6 _ => inferInstanceAs (Decidable False)
  | .v6 _, .v4 _ => inferInstanceAs (Decidable False)

abbrev AddressRule := Rule Address Mask

/-- libtorrent's ip_filter and peer_class_type_filter. -/
structure Libtorrent where
  IpFilter : Type
  ip_filter : IpFilter
  add_rule : IpFilter → Address → Address → Mask → IpFilter
  access : IpFilter → Address → Mask
  TypeFilter : Type
  peer_class_type_filter : TypeFilter
  add : TypeFilter → SocketType → PeerClass → TypeFilter
  disallow : TypeFilter → SocketType → PeerClass → TypeFilter
  apply : TypeFilter → SocketType → Mask → Mask

/-- What libtorrent documents of them: of the rules that hold an address the one added last
    counts; of a peer's classes those disallowed are taken away first, then those added come. -/
structure Documented (lib : Libtorrent) : Prop where
  access_empty : ∀ a, lib.access lib.ip_filter a = fun _ => false
  access_inside : ∀ f (rule : AddressRule) a, rule.Has a →
    lib.access (lib.add_rule f rule.first rule.last rule.flags) a = rule.flags
  access_outside : ∀ f (rule : AddressRule) a, rule.first ≤ rule.last → ¬ rule.Has a →
    lib.access (lib.add_rule f rule.first rule.last rule.flags) a = lib.access f a
  apply_empty : ∀ socket mask, lib.apply lib.peer_class_type_filter socket mask = mask
  apply_add : ∀ f type id socket mask, lib.apply (lib.add f type id) socket mask =
    fun c => lib.apply f socket mask c || (decide (socket = type) && bit id c)
  apply_disallow : ∀ f type id socket mask, lib.apply (lib.disallow f type id) socket mask =
    lib.apply f socket fun c => mask c && !(decide (socket = type) && bit id c)

variable {lib : Libtorrent}

structure Filters (lib : Libtorrent) where
  peerClassFilter : lib.IpFilter
  peerClassTypeFilter : lib.TypeFilter

def Filters.classes (f : Filters lib) (address : Address) (socket : SocketType) : Mask :=
  lib.apply f.peerClassTypeFilter socket (lib.access f.peerClassFilter address)

def quad (a b c d : Nat) : Address := .v4 (BitVec.ofNat 32 (((a * 256 + b) * 256 + c) * 256 + d))

def globalRulesV4 : List AddressRule :=
  [⟨quad 0 0 0 0, quad 255 255 255 255, bit .global_peer_class_id⟩]

def globalRulesV6 : List AddressRule :=
  [⟨.v6 0, .v6 0xffffffffffffffffffffffffffffffff, bit .global_peer_class_id⟩]

def localRulesV4 : List AddressRule :=
  [⟨quad 10 0 0 0, quad 10 255 255 255, bit .local_peer_class_id⟩,
    ⟨quad 172 16 0 0, quad 172 31 255 255, bit .local_peer_class_id⟩,
    ⟨quad 192 168 0 0, quad 192 168 255 255, bit .local_peer_class_id⟩,
    ⟨quad 169 254 0 0, quad 169 254 255 255, bit .local_peer_class_id⟩,
    ⟨quad 127 0 0 0, quad 127 255 255 255, bit .local_peer_class_id⟩]

def localRulesV6 : List AddressRule :=
  [⟨.v6 0xfe800000000000000000000000000000, .v6 0xfebfffffffffffffffffffffffffffff,
      bit .local_peer_class_id⟩,
    ⟨.v6 0xfc000000000000000000000000000000, .v6 0xfdffffffffffffffffffffffffffffff,
      bit .local_peer_class_id⟩,
    ⟨.v6 1, .v6 1, bit .local_peer_class_id⟩]

def addRules (lib : Libtorrent) : lib.IpFilter → List AddressRule → lib.IpFilter :=
  List.foldl fun f rule => lib.add_rule f rule.first rule.last rule.flags

def peerRules (ipv6 : Bool) (f : Fields) : List AddressRule :=
  globalRulesV4 ++ (if ipv6 then globalRulesV6 else []) ++
    if f.ignoreLimitsOnLAN then localRulesV4 ++ if ipv6 then localRulesV6 else [] else []

def configurePeerClasses (lib : Libtorrent) (ipv6 : Bool) (f : Fields) : Filters lib :=
  let peerClassTypeFilter := lib.peer_class_type_filter
  let peerClassTypeFilter := lib.add peerClassTypeFilter .tcp_socket .tcp_peer_class_id
  let peerClassTypeFilter := lib.add peerClassTypeFilter .ssl_tcp_socket .tcp_peer_class_id
  let peerClassTypeFilter := lib.add peerClassTypeFilter .i2p_socket .tcp_peer_class_id
  { peerClassFilter := addRules lib lib.ip_filter (peerRules ipv6 f)
    peerClassTypeFilter :=
      if f.isUTPRateLimited then peerClassTypeFilter
      else lib.disallow (lib.disallow peerClassTypeFilter .utp_socket .global_peer_class_id)
        .ssl_utp_socket .global_peer_class_id }

/-- The networks 10/8, 172.16/12, 192.168/16, 169.254/16 and 127/8, and fe80::/10, fc00::/7 and
    ::1. -/
def IsLocal : Address → Prop
  | .v4 address => address.toNat >>> 24 = 10 ∨ address.toNat >>> 20 = 172 * 16 + 1 ∨
    address.toNat >>> 16 = 192 * 256 + 168 ∨ address.toNat >>> 16 = 169 * 256 + 254 ∨
    address.toNat >>> 24 = 127
  | .v6 address => address.toNat >>> 118 = 0b1111111010 ∨ address.toNat >>> 121 = 0b1111110 ∨
    address.toNat = 1

def UsesUtp (socket : SocketType) : Prop := socket = .utp_socket ∨ socket = .ssl_utp_socket

instance (socket : SocketType) : Decidable (UsesUtp socket) :=
  inferInstanceAs (Decidable (_ ∨ _))

/-- IPv6 addresses are known only where the system parses them. -/
def Parsed (ipv6 : Bool) : Address → Prop
  | .v4 _ => True
  | .v6 _ => ipv6 = true

/- Addresses. -/

@[simp] theorem v4_le (a b : BitVec 32) : Address.v4 a ≤ .v4 b ↔ a.toNat ≤ b.toNat := Iff.rfl

@[simp] theorem v6_le (a b : BitVec 128) : Address.v6 a ≤ .v6 b ↔ a.toNat ≤ b.toNat := Iff.rfl

@[simp] theorem v4_le_v6 (a : BitVec 32) (b : BitVec 128) : ¬ Address.v4 a ≤ .v6 b := id

@[simp] theorem v6_le_v4 (a : BitVec 128) (b : BitVec 32) : ¬ Address.v6 a ≤ .v4 b := id

theorem local_rules_v4 (address : BitVec 32) :
    (∃ rule ∈ localRulesV4, rule.Has (.v4 address)) ↔ IsLocal (.v4 address) := by
  simp only [localRulesV4, List.mem_cons, List.not_mem_nil, or_false, exists_eq_or_imp,
    exists_eq_left, Rule.Has, quad, v4_le, BitVec.toNat_ofNat, IsLocal, ← leading_iff]
  omega

theorem local_rules_v6 (address : BitVec 128) :
    (∃ rule ∈ localRulesV6, rule.Has (.v6 address)) ↔ IsLocal (.v6 address) := by
  simp only [localRulesV6, List.mem_cons, List.not_mem_nil, or_false, exists_eq_or_imp,
    exists_eq_left, Rule.Has, v6_le, BitVec.reduceToNat, IsLocal, ← leading_iff]
  omega

theorem local_rules {ipv6 : Bool} {address : Address} (parsed : Parsed ipv6 address) :
    (∃ rule ∈ localRulesV4 ++ if ipv6 then localRulesV6 else [], rule.Has address) ↔
      IsLocal address := by
  simp only [List.mem_append, or_and_right, exists_or]
  cases address with
  | v4 address =>
    have foreign : ¬ ∃ rule ∈ if ipv6 then localRulesV6 else [], rule.Has (.v4 address) := by
      cases ipv6 <;> simp [localRulesV6, Rule.Has]
    rw [← local_rules_v4]
    exact or_iff_left foreign
  | v6 address =>
    have foreign : ¬ ∃ rule ∈ localRulesV4, rule.Has (.v6 address) := by
      simp [localRulesV4, quad, Rule.Has]
    rw [← local_rules_v6, if_pos (show ipv6 = true from parsed)]
    exact or_iff_right foreign

theorem global_rules {ipv6 : Bool} {address : Address} (parsed : Parsed ipv6 address) :
    ∃ rule ∈ globalRulesV4 ++ if ipv6 then globalRulesV6 else [], rule.Has address := by
  cases address with
  | v4 address =>
    exact ⟨_, List.mem_cons_self .., Nat.zero_le _, Nat.le_of_lt_succ address.isLt⟩
  | v6 address =>
    rw [if_pos (show ipv6 = true from parsed)]
    exact ⟨_, List.mem_cons_of_mem _ (List.mem_cons_self ..), Nat.zero_le _,
      Nat.le_of_lt_succ address.isLt⟩

theorem peerRules_ordered (ipv6 : Bool) (f : Fields) :
    ∀ rule ∈ peerRules ipv6 f, rule.first ≤ rule.last := by
  unfold peerRules
  cases ipv6 <;> cases f.ignoreLimitsOnLAN <;> decide

theorem access_addRules (documented : Documented lib) {rules : List AddressRule}
    (ordered : ∀ rule ∈ rules, rule.first ≤ rule.last) (f : lib.IpFilter) (a : Address) :
    lib.access (addRules lib f rules) a = RangeRules.access (lib.access f a) rules a := by
  induction rules generalizing f with
  | nil => rfl
  | cons rule rules ih =>
    obtain ⟨first, others⟩ := List.forall_mem_cons.mp ordered
    rw [addRules, List.foldl_cons, RangeRules.access, List.foldl_cons]
    refine (ih others _).trans ?_
    by_cases has : rule.Has a
    · rw [documented.access_inside f rule a has, if_pos has]
      rfl
    · rw [documented.access_outside f rule a first has, if_neg has]
      rfl

theorem access_local {globalRules localRules : List AddressRule} {a : Address}
    {ignoreLimits : Bool} (all : ∀ rule ∈ globalRules, rule.flags = bit .global_peer_class_id)
    (covers : ∃ rule ∈ globalRules, rule.Has a)
    (locals : ∀ rule ∈ localRules, rule.flags = bit .local_peer_class_id) :
    (ignoreLimits = true ∧ (∃ rule ∈ localRules, rule.Has a) →
      access (fun _ => false) (globalRules ++ if ignoreLimits then localRules else []) a =
        bit .local_peer_class_id) ∧
    (¬ (ignoreLimits = true ∧ ∃ rule ∈ localRules, rule.Has a) →
      access (fun _ => false) (globalRules ++ if ignoreLimits then localRules else []) a =
        bit .global_peer_class_id) := by
  rw [access_append, access_some all covers]
  constructor
  · intro near
    rw [if_pos near.1]
    exact access_some locals near.2 _
  · intro far
    apply access_none
    split
    · rename_i on
      intro rule mem has
      exact far ⟨on, rule, mem, has⟩
    · intro rule mem
      cases mem

theorem address_classes (documented : Documented lib) {ipv6 : Bool} {address : Address}
    (f : Fields) (parsed : Parsed ipv6 address) :
    (f.ignoreLimitsOnLAN = true ∧ IsLocal address →
      lib.access (configurePeerClasses lib ipv6 f).peerClassFilter address =
        bit .local_peer_class_id) ∧
    (¬ (f.ignoreLimitsOnLAN = true ∧ IsLocal address) →
      lib.access (configurePeerClasses lib ipv6 f).peerClassFilter address =
        bit .global_peer_class_id) := by
  rw [configurePeerClasses, access_addRules documented (peerRules_ordered ipv6 f),
    documented.access_empty, ← local_rules parsed]
  apply access_local _ (global_rules parsed)
  · cases ipv6 <;> simp [localRulesV4, localRulesV6]
  · cases ipv6 <;> simp [globalRulesV4, globalRulesV6]

theorem socket_classes (documented : Documented lib) (ipv6 : Bool) (f : Fields)
    (socket : SocketType) (mask : Mask) :
    lib.apply (configurePeerClasses lib ipv6 f).peerClassTypeFilter socket mask = fun c =>
      match c with
      | .global_peer_class_id => mask c && !(!f.isUTPRateLimited && decide (UsesUtp socket))
      | .tcp_peer_class_id => mask c || !decide (UsesUtp socket)
      | .local_peer_class_id => mask c := by
  funext c
  cases limited : f.isUTPRateLimited <;> cases c <;> cases socket <;>
    simp [configurePeerClasses, limited, documented.apply_empty, documented.apply_add,
      documented.apply_disallow, bit, UsesUtp]

structure ClassesFollow (classes : Mask) (f : Fields) (address : Address)
    (socket : SocketType) : Prop where
  limited : classes .global_peer_class_id = true ↔
    ¬ (f.ignoreLimitsOnLAN = true ∧ IsLocal address) ∧
      ¬ (f.isUTPRateLimited = false ∧ UsesUtp socket)
  atHome : classes .local_peer_class_id = true ↔ f.ignoreLimitsOnLAN = true ∧ IsLocal address
  tcp : classes .tcp_peer_class_id = true ↔ ¬ UsesUtp socket

theorem classes_follow (documented : Documented lib) {ipv6 : Bool} {address : Address}
    (f : Fields) (parsed : Parsed ipv6 address) (socket : SocketType) :
    ClassesFollow ((configurePeerClasses lib ipv6 f).classes address socket) f address
      socket := by
  obtain ⟨near, far⟩ := address_classes documented f parsed
  rw [Filters.classes, socket_classes documented]
  by_cases home : f.ignoreLimitsOnLAN = true ∧ IsLocal address
  · rw [near home]
    constructor <;> simp [bit, home]
  · rw [far home]
    constructor <;> cases f.isUTPRateLimited <;> simp [bit, home]

/- Runs of setters. -/

def Quiet (w t : ConfiguredSession) : Prop :=
  t.deferredConfigureScheduled = false → w.deferredConfigureScheduled = false ∧
    t.fields.ignoreLimitsOnLAN = w.fields.ignoreLimitsOnLAN ∧
    t.fields.isUTPRateLimited = w.fields.isUTPRateLimited

section Setters

variable {w t : ConfiguredSession} {α : Type} [DecidableEq α] {current value : α}

theorem quiet_of_same (scheduled : t.deferredConfigureScheduled = w.deferredConfigureScheduled)
    (onLAN : t.fields.ignoreLimitsOnLAN = w.fields.ignoreLimitsOnLAN)
    (utp : t.fields.isUTPRateLimited = w.fields.isUTPRateLimited) : Quiet w t := by
  intro idle
  exact ⟨scheduled ▸ idle, onLAN, utp⟩

theorem quiet_refl (w : ConfiguredSession) : Quiet w w := quiet_of_same rfl rfl rfl

theorem quiet_configureDeferred (w t : ConfiguredSession) : Quiet w (configureDeferred t) := by
  intro idle
  cases idle

theorem quiet_setDirectly (scheduled : t.deferredConfigureScheduled = w.deferredConfigureScheduled)
    (onLAN : t.fields.ignoreLimitsOnLAN = w.fields.ignoreLimitsOnLAN)
    (utp : t.fields.isUTPRateLimited = w.fields.isUTPRateLimited) :
    Quiet w (setDirectly w current value t) := by
  unfold setDirectly
  split
  · exact quiet_of_same scheduled onLAN utp
  · exact quiet_refl w

theorem quiet_setDeferred (w t : ConfiguredSession) (current value : α) :
    Quiet w (setDeferred w current value t) := by
  unfold setDeferred
  split
  · exact quiet_configureDeferred w t
  · exact quiet_refl w

theorem quiet_setListening (w t : ConfiguredSession) (current value : α) :
    Quiet w (setListening w current value t) := by
  unfold setListening
  split
  · exact quiet_configureDeferred w _
  · exact quiet_refl w

theorem quiet_setSpeedLimit (w : ConfiguredSession) (limit old : Int) (applies : Bool)
    {change : Int → Fields → Fields}
    (onLAN : ∀ n, (change n w.fields).ignoreLimitsOnLAN = w.fields.ignoreLimitsOnLAN)
    (utp : ∀ n, (change n w.fields).isUTPRateLimited = w.fields.isUTPRateLimited) :
    Quiet w (setSpeedLimit w limit old applies change) := by
  unfold setSpeedLimit
  dsimp only
  split
  · exact quiet_refl w
  · split
    · exact quiet_configureDeferred w _
    · exact quiet_of_same rfl (onLAN _) (utp _)

theorem quiet_applySetter (w : ConfiguredSession) (setter : Setter) :
    Quiet w (applySetter w setter) := by
  cases setter with
  | setBTProtocol protocol =>
    change Quiet w (setBTProtocol w protocol)
    unfold setBTProtocol
    dsimp only
    split
    · exact quiet_setDeferred w _ _ _
    · split
      · exact quiet_setDeferred w _ _ _
      · split
        · exact quiet_setDeferred w _ _ _
        · exact quiet_refl w
  | setAltGlobalSpeedLimitEnabled enabled =>
    change Quiet w (setAltGlobalSpeedLimitEnabled w enabled)
    unfold setAltGlobalSpeedLimitEnabled
    split
    · exact quiet_refl w
    · exact quiet_of_same rfl rfl rfl
  | setDownloadSpeedLimit limit =>
    change Quiet w (setDownloadSpeedLimit w limit)
    unfold setDownloadSpeedLimit
    split <;> exact quiet_setSpeedLimit w _ _ _ (fun _ => rfl) (fun _ => rfl)
  | setUploadSpeedLimit limit =>
    change Quiet w (setUploadSpeedLimit w limit)
    unfold setUploadSpeedLimit
    split <;> exact quiet_setSpeedLimit w _ _ _ (fun _ => rfl) (fun _ => rfl)
  | _ =>
    first
    | exact quiet_setDeferred w _ _ _
    | exact quiet_setListening w _ _ _
    | exact quiet_setDirectly rfl rfl rfl
    | exact quiet_setSpeedLimit w _ _ _ (fun _ => rfl) (fun _ => rfl)
    | exact quiet_of_same rfl rfl rfl

end Setters

structure Peer where
  address : Address
  socket : SocketType
  classes : Mask

structure FilteredSession (lib : Libtorrent) where
  settings : ConfiguredSession
  filters : Filters lib
  peers : List Peer

inductive Event where
  | act (act : Act)
  | connect (address : Address) (socket : SocketType)

def filtersAfter (ipv6 : Bool) (filters : Filters lib) (t : ConfiguredSession) : Act → Filters lib
  | .configure => configurePeerClasses lib ipv6 t.fields
  | _ => filters

/-- configure() sets the filters, too; they count for the peers that connect from then on. -/
def filtering (lib : Libtorrent) (host : Host) (ipv6 : Bool) :
    System (FilteredSession lib) Event where
  start s := (configuring host).start s.settings ∧
    s.filters = configurePeerClasses lib ipv6 s.settings.fields ∧ s.peers = []
  step s event t :=
    match event with
    | .act act => (configuring host).step s.settings act t.settings ∧
      t.filters = filtersAfter ipv6 s.filters t.settings act ∧ t.peers = s.peers
    | .connect address socket =>
      t = { s with peers := s.peers ++ [⟨address, socket, s.filters.classes address socket⟩] }

variable {host : Host} {ipv6 : Bool} {s t : FilteredSession lib}

def Filtered (ipv6 : Bool) (s : FilteredSession lib) : Prop :=
  s.settings.deferredConfigureScheduled = false →
    s.filters = configurePeerClasses lib ipv6 s.settings.fields

theorem configurePeerClasses_of_same (lib : Libtorrent) (ipv6 : Bool) {f g : Fields}
    (onLAN : f.ignoreLimitsOnLAN = g.ignoreLimitsOnLAN)
    (utp : f.isUTPRateLimited = g.isUTPRateLimited) :
    configurePeerClasses lib ipv6 f = configurePeerClasses lib ipv6 g := by
  unfold configurePeerClasses peerRules
  rw [onLAN, utp]

theorem step_filtered (s : FilteredSession lib) (event : Event) (t : FilteredSession lib)
    (filtered : Filtered ipv6 s) (taken : (filtering lib host ipv6).step s event t) :
    Filtered ipv6 t := by
  cases event with
  | connect address socket =>
    obtain rfl : t = { s with peers := _ } := taken
    exact filtered
  | act act =>
    obtain ⟨⟨_, after⟩, filters, _⟩ := taken
    intro idle
    rw [filters]
    cases act with
    | configure => rfl
    | set setter =>
      have quiet := quiet_applySetter s.settings setter
      change t.settings = applySetter s.settings setter at after
      rw [after] at idle ⊢
      obtain ⟨before, onLAN, utp⟩ := quiet idle
      exact (filtered before).trans (configurePeerClasses_of_same lib ipv6 onLAN utp).symm
    | event e =>
      rw [after] at idle ⊢
      exact filtered idle
    | addTorrent2 torrentInfo thrown =>
      rw [after] at idle ⊢
      exact filtered idle

/-- A peer that connects once configure() has run counts against the global limits unless it is
    on a local network that is exempt or uses uTP while that is not limited. -/
theorem peer_classes_follow (documented : Documented lib)
    (reach : Reachable (filtering lib host ipv6) s)
    (idle : s.settings.deferredConfigureScheduled = false) {address : Address}
    (parsed : Parsed ipv6 address) (socket : SocketType)
    (connects : (filtering lib host ipv6).step s (.connect address socket) t) :
    ∃ classes, t.peers = s.peers ++ [⟨address, socket, classes⟩] ∧
      ClassesFollow classes s.settings.fields address socket := by
  have filtered : Filtered ipv6 s := by
    apply reachable_invariant _ step_filtered reach
    intro s first _
    exact first.2.1
  obtain rfl : t = { s with peers := _ } := connects
  refine ⟨_, rfl, ?_⟩
  rw [filtered idle]
  exact classes_follow documented s.settings.fields parsed socket

/- Filters that keep the rules they are given. -/

/-- A type filter is what it adds to and takes from the classes of each kind of socket. -/
def keptRules : Libtorrent where
  IpFilter := List AddressRule
  ip_filter := []
  add_rule f first last flags := f ++ [⟨first, last, flags⟩]
  access := RangeRules.access fun _ => false
  TypeFilter := (SocketType → Mask) × (SocketType → Mask)
  peer_class_type_filter := (fun _ _ => false, fun _ _ => false)
  add f type id := (fun socket c => f.1 socket c || (decide (socket = type) && bit id c), f.2)
  disallow f type id := (f.1, fun socket c => f.2 socket c || (decide (socket = type) && bit id c))
  apply f socket mask c := (mask c && !f.2 socket c) || f.1 socket c

theorem keptRules_documented : Documented keptRules where
  access_empty _ := rfl
  access_inside f rule a has := (access_append _ f [rule] a).trans (if_pos has)
  access_outside f rule a _ without := (access_append _ f [rule] a).trans (if_neg without)
  apply_empty socket mask := by simp [keptRules]
  apply_add f type id socket mask := by simp [keptRules, Bool.or_assoc]
  apply_disallow f type id socket mask := by
    simp [keptRules, Bool.and_assoc, Bool.and_comm]

def freshFiltered : FilteredSession keptRules where
  settings := Reconfiguration.freshSession
  filters := configurePeerClasses keptRules true Reconfiguration.freshSession.fields
  peers := []

def limitedAtHome : ConfiguredSession := setIgnoreLimitsOnLAN Reconfiguration.freshSession false

/-- 192.168.0.1 is exempt at first. -/
theorem home_network_limited : ∃ s t t' : FilteredSession keptRules,
    Reachable (filtering keptRules Reconfiguration.offlineHost true) s ∧
    (filtering keptRules Reconfiguration.offlineHost true).step freshFiltered
      (.connect (.v4 0xC0A80001) .tcp_socket) t ∧
    (t.peers.map fun peer => peer.classes .global_peer_class_id) = [false] ∧
    (filtering keptRules Reconfiguration.offlineHost true).step s
      (.connect (.v4 0xC0A80001) .tcp_socket) t' ∧
    (t'.peers.map fun peer => peer.classes .global_peer_class_id) = [true] := by
  have first : Reachable (filtering keptRules Reconfiguration.offlineHost true) freshFiltered :=
    .start ⟨Reconfiguration.freshSession_start, rfl, rfl⟩
  have asked : (filtering keptRules Reconfiguration.offlineHost true).step freshFiltered
      (.act (.set (.setIgnoreLimitsOnLAN false)))
      { freshFiltered with settings := limitedAtHome } := ⟨⟨trivial, rfl⟩, rfl, rfl⟩
  have configured : (filtering keptRules Reconfiguration.offlineHost true).step
      { freshFiltered with settings := limitedAtHome } (.act .configure)
      ⟨configure Reconfiguration.offlineHost limitedAtHome,
        configurePeerClasses keptRules true limitedAtHome.fields, []⟩ := ⟨⟨rfl, rfl⟩, rfl, rfl⟩
  have reach := Reachable.step (Reachable.step first asked) configured
  have home : IsLocal (.v4 0xC0A80001) := by
    right
    right
    left
    decide
  have parsed : Parsed true (.v4 0xC0A80001) := trivial
  obtain ⟨classes, peers, follow⟩ := peer_classes_follow keptRules_documented first rfl parsed
    .tcp_socket rfl
  obtain ⟨classes', peers', follow'⟩ := peer_classes_follow keptRules_documented reach rfl parsed
    .tcp_socket rfl
  refine ⟨_, _, _, reach, rfl, ?_, rfl, ?_⟩
  · rw [peers]
    have exempt : classes .global_peer_class_id = false := by
      rw [Bool.eq_false_iff]
      intro limited
      exact (follow.limited.mp limited).1 ⟨rfl, home⟩
    simp [freshFiltered, exempt]
  · rw [peers']
    have limited : classes' .global_peer_class_id = true := by
      apply follow'.limited.mpr
      constructor
      · intro both
        cases both.1
      · intro both
        cases both.1
    simp [limited]

end PeerClasses
