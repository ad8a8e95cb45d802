import QtPlayer.Library.KeyedWrites
import Mathlib.Algebra.Order.Ring.Int
import Mathlib.Logic.Function.Basic

/- libtorrent::settings_pack, as far as Session writes it: settings of three types, each with
   its own keys. -/
namespace SettingsPacks
open KeyedWrites

inductive IntKey where
  | maxRetryPortBind | downloadRateLimit | uploadRateLimit | allowedEncLevel | outEncPolicy
  | inEncPolicy | cacheSize | cacheExpiry | diskIoReadMode | diskIoWriteMode | suggestMode
  | sendBufferWatermark | sendBufferLowWatermark | sendBufferWatermarkFactor | activeDownloads
  | activeLimit | activeSeeds | inactiveDownRate | inactiveUpRate | autoManageStartup
  | activeTrackerLimit | activeDhtLimit | activeLsdLimit | alertQueueSize | outgoingPort
  | numOutgoingPorts | connectionsLimit | unchokeSlotsLimit | mixedModeAlgorithm
  | chokingAlgorithm | seedChokingAlgorithm
  deriving DecidableEq

inductive BoolKey where
  | preferRc4 | forceProxy | announceToAllTrackers | announceToAllTiers | guidedReadCache
  | coalesceReads | coalesceWrites | anonymousMode | strictEndGameMode | dontCountSlowTorrents
  | rateLimitIpOverhead | strictSuperSeeding | enableIncomingTcp | enableOutgoingTcp
  | enableIncomingUtp | enableOutgoingUtp | allowMultipleConnectionsPerIp
  | applyIpFilterToTrackers | enableDht | enableLsd
  deriving DecidableEq

inductive StrKey where
  | listenInterfaces | outgoingInterfaces | announceIp | dhtBootstrapNodes
  deriving DecidableEq

structure SettingsPack where
  ints : IntKey → Int
  bools : BoolKey → Bool
  strs : StrKey → String

inductive Setting where
  | int (key : IntKey) (value : Int)
  | bool (key : BoolKey) (value : Bool)
  | str (key : StrKey) (value : String)

namespace Setting

def key : Setting → IntKey ⊕ BoolKey ⊕ StrKey
  | int k _ => .inl k
  | bool k _ => .inr (.inl k)
  | str k _ => .inr (.inr k)

def set (p : SettingsPack) : Setting → SettingsPack
  | int k v => { p with ints := Function.update p.ints k v }
  | bool k v => { p with bools := Function.update p.bools k v }
  | str k v => { p with strs := Function.update p.strs k v }

def holds (p : SettingsPack) : Setting → Prop
  | int k v => p.ints k = v
  | bool k v => p.bools k = v
  | str k v => p.strs k = v

theorem holds_set (p : SettingsPack) (x : Setting) : holds (set p x) x := by
  cases x <;> simp [holds, set]

theorem holds_set_other (p : SettingsPack) (x y : Setting) (other : x.key ≠ y.key) :
    holds (set p x) y ↔ holds p y := by
  cases x with
  | int k v =>
    cases y with
    | int k' v' => simp_all [holds, set, key, Function.update_of_ne, Ne.symm]
    | _ => rfl
  | bool k v =>
    cases y with
    | bool k' v' => simp_all [holds, set, key, Function.update_of_ne, Ne.symm]
    | _ => rfl
  | str k v =>
    cases y with
    | str k' v' => simp_all [holds, set, key, Function.update_of_ne, Ne.symm]
    | _ => rfl

end Setting

def pack : Writable SettingsPack Setting (IntKey ⊕ BoolKey ⊕ StrKey) :=
  ⟨Setting.key, Setting.set, Setting.holds, Setting.holds_set, Setting.holds_set_other⟩

/- The enumerators that are written. -/

def peForced : Int := 0
def peEnabled : Int := 1
def peDisabled : Int := 2
def peRc4 : Int := 2
def enableOsCache : Int := 0
def disableOsCache : Int := 2
def noPieceSuggestions : Int := 0
def suggestReadCache : Int := 1
def preferTcp : Int := 0
def peerProportional : Int := 1
def fixedSlotsChoker : Int := 0
def rateBasedChoker : Int := 2
def roundRobin : Int := 0
def fastestUpload : Int := 1
def antiLeech : Int := 2

end SettingsPacks
