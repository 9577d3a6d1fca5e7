import Wanbond.Bond.Wire
import Wanbond.Config.Peers

/-!
# The configuration file

The whole configuration as it is after loading.  The sections that a running
tunnel never takes apart again are given by the keys of the file; the texts from
which the addresses and durations of a path are parsed are left out.
-/

namespace Wanbond.Config

open Wanbond.Bond (Duration)

inductive BindMode
  | source
  | device
  | auto
  deriving DecidableEq, Repr

/-- One physical uplink. -/
structure Path where
  name : String
  sourceAddr : IPAddr
  /-- The path's own destination, if it has one. -/
  destAddr : Option AddrPort := none
  bind : BindMode := .auto
  /-- The declared outer MTU; zero if it is not declared. -/
  mtu : ℕ := 0
  rideThrough : Duration := 0
  deriving DecidableEq, Repr

structure PeerSection where
  publicKey : String
  endpoint : String
  endpoints : List String
  dns : Bool
  allowedIPs : List String
  mode : String
  psk : String
  name : String
  deriving DecidableEq, Repr

structure WireGuard where
  privateKey : String := ""
  peers : List PeerSection := []
  listenPort : BitVec 16 := 0
  deriving DecidableEq, Repr

structure Amnezia where
  jc : ℤ := 0
  jmin : ℤ := 0
  jmax : ℤ := 0
  s1 : ℤ := 0
  s2 : ℤ := 0
  h1 : BitVec 32 := 0
  h2 : BitVec 32 := 0
  h3 : BitVec 32 := 0
  h4 : BitVec 32 := 0
  deriving DecidableEq, Repr

structure Metrics where
  listen : String := ""
  deriving DecidableEq, Repr

structure Monitor where
  listen : String := ""
  token : String := ""
  allowedHosts : List String := []
  revealAddressing : Bool := false
  deriving DecidableEq, Repr

structure Log where
  level : String := ""
  deriving DecidableEq, Repr

structure Scheduler where
  policy : String := "adaptive"
  deriving DecidableEq, Repr

structure DNS where
  resolver : String := "system"
  dohURL : String := ""
  dotServer : String := ""
  bootstrapIP : String := ""
  pollInterval : String := ""
  timeout : String := ""
  deriving DecidableEq, Repr

structure Liveness where
  downAfter : String := ""
  deriving DecidableEq, Repr

/-- `livenessBudgetSane` is not a key of the file but computed from it. -/
structure File where
  role : Role
  exit : String := "auto"
  paths : List Path
  wireguard : WireGuard := {}
  amnezia : Amnezia := {}
  psk : String := ""
  metrics : Metrics := {}
  monitor : Monitor := {}
  log : Log := {}
  scheduler : Scheduler := {}
  dns : DNS := {}
  liveness : Liveness := {}
  bind : BindMode := .auto
  tunPersist : Bool := false
  livenessBudgetSane : Bool := true
  deriving DecidableEq, Repr

end Wanbond.Config
