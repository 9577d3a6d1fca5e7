import Mathlib.Tactic
import Wanbond.Bond.Wire

/-!
# The session verdicts

The device reads the handshakes of its peers from the engine's UAPI dump, with
one parser for the newest handshake of all and one for that of each peer.  The
verdict on the whole connection, those on the peers and the health of an exit
peer rest on them.
-/

namespace Wanbond.Device

open Wanbond.Bond (Time Duration second)

def rejectAfterTime : Duration := 180 * second

/-- A trimmed line of the dump, cut at its first `=`, with its number as
`ParseInt` reads it.  No other key is read, nor is a line without `=`. -/
inductive DumpLine where
  | publicKey (key : String)
  | handshakeSec (val : Option ℤ)
  | handshakeNsec (val : Option ℤ)
  | other

/-- `sec*int64(time.Second) + ns`, which wraps around. -/
def handshakeNano (sec ns : ℤ) : ℤ := (sec * second + ns).bmod (2 ^ 64)

/-! ## The two parsers -/

structure LatestScan where
  latest : ℤ := 0
  sec : ℤ := 0
  haveSec : Bool := false

def LatestScan.line (s : LatestScan) : DumpLine → LatestScan
  | .handshakeSec none => { s with haveSec := false }
  | .handshakeSec (some sec) => { s with sec, haveSec := true }
  | .handshakeNsec val =>
    if !s.haveSec then s
    else
      match val with
      | none => { s with haveSec := false }
      | some ns =>
        let nano := handshakeNano s.sec ns
        { s with
          haveSec := false
          latest := if nano > s.latest then nano else s.latest }
  | _ => s

def latestHandshakeNano (dump : List DumpLine) : ℤ :=
  (dump.foldl LatestScan.line {}).latest

structure PeerScan where
  out : String → Option ℤ := fun _ => none
  curKey : String := ""
  sec : ℤ := 0
  haveSec : Bool := false

def PeerScan.line (s : PeerScan) : DumpLine → PeerScan
  | .publicKey key =>
    { s with
      curKey := key
      haveSec := false
      out := if (s.out key).isSome then s.out
        else Function.update s.out key (some 0) }
  | .handshakeSec val =>
    if s.curKey = "" then s
    else
      match val with
      | none => { s with haveSec := false }
      | some sec => { s with sec, haveSec := true }
  | .handshakeNsec val =>
    if s.curKey = "" ∨ !s.haveSec then s
    else
      match val with
      | none => { s with haveSec := false }
      | some ns =>
        { s with
          haveSec := false
          out := Function.update s.out s.curKey
            (some (handshakeNano s.sec ns)) }
  | .other => s

def perPeerHandshakeNano (dump : List DumpLine) : String → Option ℤ :=
  (dump.foldl PeerScan.line {}).out

/-! ## The verdicts -/

structure SessionSnapshot where
  established : Bool := false
  lastHandshakeAge : Duration := 0

/-- The verdict on a handshake; zero is none. -/
def snapshotOf (nano : ℤ) (now : Time) : SessionSnapshot :=
  if nano = 0 then {}
  else
    let age := if now - nano < 0 then 0 else now - nano
    ⟨decide (age ≤ rejectAfterTime), age⟩

theorem snapshotOf_established {nano : ℤ} {now : Time} :
    (snapshotOf nano now).established = true ↔
      nano ≠ 0 ∧ now - nano ≤ rejectAfterTime := by
  have hexpiry : 0 ≤ rejectAfterTime := by decide
  unfold snapshotOf
  split
  next hzero => simp [hzero]
  next hne =>
    dsimp only
    split
    next hneg =>
      rw [decide_eq_true_iff]
      exact ⟨fun _ => ⟨hne, hneg.le.trans hexpiry⟩, fun _ => hexpiry⟩
    next => rw [decide_eq_true_iff, and_iff_right hne]

theorem snapshotOf_age {nano : ℤ} (now : Time) (hne : nano ≠ 0) :
    (snapshotOf nano now).lastHandshakeAge = max 0 (now - nano) := by
  rw [snapshotOf, if_neg hne]
  dsimp only
  split
  next hneg => exact (max_eq_left hneg.le).symm
  next hpos => exact (max_eq_right (not_lt.mp hpos)).symm

/-- The verdict on the connection.  The engine may fail to answer. -/
def sessionSnapshot (dump : Option (List DumpLine)) (now : Time) :
    SessionSnapshot :=
  dump.elim {} fun d => snapshotOf (latestHandshakeNano d) now

def peerSessionSnapshot (dump : Option (List DumpLine)) (now : Time)
    (publicKey : String) : SessionSnapshot :=
  dump.elim {} fun d =>
    snapshotOf ((perPeerHandshakeNano d publicKey).getD 0) now

/-- `deviceExitHealth.healthy`: `peers` gives the key of an exit peer, and
`pathUp` tells that one of its paths is up. -/
def healthy (peers : String → Option String) (pathUp : String → Bool)
    (dump : Option (List DumpLine)) (now : Time) (name : String) : Bool :=
  (peers name).any fun publicKeyHex =>
    pathUp name && dump.any fun d =>
      let nano := (perPeerHandshakeNano d publicKeyHex).getD 0
      decide (nano ≠ 0 ∧ now - nano ≤ rejectAfterTime)

/-! ## Their agreement -/

/-- A dump of the engine, with the keys of its peers: the lines of the device,
and a block for each peer with at most one handshake.  `bare` tells that the
last block has none yet. -/
inductive EngineDump : List DumpLine → List String → Bool → Prop
  | device : EngineDump [] [] false
  | other {d keys bare} (h : EngineDump d keys bare) :
      EngineDump (d ++ [.other]) keys bare
  | peer {d keys bare} (h : EngineDump d keys bare) (key : String)
      (hkey : key ≠ "") (hnew : key ∉ keys) :
      EngineDump (d ++ [.publicKey key]) (key :: keys) true
  | handshake {d keys} (h : EngineDump d keys true) (sec ns : Option ℤ)
      (hpos : ∀ s ∈ sec, ∀ n ∈ ns, 0 ≤ handshakeNano s n) :
      EngineDump (d ++ [.handshakeSec sec, .handshakeNsec ns]) keys false

/-- `latest` is the newest of the handshakes read, or zero. -/
structure Newest (out : String → Option ℤ) (latest : ℤ) : Prop where
  nonneg : 0 ≤ latest
  bounded : ∀ k v, out k = some v → 0 ≤ v ∧ v ≤ latest
  attained : latest = 0 ∨ ∃ k, out k = some latest

theorem Newest.write {out : String → Option ℤ} {latest v : ℤ} {key : String}
    (h : Newest out latest) (hold : ∀ w ∈ out key, w = 0) (hv : 0 ≤ v) :
    Newest (Function.update out key (some v))
      (if v > latest then v else latest) := by
  obtain ⟨hnonneg, hbounded, hattained⟩ := h
  refine ⟨by split <;> assumption, fun k w hk => ?_, ?_⟩
  · by_cases hkey : k = key
    · rw [hkey, Function.update_self] at hk
      cases hk
      exact ⟨hv, by split <;> omega⟩
    · rw [Function.update_of_ne hkey] at hk
      obtain ⟨hw, hle⟩ := hbounded k w hk
      exact ⟨hw, by split <;> omega⟩
  by_cases hnew : v > latest
  · exact .inr ⟨key, by simp [hnew]⟩
  rw [if_neg hnew]
  refine hattained.elim .inl ?_
  rintro ⟨k, hk⟩
  by_cases hkey : k = key
  · exact .inl (hold latest (hkey ▸ hk))
  · exact .inr ⟨k, by simp [hkey, hk]⟩

/-- What the two parsers have read of a dump. -/
structure Scanned (keys : List String) (bare : Bool) (l : LatestScan)
    (p : PeerScan) : Prop where
  idle : l.haveSec = false ∧ p.haveSec = false
  keys : ∀ k, (p.out k).isSome ↔ k ∈ keys
  current : bare = true → p.curKey ≠ "" ∧ p.out p.curKey = some 0
  newest : Newest p.out l.latest

variable {d : List DumpLine} {keys : List String} {bare : Bool}

theorem EngineDump.scanned (h : EngineDump d keys bare) :
    Scanned keys bare (d.foldl LatestScan.line {})
      (d.foldl PeerScan.line {}) := by
  induction h with
  | device => exact ⟨⟨rfl, rfl⟩, by simp, by simp, le_rfl, by simp, .inl rfl⟩
  | other h ih => rwa [List.foldl_append, List.foldl_append]
  | peer h key hkey hnew ih =>
    rw [List.foldl_concat, List.foldl_concat]
    generalize List.foldl LatestScan.line _ _ = l at ih ⊢
    generalize List.foldl PeerScan.line _ _ = p at ih ⊢
    obtain ⟨hidle, hkeys, -, hnewest⟩ := ih
    have hout : p.out key = none := by simpa using mt (hkeys key).mp hnew
    have hwrite : Newest (Function.update p.out key (some 0)) _ :=
      hnewest.write (by simp [hout]) le_rfl
    rw [if_neg hnewest.nonneg.not_gt] at hwrite
    simp only [LatestScan.line, PeerScan.line, hout]
    exact ⟨⟨hidle.1, rfl⟩, by grind [Function.update_apply],
      fun _ => ⟨hkey, Function.update_self ..⟩, hwrite⟩
  | handshake h sec ns hpos ih =>
    simp only [List.foldl_append, List.foldl_cons, List.foldl_nil]
    generalize List.foldl LatestScan.line _ _ = l at ih ⊢
    generalize List.foldl PeerScan.line _ _ = p at ih ⊢
    obtain ⟨⟨hl, hp⟩, hkeys, hcurrent, hnewest⟩ := ih
    obtain ⟨hkey, hzero⟩ := hcurrent rfl
    cases sec with
    | none =>
      simp only [LatestScan.line, PeerScan.line, hkey, if_false, Bool.not_false]
      exact ⟨⟨rfl, rfl⟩, hkeys, by simp, hnewest⟩
    | some sec =>
      cases ns with
      | none =>
        simp only [LatestScan.line, PeerScan.line, hkey, if_false, Bool.not_true]
        exact ⟨⟨rfl, rfl⟩, hkeys, by simp, hnewest⟩
      | some ns =>
        simp only [LatestScan.line, PeerScan.line, hkey, if_false, Bool.not_true]
        exact ⟨⟨rfl, rfl⟩, by grind [Function.update_apply], by simp,
          hnewest.write (by simp [hzero]) (hpos sec rfl ns rfl)⟩

/-- The two parsers agree.  For every dump of the engine, the second one reads
exactly the peers of the dump, and what the first one returns is the maximum of
the handshakes that the second one returns, or zero if there are no peers. -/
theorem latestHandshakeNano_isGreatest (h : EngineDump d keys bare) :
    (∀ k, (perPeerHandshakeNano d k).isSome ↔ k ∈ keys) ∧
    (keys = [] → latestHandshakeNano d = 0) ∧
    (keys ≠ [] → IsGreatest {v | ∃ k, perPeerHandshakeNano d k = some v}
      (latestHandshakeNano d)) := by
  obtain ⟨-, hkeys, -, -, hbounded, hattained⟩ := h.scanned
  refine ⟨hkeys, ?_, fun hne => ⟨?_, ?_⟩⟩
  · rintro rfl
    refine hattained.resolve_right ?_
    rintro ⟨k, hk⟩
    cases (hkeys k).mp (by rw [hk]; rfl)
  · refine hattained.elim (fun hzero => ?_) id
    -- every peer is then recorded with zero
    obtain ⟨k, hk⟩ := List.exists_mem_of_ne_nil keys hne
    obtain ⟨v, hv⟩ := Option.isSome_iff_exists.mp ((hkeys k).mpr hk)
    obtain ⟨hnonneg, hle⟩ := hbounded k v hv
    exact ⟨k, hv.trans (congrArg some (hle.antisymm (hzero.trans_le hnonneg)))⟩
  · rintro v ⟨k, hk⟩
    exact (hbounded k v hk).2

theorem latestHandshakeNano_isGreatest_live :
    ∃ d, perPeerHandshakeNano d "a" = some 1000000007 ∧
      perPeerHandshakeNano d "b" = some 0 ∧
      IsGreatest {v | ∃ k, perPeerHandshakeNano d k = some v} 1000000007 :=
  have h := ((EngineDump.device.other.peer "a" (by decide)
    (by decide)).handshake (some 1) (some 7) (by simp; decide)).other.peer "b"
      (by decide) (by decide) |>.handshake (some 2) none (by simp)
  ⟨_, by decide, by decide,
    (latestHandshakeNano_isGreatest h).2.2 (List.cons_ne_nil _ _)⟩

/-- The verdicts agree.  For every dump of the engine and every clock reading,
the connection is established exactly if the session of some peer is, its
handshake is no older than that of any established peer, and an exit peer is
healthy exactly if one of its paths is up and its session is established. -/
theorem session_verdicts_agree (h : EngineDump d keys bare) (now : Time) :
    let s := sessionSnapshot (some d) now
    let p := peerSessionSnapshot (some d) now
    (s.established = true ↔ ∃ k ∈ keys, (p k).established = true) ∧
    (∀ k, (p k).established = true →
      s.lastHandshakeAge ≤ (p k).lastHandshakeAge) ∧
    ∀ peers pathUp name, healthy peers pathUp (some d) now name = true ↔
      ∃ k ∈ peers name, pathUp name = true ∧ (p k).established = true := by
  obtain ⟨-, hkeys, -, hpos, hbounded, hattained⟩ := h.scanned
  have hle : ∀ k, 0 ≤ (perPeerHandshakeNano d k).getD 0 ∧
      (perPeerHandshakeNano d k).getD 0 ≤ latestHandshakeNano d := by
    intro k
    cases hk : perPeerHandshakeNano d k with
    | none => exact ⟨le_rfl, hpos⟩
    | some v => exact hbounded k v hk
  have hmax : latestHandshakeNano d = 0 ∨
      ∃ k ∈ keys, (perPeerHandshakeNano d k).getD 0 = latestHandshakeNano d := by
    refine hattained.imp_right ?_
    rintro ⟨k, hk⟩
    exact ⟨k, (hkeys k).mp (by rw [hk]; rfl), congrArg (·.getD 0) hk⟩
  simp only [sessionSnapshot, peerSessionSnapshot, Option.elim,
    snapshotOf_established]
  refine ⟨⟨fun hs => ?_, ?_⟩, fun k hk => ?_, fun peers pathUp name => ?_⟩
  · obtain ⟨k, hk, heq⟩ := hmax.resolve_left hs.1
    exact ⟨k, hk, by rwa [heq]⟩
  · rintro ⟨k, -, hne, hage⟩
    obtain ⟨hnonneg, hlatest⟩ := hle k
    exact ⟨by omega, (sub_le_sub_left hlatest now).trans hage⟩
  · obtain ⟨hnonneg, hlatest⟩ := hle k
    rw [snapshotOf_age now hk.1, snapshotOf_age now (by omega)]
    exact max_le_max_left 0 (sub_le_sub_left hlatest now)
  rw [healthy]
  cases peers name with
  | none => simp
  | some k => simp

theorem session_verdicts_agree_live :
    ∃ d keys, EngineDump d keys true ∧ ∃ k ∈ keys,
      (peerSessionSnapshot (some d) (2 * second) k).established = true :=
  have h := ((EngineDump.device.peer "a" (by decide) (by decide)).handshake
    (some 1) (some 0) (by simp; decide)).peer "b" (by decide) (by decide)
  ⟨_, _, h, (session_verdicts_agree h (2 * second)).1.mp (by decide)⟩

end Wanbond.Device
