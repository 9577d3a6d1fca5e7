import Mathlib.Algebra.Order.BigOperators.Group.Finset
import Wanbond.Bind.Isolation
import Wanbond.Support.CopyOnWrite

/-!
# Sharing of the source map

The map from sources to peers is bounded, and each peer has an equal share of
it.  Readers bind sources concurrently and a torn-down peer's sources are
removed; each of these calls copies the map and publishes the copy if no other
one was published meanwhile.

As long as no source is bound to two peers, no peer ever has more than its
share.  So there is room for a peer below its share, and a call that binds a
source never fails; a peer at its share gives up the source that it has had for
longest.
-/

namespace Wanbond.Bind

open Wanbond.Support
open Wanbond.Support.CopyOnWrite (Outcome Event System Publishes Meets
  Consistent Keeps Effect)

/-- The calls that update the map. -/
inductive SourceCall (Addr : Type)
  | bind (src : Addr) (peer : ℕ)
  | unbind (peer : ℕ)
  deriving DecidableEq

namespace Demux

variable {Addr : Type} [DecidableEq Addr]

/-! ## One attempt -/

/-- The copy of the map without the entries of a peer. -/
def without (t : SourceMap Addr) (i : ℕ) (sources : List Addr) :
    SourceMap Addr :=
  sources.foldl
    (fun next key =>
      match t.lookup key with
      | some b => if b.peer ≠ i then next.insert key b else next
      | none => next) ∅

/-- One turn of the loop of `unbindPeerSources`.  The call returns nothing. -/
def unbindAttempt (t : SourceMap Addr) (i : ℕ) (sources : List Addr) :
    Outcome (SourceMap Addr) Bool :=
  if sources.any fun key => (t.lookup key).any fun b => decide (b.peer = i) then
    .publish (without t i sources) true
  else .finish true

/-- A turn of the loop of a call, with the order in which it iterates the map
that it has loaded. -/
def attempt (m : Demux Addr) :
    SourceCall Addr → List Addr → SourceMap Addr →
      Outcome (SourceMap Addr) Bool
  | .bind src i, sources, t =>
    { m with peerBySource := t }.bindAttempt src i sources
  | .unbind i, sources, t => unbindAttempt t i sources

/-! ## The sources of a peer -/

def sourcesOf (t : SourceMap Addr) (i : ℕ) : Finset Addr :=
  t.keys.filter fun key => (t.lookup key).any fun b => decide (b.peer = i)

variable {m : Demux Addr} {t : SourceMap Addr} {i j n seq : ℕ} {src key : Addr}
  {b : SourceBinding} {sources : List Addr} {evict : Option Addr}

theorem mem_sourcesOf :
    key ∈ sourcesOf t i ↔ ∃ b, t.lookup key = some b ∧ b.peer = i := by
  rw [sourcesOf, Finset.mem_filter, Finmap.mem_keys, Option.any_eq_true]
  constructor
  · rintro ⟨-, b, hb, hpeer⟩
    exact ⟨b, hb, of_decide_eq_true hpeer⟩
  · rintro ⟨b, hb, hpeer⟩
    exact ⟨Finmap.mem_of_lookup_eq_some hb, b, hb, decide_eq_true hpeer⟩

theorem sourcesOf_insert (h : t.lookup src = none) :
    sourcesOf (t.insert src b) b.peer = insert src (sourcesOf t b.peer) := by
  ext key
  rw [mem_sourcesOf, Finset.mem_insert, mem_sourcesOf]
  by_cases hkey : key = src
  · subst hkey
    simp [Finmap.lookup_insert]
  · rw [Finmap.lookup_insert_of_ne _ hkey]
    simp [hkey]

theorem sourcesOf_insert_ne (h : t.lookup src = none) (hne : b.peer ≠ j) :
    sourcesOf (t.insert src b) j = sourcesOf t j := by
  ext key
  rw [mem_sourcesOf, mem_sourcesOf]
  by_cases hkey : key = src
  · subst hkey
    simp [Finmap.lookup_insert, h, hne]
  · rw [Finmap.lookup_insert_of_ne _ hkey]

theorem sourcesOf_erase : sourcesOf (t.erase src) j = (sourcesOf t j).erase src := by
  ext key
  rw [Finset.mem_erase, mem_sourcesOf, mem_sourcesOf]
  by_cases hkey : key = src
  · subst hkey
    simp [Finmap.lookup_erase]
  · rw [Finmap.lookup_erase_ne hkey]
    simp [hkey]

/-- The order in which the map is iterated contains each key once. -/
def Enumerates (sources : List Addr) (t : SourceMap Addr) : Prop :=
  sources.Nodup ∧ ∀ key, key ∈ sources ↔ key ∈ t

theorem scan_fst (found : ℕ × Option (ℕ × Addr)) (key : Addr) :
    (m.scan i found key).1 = found.1 +
      if (m.peerBySource.lookup key).any fun b => decide (b.peer = i) then 1
      else 0 := by
  unfold scan
  cases m.peerBySource.lookup key with
  | none => rfl
  | some b =>
    by_cases hpeer : b.peer = i
    · simp only [ne_eq, hpeer, not_true_eq_false, if_false, Option.any_some,
        decide_true, if_true]
      split
      · rfl
      · split_ifs <;> rfl
    · simp [hpeer]

theorem scan_count (sources : List Addr) (found : ℕ × Option (ℕ × Addr)) :
    (sources.foldl (m.scan i) found).1 = found.1 + sources.countP fun key =>
      (m.peerBySource.lookup key).any fun b => decide (b.peer = i) := by
  induction sources generalizing found with
  | nil => rfl
  | cons key sources ih =>
    rw [List.foldl_cons, ih, scan_fst, List.countP_cons]
    omega

theorem scan_none (sources : List Addr) {found : ℕ × Option (ℕ × Addr)}
    (hfound : found.2 = none → found.1 = 0) :
    (sources.foldl (m.scan i) found).2 = none →
      (sources.foldl (m.scan i) found).1 = 0 := by
  induction sources generalizing found with
  | nil => exact hfound
  | cons key sources ih =>
    refine ih ?_
    unfold scan
    split
    · exact hfound
    split_ifs
    · exact hfound
    split
    · nofun
    next hold =>
      split_ifs
      · nofun
      · rw [hold]
        nofun

theorem scan_count_eq_card (h : Enumerates sources m.peerBySource) :
    (sources.foldl (m.scan i) (0, none)).1 =
      (sourcesOf m.peerBySource i).card := by
  have hkeys : sources.toFinset = m.peerBySource.keys := by
    ext key
    rw [List.mem_toFinset, Finmap.mem_keys]
    exact h.2 key
  rw [scan_count, zero_add, List.countP_eq_length_filter, sourcesOf, ← hkeys,
    ← List.toFinset_filter, List.toFinset_card_of_nodup (h.1.filter _)]

/-- The loop finds the source that was bound first. -/
theorem scan_oldest (sources : List Addr) {found : ℕ × Option (ℕ × Addr)} :
    ∀ seq key, (sources.foldl (m.scan i) found).2 = some (seq, key) →
      (∀ seq' key', found.2 = some (seq', key') → seq ≤ seq') ∧
        ∀ key' ∈ sources, ∀ b, m.peerBySource.lookup key' = some b →
          b.peer = i → seq ≤ b.seq := by
  induction sources generalizing found with
  | nil =>
    intro seq key h
    refine ⟨fun seq' key' h' => ?_, nofun⟩
    rw [List.foldl_nil] at h
    rw [h] at h'
    cases h'
    exact le_rfl
  | cons head sources ih =>
    intro seq key h
    obtain ⟨hfound, hlater⟩ := ih seq key h
    -- the turn at the head keeps the smaller of the two sequences
    suffices (∀ seq' key', found.2 = some (seq', key') → seq ≤ seq') ∧
        ∀ b, m.peerBySource.lookup head = some b → b.peer = i →
          seq ≤ b.seq by
      refine ⟨this.1, fun key' hmem => ?_⟩
      rcases List.mem_cons.mp hmem with rfl | hmem
      · exact this.2
      · exact hlater key' hmem
    unfold scan at hfound
    cases hhead : m.peerBySource.lookup head with
    | none =>
      rw [hhead] at hfound
      exact ⟨hfound, nofun⟩
    | some b =>
      rw [hhead] at hfound
      dsimp only at hfound
      split_ifs at hfound with hpeer
      · refine ⟨hfound, fun b' hb' hown => ?_⟩
        cases hb'
        exact absurd hown hpeer
      cases holdest : found.2 with
      | none =>
        rw [holdest] at hfound
        refine ⟨nofun, fun b' hb' _ => ?_⟩
        cases hb'
        exact hfound _ _ rfl
      | some oldest =>
        obtain ⟨seq', key'⟩ := oldest
        rw [holdest] at hfound
        dsimp only at hfound
        split_ifs at hfound with hlt
        · have hle := hfound _ _ rfl
          refine ⟨fun seq'' key'' heq => ?_, fun b' hb' _ => ?_⟩
          · cases heq
            exact hle.trans hlt.le
          · cases hb'
            exact hle
        have hle := hfound _ _ rfl
        refine ⟨fun seq'' key'' heq => ?_, fun b' hb' _ => ?_⟩
        · cases heq
          exact hle
        · cases hb'
          exact hle.trans (not_lt.mp hlt)

/-! ## What a turn does -/

/-- The entries were bound with the tickets drawn so far, and no peer has more
than its share. -/
structure Shared (m : Demux Addr) (n : ℕ) (t : SourceMap Addr) : Prop where
  drawn : ∀ key b, t.lookup key = some b → b.seq ≤ n
  known : ∀ key b, t.lookup key = some b → b.peer < m.peers.length
  share : ∀ i, i < m.peers.length →
    (sourcesOf t i).card ≤ m.maxDemuxSources / m.peers.length

/-- The source is not bound to another peer, and the order of the loop is one of
the map. -/
def Calm (m : Demux Addr) : SourceCall Addr → List Addr → SourceMap Addr → Prop
  | .bind src i, sources, t =>
    i < m.peers.length ∧ (∀ b, t.lookup src = some b → b.peer = i) ∧
      Enumerates sources t
  | .unbind _, sources, t => Enumerates sources t

/-- The first bound of the sources of a peer. -/
def Oldest (t : SourceMap Addr) (i : ℕ) (key : Addr) : Prop :=
  ∃ b, t.lookup key = some b ∧ b.peer = i ∧
    ∀ key' b', t.lookup key' = some b' → b'.peer = i → b.seq ≤ b'.seq

omit [DecidableEq Addr] in
theorem perPeerQuota_eq (hpos : 0 < m.peers.length)
    (hcap : m.peers.length ≤ m.maxDemuxSources) :
    m.perPeerQuota = m.maxDemuxSources / m.peers.length := by
  have hquota : 1 ≤ m.maxDemuxSources / m.peers.length :=
    (Nat.one_le_div_iff hpos).mpr hcap
  rw [perPeerQuota, max_eq_right (Nat.succ_le_of_lt hpos), max_eq_right hquota]

theorem Shared.card_keys_le_sum (h : Shared m n t) :
    t.keys.card ≤ ∑ i ∈ Finset.range m.peers.length, (sourcesOf t i).card := by
  refine (Finset.card_le_card fun key hkey => ?_).trans Finset.card_biUnion_le
  obtain ⟨b, hb⟩ := Finmap.mem_iff.mp (Finmap.mem_keys.mp hkey)
  rw [Finset.mem_biUnion]
  exact ⟨b.peer, Finset.mem_range.mpr (h.known key b hb),
    mem_sourcesOf.mpr ⟨b, hb, rfl⟩⟩

omit [DecidableEq Addr] in
theorem sum_shares_le (m : Demux Addr) :
    ∑ _i ∈ Finset.range m.peers.length, m.maxDemuxSources / m.peers.length ≤
      m.maxDemuxSources := by
  rw [Finset.sum_const, Finset.card_range, smul_eq_mul]
  exact Nat.mul_div_le _ _

theorem Shared.card_keys_le (h : Shared m n t) :
    t.keys.card ≤ m.maxDemuxSources :=
  h.card_keys_le_sum.trans ((Finset.sum_le_sum fun i hi =>
    h.share i (Finset.mem_range.mp hi)).trans (sum_shares_le m))

theorem Shared.card_keys_lt (h : Shared m n t) (hi : i < m.peers.length)
    (hbelow : (sourcesOf t i).card < m.maxDemuxSources / m.peers.length) :
    t.keys.card < m.maxDemuxSources := by
  refine h.card_keys_le_sum.trans_lt (lt_of_lt_of_le ?_ (sum_shares_le m))
  exact Finset.sum_lt_sum (fun j hj => h.share j (Finset.mem_range.mp hj))
    ⟨i, Finset.mem_range.mpr hi, hbelow⟩

/-- What a turn that binds a source does. -/
inductive Binds (share : ℕ) (src : Addr) (i : ℕ) (t : SourceMap Addr) :
    Outcome (SourceMap Addr) Bool → Prop
  | bound : Binds share src i t (.finish true)
  | room (hnone : t.lookup src = none)
      (hbelow : (sourcesOf t i).card < share) :
      Binds share src i t (.draw (replaced t src i none) true)
  | evicts {key : Addr} (hnone : t.lookup src = none)
      (holdest : Oldest t i key) :
      Binds share src i t (.draw (replaced t src i (some key)) true)

theorem binds_bindAttempt (hcap : m.peers.length ≤ m.maxDemuxSources)
    (h : Shared m n m.peerBySource)
    (hcalm : m.Calm (.bind src i) sources m.peerBySource) :
    Binds (m.maxDemuxSources / m.peers.length) src i m.peerBySource
      (m.bindAttempt src i sources) := by
  obtain ⟨hi, hown, hsources⟩ := hcalm
  have hpos : 0 < m.peers.length := Nat.zero_lt_of_lt hi
  have hquota : 1 ≤ m.maxDemuxSources / m.peers.length :=
    (Nat.one_le_div_iff hpos).mpr hcap
  unfold bindAttempt
  cases hsrc : m.peerBySource.lookup src with
  | some b =>
    dsimp only
    rw [if_pos (hown b hsrc)]
    exact .bound
  | none =>
    dsimp only
    rw [if_neg (hpos.trans_le hcap).ne', perPeerQuota_eq hpos hcap,
      scan_count_eq_card hsources]
    split_ifs with hfull hroom
    · cases hfound : (sources.foldl (m.scan i) (0, none)).2 with
      | none =>
        -- a peer at its quota has a source
        have hzero := scan_none sources (fun _ => rfl) hfound
        rw [scan_count_eq_card hsources] at hzero
        omega
      | some oldest =>
        obtain ⟨seq, key⟩ := oldest
        obtain ⟨b, hb, hpeer, hseq⟩ :=
          scan_found sources (by simp) seq key hfound
        refine .evicts hsrc ⟨b, hb, hpeer, fun key' b' hb' hpeer' => ?_⟩
        rw [hseq]
        exact (scan_oldest sources seq key hfound).2 key'
          ((hsources.2 key').mpr (Finmap.mem_of_lookup_eq_some hb')) b' hb'
          hpeer'
    · exact absurd hroom (not_le.mpr (h.card_keys_lt hi (not_le.mp hfull)))
    · exact .room hsrc (not_le.mp hfull)

theorem binds_attempt (hcap : m.peers.length ≤ m.maxDemuxSources)
    (h : Shared m n t) (hcalm : m.Calm (.bind src i) sources t) :
    Binds (m.maxDemuxSources / m.peers.length) src i t
      (m.attempt (.bind src i) sources t) :=
  binds_bindAttempt (m := { m with peerBySource := t }) hcap
    ⟨h.drawn, h.known, h.share⟩ hcalm

theorem lookup_insert_cases {b' : SourceBinding}
    (h : (t.insert src b').lookup key = some b) :
    key = src ∧ b = b' ∨ t.lookup key = some b := by
  by_cases hne : key = src
  · subst hne
    rw [Finmap.lookup_insert] at h
    exact .inl ⟨rfl, (Option.some.inj h).symm⟩
  · rw [Finmap.lookup_insert_of_ne _ hne] at h
    exact .inr h

theorem lookup_of_lookup_erase {key' : Addr}
    (h : (t.erase key').lookup key = some b) : t.lookup key = some b := by
  by_cases hkey : key = key'
  · subst hkey
    rw [Finmap.lookup_erase] at h
    cases h
  · rwa [Finmap.lookup_erase_ne hkey] at h

theorem lookup_replaced_cases
    (h : (replaced t src i evict seq).lookup key = some b) :
    key = src ∧ b = ⟨i, seq⟩ ∨ t.lookup key = some b := by
  refine (lookup_insert_cases h).imp_right fun hkept => ?_
  cases evict with
  | none => exact hkept
  | some => exact lookup_of_lookup_erase hkept

theorem lookup_without_foldl (sources : List Addr) (next : SourceMap Addr) :
    (sources.foldl
      (fun next key =>
        match t.lookup key with
        | some b => if b.peer ≠ i then next.insert key b else next
        | none => next) next).lookup key = some b →
      next.lookup key = some b ∨ t.lookup key = some b ∧ b.peer ≠ i := by
  induction sources generalizing next with
  | nil => exact .inl
  | cons head _ ih =>
    intro h
    rcases ih _ h with hnext | hold
    · cases hhead : t.lookup head with
      | none =>
        simp only [hhead] at hnext
        exact .inl hnext
      | some =>
        simp only [hhead] at hnext
        split_ifs at hnext with hpeer
        · by_cases hkey : key = head
          · subst hkey
            rw [Finmap.lookup_insert] at hnext
            cases hnext
            exact .inr ⟨hhead, hpeer⟩
          · rw [Finmap.lookup_insert_of_ne _ hkey] at hnext
            exact .inl hnext
        · exact .inl hnext
    · exact .inr hold

theorem lookup_without (h : (without t i sources).lookup key = some b) :
    t.lookup key = some b ∧ b.peer ≠ i := by
  rcases lookup_without_foldl sources ∅ h with hempty | hold
  · cases hempty
  · exact hold

/-! ## The share is kept -/

theorem sourcesOf_subset {t' : SourceMap Addr}
    (h : ∀ key b, t'.lookup key = some b → t.lookup key = some b) :
    sourcesOf t' i ⊆ sourcesOf t i := by
  intro key hkey
  obtain ⟨b, hb, hpeer⟩ := mem_sourcesOf.mp hkey
  exact mem_sourcesOf.mpr ⟨b, h key b hb, hpeer⟩

theorem Shared.of_subset {t' : SourceMap Addr} (h : Shared m n t)
    (hsub : ∀ key b, t'.lookup key = some b → t.lookup key = some b) :
    Shared m n t' where
  drawn key b hb := h.drawn key b (hsub key b hb)
  known key b hb := h.known key b (hsub key b hb)
  share i hi := (Finset.card_le_card (sourcesOf_subset hsub)).trans (h.share i hi)

theorem Shared.mono (h : Shared m n t) : Shared m (n + 1) t :=
  ⟨fun key b hb => (h.drawn key b hb).trans (Nat.le_succ n), h.known, h.share⟩

theorem Shared.insert (h : Shared m n t) (hi : i < m.peers.length)
    (hnone : t.lookup src = none)
    (hbelow : (sourcesOf t i).card < m.maxDemuxSources / m.peers.length) :
    Shared m (n + 1) (t.insert src ⟨i, n + 1⟩) := by
  refine ⟨fun key b hb => ?_, fun key b hb => ?_, fun j hj => ?_⟩
  · rcases lookup_insert_cases hb with ⟨-, rfl⟩ | hb
    · exact le_rfl
    · exact (h.drawn key b hb).trans (Nat.le_succ n)
  · rcases lookup_insert_cases hb with ⟨-, rfl⟩ | hb
    · exact hi
    · exact h.known key b hb
  by_cases hj' : i = j
  · subst hj'
    rw [sourcesOf_insert (b := ⟨i, n + 1⟩) hnone]
    exact (Finset.card_insert_le _ _).trans hbelow
  · rw [sourcesOf_insert_ne hnone hj']
    exact h.share j hj

theorem Shared.card_erase_lt (h : Shared m n t) (hi : i < m.peers.length)
    (hown : key ∈ sourcesOf t i) :
    (sourcesOf (t.erase key) i).card < m.maxDemuxSources / m.peers.length := by
  rw [sourcesOf_erase]
  exact (Finset.card_erase_lt_of_mem hown).trans_le (h.share i hi)

variable {next : ℕ → SourceMap Addr} {bound : Bool}

theorem Shared.replaced (h : Shared m n t) (hi : i < m.peers.length)
    (hbinds : Binds (m.maxDemuxSources / m.peers.length) src i t
      (.draw next bound)) : Shared m (n + 1) (next (n + 1)) := by
  cases hbinds with
  | room hnone hbelow => exact h.insert hi hnone hbelow
  | @evicts key hnone holdest =>
    obtain ⟨b, hb, hpeer, -⟩ := holdest
    have hsub : Shared m n (t.erase key) :=
      h.of_subset fun _ _ => lookup_of_lookup_erase
    refine hsub.insert hi ?_ (h.card_erase_lt hi
      (mem_sourcesOf.mpr ⟨b, hb, hpeer⟩))
    by_cases hkey : src = key
    · subst hkey
      exact Finmap.lookup_erase _ _
    · rw [Finmap.lookup_erase_ne hkey, hnone]

theorem keeps_shared (hcap : m.peers.length ≤ m.maxDemuxSources) :
    Keeps m.attempt m.Calm m.Shared where
  mono h := h.mono
  publish := by
    intro n t call sources next bound h hcalm hout
    cases call with
    | bind =>
      have hbinds := binds_attempt hcap h hcalm
      rw [hout] at hbinds
      cases hbinds
    | unbind i =>
      simp only [attempt, unbindAttempt] at hout
      split_ifs at hout
      cases hout
      exact h.of_subset fun key b hb => (lookup_without hb).1
  draw := by
    intro n t call sources next bound h hcalm hout
    cases call with
    | bind =>
      have hbinds := binds_attempt hcap h hcalm
      rw [hout] at hbinds
      exact h.replaced hcalm.1 hbinds
    | unbind i =>
      simp only [attempt, unbindAttempt] at hout
      split_ifs at hout

/-! ## Runs -/

/-- The map is empty, and no call is under way. -/
def unbound (m : Demux Addr) :
    System (SourceMap Addr) (SourceCall Addr) Bool :=
  ⟨∅, 0, m.bindSeq, fun _ => .idle⟩

/-- The system after the first `k` events. -/
def sharingAt (m : Demux Addr)
    (events : List (Event (SourceCall Addr) (List Addr))) (k : ℕ) :
    System (SourceMap Addr) (SourceCall Addr) Bool :=
  CopyOnWrite.run m.attempt m.unbound (events.take k)

/-- The map after the first `k` events. -/
def mapAt (m : Demux Addr)
    (events : List (Event (SourceCall Addr) (List Addr))) (k : ℕ) :
    SourceMap Addr :=
  (m.sharingAt events k).value

variable {events : List (Event (SourceCall Addr) (List Addr))} {k : ℕ}
  {e : Event (SourceCall Addr) (List Addr)}
  {s : System (SourceMap Addr) (SourceCall Addr) Bool}

theorem consistent_unbound (m : Demux Addr) :
    Consistent m.attempt m.Calm m.Shared m.unbound where
  value := ⟨nofun, nofun, fun i _ => by simp [sourcesOf, unbound]⟩
  threads _ := .idle

theorem mapAt_succ (h : events[k]? = some e) :
    m.mapAt events (k + 1) =
      (CopyOnWrite.step m.attempt (m.sharingAt events k) e).value := by
  rw [mapAt, sharingAt, CopyOnWrite.run, foldl_take_succ h]
  rfl

/-- A published binding is what one turn makes of the map just before. -/
theorem binds_of_publishes (hcap : m.peers.length ≤ m.maxDemuxSources)
    (h : Consistent m.attempt m.Calm m.Shared s)
    (hpub : Publishes s e (.bind src i)) :
    ∃ n next bound, Shared m n s.value ∧
      Binds (m.maxDemuxSources / m.peers.length) src i s.value
        (.draw next bound) ∧
      (CopyOnWrite.step m.attempt s e).value = next (n + 1) := by
  rcases h.value_step (e := e) with
    ⟨call, bound, hpub', sources, n, hshared, hcalm, hout⟩ | ⟨-, hnone⟩
  · cases hpub.unique hpub'
    have hbinds := binds_attempt hcap hshared hcalm
    rcases hout with hout | ⟨next, hout, hnext⟩
    · rw [hout] at hbinds
      cases hbinds
    · rw [hout] at hbinds
      exact ⟨n, next, bound, hshared, hbinds, hnext⟩
  · exact absurd hpub (hnone _)

/-- A new entry is younger than every entry that it finds. -/
theorem new_entry_youngest (hcap : m.peers.length ≤ m.maxDemuxSources)
    (h : Consistent m.attempt m.Calm m.Shared s)
    (hlookup : (CopyOnWrite.step m.attempt s e).value.lookup key = some b) :
    s.value.lookup key = some b ∨
      ∀ key' b', s.value.lookup key' = some b' → b'.seq < b.seq := by
  rcases h.value_step (e := e) with
    ⟨call, bound, hpub, sources, n, hshared, hcalm, hout⟩ | ⟨hsame, -⟩
  · cases call with
    | bind src i =>
      obtain ⟨n, next, bound, hshared, hbinds, hnext⟩ :=
        binds_of_publishes hcap h hpub
      rw [hnext] at hlookup
      have hcases : key = src ∧ b = ⟨i, n + 1⟩ ∨
          s.value.lookup key = some b := by
        cases hbinds with
        | room | evicts => exact lookup_replaced_cases hlookup
      refine hcases.symm.imp_right ?_
      rintro ⟨-, rfl⟩ key' b' hb'
      exact Nat.lt_succ_of_le (hshared.drawn key' b' hb')
    | unbind i =>
      simp only [attempt, unbindAttempt] at hout
      split_ifs at hout
      · rcases hout with hout | ⟨next, hout, -⟩
        · injection hout with hnext
          rw [← hnext] at hlookup
          exact .inl (lookup_without hlookup).1
        · cases hout
      · rcases hout with hout | ⟨next, hout, -⟩ <;> cases hout
  · rw [hsame] at hlookup
    exact .inl hlookup

/-- What the calls that bind and unbind sources do to the map. -/
structure FairlyShared (m : Demux Addr)
    (events : List (Event (SourceCall Addr) (List Addr))) : Prop where
  capped : ∀ k, (m.mapAt events k).keys.card ≤ m.maxDemuxSources
  share : ∀ k i, i < m.peers.length →
    (sourcesOf (m.mapAt events k) i).card ≤
      m.maxDemuxSources / m.peers.length
  /-- No call that binds a source returns that it has failed. -/
  never_fails : ∀ k thread src i,
    (m.sharingAt events k).threads thread ≠ .returned (.bind src i) false
  /-- The map changes only when a call publishes its copy. -/
  quiet : ∀ k e, events[k]? = some e →
    m.mapAt events (k + 1) ≠ m.mapAt events k →
    ∃ call, Publishes (m.sharingAt events k) e call
  /-- A call that binds a source leaves it bound to the peer. -/
  bound : ∀ k e src i, events[k]? = some e →
    Publishes (m.sharingAt events k) e (.bind src i) →
    ∃ b, (m.mapAt events (k + 1)).lookup src = some b ∧ b.peer = i
  /-- A bound source leaves the entries of other peers. -/
  others : ∀ k e src i, events[k]? = some e →
    Publishes (m.sharingAt events k) e (.bind src i) →
    ∀ key b, b.peer ≠ i →
      ((m.mapAt events (k + 1)).lookup key = some b ↔
        (m.mapAt events k).lookup key = some b)
  /-- An entry that goes is one of the same peer, and any other entry that the
  peer has had since some moment is no older. -/
  evicted : ∀ k e src i, events[k]? = some e →
    Publishes (m.sharingAt events k) e (.bind src i) →
    ∀ key b, (m.mapAt events k).lookup key = some b →
      (m.mapAt events (k + 1)).lookup key = none →
      b.peer = i ∧
        ∀ key' b', (m.mapAt events k).lookup key' = some b' → b'.peer = i →
          ∀ j, j ≤ k →
            (∀ l, j ≤ l → l ≤ k → (m.mapAt events l).lookup key' = some b') →
            (m.mapAt events j).lookup key = some b

theorem ne_of_lookup (hsrc : t.lookup src = none) (h : t.lookup key = some b) :
    key ≠ src := by
  rintro rfl
  rw [hsrc] at h
  cases h

variable {share : ℕ}

theorem Binds.lookup_self (h : Binds share src i t (.draw next bound)) (seq : ℕ) :
    (next seq).lookup src = some ⟨i, seq⟩ := by
  cases h with
  | room | evicts => exact Finmap.lookup_insert _

/-- A turn that binds a source leaves the entries of other peers. -/
theorem Binds.lookup_other (h : Binds share src i t (.draw next bound))
    (seq : ℕ) (hb : b.peer ≠ i) :
    (next seq).lookup key = some b ↔ t.lookup key = some b := by
  have hfrom : ∀ evict, (replaced t src i evict seq).lookup key = some b →
      t.lookup key = some b := by
    intro evict hnext
    rcases lookup_replaced_cases hnext with ⟨-, rfl⟩ | hold
    · exact absurd rfl hb
    · exact hold
  cases h with
  | room hnone =>
    refine ⟨hfrom none, fun hold => ?_⟩
    rwa [lookup_replaced_ne (ne_of_lookup hnone hold) (by simp)]
  | @evicts key' hnone holdest =>
    obtain ⟨b', hb', hpeer, -⟩ := holdest
    refine ⟨hfrom (some key'), fun hold => ?_⟩
    rw [lookup_replaced_ne (ne_of_lookup hnone hold)]
    · exact hold
    rintro ⟨⟩
    rw [hb'] at hold
    cases hold
    exact hb hpeer

theorem Binds.oldest_of_gone (h : Binds share src i t (.draw next bound))
    {seq : ℕ} (hb : t.lookup key = some b)
    (hgone : (next seq).lookup key = none) : Oldest t i key := by
  cases h with
  | room hnone =>
    rw [lookup_replaced_ne (ne_of_lookup hnone hb) (by simp), hb] at hgone
    cases hgone
  | @evicts key' hnone holdest =>
    by_cases hkey : key' = key
    · exact hkey ▸ holdest
    · rw [lookup_replaced_ne (ne_of_lookup hnone hb)
        (fun heq => hkey (Option.some.inj heq)), hb] at hgone
      cases hgone

/-- An entry that is no younger than one that was there all the time was there
all the time as well. -/
theorem lookup_mapAt_of_seq_le (hcap : m.peers.length ≤ m.maxDemuxSources)
    (hcalm : Along (CopyOnWrite.step m.attempt) (Meets m.Calm) m.unbound events)
    {key' : Addr} {b' : SourceBinding} (hjk : j ≤ k)
    (hheld : ∀ l, j ≤ l → l ≤ k → (m.mapAt events l).lookup key' = some b')
    (hb : (m.mapAt events k).lookup key = some b) (hseq : b.seq ≤ b'.seq) :
    (m.mapAt events j).lookup key = some b := by
  refine foldl_take_induction
    (P := fun s : System (SourceMap Addr) (SourceCall Addr) Bool =>
      s.value.lookup key = some b → (m.mapAt events j).lookup key = some b)
    hjk id ?_ hb
  intro l e hjl hlk he hl hlookup
  have hconsistent := CopyOnWrite.consistent_run (keeps_shared hcap)
    (consistent_unbound m) hcalm l
  rcases new_entry_youngest hcap hconsistent hlookup with hold | hyoungest
  · exact hl hold
  · exact absurd (hyoungest key' b' (hheld l hjl hlk.le)) (not_lt.mpr hseq)

/-- The sources are fairly shared.  However the readers' calls interleave, as
long as no source is bound to two peers and there is a share for each peer, the
map stays within its bound and each peer within its share, no call that binds a
source fails, and a peer at its share gives up its own oldest source. -/
theorem sources_fairly_shared (m : Demux Addr)
    (hcap : m.peers.length ≤ m.maxDemuxSources)
    (events : List (Event (SourceCall Addr) (List Addr)))
    (hcalm : Along (CopyOnWrite.step m.attempt) (Meets m.Calm) m.unbound
      events) :
    FairlyShared m events := by
  have hconsistent : ∀ k, Consistent m.attempt m.Calm m.Shared
      (m.sharingAt events k) :=
    CopyOnWrite.consistent_run (keeps_shared hcap) (consistent_unbound m) hcalm
  constructor
  case capped => exact fun k => (hconsistent k).value.card_keys_le
  case share => exact fun k => (hconsistent k).value.share
  case never_fails =>
    intro k thread src i hreturned
    have hsound := (hconsistent k).threads thread
    rw [hreturned] at hsound
    cases hsound with
    | finished hshared hcalm' hfinish =>
      have hbinds := binds_attempt hcap hshared hcalm'
      rw [hfinish] at hbinds
      cases hbinds
    | published heffect =>
      obtain ⟨sources, n, hshared, hcalm', hout⟩ := heffect
      have hbinds := binds_attempt hcap hshared hcalm'
      rcases hout with hout | ⟨next, hout, -⟩ <;>
        · rw [hout] at hbinds
          cases hbinds
  case quiet =>
    intro k e he hne
    rw [mapAt_succ he] at hne
    rcases (hconsistent k).value_step (e := e) with
      ⟨call, result, hpub, -⟩ | ⟨hsame, -⟩
    · exact ⟨call, hpub⟩
    · exact absurd hsame hne
  case bound =>
    intro k e src i he hpub
    obtain ⟨n, next, bound, -, hbinds, hnext⟩ :=
      binds_of_publishes hcap (hconsistent k) hpub
    rw [mapAt_succ he, hnext]
    exact ⟨⟨i, n + 1⟩, hbinds.lookup_self (n + 1), rfl⟩
  case others =>
    intro k e src i he hpub key b hb
    obtain ⟨n, next, bound, -, hbinds, hnext⟩ :=
      binds_of_publishes hcap (hconsistent k) hpub
    rw [mapAt_succ he, hnext]
    exact hbinds.lookup_other (n + 1) hb
  case evicted =>
    intro k e src i he hpub key b hb hgone
    obtain ⟨n, next, bound, -, hbinds, hnext⟩ :=
      binds_of_publishes hcap (hconsistent k) hpub
    rw [mapAt_succ he, hnext] at hgone
    obtain ⟨b₀, hb₀, hpeer, holdest⟩ := hbinds.oldest_of_gone hb hgone
    have heq : b₀ = b := Option.some.inj (hb₀.symm.trans hb)
    subst heq
    refine ⟨hpeer, fun key' b' hb' hpeer' j hjk hheld => ?_⟩
    exact lookup_mapAt_of_seq_le hcap hcalm hjk hheld hb
      (holdest key' b' hb' hpeer')

/-- Two peers, and a map with room for one source of each. -/
def narrow : Demux ℕ := ⟨[keyedPeer 1, keyedPeer 2], ∅, 0, 2⟩

/-- Three readers bind the sources 5 and 7 to the first peer and 8 to the second.
The later two lose the race and try again; the last one evicts the source 5. -/
def race : List (Event (SourceCall ℕ) (List ℕ)) :=
  [.start 0 (.bind 5 0), .start 1 (.bind 7 0), .start 2 (.bind 8 1), .load 0,
    .load 1, .load 2, .prepare 0 [], .prepare 1 [], .prepare 2 [], .swap 0,
    .swap 1, .swap 2, .load 2, .prepare 2 [5], .swap 2, .load 1,
    .prepare 1 [8, 5], .swap 1]

omit [DecidableEq Addr] in
theorem enumerates_nil : Enumerates [] (∅ : SourceMap Addr) :=
  ⟨List.nodup_nil, fun _ => iff_of_false nofun Finmap.notMem_empty⟩

theorem Enumerates.insert (h : Enumerates sources t) (hnew : src ∉ sources)
    (b : SourceBinding) : Enumerates (src :: sources) (t.insert src b) := by
  refine ⟨List.nodup_cons.mpr ⟨hnew, h.1⟩, fun key => ?_⟩
  rw [List.mem_cons, Finmap.mem_insert, h.2 key]

theorem calm_race :
    Along (CopyOnWrite.step narrow.attempt) (Meets narrow.Calm) narrow.unbound
      race := by
  have hfive : Enumerates [5] ((∅ : SourceMap ℕ).insert 5 ⟨0, 1⟩) :=
    enumerates_nil.insert nofun _
  refine ⟨trivial, trivial, trivial, trivial, trivial, trivial, ?_, ?_, ?_,
    trivial, trivial, trivial, trivial, ?_, trivial, trivial, ?_, trivial,
    trivial⟩
  iterate 3
    · rintro call version old ⟨⟩
      exact ⟨by decide, nofun, enumerates_nil⟩
  · rintro call version old ⟨⟩
    exact ⟨by decide, by decide, hfive⟩
  · rintro call version old ⟨⟩
    exact ⟨by decide, by decide, hfive.insert (by decide) _⟩

theorem sources_fairly_shared_race :
    (narrow.mapAt race 18).lookup 7 = some ⟨0, 5⟩ ∧
      (narrow.mapAt race 18).lookup 5 = none ∧
      (narrow.mapAt race 18).lookup 8 = some ⟨1, 4⟩ ∧
      FairlyShared narrow race :=
  ⟨by decide, by decide, by decide,
    sources_fairly_shared narrow (by decide) race calm_race⟩

end Demux

end Wanbond.Bind
