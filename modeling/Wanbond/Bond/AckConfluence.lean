import Wanbond.Bond.AckOrder

/-!
# An acknowledgement in any order

Where no packet is split, the state after an acknowledgement does not depend on
the order in which its loops range over their maps.  A split packet makes the
order visible: its attempt below the bitmap is given up if the attempt that the
bitmap names comes first, and kept otherwise.
-/

namespace Wanbond.Bond

open Wanbond.Support

namespace Transport

variable {t u : Transport} {p q : Lane} {a : Acknowledgement} {now : Time}
  {fresh : Bool}

/-! ## Nothing is split -/

theorem perm_keys (o₁ o₂ : MapOrder) (loop : MapLoop) (id : PathID)
    {keys keys' : List ℕ} (h : keys.Perm keys') :
    (o₁.keys loop id keys).Perm (o₂.keys loop id keys') :=
  ((o₁.perm loop id keys).trans h).trans (o₂.perm loop id keys').symm

theorem known_receiptTurn {sent : Attempt} (h : t.known a sent = true) (k : ℕ) :
    (receiptTurn a t k).known a sent = true := by
  unfold receiptTurn
  split
  · exact h
  next ref _ =>
    split
    · have hsettle : ({ t.ackPacket ref with
          pending := t.pending.erase k } : Transport).known a sent =
          (t.settlePacket (some ref)).known a sent := rfl
      rw [hsettle, known_settlePacket]
      exact Or.inl h
    · exact h

theorem known_receiptTurns {sent : Attempt} (keys : List ℕ) :
    ∀ t : Transport, t.known a sent = true →
      (keys.foldl (receiptTurn a) t).known a sent = true := by
  induction keys with
  | nil => exact fun t h => h
  | cons k _ ih => exact fun t h => ih _ (known_receiptTurn h k)

variable {keys : List ℕ}

theorem Split.of_receipts (h : Split (keys.foldl (receiptTurn a) t) p a) :
    Split t p a := by
  obtain ⟨low, named, sent, sent', ref, hlow, hnamed, hpl, hpn, hlt, hfar, hbit,
    hknown⟩ := h
  refine ⟨low, named, sent, sent', ref, hlow, hnamed, hpl, hpn, hlt, hfar, hbit,
    ?_⟩
  rw [← Bool.not_eq_true] at hknown ⊢
  exact fun h => hknown (known_receiptTurns keys t h)

theorem scan_any_order (hnow : 0 ≤ now) (hp : p.Timed now)
    (hsplit : ¬Split t p a) (fresh : Bool) (o₁ o₂ : MapOrder) :
    t.scan p a now fresh o₁ = t.scan p a now fresh o₂ := by
  have hreceipts : (o₁.keys .receipts p.id t.pending.keys).foldl
      (receiptTurn a) t =
        (o₂.keys .receipts p.id t.pending.keys).foldl (receiptTurn a) t :=
    (unordered_receiptTurn a).foldl_perm
      (perm_keys o₁ o₂ .receipts p.id (.refl _)) t t trivial rfl
  unfold scan
  rw [hreceipts]
  exact (unordered_scanTurn hnow a fresh).foldl_perm
    (perm_keys o₁ o₂ .bitmap p.id (.refl _)) _ _
    ⟨hp, fun h => hsplit (Split.of_receipts h)⟩ rfl

theorem settlePrefix_any_order (hnow : 0 ≤ now) {s : Scan}
    (hs : s.lane.Timed now) (a : Acknowledgement) (fresh : Bool)
    (o₁ o₂ : MapOrder) :
    settlePrefix s a fresh o₁ = settlePrefix s a fresh o₂ := by
  have hremember : (rememberThrough s).Timed now := by
    unfold rememberThrough
    split <;> exact hs
  unfold settlePrefix
  split
  · dsimp only
    split
    · unfold confirmArrived
      split
      · rfl
      · exact (unordered_arrivedTurn hnow a).foldl_perm
          (perm_keys o₁ o₂ .arrived _ (.refl _)) _ _ hremember rfl
    · rfl
  · rfl

theorem SameMaps.find_cases (h : t.SameMaps u) (id : PathID) :
    t.find id = none ∧ u.find id = none ∨
      ∃ p q, t.find id = some p ∧ u.find id = some q ∧ p.SameMaps q := by
  have hfind := h.find id
  generalize t.find id = x at hfind ⊢
  generalize u.find id = y at hfind ⊢
  cases hfind with
  | none => exact Or.inl ⟨rfl, rfl⟩
  | some hpq => exact Or.inr ⟨_, _, rfl, rfl, hpq⟩

/-- The pass over one lane. -/
theorem sameMaps_confirmLane (h : t.SameMaps u) (hnow : 0 ≤ now)
    (ht : ∀ id p, t.find id = some p → p.Timed now) (a : Acknowledgement)
    (o₁ o₂ : MapOrder) (acknowledged : PathID) (feedback : Duration)
    (id : PathID) :
    (t.confirmLane a now o₁ acknowledged feedback id).SameMaps
      (u.confirmLane a now o₂ acknowledged feedback id) := by
  unfold confirmLane
  rcases h.find_cases id with ⟨hp, hq⟩ | ⟨p, q, hp, hq, hpq⟩
  · rwa [hp, hq]
  rw [hp, hq]
  dsimp only
  have hkeys : p.attempts.keys.Perm q.attempts.keys :=
    (perm_entries_of_lookup fun k => (hpq.attempts k).symm).map Sigma.fst
  have hfold := (unordered_confirmTurn hnow a).foldl_perm
    (perm_keys o₁ o₂ .confirm id hkeys)
    ⟨t, p, if id = acknowledged then feedback else 0⟩
    ⟨u, q, if id = acknowledged then feedback else 0⟩
    (ht id p hp) ⟨h, hpq, rfl⟩
  rw [hfold.feedback]
  exact hfold.transport.setLane (Lane.SameMaps.aside
    (Lane.aside_observeFeedbackRTT _) hfold.lane)

theorem sameMaps_confirmLanes (hnow : 0 ≤ now) (a : Acknowledgement)
    (o₁ o₂ : MapOrder) (acknowledged : PathID) (feedback : Duration)
    (ids : List PathID) :
    ∀ t u : Transport, t.SameMaps u →
      (∀ id p, t.find id = some p → p.Timed now) →
      (ids.foldl (confirmLane a now o₁ acknowledged feedback) t).SameMaps
        (ids.foldl (confirmLane a now o₂ acknowledged feedback) u) := by
  induction ids with
  | nil => exact fun t u h _ => h
  | cons id ids ih =>
    intro t u h ht
    refine ih _ _ (sameMaps_confirmLane h hnow ht a o₁ o₂ acknowledged feedback
      id) ?_
    intro j q hq
    obtain ⟨p, hp, htimed⟩ := (lanesBy_confirmLane (fun _ h => h)
      (fun p => ((Lane.keptByLoops_timed hnow false).relation p).toKeptByConfirm)
      a o₁ acknowledged feedback t id).find hq
    exact htimed (ht j p hp)

theorem settle_sameMaps (hnow : 0 ≤ now)
    (ht : ∀ id p, t.find id = some p → p.Timed now) (hp : p.Timed now)
    (hsplit : ¬Split t p a) (fresh : Bool) (o₁ o₂ : MapOrder) :
    (t.settle p a now fresh o₁).SameMaps (t.settle p a now fresh o₂) := by
  have hscan := scan_any_order hnow hp hsplit fresh o₁ o₂
  have htimed := (timed_scan t hp hnow a fresh o₂).lane
  have hpaths := (same_settlePrefix a now fresh t p o₂).1.paths
  unfold settle
  rw [hscan]
  generalize t.scan p a now fresh o₂ = s at htimed hpaths ⊢
  dsimp only
  rw [settlePrefix_any_order hnow htimed a fresh o₁ o₂]
  have hlane := (Lane.keptByLoops_timed hnow fresh).settlePrefix (a := a) htimed
    o₂
  refine sameMaps_confirmLanes hnow a o₁ o₂ _ _ _ _ _ (.refl _) fun id q hq => ?_
  rcases find_setLane_cases hq with rfl | hold
  · exact hlane
  · refine ht id q ?_
    rwa [find, ← hpaths]

/-- Where nothing is split, the state does not depend on the order. -/
theorem ack_sameMaps (hnow : 0 ≤ now)
    (ht : ∀ id p, t.find id = some p → p.Timed now) (hp : p.Timed now)
    (hsplit : ¬Split t p a) (fresh : Bool) (o₁ o₂ : MapOrder) :
    (t.ack p a now fresh o₁).SameMaps (t.ack p a now fresh o₂) := by
  have hprogress : (noteProgress p a now (progresses p a fresh)).Timed now :=
    timed_noteProgress hp _
  have hsplit' : ¬Split t (noteProgress p a now (progresses p a fresh)) a := by
    unfold Split
    rwa [noteProgress_toLaneCore]
  have hscan := scan_any_order hnow hprogress hsplit' fresh o₁ o₂
  have hsettle := settle_sameMaps hnow ht hprogress hsplit' fresh o₁ o₂
  dsimp only [ack]
  rw [hscan]
  rcases hsettle.find_cases
    (noteProgress p a now (progresses p a fresh)).id with
      ⟨h₁, h₂⟩ | ⟨q₁, q₂, h₁, h₂, hq⟩
  · rwa [h₁, h₂]
  · rw [h₁, h₂]
    exact hsettle.estimate hq a now fresh _ _ _ _

/-! ## A split packet

The two orders that tell it: the attempts that the bitmap names first, or
last. -/

/-- The order of the bitmap loop; the other loops take the keys as they come. -/
def bitmapOrder (a : Acknowledgement) (namedFirst : Bool) : MapOrder where
  keys loop _ keys := match loop, namedFirst with
    | .bitmap, true => keys.filter a.laneBit ++ keys.filter fun k => !a.laneBit k
    | .bitmap, false => (keys.filter fun k => !a.laneBit k) ++ keys.filter a.laneBit
    | _, _ => keys
  perm loop _ keys := by
    have hperm := List.filter_append_perm a.laneBit keys
    cases loop <;> cases namedFirst <;>
      first | exact .refl _ | exact hperm | exact List.perm_append_comm.trans hperm

section Turns

variable {s s' : Scan} {j k : ℕ} {sent : Attempt}

theorem scanTurn_of_scanned (hs : s.lane.attempts.lookup k = some sent)
    (h : scanned a s k sent = true) :
    scanTurn a now fresh s k = s.act a now fresh (a.laneBit k) k sent := by
  rw [scanTurn_eq_eachEntry]
  dsimp only [eachEntry]
  rw [hs]
  exact if_pos h

theorem scanTurn_of_not (h : ∀ sent, s.lane.attempts.lookup k = some sent →
    scanned a s k sent = false) : scanTurn a now fresh s k = s := by
  rw [scanTurn_eq_eachEntry]
  exact eachEntry_of_not h

theorem scanTurn_acts (a : Acknowledgement) (now : Time) (fresh : Bool)
    (s : Scan) (k : ℕ) :
    scanTurn a now fresh s k = s ∨
      ∃ sent, s.lane.attempts.lookup k = some sent ∧
        scanTurn a now fresh s k = s.act a now fresh (a.laneBit k) k sent := by
  by_cases h : ∃ sent, s.lane.attempts.lookup k = some sent ∧
      scanned a s k sent = true
  · obtain ⟨sent, hs, hscanned⟩ := h
    exact Or.inr ⟨sent, hs, scanTurn_of_scanned hs hscanned⟩
  · refine Or.inl (scanTurn_of_not fun sent hs => ?_)
    by_contra hscanned
    exact h ⟨sent, hs, by simpa using hscanned⟩

theorem lookup_scanTurn_ne (hjk : k ≠ j) :
    (scanTurn a now fresh s j).lane.attempts.lookup k =
      s.lane.attempts.lookup k := by
  rcases scanTurn_acts a now fresh s j with h | ⟨sent, -, h⟩
  · rw [h]
  · rw [h, attempts_act, AList.lookup_erase_ne hjk]

theorem lookup_scanTurns_none (keys : List ℕ) :
    ∀ s : Scan, s.lane.attempts.lookup k = none →
      (keys.foldl (scanTurn a now fresh) s).lane.attempts.lookup k = none := by
  induction keys with
  | nil => exact fun s h => h
  | cons j _ ih =>
    intro s h
    refine ih _ ?_
    rcases scanTurn_acts a now fresh s j with hturn | ⟨sent, -, hturn⟩
    · rwa [hturn]
    rw [hturn, attempts_act]
    by_cases hkj : k = j
    · subst hkj
      exact AList.lookup_erase k _
    · rwa [AList.lookup_erase_ne hkj]

theorem lookup_scanTurns_of_notMem (hk : k ∉ keys) :
    (keys.foldl (scanTurn a now fresh) s).lane.attempts.lookup k =
      s.lane.attempts.lookup k := by
  induction keys generalizing s with
  | nil => rfl
  | cons _ _ ih =>
    rw [List.mem_cons, not_or] at hk
    exact (ih hk.2).trans (lookup_scanTurn_ne hk.1)

theorem known_scanTurn (h : s.transport.known a sent = true) (k : ℕ) :
    (scanTurn a now fresh s k).transport.known a sent = true := by
  rcases scanTurn_acts a now fresh s k with hturn | ⟨sent', -, hturn⟩
  · rwa [hturn]
  · rw [hturn, known_act]
    exact Or.inl h

theorem known_scanTurns (keys : List ℕ) :
    ∀ s : Scan, s.transport.known a sent = true →
      (keys.foldl (scanTurn a now fresh) s).transport.known a sent = true := by
  induction keys with
  | nil => exact fun s h => h
  | cons k _ ih => exact fun s h => ih _ (known_scanTurn h k)

/-- An attempt that the bitmap names makes its packet known. -/
theorem known_of_named (now : Time) (fresh : Bool) (hnodup : keys.Nodup)
    (hk : k ∈ keys) (hbit : a.laneBit k = true) {sent' : Attempt}
    (hlookup : s.lane.attempts.lookup k = some sent') {ref : PacketRef}
    (hpacket : sent.packet = some ref) (hpacket' : sent'.packet = some ref) :
    (keys.foldl (scanTurn a now fresh) s).transport.known a sent = true := by
  obtain ⟨before, after, rfl⟩ := List.append_of_mem hk
  have hbefore : k ∉ before := by
    have := List.disjoint_of_nodup_append hnodup
    exact fun h => this h (List.mem_cons_self)
  rw [List.foldl_append, List.foldl_cons]
  refine known_scanTurns after _ ?_
  have hlookup' : (before.foldl (scanTurn a now fresh) s).lane.attempts.lookup k =
      some sent' := (lookup_scanTurns_of_notMem hbefore).trans hlookup
  generalize before.foldl (scanTurn a now fresh) s = s' at hlookup' ⊢
  rw [scanTurn_of_scanned hlookup' (by simp [scanned, hbit])]
  exact (known_act s' _ k sent' sent).mpr (Or.inr ⟨hbit, ref, hpacket', hpacket⟩)

/-- An attempt below the bitmap is given up. -/
def givenUp (a : Acknowledgement) (t : Transport) (k : ℕ) (sent : Attempt) :
    Bool :=
  decide (t.known a sent = true ∧ k < a.high ∧ a.high - k ≥ 64)

theorem transport_scanTurn_below (hbit : a.laneBit j = false) :
    (scanTurn a now fresh s j).transport = s.transport := by
  rcases scanTurn_acts a now fresh s j with hturn | ⟨sent, -, hturn⟩
  · rw [hturn]
  · rw [hturn, hbit]
    rfl

/-- What the turns below the bitmap leave of an attempt. -/
theorem lookup_below (keys : List ℕ)
    (hkeys : ∀ j ∈ keys, a.laneBit j = false) :
    ∀ s : Scan, s.lane.attempts.lookup k = some sent →
      (keys.foldl (scanTurn a now fresh) s).lane.attempts.lookup k =
        if k ∈ keys ∧ givenUp a s.transport k sent = true then none
        else some sent := by
  induction keys with
  | nil =>
    intro s hs
    simpa using hs
  | cons j keys ih =>
    intro s hs
    have hbit := hkeys j List.mem_cons_self
    have hrest := ih fun i hi => hkeys i (List.mem_cons_of_mem j hi)
    rw [List.foldl_cons]
    by_cases hjk : k = j
    · subst hjk
      cases hgiven : givenUp a s.transport k sent with
      | true =>
        have hscanned : scanned a s k sent = true := by
          unfold scanned
          rwa [hbit]
        have hgone : (scanTurn a now fresh s k).lane.attempts.lookup k =
            none := by
          rw [scanTurn_of_scanned hs hscanned, attempts_act,
            AList.lookup_erase]
        rw [lookup_scanTurns_none keys _ hgone]
        simp
      | false =>
        have hidle : scanTurn a now fresh s k = s := by
          refine scanTurn_of_not fun b hb => ?_
          obtain rfl : b = sent := Option.some.inj (hb.symm.trans hs)
          unfold scanned
          rwa [hbit]
        rw [hidle, hrest s hs, hgiven]
        simp
    · have hsame : (scanTurn a now fresh s j).lane.attempts.lookup k =
          some sent := (lookup_scanTurn_ne hjk).trans hs
      rw [hrest _ hsame, transport_scanTurn_below hbit]
      simp [hjk]

end Turns

/-! ## What the two orders agree on -/

/-- The scans agree on the attempts that the bitmap names and on all that the
complete-prefix rule reads, except for the attempts below the bitmap. -/
structure Scan.Agree (a : Acknowledgement) (s s' : Scan) : Prop where
  high : s'.high = s.high
  acked : s'.lane.acked = s.lane.acked
  through : s'.lane.receivedThrough = s.lane.receivedThrough
  top : s'.lane.receivedHigh = s.lane.receivedHigh
  lookup : ∀ k, a.laneBit k = true →
    s'.lane.attempts.lookup k = s.lane.attempts.lookup k

theorem core_act (a : Acknowledgement) (now : Time) (fresh : Bool) (s : Scan)
    (bit : Bool) (k : ℕ) (sent : Attempt) :
    (s.act a now fresh bit k sent).lane.acked =
        (if bit then s.lane.acked + sent.bytes else s.lane.acked) ∧
      (s.act a now fresh bit k sent).lane.receivedThrough =
        s.lane.receivedThrough ∧
      (s.act a now fresh bit k sent).lane.receivedHigh = s.lane.receivedHigh := by
  dsimp only [Scan.act]
  split
  · rw [Lane.observeHigh_toLaneCore]
    exact ⟨rfl, rfl, rfl⟩
  · exact ⟨rfl, rfl, rfl⟩

namespace Scan.Agree

variable {s s' s'' : Scan} {k : ℕ}

theorem refl (a : Acknowledgement) (s : Scan) : Agree a s s :=
  ⟨rfl, rfl, rfl, rfl, fun _ _ => rfl⟩

theorem trans (h : Agree a s s') (h' : Agree a s' s'') : Agree a s s'' :=
  ⟨h'.high.trans h.high, h'.acked.trans h.acked, h'.through.trans h.through,
    h'.top.trans h.top, fun k hk => (h'.lookup k hk).trans (h.lookup k hk)⟩

theorem symm (h : Agree a s s') : Agree a s' s :=
  ⟨h.high.symm, h.acked.symm, h.through.symm, h.top.symm,
    fun k hk => (h.lookup k hk).symm⟩

theorem below (s : Scan) (hk : a.laneBit k = false) :
    Agree a s (scanTurn a now fresh s k) := by
  rcases scanTurn_acts a now fresh s k with hturn | ⟨sent, -, hturn⟩
  · rw [hturn]
    exact refl a s
  obtain ⟨hacked, hthrough, htop⟩ :=
    core_act a now fresh s false k sent
  rw [hturn, hk]
  refine ⟨rfl, hacked, hthrough, htop, fun j hj => ?_⟩
  have hjk : j ≠ k := by
    rintro rfl
    rw [hj] at hk
    cases hk
  rw [attempts_act, AList.lookup_erase_ne hjk]

/-- A turn of an attempt that the bitmap names. -/
theorem named (h : Agree a s s') (hk : a.laneBit k = true) :
    Agree a (scanTurn a now fresh s k) (scanTurn a now fresh s' k) := by
  have hscanned : ∀ (s : Scan) (sent : Attempt), scanned a s k sent = true := by
    intro s sent
    simp [scanned, hk]
  cases hs : s.lane.attempts.lookup k with
  | none =>
    have hs' := (h.lookup k hk).trans hs
    have hidle : ∀ {s : Scan}, s.lane.attempts.lookup k = none →
        scanTurn a now fresh s k = s := fun hs =>
      scanTurn_of_not fun sent hsent => by
        rw [hs] at hsent
        cases hsent
    rwa [hidle hs, hidle hs']
  | some sent =>
    have hs' := (h.lookup k hk).trans hs
    rw [scanTurn_of_scanned hs (hscanned s sent),
      scanTurn_of_scanned hs' (hscanned s' sent), hk]
    obtain ⟨hacked, hthrough, htop⟩ :=
      core_act a now fresh s true k sent
    obtain ⟨hacked', hthrough', htop'⟩ :=
      core_act a now fresh s' true k sent
    refine ⟨?_, ?_, ?_, ?_, fun j hj => ?_⟩
    · dsimp only [Scan.act]
      rw [h.high]
    · rw [hacked, hacked', h.acked]
    · rw [hthrough, hthrough', h.through]
    · rw [htop, htop', h.top]
    rw [attempts_act, attempts_act]
    by_cases hjk : j = k
    · subst hjk
      rw [AList.lookup_erase, AList.lookup_erase]
    · rw [AList.lookup_erase_ne hjk, AList.lookup_erase_ne hjk]
      exact h.lookup j hj

theorem turns_below (now : Time) (fresh : Bool) (keys : List ℕ)
    (hkeys : ∀ k ∈ keys, a.laneBit k = false) :
    ∀ s : Scan, Agree a s (keys.foldl (scanTurn a now fresh) s) := by
  induction keys with
  | nil => exact refl a
  | cons k _ ih =>
    exact fun s => (below s (hkeys k List.mem_cons_self)).trans
      (ih (fun j hj => hkeys j (List.mem_cons_of_mem k hj)) _)

theorem turns_named (keys : List ℕ) (hkeys : ∀ k ∈ keys, a.laneBit k = true) :
    ∀ s s' : Scan, Agree a s s' →
      Agree a (keys.foldl (scanTurn a now fresh) s)
        (keys.foldl (scanTurn a now fresh) s') := by
  induction keys with
  | nil => exact fun s s' h => h
  | cons k _ ih =>
    exact fun s s' h => ih (fun j hj => hkeys j (List.mem_cons_of_mem k hj)) _ _
      (h.named (hkeys k List.mem_cons_self))

end Scan.Agree

/-! ## The complete prefix -/

/-- The bytes of the attempt of a key. -/
def bytesAt (attempts : Attempts) (k : ℕ) : ℕ :=
  ((attempts.lookup k).map Attempt.bytes).getD 0

/-- The bytes of the attempts up to `high`. -/
def bytesThrough (attempts : Attempts) (high : ℕ) : ℕ :=
  ∑ k ∈ Finset.range (high + 1), bytesAt attempts k

theorem bytesThrough_erase (attempts : Attempts) {high k : ℕ} (hk : k ≤ high) :
    bytesThrough (attempts.erase k) high + bytesAt attempts k =
      bytesThrough attempts high := by
  have hmem : k ∈ Finset.range (high + 1) := Finset.mem_range.mpr (by omega)
  unfold bytesThrough
  rw [← Finset.add_sum_erase _ _ hmem, ← Finset.add_sum_erase _ (bytesAt attempts)
    hmem]
  have hself : bytesAt (attempts.erase k) k = 0 := by
    unfold bytesAt
    rw [AList.lookup_erase]
    rfl
  have hothers : ∀ j ∈ (Finset.range (high + 1)).erase k,
      bytesAt (attempts.erase k) j = bytesAt attempts j := by
    intro j hj
    unfold bytesAt
    rw [AList.lookup_erase_ne (Finset.ne_of_mem_erase hj)]
  rw [hself, Finset.sum_congr rfl hothers, Nat.zero_add, Nat.add_comm]

theorem acked_arrivedTurn (s : Transport × Lane) (k : ℕ) :
    (arrivedTurn a s k).2.acked +
        bytesThrough (arrivedTurn a s k).2.attempts a.high =
      s.2.acked + bytesThrough s.2.attempts a.high := by
  unfold arrivedTurn
  split
  · rfl
  next sent hsent =>
    split
    · rfl
    next hk =>
      have hlane := confirmOnLane_eq_settle s.1.packets s.2 0 k sent false
      simp only [Bool.false_eq_true, if_false] at hlane
      have hbytes : bytesAt s.2.attempts k = sent.bytes := by
        unfold bytesAt
        rw [hsent]
        rfl
      have herase := bytesThrough_erase s.2.attempts
        (Nat.le_of_not_gt hk)
      rw [hlane]
      show s.2.acked + sent.bytes + bytesThrough (s.2.attempts.erase k) a.high = _
      omega

theorem lookup_arrivedTurn_ne {s : Transport × Lane} {j k : ℕ} (hjk : k ≠ j) :
    (arrivedTurn a s j).2.attempts.lookup k = s.2.attempts.lookup k := by
  unfold arrivedTurn
  split
  · rfl
  split
  · rfl
  next sent _ _ =>
    have hlane := confirmOnLane_eq_settle s.1.packets s.2 0 j sent false
    simp only [Bool.false_eq_true, if_false] at hlane
    rw [hlane]
    exact AList.lookup_erase_ne hjk

variable {k : ℕ}

theorem lookup_arrivedTurn_self {s : Transport × Lane} (hk : k ≤ a.high) :
    (arrivedTurn a s k).2.attempts.lookup k = none := by
  unfold arrivedTurn
  split
  next hnone => exact hnone
  next sent _ =>
    rw [if_neg (Nat.not_lt.mpr hk)]
    have hlane := confirmOnLane_eq_settle s.1.packets s.2 0 k sent false
    simp only [Bool.false_eq_true, if_false] at hlane
    rw [hlane]
    exact AList.lookup_erase k s.2.attempts

theorem lookup_arrivedTurns (hk : k ≤ a.high) (keys : List ℕ) :
    ∀ s : Transport × Lane, k ∈ keys ∨ s.2.attempts.lookup k = none →
      (keys.foldl (arrivedTurn a) s).2.attempts.lookup k = none := by
  induction keys with
  | nil =>
    rintro s (h | h)
    · cases h
    · exact h
  | cons j _ ih =>
    intro s h
    refine ih _ ?_
    by_cases hkj : k = j
    · subst hkj
      exact Or.inr (lookup_arrivedTurn_self hk)
    · rw [lookup_arrivedTurn_ne hkj]
      refine h.imp_left fun hmem => ?_
      exact (List.mem_cons.mp hmem).resolve_left hkj

theorem acked_arrivedTurns (keys : List ℕ) :
    ∀ s : Transport × Lane, (keys.foldl (arrivedTurn a) s).2.acked +
        bytesThrough (keys.foldl (arrivedTurn a) s).2.attempts a.high =
      s.2.acked + bytesThrough s.2.attempts a.high := by
  induction keys with
  | nil => exact fun s => rfl
  | cons k _ ih => exact fun s => (ih _).trans (acked_arrivedTurn s k)

/-- The complete prefix is acknowledged to the byte. -/
theorem acked_arrived (t : Transport) (p : Lane) (order : MapOrder) :
    ((order.keys .arrived p.id p.attempts.keys).foldl (arrivedTurn a)
        (t, p)).2.acked = p.acked + bytesThrough p.attempts a.high := by
  have hsum := acked_arrivedTurns (a := a)
    (order.keys .arrived p.id p.attempts.keys) (t, p)
  have hnone : bytesThrough ((order.keys .arrived p.id p.attempts.keys).foldl
      (arrivedTurn a) (t, p)).2.attempts a.high = 0 := by
    refine Finset.sum_eq_zero fun k hk => ?_
    unfold bytesAt
    rw [lookup_arrivedTurns (Nat.le_of_lt_succ (Finset.mem_range.mp hk)) _ _ ?_]
    · rfl
    · by_cases hmem : k ∈ p.attempts
      · exact Or.inl ((order.perm .arrived p.id _).mem_iff.mpr hmem)
      · exact Or.inr (AList.lookup_eq_none.mpr hmem)
  rwa [hnone] at hsum

/-! ## The orders tell a split packet -/

/-- What distinguishes the lanes after the two orders. -/
def mark (low : ℕ) (p : Lane) : ℕ × Bool :=
  (p.acked, (p.attempts.lookup low).isSome)

section Tell

variable {low : ℕ} {sent : Attempt}

/-- The named attempts first. -/
def namedKeys (a : Acknowledgement) (p : Lane) : List ℕ :=
  p.attempts.keys.filter a.laneBit

def belowKeys (a : Acknowledgement) (p : Lane) : List ℕ :=
  p.attempts.keys.filter fun k => !a.laneBit k

theorem laneBit_namedKeys (hk : k ∈ namedKeys a p) : a.laneBit k = true :=
  (List.mem_filter.mp hk).2

theorem laneBit_belowKeys (hk : k ∈ belowKeys a p) : a.laneBit k = false := by
  simpa using (List.mem_filter.mp hk).2

/-- Where the scan of the lane starts. -/
def scanStart (t : Transport) (p : Lane) (a : Acknowledgement) : Scan :=
  ⟨t.pending.keys.foldl (receiptTurn a) t, p, 0, p.newestConfirmed, none, 0⟩

theorem scan_namedFirst (t : Transport) (p : Lane) :
    t.scan p a now fresh (bitmapOrder a true) =
      (belowKeys a p).foldl (scanTurn a now fresh)
        ((namedKeys a p).foldl (scanTurn a now fresh) (scanStart t p a)) :=
  List.foldl_append

theorem scan_namedLast (t : Transport) (p : Lane) :
    t.scan p a now fresh (bitmapOrder a false) =
      (namedKeys a p).foldl (scanTurn a now fresh)
        ((belowKeys a p).foldl (scanTurn a now fresh) (scanStart t p a)) :=
  List.foldl_append

theorem agree_scans (t : Transport) (p : Lane) (a : Acknowledgement)
    (now : Time) (fresh : Bool) :
    Scan.Agree a (t.scan p a now fresh (bitmapOrder a true))
      (t.scan p a now fresh (bitmapOrder a false)) := by
  rw [scan_namedFirst, scan_namedLast]
  have hbelow := Scan.Agree.turns_below now fresh (belowKeys a p)
    fun _ hk => laneBit_belowKeys hk
  refine (hbelow _).symm.trans ?_
  exact Scan.Agree.turns_named (namedKeys a p)
    (fun _ hk => laneBit_namedKeys hk) _ _ (hbelow _)

theorem lookup_named (hk : a.laneBit k = false) (s : Scan) :
    ((namedKeys a p).foldl (scanTurn a now fresh) s).lane.attempts.lookup k =
      s.lane.attempts.lookup k := by
  refine lookup_scanTurns_of_notMem fun hmem => ?_
  rw [laneBit_namedKeys hmem] at hk
  cases hk

theorem mem_belowKeys (hk : a.laneBit k = false) {x : Attempt}
    (hx : p.attempts.lookup k = some x) : k ∈ belowKeys a p := by
  refine List.mem_filter.mpr ⟨?_, by simpa using hk⟩
  exact AList.lookup_isSome.mp (by rw [hx]; rfl)

/-- What is left of an attempt below the bitmap when the named ones come
first, and when they come last. -/
theorem lookup_scans (t : Transport) (now : Time) (fresh : Bool)
    (hk : a.laneBit k = false) {x : Attempt} (hx : p.attempts.lookup k = some x) :
    (t.scan p a now fresh (bitmapOrder a true)).lane.attempts.lookup k =
        (if givenUp a ((namedKeys a p).foldl (scanTurn a now fresh)
          (scanStart t p a)).transport k x = true then none else some x) ∧
      (t.scan p a now fresh (bitmapOrder a false)).lane.attempts.lookup k =
        if givenUp a (scanStart t p a).transport k x = true then none
        else some x := by
  have hmem := mem_belowKeys hk hx
  have hkeys : ∀ j ∈ belowKeys a p, a.laneBit j = false := fun j hj =>
    laneBit_belowKeys hj
  constructor
  · rw [scan_namedFirst, lookup_below (belowKeys a p) hkeys _
      ((lookup_named hk _).trans hx)]
    simp [hmem]
  · rw [scan_namedLast, lookup_named hk, lookup_below (belowKeys a p) hkeys _ hx]
    simp [hmem]

/-- What the first order leaves, the second leaves too. -/
theorem bytesAt_scans_le (t : Transport) (p : Lane) (a : Acknowledgement)
    (now : Time) (fresh : Bool) (k : ℕ) :
    bytesAt (t.scan p a now fresh (bitmapOrder a true)).lane.attempts k ≤
      bytesAt (t.scan p a now fresh (bitmapOrder a false)).lane.attempts k := by
  unfold bytesAt
  cases hk : a.laneBit k with
  | true => rw [(agree_scans t p a now fresh).lookup k hk]
  | false =>
    cases hx : p.attempts.lookup k with
    | none =>
      rw [scan_namedFirst, lookup_scanTurns_none _ _
        ((lookup_named hk _).trans hx)]
      exact Nat.zero_le _
    | some x =>
      obtain ⟨hone, htwo⟩ := lookup_scans t now fresh hk hx
      rw [hone, htwo]
      by_cases hearly : givenUp a (scanStart t p a).transport k x = true
      · have hlate : givenUp a ((namedKeys a p).foldl (scanTurn a now fresh)
            (scanStart t p a)).transport k x = true := by
          obtain ⟨hknown, hlow⟩ := of_decide_eq_true hearly
          exact decide_eq_true ⟨known_scanTurns _ _ hknown, hlow⟩
        rw [if_pos hearly, if_pos hlate]
      rw [if_neg hearly]
      split
      · exact Nat.zero_le _
      · exact le_rfl

theorem settlePrefix_cases (s : Scan) (a : Acknowledgement) (fresh : Bool)
    (order : MapOrder) :
    PrefixComplete s a fresh ∧ (settlePrefix s a fresh order).2.acked =
        s.lane.acked + bytesThrough s.lane.attempts a.high ∨
      ¬PrefixComplete s a fresh ∧
        (settlePrefix s a fresh order).2.attempts = s.lane.attempts := by
  obtain ⟨hattempts, hacked, -⟩ := rememberThrough_lane s
  rcases settlePrefix_spec a fresh s order with ⟨hc, heq⟩ | ⟨hc, heq⟩
  · refine Or.inl ⟨hc, ?_⟩
    rw [heq, acked_arrived, hacked, hattempts]
  refine Or.inr ⟨hc, ?_⟩
  rw [heq]
  cases fresh with
  | true => exact hattempts
  | false => rfl

theorem Scan.Agree.complete {s s' : Scan} (h : Scan.Agree a s s')
    (hc : PrefixComplete s a fresh) : PrefixComplete s' a fresh := by
  have hthrough : (rememberThrough s').receivedThrough =
      (rememberThrough s).receivedThrough := by
    unfold rememberThrough
    rw [h.high]
    split
    · exact h.through
    · rfl
  obtain ⟨-, -, htop, -⟩ := rememberThrough_lane s
  obtain ⟨-, -, htop', -⟩ := rememberThrough_lane s'
  refine ⟨hc.fresh, ?_, ?_, hthrough.trans hc.bytes⟩
  · rw [hthrough]
    exact hc.known
  · rw [htop', h.top, ← htop]
    exact hc.high

/-- The lane after the complete prefix tells the order. -/
theorem mark_settlePrefix_ne (hlow : p.attempts.lookup low = some sent)
    (hbytes : 0 < sent.bytes) {named : ℕ} {sent' : Attempt} {ref : PacketRef}
    (hnamed : p.attempts.lookup named = some sent')
    (hpacket : sent.packet = some ref) (hpacket' : sent'.packet = some ref)
    (hlt : low < a.high) (hfar : 64 ≤ a.high - low)
    (hbit : a.laneBit named = true)
    (hknown : (scanStart t p a).transport.known a sent = false) :
    mark low (settlePrefix (t.scan p a now fresh (bitmapOrder a true)) a fresh
        (bitmapOrder a true)).2 ≠
      mark low (settlePrefix (t.scan p a now fresh (bitmapOrder a false)) a fresh
        (bitmapOrder a false)).2 := by
  have hlowbit : a.laneBit low = false := by
    rw [← Bool.not_eq_true, Acknowledgement.laneBit_iff]
    omega
  have hnodup : (namedKeys a p).Nodup := p.attempts.keys_nodup.filter _
  have hmem : named ∈ namedKeys a p :=
    List.mem_filter.mpr ⟨AList.lookup_isSome.mp (by rw [hnamed]; rfl), hbit⟩
  -- the named attempt makes the packet known before the other is visited
  have hfirst : (t.scan p a now fresh (bitmapOrder a true)).lane.attempts.lookup
      low = none := by
    rw [(lookup_scans t now fresh hlowbit hlow).1, if_pos]
    have hlearned := known_of_named (s := scanStart t p a) now fresh hnodup hmem
      hbit hnamed hpacket hpacket'
    simp [givenUp, hlearned, hlt, hfar]
  have hlast : (t.scan p a now fresh (bitmapOrder a false)).lane.attempts.lookup
      low = some sent := by
    rw [(lookup_scans t now fresh hlowbit hlow).2, if_neg]
    simp [givenUp, hknown]
  have hagree := agree_scans t p a now fresh
  have hless := Finset.sum_lt_sum
    (fun k (_ : k ∈ Finset.range (a.high + 1)) => bytesAt_scans_le t p a now fresh k)
    ⟨low, Finset.mem_range.mpr (by omega), by
      unfold bytesAt
      rw [hfirst, hlast]
      exact hbytes⟩
  unfold mark
  rcases settlePrefix_cases (t.scan p a now fresh (bitmapOrder a true)) a fresh
    (bitmapOrder a true) with ⟨hone, hacked⟩ | ⟨hone, hattempts⟩
  · rcases settlePrefix_cases (t.scan p a now fresh (bitmapOrder a false)) a fresh
      (bitmapOrder a false) with ⟨-, hacked'⟩ | ⟨htwo, -⟩
    · intro h
      have hsame := congrArg Prod.fst h
      rw [hacked, hacked', hagree.acked] at hsame
      exact absurd (Nat.add_left_cancel hsame) hless.ne
    · exact absurd (hagree.complete hone) htwo
  rcases settlePrefix_cases (t.scan p a now fresh (bitmapOrder a false)) a fresh
    (bitmapOrder a false) with ⟨htwo, -⟩ | ⟨-, hattempts'⟩
  · exact absurd (hagree.symm.complete htwo) hone
  intro h
  have hsame := congrArg Prod.snd h
  rw [hattempts, hattempts', hfirst, hlast] at hsame
  cases hsame

end Tell

end Transport

end Wanbond.Bond
