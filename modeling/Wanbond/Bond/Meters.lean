import Wanbond.Bond.Wire
import Wanbond.Support.BucketRing

/-!
# Meters and ledgers of a lane

`rateMeter` of `schedule.go` and `peak`, `sustainedDelivery` and `lossLedger`
of `control.go`.  Floating-point quantities are rational numbers.  Reading a
meter rotates it first; the functions that read one return the value of the
rotated meter, and their callers store the rotated meter as well.
-/

namespace Wanbond.Bond

open Wanbond.Support

/-! ## Rates -/

def meterBucket : Duration := 200 * millisecond

/-- `rateMeter`. -/
structure RateMeter where
  ring : BucketRing

namespace RateMeter

def zero : RateMeter := ⟨BucketRing.zero⟩

def rotate (m : RateMeter) (now : Time) : RateMeter :=
  ⟨m.ring.rotate meterBucket now⟩

def add (m : RateMeter) (now : Time) (bytes : ℚ) : RateMeter :=
  ⟨(m.rotate now).ring.modify (· + bytes)⟩

def rate (m : RateMeter) (now : Time) : ℚ :=
  (m.rotate now).ring.highest / seconds meterBucket

/-- Every recent bucket but the present one carried traffic. -/
def steady (m : RateMeter) (now : Time) : Bool :=
  let ring := (m.rotate now).ring
  decide (∀ i, ring.buckets.get i = 0 → i = ring.index)

end RateMeter

/-! ## Peaks -/

def peakBucket : Duration := 2 * second

/-- `peak`: the highest value of the last five buckets. -/
structure Peak where
  bucket : Duration
  ring : BucketRing

namespace Peak

def ofBucket (bucket : Duration) : Peak := ⟨bucket, BucketRing.zero⟩

def length (m : Peak) : Duration :=
  if m.bucket = 0 then peakBucket else m.bucket

def rotate (m : Peak) (now : Time) : Peak :=
  { m with ring := m.ring.rotate m.length now }

def record (m : Peak) (now : Time) (value : ℚ) : Peak :=
  let m := m.rotate now
  { m with ring := m.ring.modify (max · value) }

def value (m : Peak) (now : Time) : ℚ := (m.rotate now).ring.highest

end Peak

/-! ## Delivery kept up over a span -/

def sustainedSpan : ℕ := 500000000

def sustainedMemory : Duration := 500 * millisecond

/-- The receiver's count of bytes at its elapsed time. -/
structure DeliveryMark where
  bytes : ℕ
  elapsed : ℕ

structure SustainedDelivery where
  marks : List DeliveryMark
  best : Peak

namespace SustainedDelivery

def zero : SustainedDelivery := ⟨[], Peak.ofBucket sustainedMemory⟩

/-- Drop the oldest marks, down to one that is a span old. -/
def trim (elapsed : ℕ) : List DeliveryMark → List DeliveryMark
  | first :: second :: rest =>
    if elapsed - second.elapsed ≥ sustainedSpan then
      trim elapsed (second :: rest)
    else first :: second :: rest
  | marks => marks

def record (d : SustainedDelivery) (now : Time) (bytes elapsed : ℕ) :
    SustainedDelivery :=
  let marks := trim elapsed (d.marks ++ [⟨bytes, elapsed⟩])
  match marks with
  | [] => { d with marks := marks }
  | oldest :: _ =>
    if elapsed - oldest.elapsed ≥ sustainedSpan then
      { marks := marks
        best := d.best.record now
          ((bytes - oldest.bytes : ℕ) /
            seconds ((elapsed - oldest.elapsed : ℕ) : ℤ)) }
    else { d with marks := marks }

def rotate (d : SustainedDelivery) (now : Time) : SustainedDelivery :=
  { d with best := d.best.rotate now }

def value (d : SustainedDelivery) (now : Time) : ℚ := d.best.value now

end SustainedDelivery

/-! ## Loss -/

def lossHorizon : Duration := second

def lossSettle : Duration := 200 * millisecond

def maxLossHorizon : Duration := 4 * second

def startupLossEvents : ℚ := 3

def startupLossRatio : ℚ := 2 / 100

structure LossEntry where
  «at» : Time
  seq : ℕ
  sent : ℕ
  deficit : ℚ

/-- `lossLedger`: the oldest entry comes first. -/
structure LossLedger where
  entries : List LossEntry
  floor : ℚ

namespace LossLedger

def zero : LossLedger := ⟨[], 0⟩

def record (l : LossLedger) (now : Time) (seq sent received late : ℕ) :
    LossLedger :=
  let entries := l.entries.dropWhile fun e =>
    decide (now - e.at ≥ maxLossHorizon + 2 * lossSettle)
  match entries.getLast? with
  | some last =>
    if seq ≤ last.seq then { l with entries := entries }
    else { l with
      entries := entries ++
        [⟨now, seq, sent, max l.floor ((sent : ℚ) - received - late)⟩] }
  | none => { l with
      entries := [⟨now, seq, sent, max l.floor ((sent : ℚ) - received - late)⟩] }

/-- The first of the entries with the lowest deficit among those that `p`
selects. -/
def lowest (p : LossEntry → Bool) (entries : List LossEntry) :
    Option LossEntry :=
  (entries.filter p).foldl
    (fun best e =>
      match best with
      | none => some e
      | some b => if e.deficit < b.deficit then some e else some b)
    none

/-- Entries of the settling period that began `horizon` ago. -/
def settling (now : Time) (horizon : Duration) (e : LossEntry) : Bool :=
  decide (now - e.at ≥ horizon) && decide (now - e.at < horizon + lossSettle)

/-- Entries of the current settling period. -/
def recent (now : Time) (e : LossEntry) : Bool :=
  decide (now - e.at < lossSettle)

def settled (l : LossLedger) (now : Time) : LossLedger × Option ℚ :=
  match lowest (recent now) l.entries with
  | none => (l, none)
  | some e => ({ l with floor := max l.floor e.deficit }, some e.deficit)

def judged : ℚ := startupLossEvents / startupLossRatio

/-- The horizons that `lost` tries, in its order. -/
def horizons : List Duration :=
  (List.range 16).map fun i => lossHorizon + i * lossSettle

/-- `lost`: bytes lost, bytes sent and datagrams between the settling period a
horizon ago and the current one. -/
def lost (l : LossLedger) (now : Time) : ℚ × ℚ × ℚ :=
  match lowest (recent now) l.entries with
  | none => (0, 0, 0)
  | some recent =>
    let judge (horizon : Duration) : Option (ℚ × ℚ × ℚ) :=
      match lowest (settling now horizon) l.entries with
      | none => none
      | some old =>
        if recent.seq ≤ old.seq then none
        else
          let datagrams : ℚ := (recent.seq - old.seq : ℕ)
          if datagrams ≥ judged ∨ horizon + lossSettle > maxLossHorizon then
            some (max 0 (recent.deficit - old.deficit),
              (recent.sent - old.sent : ℕ), datagrams)
          else none
    (horizons.findSome? judge).getD (0, 0, 0)

def material (l : LossLedger) (now : Time) : Bool :=
  let (lost, sent, datagrams) := l.lost now
  decide (datagrams > 0) &&
    decide (lost ≥ startupLossEvents * sent / datagrams) &&
    decide (lost ≥ startupLossRatio * sent)

/-- The ledger tries every horizon up to the longest. -/
example : horizons.getLast? = some maxLossHorizon := by decide

/-! ### Established loss -/

theorem lowest_spec {p : LossEntry → Bool} {entries : List LossEntry}
    {e : LossEntry} (h : lowest p entries = some e) :
    e ∈ entries ∧ p e = true ∧
      ∀ x ∈ entries, p x = true → e.deficit ≤ x.deficit := by
  -- from a best entry on, the fold only goes down
  have hfold : ∀ (es : List LossEntry) (b : LossEntry),
      ∃ r, es.foldl (fun best e =>
        match best with
        | none => some e
        | some b => if e.deficit < b.deficit then some e else some b) (some b) =
          some r ∧ r ∈ b :: es ∧ ∀ x ∈ b :: es, r.deficit ≤ x.deficit := by
    intro es
    induction es with
    | nil => exact fun b => ⟨b, rfl, by simp⟩
    | cons y es ih =>
      intro b
      by_cases hlt : y.deficit < b.deficit
      · obtain ⟨r, hr, hmem, hmin⟩ := ih y
        refine ⟨r, by simpa [hlt] using hr, List.mem_cons_of_mem _ hmem, ?_⟩
        intro x hx
        rcases List.mem_cons.mp hx with rfl | hx
        · exact (hmin y List.mem_cons_self).trans hlt.le
        · exact hmin x hx
      obtain ⟨r, hr, hmem, hmin⟩ := ih b
      have hb := hmin b List.mem_cons_self
      refine ⟨r, by simpa [hlt] using hr, ?_, ?_⟩
      · rcases List.mem_cons.mp hmem with rfl | hmem
        · exact List.mem_cons_self
        · exact List.mem_cons_of_mem _ (List.mem_cons_of_mem _ hmem)
      intro x hx
      rcases List.mem_cons.mp hx with rfl | hx
      · exact hb
      · rcases List.mem_cons.mp hx with rfl | hx
        · exact hb.trans (not_lt.mp hlt)
        · exact hmin x (List.mem_cons_of_mem _ hx)
  unfold lowest at h
  cases hes : entries.filter p with
  | nil =>
    rw [hes] at h
    cases h
  | cons b es =>
    rw [hes] at h
    obtain ⟨r, hr, hmem, hmin⟩ := hfold es b
    obtain rfl := Option.some.inj (h.symm.trans hr)
    rw [← hes] at hmem hmin
    obtain ⟨he, hp⟩ := List.mem_filter.mp hmem
    exact ⟨he, hp, fun x hx hpx => hmin x (List.mem_filter.mpr ⟨hx, hpx⟩)⟩

/-- `record` forgets the oldest entries and adds one, unless its sequence has
been recorded. -/
theorem record_cases (l : LossLedger) (now : Time)
    (seq sent received late : ℕ) :
    (l.record now seq sent received late).floor = l.floor ∧
    ∃ kept, kept <:+ l.entries ∧
      ((l.record now seq sent received late).entries = kept ∨
        ∃ e : LossEntry, (l.record now seq sent received late).entries =
            kept ++ [e] ∧ e.at = now ∧ e.seq = seq ∧ e.sent = sent ∧
          l.floor ≤ e.deficit ∧
          ∀ older last, kept = older ++ [last] → last.seq < seq) := by
  dsimp only [record]
  have hkept := List.dropWhile_suffix (l := l.entries) fun e =>
    decide (now - e.at ≥ maxLossHorizon + 2 * lossSettle)
  generalize l.entries.dropWhile _ = kept at hkept ⊢
  cases hlast : kept.getLast? with
  | none =>
    obtain rfl := List.getLast?_eq_none_iff.mp hlast
    exact ⟨rfl, [], hkept, Or.inr ⟨_, rfl, rfl, rfl, rfl, le_max_left _ _, by simp⟩⟩
  | some last =>
    dsimp only
    split
    · exact ⟨rfl, kept, hkept, Or.inl rfl⟩
    next hseq =>
      refine ⟨rfl, kept, hkept,
        Or.inr ⟨_, rfl, rfl, rfl, rfl, le_max_left _ _, ?_⟩⟩
      rintro older last' rfl
      rw [List.getLast?_append_cons, List.getLast?_singleton] at hlast
      cases hlast
      exact not_le.mp hseq

/-- The calls of a ledger. -/
inductive LedgerCall where
  | record (now : Time) (seq sent received late : ℕ)
  | settled (now : Time)

def LedgerCall.time : LedgerCall → Time
  | .record now _ _ _ _ => now
  | .settled now => now

/-- One call: the ledger, and the loss that `settled` returns when known. -/
def step (l : LossLedger) : LedgerCall → LossLedger × Option ℚ
  | .record now seq sent received late =>
    (l.record now seq sent received late, none)
  | .settled now => l.settled now

def runStep (r : LossLedger × List ℚ) (call : LedgerCall) :
    LossLedger × List ℚ :=
  ((r.1.step call).1, r.2 ++ (r.1.step call).2.toList)

/-- The ledger after the calls, and the losses returned, in order. -/
def run (calls : List LedgerCall) : LossLedger × List ℚ :=
  calls.foldl runStep (zero, [])

/-- What holds of the ledger and of the losses returned up to a time. -/
structure Settles (clock : Time) (l : LossLedger) (losses : List ℚ) : Prop where
  times : l.entries.Pairwise fun e e' => e.at ≤ e'.at
  past : ∀ e ∈ l.entries, e.at ≤ clock
  seqs : l.entries.Pairwise fun e e' => e.seq < e'.seq
  sorted : losses.Pairwise (· ≤ ·)
  floor : ∀ loss ∈ losses, loss ≤ l.floor
  /-- What is not settled yet is no lower than what was returned. -/
  unsettled : ∀ e ∈ l.entries, recent clock e = true →
    ∀ loss ∈ losses, loss ≤ e.deficit

namespace Settles

variable {clock now : Time} {l : LossLedger} {losses : List ℚ}

theorem recent_of_later {e : LossEntry} (hnow : clock ≤ now)
    (h : LossLedger.recent now e = true) : LossLedger.recent clock e = true := by
  simp only [LossLedger.recent, decide_eq_true_eq] at h ⊢
  exact (Int.sub_le_sub_right hnow _).trans_lt h

theorem later (h : Settles clock l losses) (hnow : clock ≤ now) :
    Settles now l losses :=
  { h with
    past := fun e he => (h.past e he).trans hnow
    unsettled := fun e he hr => h.unsettled e he (recent_of_later hnow hr) }

theorem forget (h : Settles clock l losses) {kept : List LossEntry}
    (hkept : kept <:+ l.entries) :
    Settles clock { l with entries := kept } losses where
  times := h.times.sublist hkept.sublist
  past e he := h.past e (hkept.subset he)
  seqs := h.seqs.sublist hkept.sublist
  sorted := h.sorted
  floor := h.floor
  unsettled e he := h.unsettled e (hkept.subset he)

/-- An entry of this time is added. -/
theorem add (h : Settles now l losses) {e : LossEntry} (hat : e.at = now)
    (hdeficit : l.floor ≤ e.deficit)
    (hseq : ∀ older last, l.entries = older ++ [last] → last.seq < e.seq) :
    Settles now { l with entries := l.entries ++ [e] } losses := by
  have hlast : ∀ x ∈ l.entries, x.seq < e.seq := by
    intro x hx
    obtain ⟨older, last, heq⟩ :=
      (List.eq_nil_or_concat' l.entries).resolve_left (List.ne_nil_of_mem hx)
    have hbelow := hseq older last heq
    have hseqs := h.seqs
    rw [heq] at hx hseqs
    rcases List.mem_append.mp hx with hx | hx
    · exact ((List.pairwise_append.mp hseqs).2.2 x hx last (by simp)).trans hbelow
    · rwa [List.mem_singleton.mp hx]
  refine ⟨List.pairwise_append.mpr ⟨h.times, by simp, ?_⟩, ?_,
    List.pairwise_append.mpr ⟨h.seqs, by simp, ?_⟩, h.sorted, h.floor, ?_⟩
  · intro x hx y hy
    rw [List.mem_singleton.mp hy, hat]
    exact h.past x hx
  · intro x hx
    rcases List.mem_append.mp hx with hx | hx
    · exact h.past x hx
    · rw [List.mem_singleton.mp hx, hat]
  · intro x hx y hy
    rw [List.mem_singleton.mp hy]
    exact hlast x hx
  intro x hx hr loss hloss
  rcases List.mem_append.mp hx with hx | hx
  · exact h.unsettled x hx hr loss hloss
  · rw [List.mem_singleton.mp hx]
    exact (h.floor loss hloss).trans hdeficit

theorem step (h : Settles clock l losses) (call : LedgerCall)
    (hnow : clock ≤ call.time) :
    Settles call.time (l.step call).1 (losses ++ (l.step call).2.toList) := by
  have h := h.later hnow
  cases call with
  | record now seq sent received late =>
    obtain ⟨hfloor, kept, hkept, hentries⟩ :=
      l.record_cases now seq sent received late
    have hforget := h.forget hkept
    rw [LossLedger.step, Option.toList_none, List.append_nil]
    generalize l.record now seq sent received late = l' at hfloor hentries ⊢
    obtain ⟨entries, floor⟩ := l'
    subst hfloor
    rcases hentries with rfl | ⟨e, rfl, hat, rfl, -, hdeficit, hlast⟩
    · exact hforget
    · exact hforget.add hat hdeficit hlast
  | settled now =>
    rw [LossLedger.step, LossLedger.settled]
    cases hlowest : lowest (LossLedger.recent now) l.entries with
    | none => simpa using h
    | some e =>
      obtain ⟨he, hrecent, hmin⟩ := lowest_spec hlowest
      have hgrown := h.unsettled e he hrecent
      have hsingle : ∀ loss ∈ losses ++ [e.deficit],
          loss ∈ losses ∨ loss = e.deficit := by simp
      refine { h with sorted := ?_, floor := ?_, unsettled := ?_ }
      · refine List.pairwise_append.mpr ⟨h.sorted, List.pairwise_singleton _ _, ?_⟩
        intro loss hloss x hx
        rw [List.mem_singleton.mp hx]
        exact hgrown loss hloss
      · intro loss hloss
        rcases hsingle loss hloss with hloss | rfl
        · exact (h.floor loss hloss).trans (le_max_left _ _)
        · exact le_max_right _ _
      intro x hx hr loss hloss
      rcases hsingle loss hloss with hloss | rfl
      · exact h.unsettled x hx hr loss hloss
      · exact hmin x hx hr

theorem run (calls : List LedgerCall) : ∀ {clock l losses},
    Settles clock l losses → (∀ call ∈ calls, clock ≤ call.time) →
    calls.Pairwise (fun a b => a.time ≤ b.time) →
    ∃ clock', Settles clock' (calls.foldl runStep (l, losses)).1
      (calls.foldl runStep (l, losses)).2 := by
  induction calls with
  | nil => exact fun h _ _ => ⟨_, h⟩
  | cons call calls ih =>
    intro clock l losses h hclock htimes
    obtain ⟨hlater, htimes⟩ := List.pairwise_cons.mp htimes
    exact ih (h.step call (hclock call List.mem_cons_self)) hlater htimes

end Settles

theorem exists_settles (calls : List LedgerCall)
    (htimes : calls.Pairwise fun a b => a.time ≤ b.time) :
    ∃ clock, Settles clock (run calls).1 (run calls).2 := by
  have hzero : ∀ clock, Settles clock zero [] := by
    intro clock
    constructor <;> simp [zero]
  cases calls with
  | nil => exact ⟨0, hzero 0⟩
  | cons call calls =>
    refine (hzero call.time).run _ ?_ htimes
    intro x hx
    rcases List.mem_cons.mp hx with rfl | hx
    · exact le_rfl
    · exact List.rel_of_pairwise_cons htimes hx

/-- The losses that `settled` returns never shrink, the sequences of the entries
are strictly increasing, and so are those of the entries that `lost` compares:
the lowest ones of a settling period in the past and of the current one. -/
theorem established_loss_never_shrinks (calls : List LedgerCall)
    (htimes : calls.Pairwise fun a b => a.time ≤ b.time) :
    (run calls).2.Pairwise (· ≤ ·) ∧
    (run calls).1.entries.Pairwise (fun e e' => e.seq < e'.seq) ∧
    ∀ now, ∀ horizon ∈ horizons, ∀ e old,
      lowest (recent now) (run calls).1.entries = some e →
      lowest (settling now horizon) (run calls).1.entries = some old →
      old.seq < e.seq := by
  obtain ⟨clock, h⟩ := exists_settles calls htimes
  refine ⟨h.sorted, h.seqs, ?_⟩
  intro now horizon hhorizon e old he hold
  obtain ⟨hmem, hrecent, -⟩ := lowest_spec he
  obtain ⟨hmem', hpast, -⟩ := lowest_spec hold
  have hlong : lossSettle ≤ horizon :=
    (by decide : ∀ x ∈ horizons, lossSettle ≤ x) horizon hhorizon
  simp only [recent, settling, Bool.and_eq_true, decide_eq_true_eq] at hrecent hpast
  -- the entry of the past period is the earlier one
  have hearlier : ¬e.at ≤ old.at := by
    intro hle
    have := Int.sub_le_sub_left hle now
    exact absurd (hlong.trans (hpast.1.trans this)) (not_le.mpr hrecent)
  obtain ⟨before, after, heq⟩ := List.append_of_mem hmem
  have htimes := h.times
  have hseqs := h.seqs
  rw [heq] at hmem' htimes hseqs
  rcases List.mem_append.mp hmem' with hbefore | hafter
  · exact (List.pairwise_append.mp hseqs).2.2 old hbefore e List.mem_cons_self
  refine absurd ?_ hearlier
  rcases List.mem_cons.mp hafter with rfl | hafter
  · exact le_rfl
  · exact List.rel_of_pairwise_cons (List.pairwise_append.mp htimes).2.1 hafter

theorem established_loss_never_shrinks_three :
    (run [.record 0 1 1000 0 0, .settled 0, .settled 1]).2.Pairwise (· ≤ ·) ∧
      (run [.record 0 1 1000 0 0, .settled 0, .settled 1]).2 = [1000, 1000] :=
  ⟨(established_loss_never_shrinks [.record 0 1 1000 0 0, .settled 0, .settled 1]
    (by decide)).1, by decide +kernel⟩

end LossLedger

end Wanbond.Bond
