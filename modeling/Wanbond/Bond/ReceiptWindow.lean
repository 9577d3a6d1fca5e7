import Wanbond.Bond.Wire

/-!
# Receipt windows

`receiptWindow` of `bond.go`: the highest sequence marked so far and a bit for
each of the `maxPackets` sequences that end at it.  A transport keeps one for
the datagrams it received, one for the receipts it has not reported yet, one
for each lane it receives on and one for the revisions of the acknowledgements
it processed.

After the definitions, every operation is described by the sequences the window
has.  `Tracks` then relates a window to the set of all sequences ever marked.
-/

namespace Wanbond.Bond

open Wanbond.Support

structure ReceiptWindow where
  high : ℕ
  mask : WordMask (maxPackets / 64)

namespace ReceiptWindow

def empty : ReceiptWindow := ⟨0, WordMask.empty _⟩

instance : Inhabited ReceiptWindow := ⟨empty⟩

/-- Slide the window so that it ends at `seq`, when `seq` is above it. -/
def slide (w : ReceiptWindow) (seq : ℕ) : ReceiptWindow :=
  if seq > w.high then
    let delta := seq - w.high
    { high := seq
      mask := if delta ≥ maxPackets then WordMask.empty _
        else w.mask.shiftUp delta }
  else w

/-- `mark`: the reported freshness and the window afterwards. -/
def mark (w : ReceiptWindow) (seq : ℕ) : Bool × ReceiptWindow :=
  let w := w.slide seq
  let delta := w.high - seq
  if delta ≥ maxPackets then (false, w)
  else if w.mask.bit delta then (false, w)
  else (true, { w with mask := w.mask.setBit delta })

/-- The lowest sequence still marked, or zero. -/
def oldest (w : ReceiptWindow) : ℕ :=
  match w.mask.highest with
  | some delta => w.high - delta
  | none => 0

/-- The window has `seq` marked. -/
def has (w : ReceiptWindow) (seq : ℕ) : Bool :=
  decide (seq ≤ w.high) && w.mask.bit (w.high - seq)

/-- `bitmap`: the receipts among the `ackReceiptBits` sequences that end at
`high`.  An anchor above the window wraps the offset, which then exceeds the
window's width. -/
def bitmap (w : ReceiptWindow) (high : ℕ) : WordMask ackReceiptWords :=
  (List.range (min ackReceiptBits high)).foldl
    (fun result offset =>
      let seq := high - offset
      if decide (seq ≤ w.high) && decide (w.high - seq < maxPackets) &&
          w.mask.bit (w.high - seq) then
        result.setBit offset
      else result)
    (WordMask.empty _)

def forgetThrough (w : ReceiptWindow) (high : ℕ) : ReceiptWindow :=
  if high ≥ w.high then { w with mask := WordMask.empty _ }
  else
    let delta := w.high - high
    if delta < maxPackets then { w with mask := w.mask.keepBelow delta } else w

/-! ## What a window has -/

variable {w : ReceiptWindow} {seq : ℕ}

theorem has_iff :
    w.has seq = true ↔ seq ≤ w.high ∧ w.mask.bit (w.high - seq) = true := by
  simp [has]

theorem le_high_of_has (h : w.has seq = true) : seq ≤ w.high :=
  (has_iff.mp h).1

theorem high_lt_of_has (h : w.has seq = true) : w.high < seq + maxPackets := by
  obtain ⟨hle, hbit⟩ := has_iff.mp h
  by_contra hfar
  have hout : 64 * (maxPackets / 64) ≤ w.high - seq := by
    omega
  rw [w.mask.bit_of_le hout] at hbit
  cases hbit

@[simp] theorem has_empty (seq : ℕ) : empty.has seq = false := by
  simp [has, empty]

@[simp] theorem high_empty : empty.high = 0 := rfl

@[simp] theorem slide_high (w : ReceiptWindow) (seq : ℕ) :
    (w.slide seq).high = max w.high seq := by
  unfold slide
  split
  · simp only []
    omega
  · omega

/-- Sliding keeps the marks that still fit. -/
theorem slide_has (w : ReceiptWindow) (seq s : ℕ) :
    (w.slide seq).has s = true ↔
      w.has s = true ∧ max w.high seq < s + maxPackets := by
  unfold slide
  split
  next hgt =>
    have hmax : max w.high seq = seq := by omega
    rw [hmax, has_iff]
    dsimp only
    split
    next hfar =>
      simp only [WordMask.bit_empty, Bool.false_eq_true, and_false, false_iff,
        not_and, not_lt]
      intro hs
      have := le_high_of_has hs
      omega
    next hnear =>
      by_cases hin : seq < s + maxPackets
      · by_cases hle : s ≤ seq
        · have hbound : seq - s < 64 * (maxPackets / 64) := by
            simp only [maxPackets] at hin ⊢
            omega
          rw [WordMask.bit_shiftUp _ _ hbound, has_iff]
          have hsub : seq - s - (seq - w.high) = w.high - s := by omega
          have hiff : seq - w.high ≤ seq - s ↔ s ≤ w.high := by omega
          simp [hle, hin, hsub, hiff]
        · have : ¬w.has s = true := by
            intro hs
            have := le_high_of_has hs
            omega
          simp [hle, this]
      · have hout : 64 * (maxPackets / 64) ≤ seq - s := by
          omega
        simp [WordMask.bit_of_le _ hout, hin]
  next hle =>
    have hmax : max w.high seq = w.high := by omega
    rw [hmax]
    exact ⟨fun h => ⟨h, high_lt_of_has h⟩, fun h => h.1⟩

/-- `mark` succeeds on exactly the unmarked sequences within the window. -/
theorem mark_eq_true :
    (w.mark seq).1 = true ↔
      w.has seq = false ∧ w.high < seq + maxPackets := by
  have hslid : (w.slide seq).has seq = true ↔
      w.has seq = true := by
    rw [slide_has]
    constructor
    · exact fun h => h.1
    intro h
    have h₁ := le_high_of_has h
    have h₂ := high_lt_of_has h
    exact ⟨h, by omega⟩
  have hhigh := slide_high w seq
  dsimp only [mark]
  split
  next hfar =>
    simp only [false_iff, reduceCtorEq, not_and, not_lt]
    intro _
    simp only [maxPackets] at hfar ⊢
    omega
  next hnear =>
    have hin : w.high < seq + maxPackets := by
      omega
    split
    next hbit =>
      have hset : (w.slide seq).has seq = true :=
        has_iff.mpr ⟨by omega, hbit⟩
      simp [hslid.mp hset]
    next hbit =>
      have hclear : ¬w.has seq = true := by
        intro hset
        exact hbit (has_iff.mp (hslid.mpr hset)).2
      simp [hclear, hin]

theorem mark_false (h : (w.mark seq).1 = false) : (w.mark seq).2 = w := by
  have hslide : w.slide seq = w := by
    by_cases hgt : seq > w.high
    · exfalso
      have htrue : (w.mark seq).1 = true := by
        rw [mark_eq_true]
        have hno : w.has seq = false := by
          simp [has, Nat.not_le.mpr hgt]
        exact ⟨hno, by omega⟩
      rw [htrue] at h
      cases h
    · simp [slide, hgt]
  dsimp only [mark] at h ⊢
  rw [hslide] at h ⊢
  split at h
  · split
    · rfl
    · contradiction
  · split at h
    next h₁ h₂ => simp [h₁, h₂]
    next => cases h

@[simp] theorem mark_high (w : ReceiptWindow) (seq : ℕ) :
    (w.mark seq).2.high = max w.high seq := by
  have hhigh := slide_high w seq
  dsimp only [mark]
  split
  · exact hhigh
  · split <;> exact hhigh

/-- A successful mark adds exactly its own sequence. -/
theorem mark_has (h : (w.mark seq).1 = true) (s : ℕ) :
    (w.mark seq).2.has s = true ↔
      (s = seq ∨ w.has s = true) ∧ max w.high seq < s + maxPackets := by
  have hin : w.high < seq + maxPackets := (mark_eq_true.mp h).2
  have hhigh := slide_high w seq
  have hmark : (w.mark seq).2 = { w.slide seq with
      mask := (w.slide seq).mask.setBit ((w.slide seq).high - seq) } := by
    dsimp only [mark] at h ⊢
    split at h
    · cases h
    next h₁ =>
      rw [if_neg h₁]
      split at h
      · cases h
      next h₂ => rw [if_neg h₂]
  rw [hmark, has_iff]
  rw [hhigh]
  by_cases hle : s ≤ max w.high seq
  · by_cases hs : max w.high seq < s + maxPackets
    · have hbound : max w.high seq - s < 64 * (maxPackets / 64) := by
        simp only [maxPackets] at hs ⊢
        omega
      rw [WordMask.bit_setBit _ _ hbound]
      have hslide := slide_has w seq s
      rw [has_iff, hhigh] at hslide
      have heq : max w.high seq - s = max w.high seq - seq ↔ s = seq := by
        omega
      simp only [hle, true_and, hs, and_true] at hslide ⊢
      simp [heq, hslide]
    · have hout : 64 * (maxPackets / 64) ≤ max w.high seq - s := by
        omega
      simp [WordMask.bit_of_le _ hout, hs]
  · have h₁ : ¬s = seq := by omega
    have h₂ : ¬w.has s = true := by
      intro hs
      have := le_high_of_has hs
      omega
    simp [hle, h₁, h₂]

@[simp] theorem forgetThrough_high (w : ReceiptWindow) (high : ℕ) :
    (w.forgetThrough high).high = w.high := by
  unfold forgetThrough
  split
  · rfl
  · dsimp only
    split <;> rfl

/-- Forgetting keeps the marks above the given sequence. -/
theorem forgetThrough_has (w : ReceiptWindow) (high s : ℕ) :
    (w.forgetThrough high).has s = true ↔ w.has s = true ∧ high < s := by
  unfold forgetThrough
  split
  next hall =>
    simp only [has_iff, WordMask.bit_empty, and_false, false_iff, not_and,
      not_lt, reduceCtorEq]
    intro h
    omega
  next hsome =>
    dsimp only
    split
    next hnear =>
      rw [has_iff, has_iff]
      by_cases hle : s ≤ w.high
      · by_cases hin : w.high - s < 64 * (maxPackets / 64)
        · rw [WordMask.bit_keepBelow _ _ hin]
          have hiff : w.high - s < w.high - high ↔ high < s := by omega
          simp [hle, hiff, and_comm]
        · simp [WordMask.bit_of_le _ (not_lt.mp hin)]
      · simp [hle]
    next hfar =>
      constructor
      · intro h
        have := high_lt_of_has h
        exact ⟨h, by omega⟩
      · exact fun h => h.1

/-! ## The acknowledgement bitmap -/

theorem bit_foldl_setBit {n : ℕ} (p : ℕ → Bool) (k : ℕ) (hk : k ≤ 64 * n)
    (m : WordMask n) (i : ℕ) :
    ((List.range k).foldl
      (fun result offset => if p offset then result.setBit offset else result)
      m).bit i = (m.bit i || (decide (i < k) && p i)) := by
  induction k with
  | zero => simp
  | succ k ih =>
    rw [List.range_succ, List.foldl_concat]
    by_cases hi : i < 64 * n
    · split
      next hp =>
        rw [WordMask.bit_setBit _ _ hi, ih (by omega)]
        by_cases heq : i = k
        · subst heq
          simp [hp]
        · have hiff : i < k + 1 ↔ i < k := by omega
          simp [heq, hiff]
      next hp =>
        rw [ih (by omega)]
        by_cases heq : i = k
        · subst heq
          simp [hp]
        · have hiff : i < k + 1 ↔ i < k := by omega
          simp [hiff]
    · have hno : ¬i < k + 1 := by omega
      have hout : 64 * n ≤ i := by omega
      simp [WordMask.bit_of_le _ hout, hno]

theorem bit_bitmap (w : ReceiptWindow) (high i : ℕ) :
    (w.bitmap high).bit i = true ↔
      i < ackReceiptBits ∧ i < high ∧ w.has (high - i) = true := by
  dsimp only [bitmap]
  rw [bit_foldl_setBit
    (fun offset => decide (high - offset ≤ w.high) &&
      decide (w.high - (high - offset) < maxPackets) &&
      w.mask.bit (w.high - (high - offset)))
    _ (by simp [ackReceiptBits])]
  simp only [WordMask.bit_empty, Bool.false_or, Bool.and_eq_true,
    decide_eq_true_eq, lt_min_iff]
  constructor
  · rintro ⟨⟨h₁, h₂⟩, ⟨h₃, -⟩, h₅⟩
    exact ⟨h₁, h₂, has_iff.mpr ⟨h₃, h₅⟩⟩
  rintro ⟨h₁, h₂, h₃⟩
  have h₄ := high_lt_of_has h₃
  obtain ⟨h₅, h₆⟩ := has_iff.mp h₃
  exact ⟨⟨h₁, h₂⟩, ⟨h₅, by omega⟩, h₆⟩

/-! ## The oldest mark -/

/-- Every bit of the mask stands for a positive sequence. -/
def Grounded (w : ReceiptWindow) : Prop :=
  ∀ i, w.mask.bit i = true → i < w.high

theorem grounded_empty : Grounded empty := by
  intro i hi
  simp [empty] at hi

theorem Grounded.slide (h : w.Grounded) (seq : ℕ) : (w.slide seq).Grounded := by
  unfold ReceiptWindow.slide
  split
  next hgt =>
    intro i hi
    dsimp only at hi ⊢
    split at hi
    · simp at hi
    by_cases hin : i < 64 * (maxPackets / 64)
    · rw [WordMask.bit_shiftUp _ _ hin] at hi
      simp only [Bool.and_eq_true, decide_eq_true_eq] at hi
      have := h _ hi.2
      omega
    · rw [WordMask.bit_of_le _ (not_lt.mp hin)] at hi
      cases hi
  next => exact h

theorem Grounded.mark (h : w.Grounded) (hseq : seq ≠ 0) :
    (w.mark seq).2.Grounded := by
  have hslide := h.slide seq
  have hhigh := slide_high w seq
  dsimp only [ReceiptWindow.mark]
  split
  · exact hslide
  split
  · exact hslide
  intro i hi
  dsimp only at hi ⊢
  by_cases hin : i < 64 * (maxPackets / 64)
  · rw [WordMask.bit_setBit _ _ hin] at hi
    simp only [Bool.or_eq_true, decide_eq_true_eq] at hi
    rcases hi with rfl | hi
    · omega
    · exact hslide i hi
  · rw [WordMask.bit_of_le _ (not_lt.mp hin)] at hi
    cases hi

theorem Grounded.forgetThrough (h : w.Grounded) (high : ℕ) :
    (w.forgetThrough high).Grounded := by
  unfold ReceiptWindow.forgetThrough
  split
  · intro i hi
    simp at hi
  dsimp only
  split
  · intro i hi
    dsimp only at hi ⊢
    by_cases hin : i < 64 * (maxPackets / 64)
    · rw [WordMask.bit_keepBelow _ _ hin] at hi
      simp only [Bool.and_eq_true] at hi
      exact h i hi.2
    · rw [WordMask.bit_of_le _ (not_lt.mp hin)] at hi
      cases hi
  · exact h

theorem Grounded.oldest_eq_zero (h : w.Grounded) :
    w.oldest = 0 ↔ ∀ s, w.has s = false := by
  unfold oldest
  split
  next d hd =>
    obtain ⟨-, hset, -⟩ := WordMask.highest_eq_some hd
    have hlt := h d hset
    constructor
    · intro hzero
      omega
    intro hall
    have := hall (w.high - d)
    have hsub : w.high - (w.high - d) = d := by omega
    simp [has, hsub, hset] at this
  next hnone =>
    simp [has, WordMask.highest_eq_none.mp hnone]

theorem Grounded.isLeast_oldest (h : w.Grounded) (hw : w.oldest ≠ 0) :
    IsLeast { s | w.has s = true } w.oldest := by
  unfold oldest at hw ⊢
  split at hw
  next d hd =>
    obtain ⟨-, hset, hclear⟩ := WordMask.highest_eq_some hd
    have hlt := h d hset
    have hsub : w.high - (w.high - d) = d := by omega
    refine ⟨has_iff.mpr ⟨by omega, hsub.symm ▸ hset⟩, ?_⟩
    intro s hs
    obtain ⟨hle, hbit⟩ := has_iff.mp hs
    by_contra hlow
    rw [hclear _ (show d < w.high - s by omega)] at hbit
    cases hbit
  next => exact absurd rfl hw

/-! ## The set a window tracks -/

/-- `w` records the set `S` of all sequences ever marked: it ends at the
highest one, and has those of them that lie within its width. -/
structure Tracks (w : ReceiptWindow) (S : Set ℕ) : Prop where
  le_high : ∀ s ∈ S, s ≤ w.high
  high_mem : w.high = 0 ∨ w.high ∈ S
  has_iff : ∀ s, w.has s = true ↔ s ∈ S ∧ w.high < s + maxPackets

namespace Tracks

variable {w : ReceiptWindow} {S : Set ℕ} {seq : ℕ}

theorem mem (h : Tracks w S) (hs : w.has seq = true) : seq ∈ S :=
  ((h.has_iff seq).mp hs).1

theorem notMem_of_mark (h : Tracks w S) (hm : (w.mark seq).1 = true) :
    seq ∉ S := by
  obtain ⟨hno, hin⟩ := mark_eq_true.mp hm
  intro hS
  rw [(h.has_iff seq).mpr ⟨hS, hin⟩] at hno
  cases hno

theorem of_mark_false (h : Tracks w S) (hm : (w.mark seq).1 = false) :
    seq ∈ S ∨ seq + maxPackets ≤ w.high := by
  by_cases hin : w.high < seq + maxPackets
  · left
    cases hno : w.has seq with
    | true => exact h.mem hno
    | false =>
      rw [mark_eq_true.mpr ⟨hno, hin⟩] at hm
      cases hm
  · right
    omega

theorem mark (h : Tracks w S) (hm : (w.mark seq).1 = true) :
    Tracks (w.mark seq).2 (insert seq S) := by
  constructor
  · intro s hs
    rw [mark_high]
    rcases hs with rfl | hs
    · exact le_max_right _ _
    · exact le_trans (h.le_high s hs) (le_max_left _ _)
  · rw [mark_high]
    rcases le_total w.high seq with hle | hle
    · right
      rw [max_eq_right hle]
      exact Or.inl rfl
    · rw [max_eq_left hle]
      exact h.high_mem.imp_right Or.inr
  intro s
  rw [mark_has hm, mark_high, Set.mem_insert_iff, h.has_iff]
  constructor
  · rintro ⟨h₁ | ⟨h₁, -⟩, h₂⟩
    · exact ⟨Or.inl h₁, h₂⟩
    · exact ⟨Or.inr h₁, h₂⟩
  · rintro ⟨h₁ | h₁, h₂⟩
    · exact ⟨Or.inl h₁, h₂⟩
    · exact ⟨Or.inr ⟨h₁, by omega⟩, h₂⟩

theorem marks (h : Tracks w S) (seq : ℕ) :
    Tracks (w.mark seq).2 (insert seq S) := by
  cases hm : (w.mark seq).1 with
  | true => exact h.mark hm
  | false =>
    rw [mark_false hm]
    rcases h.of_mark_false hm with hmem | hlow
    · rwa [Set.insert_eq_of_mem hmem]
    refine ⟨?_, h.high_mem.imp_right Or.inr, fun s => ?_⟩
    · rintro s (rfl | hs)
      · omega
      · exact h.le_high s hs
    rw [h.has_iff, Set.mem_insert_iff]
    constructor
    · exact fun hs => ⟨Or.inr hs.1, hs.2⟩
    · rintro ⟨rfl | hs, hin⟩
      · omega
      · exact ⟨hs, hin⟩

end Tracks

theorem tracks_empty : Tracks empty ∅ := by
  constructor <;> simp

/-! ## Sequences of marks -/

/-- The window after a sequence of calls of `mark`. -/
def markAll (seqs : List ℕ) : ReceiptWindow :=
  seqs.foldl (fun w seq => (w.mark seq).2) empty

theorem markAll_append (seqs : List ℕ) (seq : ℕ) :
    markAll (seqs ++ [seq]) = ((markAll seqs).mark seq).2 :=
  List.foldl_append

theorem tracks_markAll (seqs : List ℕ) :
    Tracks (markAll seqs) { s | s ∈ seqs } := by
  induction seqs using List.reverseRecOn with
  | nil =>
    have hnone : { s : ℕ | s ∈ [] } = ∅ := by simp
    rw [hnone]
    exact tracks_empty
  | append_singleton seqs seq ih =>
    have hset : { s | s ∈ seqs ++ [seq] } = insert seq { s | s ∈ seqs } := by
      ext s
      simp [or_comm]
    rw [markAll_append, hset]
    exact ih.marks seq

theorem grounded_markAll {seqs : List ℕ} (hseqs : ∀ s ∈ seqs, s ≠ 0) :
    (markAll seqs).Grounded := by
  induction seqs using List.reverseRecOn with
  | nil => exact grounded_empty
  | append_singleton seqs seq ih =>
    rw [markAll_append]
    refine (ih fun s hs => hseqs s ?_).mark (hseqs seq ?_)
    · exact List.mem_append_left _ hs
    · exact List.mem_append_right _ List.mem_cons_self

/-- `oldest` is the least marked sequence within the window. -/
theorem isLeast_oldest_markAll {seqs : List ℕ} (hseqs : ∀ s ∈ seqs, s ≠ 0)
    (hne : seqs ≠ []) :
    IsLeast { s | s ∈ seqs ∧ (markAll seqs).high < s + maxPackets }
      (markAll seqs).oldest := by
  have htracks := tracks_markAll seqs
  have hset : { s | s ∈ seqs ∧ (markAll seqs).high < s + maxPackets } =
      { s | (markAll seqs).has s = true } :=
    Set.ext fun s => (htracks.has_iff s).symm
  obtain ⟨seq, hseq⟩ := List.exists_mem_of_ne_nil seqs hne
  have hpos : (markAll seqs).high ≠ 0 := by
    have := htracks.le_high seq hseq
    have := hseqs seq hseq
    omega
  have hhigh : (markAll seqs).has (markAll seqs).high = true := by
    rw [htracks.has_iff]
    exact ⟨htracks.high_mem.resolve_left hpos, Nat.lt_add_of_pos_right (by decide)⟩
  rw [hset]
  refine (grounded_markAll hseqs).isLeast_oldest fun hzero => ?_
  have hnone := (grounded_markAll hseqs).oldest_eq_zero.mp hzero
  rw [hnone] at hhigh
  cases hhigh

/-- A window behaves like the set of the marked sequences, restricted to the
`maxPackets` values that end at the highest one. -/
theorem receiptWindow_refines_set (seqs : List ℕ) (hseqs : ∀ s ∈ seqs, s ≠ 0) :
    IsGreatest (insert 0 { s | s ∈ seqs }) (markAll seqs).high ∧
    (∀ s, (markAll seqs).has s = true ↔
      s ∈ seqs ∧ (markAll seqs).high < s + maxPackets) ∧
    (∀ seq, ((markAll seqs).mark seq).1 = true ↔
      seq ∉ seqs ∧ ((markAll seqs).mark seq).2.high < seq + maxPackets) ∧
    (∀ seq, ((markAll seqs).mark seq).1 = false →
      ((markAll seqs).mark seq).2 = markAll seqs) ∧
    (∀ high i, ((markAll seqs).bitmap high).bit i = true → high - i ∈ seqs) ∧
    (seqs = [] → (markAll seqs).oldest = 0) ∧
    (seqs ≠ [] → IsLeast { s | s ∈ seqs ∧ (markAll seqs).high < s + maxPackets }
      (markAll seqs).oldest) := by
  have htracks := tracks_markAll seqs
  refine ⟨⟨htracks.high_mem, ?_⟩, htracks.has_iff, fun seq => ?_,
    fun seq => mark_false, fun high i hbit => ?_, ?_,
    isLeast_oldest_markAll hseqs⟩
  · rintro s (rfl | hs)
    · exact Nat.zero_le _
    · exact htracks.le_high s hs
  · have hmax : max (markAll seqs).high seq < seq + maxPackets ↔
        (markAll seqs).high < seq + maxPackets := by
      simp only [maxPackets]
      omega
    rw [mark_high, hmax, mark_eq_true, ← Bool.not_eq_true, htracks.has_iff]
    exact and_congr_left fun hin => not_congr (and_iff_left hin)
  · exact htracks.mem ((bit_bitmap _ high i).mp hbit).2.2
  · rintro rfl
    exact grounded_empty.oldest_eq_zero.mpr has_empty

theorem receiptWindow_refines_set_below :
    (∀ s ∈ [9000, 3], s ≠ 0) ∧ (markAll [9000, 3]).has 3 ≠ true := by
  have hset := receiptWindow_refines_set [9000, 3] (by decide)
  refine ⟨by decide, fun hhas => ?_⟩
  have hin := ((hset.2.1 3).mp hhas).2
  have hhigh : 9000 ≤ (markAll [9000, 3]).high := hset.1.2 (Or.inr (by simp))
  simp only [maxPackets] at hin
  omega

end ReceiptWindow

end Wanbond.Bond
