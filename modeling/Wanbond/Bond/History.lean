import Wanbond.Bond.Receive
import Wanbond.Support.Numbered

/-!
# Histories of a transport

The history of a transport with one peer: the frames it sent and the frames it
was handed, newest first, and the stamps it gave to packets.  `LogOk` says what
each entry owes to the entries before it: lane sequences and revisions are
consecutive, a DATA frame repeats the stamp of its packet, an acknowledgement
reports what was counted and delivered before it was sent.

Everything after the definitions is about histories alone.
-/

namespace Wanbond.Bond

open Wanbond.Support

/-- The numbers that a packet receives at its first transmission, with the
datagram it carries. -/
structure Stamp where
  ref : PacketRef
  seq : ℕ
  order : Order
  payload : Bytes

/-- `counted` tells whether the frame was new on its lane. -/
inductive Entry where
  | sent (path : PathID) (frame : Control)
  | received (path : PathID) (frame : Control) (counted : Bool)
      (result : Except RejectionError (List Delivery))

namespace Entry

/-- A DATA frame sent on a lane, with its lane sequence. -/
def sentData (lane : PathID) : Entry → Option (ℕ × DataFields)
  | .sent _ ⟨seq, .data h (some d)⟩ =>
    if h.lane = lane then some (seq, d) else none
  | _ => none

/-- An acknowledgement sent for a lane of the peer, with its revision. -/
def sentAck (lane : PathID) : Entry → Option (ℕ × Acknowledgement)
  | .sent _ ⟨revision, .ack h (some a)⟩ =>
    if h.lane = lane then some (revision, a) else none
  | _ => none

/-- A DATA frame counted on a lane of the peer, with its lane sequence. -/
def countedData (lane : PathID) : Entry → Option (ℕ × DataFields)
  | .received _ ⟨seq, .data h (some d)⟩ true _ =>
    if h.lane = lane then some (seq, d) else none
  | _ => none

/-- The deliveries of a frame, with its transport sequence. -/
def deliveries : Entry → List (ℕ × Delivery)
  | .received _ ⟨_, .data _ (some d)⟩ _ (.ok ds) => ds.map fun x => (d.seq, x)
  | _ => []

/-- An acknowledgement processed on a lane, with its revision. -/
def processedAck (lane : PathID) : Entry → Option (ℕ × Acknowledgement)
  | .received _ ⟨revision, .ack h (some a)⟩ _ (.ok _) =>
    if h.lane = lane then some (revision, a) else none
  | _ => none

end Entry

def sentOn (lane : PathID) (log : List Entry) : List (ℕ × DataFields) :=
  log.filterMap (Entry.sentData lane)

def acksOn (lane : PathID) (log : List Entry) : List (ℕ × Acknowledgement) :=
  log.filterMap (Entry.sentAck lane)

def countedOn (lane : PathID) (log : List Entry) : List (ℕ × DataFields) :=
  log.filterMap (Entry.countedData lane)

def processedOn (lane : PathID) (log : List Entry) :
    List (ℕ × Acknowledgement) :=
  log.filterMap (Entry.processedAck lane)

def delivered (log : List Entry) : List (ℕ × Delivery) :=
  log.flatMap Entry.deliveries

/-- The lane sequences counted on a lane of the peer. -/
def countedSeqs (lane : PathID) (log : List Entry) : Set ℕ :=
  { k | ∃ d, (k, d) ∈ countedOn lane log }

/-- The transport sequences delivered. -/
def deliveredSeqs (log : List Entry) : Set ℕ :=
  { s | ∃ x, (s, x) ∈ delivered log }

/-- The transport sequences that some acknowledgement has reported. -/
def reportedSeqs (log : List Entry) : Set ℕ :=
  { s | ∃ lane revision a, (revision, a) ∈ acksOn lane log ∧
    a.received s = true }

/-- `high` is the greatest element of `S`, or zero. -/
def IsHigh (high : ℕ) (S : Set ℕ) : Prop :=
  (∀ s ∈ S, s ≤ high) ∧ (high = 0 ∨ high ∈ S)

/-! ## What an entry owes to those before it -/

/-- A sequence a window's width above `s` has been delivered. -/
def Overtaken (older : List Entry) (s : ℕ) : Prop :=
  ∃ s' ∈ deliveredSeqs older, s + maxPackets ≤ s'

/-- The receipts within the window that no acknowledgement has reported. -/
def unreportedSeqs (log : List Entry) : Set ℕ :=
  { s | s ∈ deliveredSeqs log ∧ ¬Overtaken log s ∧ s ∉ reportedSeqs log }

/-- The end of a receipt bitmap: the highest receipt, or as far above the
oldest unreported one as the bitmap reaches. -/
def Anchored (older : List Entry) (anchor : ℕ) : Prop :=
  ∃ high, IsHigh high (deliveredSeqs older) ∧
    (unreportedSeqs older = ∅ ∧ anchor = high ∨
      ∃ oldest, IsLeast (unreportedSeqs older) oldest ∧
        anchor = oldest + min (ackReceiptBits - 1) (high - oldest))

/-- An acknowledgement of the peer's lane, sent after `older`. -/
structure AckContent (peer : Epoch) (older : List Entry) (lane : PathID)
    (a : Acknowledgement) : Prop where
  observed : a.observed = peer
  high : IsHigh a.high (countedSeqs lane older)
  laneBit : ∀ k, a.laneBit k = true ↔
    k ∈ countedSeqs lane older ∧ a.high < k + 64
  bytes : a.bytes = total DataFields.wireBytes (countedOn lane older)
  elapsed : ∀ e ∈ acksOn lane older, e.2.elapsed ≤ a.elapsed
  anchored : Anchored older a.receivedHigh
  received : ∀ s, a.received s = true ↔ s ∈ deliveredSeqs older ∧
    ¬Overtaken older s ∧ s ≤ a.receivedHigh ∧
    a.receivedHigh < s + ackReceiptBits

/-- The delivery that the fields of a DATA frame stand for. -/
def DataFields.delivery (d : DataFields) : Delivery :=
  ⟨d.order.number, d.order.interactive, d.payload⟩

/-- The entries that a transport with epoch `self` may add to its history with
`peer`. -/
inductive EntryOk (self peer : Epoch) (stamps : List Stamp)
    (older : List Entry) : Entry → Prop where
  | keepalive (path : PathID) :
      EntryOk self peer stamps older (.sent path (dataFrame self peer path
        ((sentOn path older).length + 1) 0 Order.zero []))
  | data (path : PathID) (st : Stamp) (hst : st ∈ stamps) :
      EntryOk self peer stamps older (.sent path (dataFrame self peer path
        ((sentOn path older).length + 1) st.seq st.order st.payload))
  | ack (path lane : PathID) (a : Acknowledgement)
      (ha : AckContent peer older lane a) :
      EntryOk self peer stamps older (.sent path (ackFrame self lane
        ((acksOn lane older).length + 1) a))
  | rejected (path : PathID) (f : Control) (e : RejectionError) :
      EntryOk self peer stamps older (.received path f false (.error e))
  | duplicate (path lane : PathID) (seq : ℕ) (d : DataFields) :
      EntryOk self peer stamps older
        (.received path ⟨seq, .data ⟨peer, lane⟩ (some d)⟩ false (.ok []))
  | empty (path lane : PathID) (seq : ℕ) (d : DataFields)
      (hd : d.destination = self) (hnew : seq ∉ countedSeqs lane older)
      (hseq : d.seq = 0) :
      EntryOk self peer stamps older
        (.received path ⟨seq, .data ⟨peer, lane⟩ (some d)⟩ true (.ok []))
  | repeated (path lane : PathID) (seq : ℕ) (d : DataFields)
      (hd : d.destination = self) (hnew : seq ∉ countedSeqs lane older)
      (hold : d.seq ∈ deliveredSeqs older ∨ Overtaken older d.seq) :
      EntryOk self peer stamps older
        (.received path ⟨seq, .data ⟨peer, lane⟩ (some d)⟩ true (.ok []))
  | delivered (path lane : PathID) (seq : ℕ) (d : DataFields)
      (hd : d.destination = self) (hnew : seq ∉ countedSeqs lane older)
      (hseq : d.seq ≠ 0) (hfresh : d.seq ∉ deliveredSeqs older)
      (hnear : ¬Overtaken older d.seq) :
      EntryOk self peer stamps older
        (.received path ⟨seq, .data ⟨peer, lane⟩ (some d)⟩ true
          (.ok [d.delivery]))
  | processed (path : PathID) (revision : ℕ) (a : Acknowledgement)
      (ha : a.observed = self)
      (hnew : ∀ e ∈ processedOn path older, e.1 ≠ revision) :
      EntryOk self peer stamps older
        (.received path ⟨revision, .ack ⟨peer, path⟩ (some a)⟩ false (.ok []))

/-- Every entry of the history is in order. -/
def LogOk (self peer : Epoch) (stamps : List Stamp) : List Entry → Prop
  | [] => True
  | e :: older => EntryOk self peer stamps older e ∧ LogOk self peer stamps older

/-! ## The views of an extended history -/

section Views

variable (lane path path' : PathID) (log : List Entry) (f : Control)

variable (self peer : Epoch) (k : ℕ)

@[simp] theorem sentOn_data (s : ℕ) (o : Order) (payload : Bytes) :
    sentOn lane (.sent path (dataFrame self peer path' k s o payload) :: log) =
      if path' = lane then (k, ⟨peer, s, o, payload⟩) :: sentOn lane log
      else sentOn lane log := by
  by_cases h : path' = lane <;> simp [sentOn, Entry.sentData, dataFrame, h]

@[simp] theorem sentOn_ack (a : Acknowledgement) :
    sentOn lane (.sent path (ackFrame self path' k a) :: log) =
      sentOn lane log := rfl

variable (counted : Bool) (result : Except RejectionError (List Delivery))

@[simp] theorem sentOn_received :
    sentOn lane (.received path f counted result :: log) = sentOn lane log := rfl

@[simp] theorem acksOn_data (s : ℕ) (o : Order) (payload : Bytes) :
    acksOn lane (.sent path (dataFrame self peer path' k s o payload) :: log) =
      acksOn lane log := rfl

@[simp] theorem acksOn_ack (a : Acknowledgement) :
    acksOn lane (.sent path (ackFrame self path' k a) :: log) =
      if path' = lane then (k, a) :: acksOn lane log else acksOn lane log := by
  by_cases h : path' = lane <;> simp [acksOn, Entry.sentAck, ackFrame, h]

@[simp] theorem acksOn_received :
    acksOn lane (.received path f counted result :: log) = acksOn lane log := rfl

@[simp] theorem countedOn_sent :
    countedOn lane (.sent path f :: log) = countedOn lane log := rfl

@[simp] theorem countedOn_uncounted :
    countedOn lane (.received path f false result :: log) =
      countedOn lane log := by
  obtain ⟨seq, body⟩ := f
  cases body with
  | data h d => cases d <;> rfl
  | _ => rfl

@[simp] theorem countedOn_data (seq : ℕ) (d : DataFields)
    (result : Except RejectionError (List Delivery)) :
    countedOn lane (.received path ⟨seq, .data ⟨peer, path'⟩ (some d)⟩ true
        result :: log) =
      if path' = lane then (seq, d) :: countedOn lane log
      else countedOn lane log := by
  by_cases h : path' = lane <;> simp [countedOn, Entry.countedData, h]

@[simp] theorem processedOn_sent :
    processedOn lane (.sent path f :: log) = processedOn lane log := rfl

@[simp] theorem processedOn_error (e : RejectionError) :
    processedOn lane (.received path f counted (.error e) :: log) =
      processedOn lane log := by
  obtain ⟨seq, body⟩ := f
  cases body with
  | ack h a => cases a <;> rfl
  | _ => rfl

@[simp] theorem processedOn_data (h : PacketHeader) (seq : ℕ)
    (d : Option DataFields) (counted : Bool)
    (result : Except RejectionError (List Delivery)) :
    processedOn lane (.received path ⟨seq, .data h d⟩ counted result :: log) =
      processedOn lane log := rfl

@[simp] theorem processedOn_ack (revision : ℕ) (a : Acknowledgement)
    (counted : Bool) (ds : List Delivery) :
    processedOn lane (.received path ⟨revision, .ack ⟨peer, path'⟩ (some a)⟩
        counted (.ok ds) :: log) =
      if path' = lane then (revision, a) :: processedOn lane log
      else processedOn lane log := by
  by_cases h : path' = lane <;> simp [processedOn, Entry.processedAck, h]

@[simp] theorem delivered_sent :
    delivered (.sent path f :: log) = delivered log := rfl

@[simp] theorem delivered_error (e : RejectionError) :
    delivered (.received path f counted (.error e) :: log) = delivered log := by
  obtain ⟨seq, body⟩ := f
  cases body with
  | data h d => cases d <;> rfl
  | _ => rfl

@[simp] theorem delivered_data (h : PacketHeader) (seq : ℕ) (d : DataFields)
    (counted : Bool) (ds : List Delivery) :
    delivered (.received path ⟨seq, .data h (some d)⟩ counted (.ok ds) :: log) =
      ds.map (fun x => (d.seq, x)) ++ delivered log := rfl

@[simp] theorem delivered_ack (h : PacketHeader) (revision : ℕ)
    (a : Option Acknowledgement) (counted : Bool)
    (result : Except RejectionError (List Delivery)) :
    delivered (.received path ⟨revision, .ack h a⟩ counted result :: log) =
      delivered log := rfl

end Views

/-! ## Facts that hold in every history -/

section Facts

variable {self peer : Epoch} {stamps : List Stamp} {log : List Entry}

theorem EntryOk.mono {stamps' : List Stamp} {older : List Entry} {e : Entry}
    (h : EntryOk self peer stamps older e) (hsub : stamps ⊆ stamps') :
    EntryOk self peer stamps' older e := by
  cases h with
  | keepalive path => exact .keepalive path
  | data path st hst => exact .data path st (hsub hst)
  | ack path lane a ha => exact .ack path lane a ha
  | rejected path f e => exact .rejected path f e
  | duplicate path lane seq d => exact .duplicate path lane seq d
  | empty path lane seq d hd hnew hseq => exact .empty path lane seq d hd hnew hseq
  | repeated path lane seq d hd hnew hold =>
    exact .repeated path lane seq d hd hnew hold
  | delivered path lane seq d hd hnew hseq hfresh hnear =>
    exact .delivered path lane seq d hd hnew hseq hfresh hnear
  | processed path revision a ha hnew => exact .processed path revision a ha hnew

theorem LogOk.mono {stamps' : List Stamp} (h : LogOk self peer stamps log)
    (hsub : stamps ⊆ stamps') : LogOk self peer stamps' log := by
  induction log with
  | nil => trivial
  | cons _ _ ih => exact ⟨h.1.mono hsub, ih h.2⟩

theorem LogOk.suffix {older : List Entry} (h : LogOk self peer stamps log)
    (hs : older <:+ log) : LogOk self peer stamps older := by
  induction log with
  | nil =>
    rw [List.suffix_nil.mp hs]
    trivial
  | cons _ _ ih =>
    rcases List.suffix_cons_iff.mp hs with rfl | hs
    · exact h
    · exact ih h.2 hs

theorem LogOk.sentOn_numbered (h : LogOk self peer stamps log)
    (lane : PathID) : Numbered (sentOn lane log) := by
  induction log with
  | nil => exact .nil
  | cons _ _ ih =>
    obtain ⟨he, hold⟩ := h
    specialize ih hold
    cases he with
    | keepalive | data =>
      rw [sentOn_data]
      split
      next heq =>
        subst heq
        exact ih.cons _
      next => exact ih
    | _ => simpa using ih

theorem LogOk.acksOn_numbered (h : LogOk self peer stamps log)
    (lane : PathID) : Numbered (acksOn lane log) := by
  induction log with
  | nil => exact .nil
  | cons _ _ ih =>
    obtain ⟨he, hold⟩ := h
    specialize ih hold
    cases he with
    | ack =>
      rw [acksOn_ack]
      split
      next heq =>
        subst heq
        exact ih.cons _
      next => exact ih
    | _ => simpa using ih

/-- A DATA frame is a keepalive or repeats a stamp. -/
theorem LogOk.sentOn_content (h : LogOk self peer stamps log) {lane : PathID}
    {k : ℕ} {d : DataFields} (hm : (k, d) ∈ sentOn lane log) :
    d = ⟨peer, 0, Order.zero, []⟩ ∨
      ∃ st ∈ stamps, d = ⟨peer, st.seq, st.order, st.payload⟩ := by
  induction log with
  | nil => cases hm
  | cons _ _ ih =>
    obtain ⟨he, hold⟩ := h
    cases he with
    | keepalive =>
      rw [sentOn_data] at hm
      split at hm
      · rcases List.mem_cons.mp hm with heq | hm
        · exact Or.inl (Prod.mk.inj heq).2
        · exact ih hold hm
      · exact ih hold hm
    | data _ st hst =>
      rw [sentOn_data] at hm
      split at hm
      · rcases List.mem_cons.mp hm with heq | hm
        · exact Or.inr ⟨st, hst, (Prod.mk.inj heq).2⟩
        · exact ih hold hm
      · exact ih hold hm
    | _ => exact ih hold (by simpa using hm)

/-- An acknowledgement reports the history before it. -/
theorem LogOk.ack_content (h : LogOk self peer stamps log) {lane : PathID}
    {revision : ℕ} {a : Acknowledgement} (hm : (revision, a) ∈ acksOn lane log) :
    ∃ older, older <:+ log ∧ AckContent peer older lane a ∧
      revision = (acksOn lane older).length + 1 := by
  induction log with
  | nil => cases hm
  | cons e older ih =>
    obtain ⟨he, hold⟩ := h
    have hlater : (revision, a) ∈ acksOn lane older → ∃ older', older' <:+
        e :: older ∧ AckContent peer older' lane a ∧
        revision = (acksOn lane older').length + 1 := by
      intro hm
      obtain ⟨older', hs, hrest⟩ := ih hold hm
      exact ⟨older', hs.trans (List.suffix_cons e older), hrest⟩
    cases he with
    | ack _ _ _ hb =>
      rw [acksOn_ack] at hm
      split at hm
      next heq =>
        subst heq
        rcases List.mem_cons.mp hm with heq | hm
        · obtain ⟨rfl, rfl⟩ := Prod.mk.inj heq
          exact ⟨older, List.suffix_cons _ _, hb, rfl⟩
        · exact hlater hm
      next => exact hlater hm
    | _ => exact hlater (by simpa using hm)

/-- A lane sequence is counted once. -/
theorem LogOk.countedOn_nodup (h : LogOk self peer stamps log)
    (lane : PathID) : ((countedOn lane log).map Prod.fst).Nodup := by
  induction log with
  | nil => exact List.nodup_nil
  | cons e older ih =>
    obtain ⟨he, hold⟩ := h
    specialize ih hold
    have hcons : ∀ {lane' : PathID} {seq : ℕ} {d : DataFields},
        seq ∉ countedSeqs lane' older →
        ((if lane' = lane then (seq, d) :: countedOn lane older
          else countedOn lane older).map Prod.fst).Nodup := by
      intro lane' seq d hnew
      split
      next heq =>
        subst heq
        rw [List.map_cons, List.nodup_cons]
        refine ⟨?_, ih⟩
        intro hmem
        obtain ⟨⟨k, d'⟩, he, rfl⟩ := List.mem_map.mp hmem
        exact hnew ⟨d', he⟩
      next => exact ih
    cases he with
    | empty _ _ _ _ _ hnew | repeated _ _ _ _ _ hnew | delivered _ _ _ _ _ hnew =>
      rw [countedOn_data]
      exact hcons hnew
    | _ => simpa using ih

theorem LogOk.delivered_nodup (h : LogOk self peer stamps log) :
    ((delivered log).map Prod.fst).Nodup := by
  induction log with
  | nil => exact List.nodup_nil
  | cons _ _ ih =>
    obtain ⟨he, hold⟩ := h
    specialize ih hold
    cases he with
    | delivered _ _ _ _ _ _ _ hfresh =>
      rw [delivered_data]
      simp only [List.map_cons, List.map_nil, List.cons_append,
        List.nil_append, List.nodup_cons]
      refine ⟨?_, ih⟩
      intro hmem
      obtain ⟨⟨s, x⟩, hx, heq⟩ := List.mem_map.mp hmem
      simp only at heq
      subst heq
      exact hfresh ⟨x, hx⟩
    | _ => simpa using ih

/-- What is delivered was counted on a lane, and is what the frame carried. -/
theorem LogOk.delivered_counted (h : LogOk self peer stamps log) {s : ℕ}
    {x : Delivery} (hm : (s, x) ∈ delivered log) :
    ∃ lane k d, (k, d) ∈ countedOn lane log ∧ d.seq = s ∧ s ≠ 0 ∧
      x = d.delivery := by
  induction log with
  | nil => cases hm
  | cons e older ih =>
    obtain ⟨he, hold⟩ := h
    have hlater : (s, x) ∈ delivered older → ∃ lane k d,
        (k, d) ∈ countedOn lane (e :: older) ∧ d.seq = s ∧ s ≠ 0 ∧
          x = d.delivery := by
      intro hm
      obtain ⟨lane, k, d, hk, hrest⟩ := ih hold hm
      refine ⟨lane, k, d, ?_, hrest⟩
      obtain ⟨y, hy, hd⟩ := List.mem_filterMap.mp hk
      exact List.mem_filterMap.mpr ⟨y, List.mem_cons_of_mem _ hy, hd⟩
    cases he with
    | delivered _ lane seq d _ _ hseq =>
      rw [delivered_data] at hm
      rcases List.mem_cons.mp hm with heq | hm
      · obtain ⟨rfl, rfl⟩ := Prod.mk.inj heq
        exact ⟨lane, seq, d, by simp, rfl, hseq, rfl⟩
      · exact hlater hm
    | _ => exact hlater (by simpa using hm)

/-! ## Older histories -/

section Suffix

variable {older : List Entry} (hs : older <:+ log)

include hs

variable (lane : PathID)

theorem acksOn_suffix : acksOn lane older <:+ acksOn lane log :=
  hs.filterMap _

theorem countedOn_suffix : countedOn lane older <:+ countedOn lane log :=
  hs.filterMap _

theorem delivered_suffix : delivered older <:+ delivered log := by
  obtain ⟨newer, rfl⟩ := hs
  exact ⟨delivered newer, by simp [delivered]⟩

theorem countedSeqs_mono : countedSeqs lane older ⊆ countedSeqs lane log := by
  rintro k ⟨d, hd⟩
  exact ⟨d, (countedOn_suffix hs lane).subset hd⟩

theorem deliveredSeqs_mono : deliveredSeqs older ⊆ deliveredSeqs log := by
  rintro s ⟨x, hx⟩
  exact ⟨x, (delivered_suffix hs).subset hx⟩

theorem total_countedOn_mono :
    total DataFields.wireBytes (countedOn lane older) ≤
      total DataFields.wireBytes (countedOn lane log) := by
  obtain ⟨newer, hnewer⟩ := countedOn_suffix hs lane
  rw [← hnewer]
  simp [total]

end Suffix

theorem IsHigh.mono {high high' : ℕ} {S S' : Set ℕ} (h : IsHigh high S)
    (h' : IsHigh high' S') (hsub : S ⊆ S') : high ≤ high' := by
  rcases h.2 with hzero | hmem
  · omega
  · exact h'.1 high (hsub hmem)

/-- A later acknowledgement of a lane reports at least as much. -/
theorem LogOk.acks_mono (h : LogOk self peer stamps log) {lane : PathID}
    {i j : ℕ} {a b : Acknowledgement} (ha : (i, a) ∈ acksOn lane log)
    (hb : (j, b) ∈ acksOn lane log) (hij : i ≤ j) :
    a.high ≤ b.high ∧ a.bytes ≤ b.bytes ∧ a.elapsed ≤ b.elapsed := by
  have hnum := h.acksOn_numbered lane
  rcases Nat.eq_or_lt_of_le hij with rfl | hlt
  · rw [hnum.unique ha hb]
    exact ⟨le_rfl, le_rfl, le_rfl⟩
  obtain ⟨older, hs, hcontent, hj⟩ := h.ack_content hb
  have hok := h.suffix hs
  -- the earlier acknowledgement belongs to what the later one reports
  obtain ⟨a', ha'⟩ := (hok.acksOn_numbered lane).exists_of_le
    (hnum.bounds ha).1 (show i ≤ _ by omega)
  have heq : a = a' := hnum.unique ha ((acksOn_suffix hs lane).subset ha')
  subst heq
  obtain ⟨older', hs', hcontent', -⟩ := hok.ack_content ha'
  refine ⟨?_, ?_, hcontent.elapsed _ ha'⟩
  · exact hcontent'.high.mono hcontent.high (countedSeqs_mono hs' lane)
  · rw [hcontent'.bytes, hcontent.bytes]
    exact total_countedOn_mono hs' lane

end Facts

end Wanbond.Bond
