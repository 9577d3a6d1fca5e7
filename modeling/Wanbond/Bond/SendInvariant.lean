import Wanbond.Bond.Quiet

/-!
# The invariant when a frame leaves

Forgetting attempts keeps the invariant of a lane, and so does one more
transmission.  `StateOk.send_frame` is the one step in which a frame leaves on
a lane; keepalives, originals, copies and repairs are its cases.
-/

namespace Wanbond.Bond

open Wanbond.Support

/-! ## Views that a step leaves alone -/

variable {log : List Entry}

theorem LanesOk.congr {wire : PathID → Option LaneWire} {stamps : List Stamp}
    {log' : List Entry} {base : PathID → ℕ} (h : LanesOk wire stamps log base)
    (hsent : ∀ id, sentOn id log' = sentOn id log)
    (hprocessed : ∀ id, processedOn id log' = processedOn id log) :
    LanesOk wire stamps log' base := by
  constructor
  · intro id w hw
    rw [hsent, hprocessed]
    exact h.lane id w hw
  · intro id hid
    rw [hsent, hprocessed]
    exact h.unknown id hid

theorem InboundOk.congr {i : Inbound} {clock : Time} {log' : List Entry}
    (h : InboundOk i clock log)
    (hcounted : ∀ lane, countedOn lane log' = countedOn lane log)
    (hacks : ∀ lane, acksOn lane log' = acksOn lane log)
    (hdelivered : delivered log' = delivered log) : InboundOk i clock log' := by
  have hseqs : deliveredSeqs log' = deliveredSeqs log := by
    simp only [deliveredSeqs, hdelivered]
  have hreported : reportedSeqs log' = reportedSeqs log := by
    simp only [reportedSeqs, hacks]
  constructor
  · intro lane r hr
    rw [hcounted, hacks]
    exact h.receiver lane r hr
  · intro lane hlane
    rw [hcounted, hacks]
    exact h.unknown lane hlane
  · rw [hseqs]
    exact h.received
  · refine ⟨h.unreported.high, h.unreported.grounded, ?_⟩
    rw [hreported]
    exact h.unreported.has

/-! ## Forgotten attempts -/

/-- The same transmission, whatever has been learned about it. -/
structure Attempt.Same (a a₀ : Attempt) : Prop where
  packet : a.packet = a₀.packet
  sent : a.sent = a₀.sent
  bytes : a.bytes = a₀.bytes
  through : a.through = a₀.through

theorem Attempt.Same.refl (a : Attempt) : a.Same a := ⟨rfl, rfl, rfl, rfl⟩

/-- Some attempts are forgotten or marked; nothing else changes. -/
structure LaneWire.Trimmed (w w' : LaneWire) : Prop where
  rest : { w' with attempts := w.attempts } = w
  attempts : ∀ k a, w'.attempts.lookup k = some a →
    ∃ a₀, w.attempts.lookup k = some a₀ ∧ a.Same a₀

variable {k : ℕ} {a : Attempt}

namespace LaneWire.Trimmed

theorem refl (w : LaneWire) : w.Trimmed w :=
  ⟨rfl, fun _ a ha => ⟨a, ha, Attempt.Same.refl a⟩⟩

theorem trans {w₁ w₂ w₃ : LaneWire} (h : w₁.Trimmed w₂) (h' : w₂.Trimmed w₃) :
    w₁.Trimmed w₃ := by
  constructor
  · have hrest := h'.rest
    have : { w₃ with attempts := w₁.attempts } =
        { ({ w₃ with attempts := w₂.attempts } : LaneWire) with
          attempts := w₁.attempts } := rfl
    rw [this, hrest]
    exact h.rest
  intro k a ha
  obtain ⟨a₂, ha₂, hsame₂⟩ := h'.attempts k a ha
  obtain ⟨a₁, ha₁, hsame₁⟩ := h.attempts k a₂ ha₂
  exact ⟨a₁, ha₁, hsame₂.packet.trans hsame₁.packet,
    hsame₂.sent.trans hsame₁.sent, hsame₂.bytes.trans hsame₁.bytes,
    hsame₂.through.trans hsame₁.through⟩

theorem erase (w : LaneWire) (k : ℕ) :
    w.Trimmed { w with attempts := w.attempts.erase k } := by
  refine ⟨rfl, ?_⟩
  intro j a ha
  by_cases hj : j = k
  · subst hj
    simp only [AList.lookup_erase, reduceCtorEq] at ha
  · simp only [AList.lookup_erase_ne hj] at ha
    exact ⟨a, ha, Attempt.Same.refl a⟩

theorem insert {w : LaneWire} {a₀ : Attempt} (h : w.attempts.lookup k = some a₀)
    (hsame : a.Same a₀) :
    w.Trimmed { w with attempts := w.attempts.insert k a } := by
  refine ⟨rfl, ?_⟩
  intro j b hb
  by_cases hj : j = k
  · subst hj
    simp only [AList.lookup_insert, Option.some.injEq] at hb
    exact ⟨a₀, h, hb ▸ hsame⟩
  · simp only [AList.lookup_insert_ne hj] at hb
    exact ⟨b, hb, Attempt.Same.refl b⟩

end LaneWire.Trimmed

variable (path : Lane) (now : Time)

namespace Transport

theorem trimmed_timeOut (heap : PacketHeap) (now : Time) {path : Lane} {seq : ℕ}
    (h : path.attempts.lookup seq = some a) :
    path.toLaneWire.Trimmed (timeOut heap now path seq a).1.toLaneWire ∧
      (timeOut heap now path seq a).2.Same a := by
  unfold timeOut
  split
  · refine ⟨?_, ⟨rfl, rfl, rfl, rfl⟩⟩
    simpa using LaneWire.Trimmed.insert h
      (a := { a with released := true }) ⟨rfl, rfl, rfl, rfl⟩
  · exact ⟨.refl _, .refl _⟩

theorem trimmed_expireAttempt (heap : PacketHeap) (now : Time) (path : Lane)
    (seq : ℕ) :
    path.toLaneWire.Trimmed (expireAttempt heap now path seq).toLaneWire := by
  unfold expireAttempt
  split
  · exact .refl _
  next a ha =>
    have htimeout := (trimmed_timeOut heap now ha).1
    dsimp only
    split
    · refine htimeout.trans ?_
      rw [Lane.forget_toLaneWire, Lane.clear_toLaneWire]
      exact .erase _ seq
    · exact htimeout

theorem trimmed_expireAttempts (heap : PacketHeap) (now : Time)
    (order : MapOrder) (path : Lane) :
    path.toLaneWire.Trimmed
      (expireAttempts heap now order path).toLaneWire := by
  unfold expireAttempts
  generalize order.keys .expire path.id path.attempts.keys = keys
  induction keys generalizing path with
  | nil => exact .refl _
  | cons k _ ih =>
    exact (trimmed_expireAttempt heap now path k).trans
      (ih (expireAttempt heap now path k))

@[simp] theorem rebase_toLaneWire :
    (rebase path now).toLaneWire = path.toLaneWire := by
  unfold rebase
  split <;> rfl

end Transport

/-! ## The invariant of a lane -/

variable {packet : Option PacketRef} {d : DataFields}

section LaneInvariant

variable {w w' : LaneWire} {stamps stamps' : List Stamp}
  {sent : List (ℕ × DataFields)} {processed : List (ℕ × Acknowledgement)}
  {base : ℕ}

theorem Carries.mono (h : Carries stamps packet d) (hsub : stamps ⊆ stamps') :
    Carries stamps' packet d := by
  cases packet with
  | none => exact h
  | some =>
    obtain ⟨st, hst, hrest⟩ := h
    exact ⟨st, hsub hst, hrest⟩

theorem AttemptOk.mono (h : AttemptOk stamps sent base k a)
    (hsub : stamps ⊆ stamps') : AttemptOk stamps' sent base k a := by
  obtain ⟨d, hd, hbytes, hthrough, hcarries⟩ := h
  exact ⟨d, hd, hbytes, hthrough, hcarries.mono hsub⟩

theorem AttemptOk.same {a₀ : Attempt} (h : AttemptOk stamps sent base k a₀)
    (hsame : a.Same a₀) : AttemptOk stamps sent base k a := by
  obtain ⟨d, hd, hbytes, hthrough, hcarries⟩ := h
  exact ⟨d, hd, hsame.bytes.trans hbytes, hsame.through.trans hthrough,
    hsame.packet ▸ hcarries⟩

theorem LaneOk.mono (h : LaneOk w stamps sent processed base)
    (hsub : stamps ⊆ stamps') : LaneOk w stamps' sent processed base :=
  { h with attempts := fun k a ha => (h.attempts k a ha).mono hsub }

theorem LaneOk.trimmed (h : LaneOk w stamps sent processed base)
    (ht : w.Trimmed w') : LaneOk w' stamps sent processed base := by
  have hrest : LaneOk { w' with attempts := w.attempts } stamps sent processed
      base := by
    rwa [ht.rest]
  refine { hrest with attempts := ?_ }
  intro k a ha
  obtain ⟨a₀, ha₀, hsame⟩ := ht.attempts k a ha
  exact (h.attempts k a₀ ha₀).same hsame

/-- The wire state after one more transmission. -/
def LaneWire.attempted (w : LaneWire) (packet : Option PacketRef) (now : Time)
    (bytes : ℕ) : LaneWire :=
  { w with
    seq := w.seq + 1
    sent := w.sent + bytes
    attempts := w.attempts.insert (w.seq + 1)
      ⟨packet, now, bytes, false, false, w.sent + bytes⟩ }

/-- A transmission keeps the invariant of a lane. -/
theorem LaneOk.attempted (h : LaneOk w stamps sent processed base)
    (hnum : Numbered sent) (hcarries : Carries stamps packet d) (now : Time) :
    LaneOk (w.attempted packet now d.wireBytes) stamps
      ((sent.length + 1, d) :: sent) processed base := by
  have hfresh : ∀ k ≤ sent.length, through DataFields.wireBytes k
      ((sent.length + 1, d) :: sent) = through DataFields.wireBytes k sent :=
    fun k hk => through_cons_of_lt (Nat.lt_succ_of_le hk) sent
  constructor
  · simp [LaneWire.attempted, h.seq]
  · simp only [LaneWire.attempted, h.total, total_cons]
    omega
  · intro k a ha
    simp only [LaneWire.attempted] at ha
    by_cases hk : k = w.seq + 1
    · subst hk
      simp only [AList.lookup_insert, Option.some.injEq] at ha
      subst ha
      have hall : through DataFields.wireBytes (sent.length + 1)
          ((sent.length + 1, d) :: sent) =
            d.wireBytes + Support.total DataFields.wireBytes sent :=
        (hnum.cons d).through_length.trans (total_cons _ _)
      refine ⟨d, ?_, rfl, ?_, hcarries⟩
      · rw [h.seq]
        exact List.mem_cons_self
      · dsimp only
        rw [h.seq, h.total, hall]
        omega
    · simp only [AList.lookup_insert_ne hk] at ha
      obtain ⟨d', hd', hbytes, hthrough, hc⟩ := h.attempts k a ha
      refine ⟨d', List.mem_cons_of_mem _ hd', hbytes, ?_, hc⟩
      rwa [hfresh k (hnum.bounds hd').2]
  · exact h.revisions
  · exact h.revision
  · exact h.newest
  · exact h.receivedHigh
  · exact Nat.le_succ_of_le h.receivedHigh_le
  · intro hmono hne
    have hle : w.receivedHigh ≤ sent.length := h.seq ▸ h.receivedHigh_le
    simp only [LaneWire.attempted] at hne ⊢
    rw [hfresh _ hle]
    exact h.receivedThrough hmono hne

end LaneInvariant

@[simp] theorem Lane.recordAttempt_toLaneWire (ref : PacketRef) (p : Packet) :
    (path.recordAttempt now ref p).toLaneWire =
      path.toLaneWire.attempted (some ref) now p.wireBytes := by
  unfold Lane.recordAttempt Lane.beginAttempt
  by_cases hidle : path.seq = path.receivedHigh
  · rw [if_pos hidle]
    rfl
  · rw [if_neg hidle]
    rfl

@[simp] theorem Lane.recordKeepalive_toLaneWire :
    (path.recordKeepalive now).toLaneWire =
      path.toLaneWire.attempted none now wireOverhead := by
  unfold Lane.recordKeepalive Lane.beginAttempt
  by_cases hidle : path.seq = path.receivedHigh
  · rw [if_pos hidle]
    rfl
  · rw [if_neg hidle]
    rfl

namespace Lane

variable (path : Lane) (now : Time) (ref : PacketRef) (p : Packet)

@[simp] theorem recordAttempt_id : (path.recordAttempt now ref p).id = path.id :=
  (congrArg LaneWire.id (recordAttempt_toLaneWire path now ref p)).trans rfl

@[simp] theorem recordAttempt_seq :
    (path.recordAttempt now ref p).seq = path.seq + 1 :=
  (congrArg LaneWire.seq (recordAttempt_toLaneWire path now ref p)).trans rfl

@[simp] theorem recordKeepalive_id : (path.recordKeepalive now).id = path.id :=
  (congrArg LaneWire.id (recordKeepalive_toLaneWire path now)).trans rfl

@[simp] theorem recordKeepalive_seq :
    (path.recordKeepalive now).seq = path.seq + 1 :=
  (congrArg LaneWire.seq (recordKeepalive_toLaneWire path now)).trans rfl

end Lane

/-! ## The lanes together -/

section Lanes

variable {wire : PathID → Option LaneWire} {stamps stamps' : List Stamp}
  {log log' : List Entry} {base : PathID → ℕ} {id : PathID} {w w' : LaneWire}

theorem LanesOk.mono (h : LanesOk wire stamps log base)
    (hsub : stamps ⊆ stamps') : LanesOk wire stamps' log base :=
  ⟨fun id w hw => (h.lane id w hw).mono hsub, h.unknown⟩

/-- One lane changes, with its part of the history. -/
theorem LanesOk.update (h : LanesOk wire stamps log base)
    (hsent : ∀ j ≠ id, sentOn j log' = sentOn j log)
    (hprocessed : ∀ j ≠ id, processedOn j log' = processedOn j log)
    (hlane : LaneOk w' stamps (sentOn id log') (processedOn id log') (base id)) :
    LanesOk (Function.update wire id (some w')) stamps log' base := by
  constructor
  · intro j v hv
    by_cases hj : j = id
    · subst hj
      rw [Function.update_self, Option.some.injEq] at hv
      exact hv ▸ hlane
    · rw [Function.update_of_ne hj] at hv
      rw [hsent j hj, hprocessed j hj]
      exact h.lane j v hv
  intro j hnone
  by_cases hj : j = id
  · subst hj
    simp at hnone
  · rw [Function.update_of_ne hj] at hnone
    rw [hsent j hj, hprocessed j hj]
    exact h.unknown j hnone

theorem LanesOk.trimmed (h : LanesOk wire stamps log base)
    (hw : wire id = some w) (ht : w.Trimmed w') :
    LanesOk (Function.update wire id (some w')) stamps log base :=
  h.update (fun _ _ => rfl) (fun _ _ => rfl) ((h.lane id w hw).trimmed ht)

theorem LanesOk.send (h : LanesOk wire stamps log base)
    (hnum : Numbered (sentOn id log)) (hw : wire id = some w)
    (hcarries : Carries stamps packet d) (self : Epoch) (now : Time) :
    LanesOk (Function.update wire id
      (some (w.attempted packet now d.wireBytes))) stamps
      (.sent id (dataFrame self d.destination id ((sentOn id log).length + 1)
        d.seq d.order d.payload) :: log) base := by
  refine h.update ?_ ?_ ?_
  · intro j hj
    rw [sentOn_data, if_neg (Ne.symm hj)]
  · intro j _
    exact processedOn_sent j id log _
  · rw [sentOn_data, if_pos rfl, processedOn_sent]
    exact (h.lane id w hw).attempted hnum hcarries now

end Lanes

/-! ## One frame leaves -/

/-- A frame of `bytes` bytes leaves on lane `id`; packets may change. -/
structure Transport.Sends (t t' : Transport) (id : PathID)
    (packet : Option PacketRef) (now : Time) (bytes : ℕ) : Prop where
  epoch : t'.epoch = t.epoch
  remote : t'.remote = t.remote
  clock : t'.lastTime = t.lastTime
  inbound : t'.toInbound = t.toInbound
  ids : (t'.paths.map fun p => p.id) = t.paths.map fun p => p.id
  wire : ∃ w, t.wire id = some w ∧
    t'.wire = Function.update t.wire id (some (w.attempted packet now bytes))

variable {datagrams : List (Bytes × PacketMetadata)}

theorem Named.mono {s s' : Stint} {q : ℕ} (h : Named s q)
    (hlog : s.log <:+ s'.log) (hbase : s'.base = s.base) : Named s' q := by
  obtain ⟨older, hs, hrest⟩ := h
  refine ⟨older, hs.trans hlog, ?_⟩
  rwa [hbase]

theorem EntryOk.of_content {self peer : Epoch} {stamps : List Stamp}
    (id : PathID) (h : d = ⟨peer, 0, Order.zero, []⟩ ∨
      ∃ st ∈ stamps, d = ⟨peer, st.seq, st.order, st.payload⟩) :
    EntryOk self peer stamps log (.sent id (dataFrame self d.destination id
      ((sentOn id log).length + 1) d.seq d.order d.payload)) := by
  rcases h with rfl | ⟨st, hst, rfl⟩
  · exact .keepalive id
  · exact .data id st hst

/-- Keepalives, originals, copies and repairs: a frame that repeats a stamp, or
a stamp that was just given, leaves on a lane. -/
theorem StateOk.send_frame {t t' : Transport} {s : Stint}
    (h : StateOk t s datagrams) (new : List Stamp) {id : PathID}
    (packet : Option PacketRef) {now : Time} (d : DataFields)
    (hsends : t.Sends t' id packet now d.wireBytes)
    (hstamps : StampsOk (new ++ s.stamps))
    (hout : OutboundOk t'.toOutbound t'.waiting (new ++ s.stamps) datagrams)
    (hcarries : Carries (new ++ s.stamps) packet d)
    (hcontent : d = ⟨t.remote, 0, Order.zero, []⟩ ∨
      ∃ st ∈ new ++ s.stamps, d = ⟨t.remote, st.seq, st.order, st.payload⟩)
    (hnew : ∀ st ∈ new, d.seq = st.seq)
    (hacked : ∀ st ∈ new ++ s.stamps, (t'.packets st.ref).acked = true →
      st ∈ s.stamps ∧ (t.packets st.ref).acked = true) :
    StateOk t' (s.extend new [⟨id, dataFrame t.epoch d.destination id
      ((sentOn id s.log).length + 1) d.seq d.order d.payload⟩]) datagrams := by
  have hsub : s.stamps ⊆ new ++ s.stamps := List.subset_append_right _ _
  have hlog := h.log.mono hsub
  obtain ⟨w, hw, hwire⟩ := hsends.wire
  constructor
  · exact hsends.epoch.trans h.own
  · exact hsends.remote.trans h.peer
  · rw [hsends.epoch, hsends.remote]
    exact ⟨EntryOk.of_content id hcontent, hlog⟩
  · exact hstamps
  · exact hout
  · intro st hst
    rcases List.mem_append.mp hst with hst | hst
    · refine ⟨id, (sentOn id s.log).length + 1, d, ?_, hnew st hst⟩
      show _ ∈ sentOn id (_ :: s.log)
      rw [sentOn_data, if_pos rfl]
      exact List.mem_cons_self
    obtain ⟨lane, k, d', hd', hseq⟩ := h.sent st hst
    refine ⟨lane, k, d', ?_, hseq⟩
    show _ ∈ sentOn lane (_ :: s.log)
    rw [sentOn_data]
    split
    · exact List.mem_cons_of_mem _ hd'
    · exact hd'
  · intro st hst hack
    obtain ⟨hst, hack⟩ := hacked st hst hack
    exact (h.acked st hst hack).mono (List.suffix_cons _ _) rfl
  · rw [hwire]
    exact (h.lanes.mono hsub).send (h.log.sentOn_numbered id) hw hcarries
      t.epoch now
  · rw [hsends.ids]
    exact h.ids
  · rw [hsends.inbound, hsends.clock]
    exact h.inbound.congr (fun _ => rfl) (fun _ => rfl) rfl

end Wanbond.Bond
