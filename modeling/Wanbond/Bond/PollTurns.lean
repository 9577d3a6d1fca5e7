import Wanbond.Bond.PollTrace

/-!
# The turns of a Poll

`Poll` is a sequence of turns of its loops.  A turn is the program's own step
from one state to the next, with the frames it sends, each with the state in
which its lane was chosen and why it is sent.  Every turn is a trace in the
books, and so is the whole of `Poll`.
-/

namespace Wanbond.Bond

open Wanbond.Support

variable {t : Transport} {now : Time} {ref : PacketRef} {c : Class}

/-! ## Originals and copies -/

theorem Transport.sendPacket_sent (t : Transport) (now : Time)
    (ref : PacketRef) (path : Lane) :
    (t.sendPacket now ref path).2 = ⟨path.id, dataFrame t.epoch t.remote path.id
      (path.seq + 1) (t.packets ref).seq (t.packets ref).order
      (t.packets ref).payload⟩ := by
  simp only [sendPacket, Lane.recordAttempt_id, Lane.recordAttempt_seq]
  rfl

theorem Transport.packetSeq_first (u : Transport)
    (hseq : (u.packets ref).seq = 0) (now : Time) (path : Lane) :
    (u.transmit now ref path).2.frame.packetSeq = u.seq + 1 ∧
      (u.transmit now ref path).1.seq = u.seq + 1 := by
  have hout := (u.quiet_countOriginal now ref path.id).outbound
  have hnumber : (u.countOriginal now ref path.id).seq = u.seq :=
    congrArg Outbound.seq hout
  simp only [transmit, hseq, if_true]
  rw [sendPacket_sent]
  refine ⟨?_, congrArg (· + 1) hnumber⟩
  simp only [stampPacket, setPacket, Function.update_self]
  exact congrArg (· + 1) hnumber

theorem follows_original {u : Transport} {path : Lane}
    (hout : u.toOutbound = t.toOutbound) (hfind : u.find path.id = some path)
    (hwait : WaitsAs (t.packets ref) c)
    (hmove : PollMove now t.books
      ((u.books.stamp now ref).send now ref path.id path.toLaneCore)) :
    Follows now t
      ((u.transmit now ref path).1, [(u.transmit now ref path).2]) := by
  have hseq : (u.packets ref).seq = 0 := by
    rw [hout]
    exact hwait.seq
  obtain ⟨hcarries, hnext⟩ := u.packetSeq_first hseq now path
  have hsame : u.seq + 1 = t.seq + 1 :=
    congrArg (fun o : Outbound => o.seq + 1) hout
  refine Follows.first ?_ (hnext.trans hsame) (hcarries.trans hsame)
  rwa [Transport.books_transmit_first hfind now hseq]

/-- What a first transmission leaves of its packet. -/
theorem Books.first_facts (b : Books) (now : Time) (ref : PacketRef)
    (id : PathID) (lane : LaneCore) :
    ref ∈ ((b.stamp now ref).send now ref id lane).pendingOrder ∧
      (((b.stamp now ref).send now ref id lane).packets ref).acked =
        (b.packets ref).acked ∧
      (((b.stamp now ref).send now ref id lane).packets ref).wireBytes =
        (b.packets ref).wireBytes := by
  have hpacket : ((b.stamp now ref).send now ref id lane).packets ref =
      ((b.stamp now ref).packets ref).transmitted now id (lane.seq + 1) :=
    Function.update_self _ _ _
  have hstamp : ∃ seq order, (b.stamp now ref).packets ref =
      (b.packets ref).stamp now seq order :=
    ⟨_, _, Function.update_self _ _ _⟩
  obtain ⟨seq, order, hstamp⟩ := hstamp
  rw [hpacket, hstamp]
  exact ⟨List.mem_append_right _ List.mem_cons_self, rfl, rfl⟩

theorem follows_sendCopy (ht : t.books.Kept) (href : ref ∈ t.pendingOrder)
    (hacked : (t.packets ref).acked = false) (c : Class) (first : PathID) :
    Follows now t (t.sendCopy now c ref (t.packets ref).wireBytes first) := by
  dsimp only [Transport.sendCopy]
  split
  next hcopy =>
    split
    · exact .refl t
    next second hsecond =>
      have hfind : t.find second.id = some second := by
        obtain ⟨stamped, h⟩ := ht
        exact Transport.find_chooseLane h.ids hsecond
      split
      · exact follows_again ht href hacked hfind
      set u : Transport := { t with
        redundancyTokens := t.redundancyTokens - (t.packets ref).wireBytes }
      have hukept : u.books.Kept := ht
      have hu : Follows now u _ :=
        @follows_again u now ref second hukept href hacked hfind
      have hidle : Follows now t (u, []) := .idle rfl
      exact hidle.trans hu
  next => exact .refl t

theorem Transport.givesUp_facts (t : Transport) (now : Time) (c : Class)
    (p : Packet) :
    (t.givesUp now c p).1.books = t.books ∧
      ((t.givesUp now c p).2 = false → ¬now > p.queueDeadline) := by
  unfold givesUp
  split
  · exact ⟨rfl, nofun⟩
  next hlate =>
    refine ⟨?_, fun _ => hlate⟩
    split
    · unfold stale
      split
      · rfl
      · split <;> rfl
    · rfl

/-- The first transmission of a small datagram. -/
theorem follows_originalSmall {path : Lane} (hc : c ≠ .bulk)
    (hpeek : (t.small.get c).peek = some ref)
    (hlate : ¬now > (t.packets ref).queueDeadline)
    (hpath : t.chooseLane now c (t.packets ref).wireBytes 0 false = some path) :
    Follows now t (((t.popSmall c).transmit now ref path).1,
      [((t.popSmall c).transmit now ref path).2]) := by
  intro ht
  obtain ⟨stamped, h⟩ := ht
  have hfind := Transport.find_chooseLane h.ids hpath
  have hwait : WaitsAs (t.packets ref) c :=
    h.queues.small c hc ref (Stock.mem_refs_of_peek hpeek)
  have hmove : PollMove now t.books (((t.popSmall c).books.stamp now ref).send
      now ref path.id path.toLaneCore) :=
    .firstSmall hc hpeek hlate (Transport.books_lanes hfind)
  have horiginal : Follows now t _ :=
    follows_original (u := t.popSmall c) rfl hfind hwait hmove
  exact horiginal ⟨stamped, h⟩

/-- One turn of the loop over the bulk queue. -/
theorem follows_sendBulkTurn (now : Time) {rest : List PacketRef}
    (hqueue : t.queue = ref :: rest) :
    Follows now t
      ((t.sendBulkTurn now ref rest).1, (t.sendBulkTurn now ref rest).2.1) := by
  have hpop : (t.popBulk now (t.packets ref) rest).1.books =
      { t.books with queue := rest } ∧
      (t.popBulk now (t.packets ref) rest).1.paths = t.paths := by
    dsimp only [Transport.popBulk]
    split <;> exact ⟨rfl, rfl⟩
  obtain ⟨hbooks, hpaths⟩ := hpop
  dsimp only [Transport.sendBulkTurn]
  split
  next hlate => exact .move (.dropLate hqueue hlate) rfl
  next hlate =>
    split
    · exact .refl t
    next path hpath =>
      split
      · refine .move ?_ (congrArg (fun b : Books => b.seq) hbooks)
        generalize (t.popBulk now (t.packets ref) rest).1 = u at hbooks ⊢
        have hmove : PollMove now t.books { t.books with
          queue := rest
          drops := t.drops + 1
          aqmDrops := t.aqmDrops + 1 } := .dropManaged hqueue hlate
        have heq : ({ u with drops := u.drops + 1, aqmDrops := u.aqmDrops + 1 } :
            Transport).books = { t.books with
              queue := rest
              drops := t.drops + 1
              aqmDrops := t.aqmDrops + 1 } := by
          exact (congrArg (fun b : Books => { b with
            drops := b.drops + 1
            aqmDrops := b.aqmDrops + 1 }) hbooks :)
        rwa [heq]
      · intro ht
        obtain ⟨stamped, h⟩ := ht
        have hfind := Transport.find_chooseLane h.ids hpath
        have hwait : WaitsAs (t.packets ref) .bulk :=
          h.queues.queue ref (by
            show ref ∈ t.queue
            simp [hqueue])
        refine follows_original ?_ ?_ hwait ?_ ⟨stamped, h⟩
        · exact congrArg Books.toOutbound hbooks
        · rw [← hfind]
          exact congrArg (Keyed.lookup (fun p : Lane => p.id) path.id) hpaths
        · rw [hbooks]
          exact .firstBulk hqueue hlate (Transport.books_lanes hfind)

/-! ## Turns -/

/-- Why a frame is sent.  `moved` is the early repair of a real-time datagram
whose lane is in doubt, `repair` the one after a timeout. -/
inductive Reason where
  | ack
  | keepalive
  | moved (ref : PacketRef)
  | repair (ref : PacketRef)
  | original (ref : PacketRef)
  | copy (ref : PacketRef)

/-- A frame that is sent, with the state in which its lane was chosen. -/
structure Choice where
  state : Transport
  reason : Reason
  sent : Transmission

/-- The frames of a turn that are all sent for one reason. -/
def Choice.all (t : Transport) (reason : Reason) (out : List Transmission) :
    List Choice :=
  out.map fun sent => ⟨t, reason, sent⟩

@[simp] theorem Choice.sent_all (t : Transport) (reason : Reason)
    (out : List Transmission) :
    (Choice.all t reason out).map Choice.sent = out := by
  simp [Choice.all, Function.comp_def]

namespace Transport

def repairReason (t : Transport) (now : Time) (ref : PacketRef) : Reason :=
  if (t.movedLane now (t.packets ref)).isSome then .moved ref else .repair ref

/-- The frames of the loop over `pendingOrder`. -/
def repairChoices (now : Time) : List PacketRef → Transport → List Choice
  | [], _ => []
  | ref :: rest, t =>
    Choice.all t (t.repairReason now ref) (t.repairTurn now ref).2.1 ++
      repairChoices now rest (t.repairTurn now ref).1

theorem sent_repairChoices (now : Time) (refs : List PacketRef) :
    ∀ t, (repairChoices now refs t).map Choice.sent =
      (repairs now refs t).2.1 := by
  induction refs with
  | nil => exact fun t => rfl
  | cons _ _ ih =>
    intro t
    simp only [repairChoices, repairs, List.map_append, Choice.sent_all, ih]

end Transport

/-- The turns of `Poll`. -/
inductive PollTurn (now : Time) (order : MapOrder) :
    Transport → List Choice → Transport → Prop
  | refill (t : Transport) : PollTurn now order t [] (t.refillTokens now)
  | acknowledge (t : Transport) (lane : PathID) :
      PollTurn now order t (Choice.all t .ack (t.acknowledge now lane).2)
        (t.acknowledge now lane).1
  | service (t : Transport) (id : PathID) :
      PollTurn now order t (Choice.all t .keepalive (t.service now order id).2)
        (t.service now order id).1
  | reserve (t : Transport) : PollTurn now order t [] (t.reserve now)
  | repair (t : Transport) :
      PollTurn now order t (Transport.repairChoices now t.pendingOrder t)
        (t.repair now).1
  | endBacklog (t : Transport) : PollTurn now order t [] t.endBacklog
  | judge (t : Transport) (c : Class) (ref : PacketRef) :
      PollTurn now order t [] (t.givesUp now c (t.packets ref)).1
  | drop {t : Transport} {c : Class} {ref : PacketRef} (hc : c ≠ .bulk)
      (hpeek : (t.small.get c).peek = some ref) (expired : Bool) :
      PollTurn now order t [] ((t.popSmall c).dropSmall c expired)
  | original {t : Transport} {c : Class} {ref : PacketRef} {path : Lane}
      (hc : c ≠ .bulk) (hpeek : (t.small.get c).peek = some ref)
      (hlate : ¬now > (t.packets ref).queueDeadline)
      (hpath : t.chooseLane now c (t.packets ref).wireBytes 0 false =
        some path) :
      PollTurn now order t
        [⟨t, .original ref, ((t.popSmall c).transmit now ref path).2⟩]
        ((t.popSmall c).transmit now ref path).1
  | copy {t : Transport} {ref : PacketRef} (href : ref ∈ t.pendingOrder)
      (hacked : (t.packets ref).acked = false) (c : Class) (first : PathID) :
      PollTurn now order t (Choice.all t (.copy ref)
        (t.sendCopy now c ref (t.packets ref).wireBytes first).2)
        (t.sendCopy now c ref (t.packets ref).wireBytes first).1
  | bulk {t : Transport} {ref : PacketRef} {rest : List PacketRef}
      (hqueue : t.queue = ref :: rest) :
      PollTurn now order t
        (Choice.all t (.original ref) (t.sendBulkTurn now ref rest).2.1)
        (t.sendBulkTurn now ref rest).1

variable {choices : List Choice}

/-- Every turn is a trace in the books. -/
theorem PollTurn.follows {order : MapOrder} {t t' : Transport}
    (h : PollTurn now order t choices t') :
    Follows now t (t', choices.map Choice.sent) := by
  cases h with
  | refill => exact .idle rfl
  | acknowledge lane =>
    rw [Choice.sent_all]
    exact follows_acknowledge now t lane
  | service id =>
    rw [Choice.sent_all]
    exact follows_service now t order id
  | reserve => exact follows_reserve now t
  | repair =>
    rw [Transport.sent_repairChoices]
    exact follows_repair now t
  | endBacklog =>
    refine .idle ?_
    unfold Transport.endBacklog
    split <;> rfl
  | judge c ref => exact .idle (t.givesUp_facts now c (t.packets ref)).1
  | drop hc hpeek expired => exact .move (.dropSmall expired hc hpeek) rfl
  | original hc hpeek hlate hpath =>
    exact follows_originalSmall hc hpeek hlate hpath
  | copy href hacked c first =>
    rw [Choice.sent_all]
    exact fun ht => follows_sendCopy ht href hacked c first ht
  | bulk hqueue =>
    rw [Choice.sent_all]
    exact follows_sendBulkTurn now hqueue

/-- What leads from `t` to the result `r` is a sequence of turns. -/
def Turns (now : Time) (order : MapOrder) (t : Transport)
    (r : Transport × List Transmission) : Prop :=
  t.books.Kept → ∃ choices, Trace (PollTurn now order) t choices r.1 ∧
    choices.map Choice.sent = r.2

namespace Turns

variable {order : MapOrder} {t t' : Transport}
  {r : Transport × List Transmission}

theorem follows_trace (h : Trace (PollTurn now order) t choices t') :
    Follows now t (t', choices.map Choice.sent) := by
  induction h with
  | refl t => exact .refl t
  | cons hturn _ ih =>
    rw [List.map_append]
    exact hturn.follows.trans ih

theorem follows (h : Turns now order t r) : Follows now t r := by
  intro ht
  obtain ⟨choices, htrace, hsent⟩ := h ht
  have hfollows := follows_trace htrace ht
  rwa [hsent] at hfollows

theorem refl (t : Transport) : Turns now order t (t, []) :=
  fun _ => ⟨[], .refl t, rfl⟩

theorem turn {out : List Transmission} (h : PollTurn now order t choices t')
    (hsent : choices.map Choice.sent = out) : Turns now order t (t', out) :=
  fun _ => ⟨choices, .single h, hsent⟩

theorem trans {out : List Transmission} (h : Turns now order t r)
    (h' : Turns now order r.1 (t', out)) : Turns now order t (t', r.2 ++ out) := by
  intro ht
  obtain ⟨choices, htrace, hsent⟩ := h ht
  obtain ⟨choices', htrace', hsent'⟩ := h' (h.follows.kept ht)
  refine ⟨choices ++ choices', htrace.trans htrace', ?_⟩
  rw [List.map_append, hsent, hsent']

theorem forEach {κ : Type}
    {turn : Transport → κ → Transport × List Transmission}
    (hturn : ∀ t key, Turns now order t (turn t key)) (keys : List κ) :
    ∀ t, Turns now order t (Transport.forEach turn keys t) := by
  induction keys with
  | nil => exact fun t => refl t
  | cons key _ ih => exact fun t => (hturn t key).trans (ih _)

end Turns

/-! ## Loops -/

section Loops

variable (order : MapOrder)

theorem turns_acknowledge (t : Transport) (lane : PathID) :
    Turns now order t (t.acknowledge now lane) :=
  .turn (.acknowledge t lane) (Choice.sent_all _ _ _)

theorem turns_service (t : Transport) (id : PathID) :
    Turns now order t (t.service now order id) :=
  .turn (.service t id) (Choice.sent_all _ _ _)

/-- One turn of the loop over a small class: the datagram is judged, and then
dropped, kept for later, or sent with its copy. -/
theorem turns_sendSmallTurn (now : Time) (hc : c ≠ .bulk)
    (hpeek : (t.small.get c).peek = some ref) :
    Turns now order t
      ((t.sendSmallTurn now c ref).1, (t.sendSmallTurn now c ref).2.1) := by
  obtain ⟨hbooks, hlate⟩ := t.givesUp_facts now c (t.packets ref)
  have hjudge : Turns now order t ((t.givesUp now c (t.packets ref)).1, []) :=
    .turn (.judge t c ref) rfl
  dsimp only [Transport.sendSmallTurn]
  generalize (t.givesUp now c (t.packets ref)).1 = u at hbooks hjudge ⊢
  have hsmall : u.small = t.small := congrArg (fun b : Books => b.small) hbooks
  have hout : u.toOutbound = t.toOutbound :=
    congrArg Books.toOutbound hbooks
  have hpeek' : (u.small.get c).peek = some ref := by
    rwa [hsmall]
  split
  · exact hjudge.trans (.turn (.drop hc hpeek' _) rfl)
  next hkeep =>
    have hlate' : ¬now > (u.packets ref).queueDeadline := by
      rw [hout]
      exact hlate (by simpa using hkeep)
    split
    · exact hjudge
    next path hpath =>
      refine hjudge.trans fun hukept => ?_
      obtain ⟨stamped, h⟩ := hukept
      have hwait : WaitsAs (u.packets ref) c :=
        h.queues.small c hc ref (Stock.mem_refs_of_peek hpeek')
      have hpath' : u.chooseLane now c (u.packets ref).wireBytes 0 false =
          some path := by
        rwa [hout]
      have horiginal : Turns now order u _ :=
        .turn (.original hc hpeek' hlate' hpath') rfl
      -- the copy, in the state that the original leaves
      have hafter : ((u.popSmall c).transmit now ref path).1.books =
          ((u.popSmall c).books.stamp now ref).send now ref path.id
            path.toLaneCore :=
        @Transport.books_transmit_first (u.popSmall c) path path
          (Transport.find_chooseLane h.ids hpath) now ref hwait.seq
      obtain ⟨hmem, hacked, hbytes⟩ :=
        (u.popSmall c).books.first_facts now ref path.id path.toLaneCore
      rw [← hafter] at hmem hacked hbytes
      have hcopy : Turns now order ((u.popSmall c).transmit now ref path).1 _ :=
        .turn (.copy hmem (hacked.trans hwait.acked) c path.id)
          (Choice.sent_all _ _ _)
      have hsize : (((u.popSmall c).transmit now ref path).1.packets
          ref).wireBytes = (t.packets ref).wireBytes := by
        refine hbytes.trans ?_
        show (u.packets ref).wireBytes = _
        rw [hout]
      rw [hsize] at hcopy
      exact (horiginal.trans hcopy) ⟨stamped, h⟩

theorem turns_sendSmall (now : Time) (hc : c ≠ .bulk) (fuel : ℕ) :
    ∀ t : Transport, Turns now order t (Transport.sendSmall now c fuel t) := by
  induction fuel with
  | zero => exact fun t => .refl t
  | succ _ ih =>
    intro t
    unfold Transport.sendSmall
    split
    · exact .refl t
    next ref hpeek =>
      have hturn := turns_sendSmallTurn order now hc hpeek
      dsimp only
      split
      · exact hturn.trans (ih _)
      · exact hturn

theorem turns_sendBulk (now : Time) (queue : List PacketRef) :
    ∀ t : Transport, t.queue = queue →
      Turns now order t (Transport.sendBulk now queue t) := by
  induction queue with
  | nil => exact fun t _ => .refl t
  | cons ref rest ih =>
    intro t hqueue
    have hturn : Turns now order t ((t.sendBulkTurn now ref rest).1,
        (t.sendBulkTurn now ref rest).2.1) :=
      .turn (.bulk hqueue) (Choice.sent_all _ _ _)
    have hrest := Transport.queue_sendBulkTurn hqueue now
    dsimp only [Transport.sendBulk]
    split
    next hmore => exact hturn.trans (ih _ (hrest hmore))
    next => exact hturn

theorem turns_send (now : Time) (t : Transport) :
    Turns now order t (t.send now) := by
  have hbacklog : Turns now order t (t.endBacklog, []) :=
    .turn (.endBacklog t) rfl
  dsimp only [Transport.send]
  set u := t.endBacklog
  have hrealtime : Turns now order u _ :=
    turns_sendSmall order now (c := .realtime) (by decide)
      u.small.realtime.refs.length u
  set r := Transport.sendSmall now .realtime u.small.realtime.refs.length u
  have hsmall : Turns now order r.1 _ :=
    turns_sendSmall order now (c := .small) (by decide)
      r.1.small.small.refs.length r.1
  set s := Transport.sendSmall now .small r.1.small.small.refs.length r.1
  have hbulk : Turns now order s.1 _ :=
    turns_sendBulk order now s.1.queue s.1 rfl
  exact hbacklog.trans ((hrealtime.trans hsmall).trans hbulk)

/-- The stages of `Poll` before the repairs. -/
theorem exists_before_repair (now : Time) (t : Transport) :
    ∃ u out, Turns now order t (u, out) ∧
      t.maintain now order = ((u.repair now).1, out ++ (u.repair now).2) := by
  have hrefill : Turns now order t (t.refillTokens now, []) :=
    .turn (.refill t) rfl
  set u := t.refillTokens now
  have hacks : Turns now order u _ := Turns.forEach (turns_acknowledge order)
    (u.receivers.map Receiver.remoteLane) u
  set r := Transport.forEach (fun t lane => t.acknowledge now lane)
    (u.receivers.map Receiver.remoteLane) u
  have hpings : Turns now order r.1 _ :=
    Turns.forEach (turns_service order) (r.1.paths.map fun p => p.id) r.1
  set s := Transport.forEach (fun t id => t.service now order id)
    (r.1.paths.map fun p => p.id) r.1
  have hreserve : Turns now order s.1 (s.1.reserve now, []) :=
    .turn (.reserve s.1) rfl
  have hbefore := (hrefill.trans (hacks.trans hpings)).trans hreserve
  refine ⟨s.1.reserve now, r.2 ++ s.2, ?_, rfl⟩
  simpa using hbefore

theorem turns_maintain (now : Time) (t : Transport) :
    Turns now order t (t.maintain now order) := by
  obtain ⟨u, out, hbefore, heq⟩ := exists_before_repair order now t
  have hrepair : Turns now order u (u.repair now) :=
    .turn (.repair u) (Transport.sent_repairChoices now _ u)
  rw [heq]
  exact hbefore.trans hrepair

theorem turns_pollAt (now : Time) (t : Transport) :
    Turns now order t (t.pollAt now order) := by
  have hmaintain := turns_maintain order now t
  have hsend := turns_send order now (t.maintain now order).1
  rw [Transport.pollAt_eq]
  generalize t.maintain now order = r at hmaintain hsend ⊢
  generalize r.1.send now = q at hsend ⊢
  exact hmaintain.trans hsend

end Loops

end Wanbond.Bond
