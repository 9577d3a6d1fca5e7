import Wanbond.Bond.FlowRing
import Wanbond.Support.RoundRobin

/-!
# Runs of the queue of flows

Sequences of `push` and `pop` on the linked ring.  The list of flows that the
ring represents rotates with every packet that leaves, so that flows have their
turns in order, and packets of one flow leave in the order in which they came.
-/

namespace Wanbond.Bond

open Wanbond.Support

/-- A call on a queue. -/
inductive QueueOp where
  | push (ref : PacketRef)
  | pop

namespace LinkedQueue

/-- One call; a `pop` needs a packet. -/
def step (heap : PacketHeap) (q : LinkedQueue) : QueueOp → Option LinkedQueue
  | .push ref => some (q.push heap ref).2
  | .pop => q.pop

def runFrom (heap : PacketHeap) (q : LinkedQueue) (ops : List QueueOp) :
    Option LinkedQueue :=
  ops.foldlM (step heap) q

def run (heap : PacketHeap) (ops : List QueueOp) : Option LinkedQueue :=
  runFrom heap empty ops

/-- The flow that a call serves. -/
def turn (q : LinkedQueue) : QueueOp → Option FlowID
  | .push _ => none
  | .pop => q.headFlow

/-- The packet that leaves in a call. -/
def leaving (q : LinkedQueue) : QueueOp → List PacketRef
  | .push _ => []
  | .pop => q.peek.toList

/-- The flows that the calls serve. -/
def turns (heap : PacketHeap) : LinkedQueue → List QueueOp → List (Option FlowID)
  | _, [] => []
  | q, op :: ops => q.turn op :: match q.step heap op with
      | none => []
      | some q' => turns heap q' ops

/-- The packets that leave, in order. -/
def departures (heap : PacketHeap) :
    LinkedQueue → List QueueOp → List PacketRef
  | _, [] => []
  | q, op :: ops => q.leaving op ++ match q.step heap op with
      | none => []
      | some q' => departures heap q' ops

end LinkedQueue

/-- The packets of a flow in the order in which they are queued. -/
def arrivals (heap : PacketHeap) (f : FlowID) : List QueueOp → List PacketRef
  | [] => []
  | .push ref :: ops =>
    if (heap ref).flow = f then ref :: arrivals heap f ops
    else arrivals heap f ops
  | .pop :: ops => arrivals heap f ops

/-! ## The rotating list -/

namespace FairPacketQueue

variable {heap : PacketHeap} {a : FairPacketQueue} {ref : PacketRef}

def step (heap : PacketHeap) (a : FairPacketQueue) :
    QueueOp → Option FairPacketQueue
  | .push ref => some (a.push heap ref).2
  | .pop => if a.flows.isEmpty then none else some a.pop

def run (heap : PacketHeap) (ops : List QueueOp) : Option FairPacketQueue :=
  ops.foldlM (step heap) empty

def ids (a : FairPacketQueue) : List FlowID := a.flows.map PacketFlow.id

/-- Every flow is listed once and has a packet, and all packets are counted. -/
structure Fair (a : FairPacketQueue) : Prop where
  ids : a.ids.Nodup
  nonempty : ∀ f ∈ a.flows, f.packets ≠ []
  count : a.count = (a.flows.map fun f => f.packets.length).sum

theorem ids_setFlow (id : FlowID) (packets : List PacketRef)
    (flows : List PacketFlow) :
    (setFlow id packets flows).map PacketFlow.id = flows.map PacketFlow.id := by
  induction flows with
  | nil => rfl
  | cons _ _ ih =>
    unfold setFlow
    split
    · rfl
    · rw [List.map_cons, List.map_cons, ih]

variable {id : FlowID} {flows : List PacketFlow}

theorem flowPackets_cons (g : PacketFlow) (flows : List PacketFlow) (count : ℕ)
    (f : FlowID) :
    flowPackets ⟨g :: flows, count⟩ f =
      if g.id = f then g.packets else flowPackets ⟨flows, count⟩ f := by
  dsimp only [flowPackets]
  rw [List.find?_cons]
  by_cases hg : g.id = f
  · simp [hg]
  · simp [hg]

theorem flowPackets_setFlow (hid : id ∈ flows.map PacketFlow.id)
    (packets : List PacketRef) (count : ℕ) (f : FlowID) :
    flowPackets ⟨setFlow id packets flows, count⟩ f =
      if f = id then packets else flowPackets ⟨flows, count⟩ f := by
  induction flows with
  | nil => cases hid
  | cons g flows ih =>
    unfold setFlow
    by_cases hg : g.id = id
    · rw [if_pos hg, flowPackets_cons, flowPackets_cons, hg]
      by_cases hf : f = id
      · rw [if_pos hf, if_pos hf.symm]
      · rw [if_neg hf, if_neg (Ne.symm hf), if_neg (Ne.symm hf)]
    rw [if_neg hg, flowPackets_cons, flowPackets_cons,
      ih (List.mem_of_ne_of_mem (Ne.symm hg) hid)]
    by_cases hf : g.id = f
    · rw [if_pos hf, if_pos hf, if_neg fun h => hg (hf.trans h)]
    · rw [if_neg hf, if_neg hf]

theorem flowPackets_of_notMem {count : ℕ} {f : FlowID}
    (h : f ∉ flows.map PacketFlow.id) : flowPackets ⟨flows, count⟩ f = [] := by
  induction flows with
  | nil => rfl
  | cons _ _ ih =>
    rw [List.map_cons, List.mem_cons, not_or] at h
    rw [flowPackets_cons, if_neg fun hg => h.1 hg.symm, ih h.2]

theorem flowPackets_append {g : PacketFlow} {count : ℕ}
    (hg : g.id ∉ flows.map PacketFlow.id) (f : FlowID) :
    flowPackets ⟨flows ++ [g], count⟩ f =
      if f = g.id then g.packets else flowPackets ⟨flows, count⟩ f := by
  induction flows with
  | nil =>
    rw [List.nil_append, flowPackets_cons]
    by_cases hf : g.id = f
    · rw [if_pos hf, if_pos hf.symm]
    · rw [if_neg hf, if_neg fun h => hf h.symm]
  | cons x _ ih =>
    rw [List.map_cons, List.mem_cons, not_or] at hg
    rw [List.cons_append, flowPackets_cons, flowPackets_cons, ih hg.2]
    by_cases hx : x.id = f
    · rw [if_pos hx, if_pos hx, if_neg fun h => hg.1 (h.symm.trans hx.symm)]
    · rw [if_neg hx, if_neg hx]

theorem Fair.flowPackets_ne_nil (h : a.Fair) {f : FlowID} (hf : f ∈ a.ids) :
    a.flowPackets f ≠ [] := by
  obtain ⟨flows, count⟩ := a
  have hnonempty := h.nonempty
  clear h
  induction flows with
  | nil => cases hf
  | cons g _ ih =>
    rw [flowPackets_cons]
    split
    · exact hnonempty g List.mem_cons_self
    next hg =>
      exact ih (List.mem_of_ne_of_mem (Ne.symm hg) hf)
        fun x hx => hnonempty x (List.mem_cons_of_mem _ hx)

theorem Fair.mem_ids_iff (h : a.Fair) {f : FlowID} :
    f ∈ a.ids ↔ a.flowPackets f ≠ [] := by
  refine ⟨h.flowPackets_ne_nil, fun hne => ?_⟩
  by_contra hf
  exact hne (flowPackets_of_notMem hf)

/-! ### `push` -/

/-- The list with the flow of the packet added, if it is new. -/
def withFlow (a : FairPacketQueue) (id : FlowID) : List PacketFlow :=
  if a.flows.any (fun flow => decide (flow.id = id)) then a.flows
  else a.flows ++ [⟨id, []⟩]

theorem any_iff (a : FairPacketQueue) (id : FlowID) :
    a.flows.any (fun flow => decide (flow.id = id)) = true ↔ id ∈ a.ids := by
  rw [List.any_eq_true, ids, List.mem_map]
  simp only [decide_eq_true_eq]

theorem ids_withFlow (a : FairPacketQueue) (id : FlowID) :
    (a.withFlow id).map PacketFlow.id =
      if id ∈ a.ids then a.ids else a.ids ++ [id] := by
  unfold withFlow
  by_cases hid : id ∈ a.ids
  · rw [if_pos ((any_iff a id).mpr hid), if_pos hid]
    rfl
  · rw [if_neg fun h => hid ((any_iff a id).mp h), if_neg hid, List.map_append]
    rfl

theorem mem_ids_withFlow (a : FairPacketQueue) (id : FlowID) :
    id ∈ (a.withFlow id).map PacketFlow.id := by
  rw [ids_withFlow]
  split
  next h => exact h
  next => exact List.mem_append_right _ List.mem_cons_self

theorem flowPackets_withFlow (a : FairPacketQueue) (id f : FlowID) (count : ℕ) :
    flowPackets ⟨a.withFlow id, count⟩ f = a.flowPackets f := by
  unfold withFlow
  split
  · rfl
  next h =>
    have hid : id ∉ a.flows.map PacketFlow.id :=
      fun hmem => h ((any_iff a id).mpr hmem)
    rw [flowPackets_append hid]
    split
    next hf =>
      rw [hf]
      exact (flowPackets_of_notMem hid).symm
    next => rfl

/-- What `push` makes of the packets of the flow. -/
def pushed (heap : PacketHeap) (ref : PacketRef) (packets : List PacketRef) :
    List PacketRef :=
  if coalesces heap (heap ref) packets then packets.dropLast ++ [ref]
  else packets ++ [ref]

theorem push_flows (heap : PacketHeap) (a : FairPacketQueue) (ref : PacketRef) :
    (a.push heap ref).2.flows = setFlow (heap ref).flow
      (pushed heap ref (a.flowPackets (heap ref).flow))
      (a.withFlow (heap ref).flow) := by
  dsimp only [push, pushed, withFlow]
  split <;> rfl

theorem flowPackets_push (heap : PacketHeap) (a : FairPacketQueue)
    (ref : PacketRef) (f : FlowID) :
    (a.push heap ref).2.flowPackets f = if f = (heap ref).flow then
      pushed heap ref (a.flowPackets f) else a.flowPackets f := by
  have hflows := push_flows heap a ref
  have hset := flowPackets_setFlow (mem_ids_withFlow a (heap ref).flow)
    (pushed heap ref (a.flowPackets (heap ref).flow)) (a.push heap ref).2.count f
  rw [← hflows, flowPackets_withFlow] at hset
  by_cases hf : f = (heap ref).flow
  · rw [if_pos hf] at hset ⊢
    rw [hf]
    exact (congrArg _ hf.symm).trans hset
  · rw [if_neg hf] at hset ⊢
    exact hset

theorem ids_push (heap : PacketHeap) (a : FairPacketQueue) (ref : PacketRef) :
    (a.push heap ref).2.ids = if (heap ref).flow ∈ a.ids then a.ids
      else a.ids ++ [(heap ref).flow] := by
  rw [← ids_withFlow, ids, push_flows, ids_setFlow]

theorem pushed_ne_nil (heap : PacketHeap) (ref : PacketRef)
    (packets : List PacketRef) : pushed heap ref packets ≠ [] := by
  unfold pushed
  split <;> simp

theorem ne_nil_of_coalesces {p : Packet} {packets : List PacketRef}
    (h : coalesces heap p packets = true) : packets ≠ [] := by
  rintro rfl
  cases h

theorem length_pushed (heap : PacketHeap) (ref : PacketRef)
    (packets : List PacketRef) :
    (pushed heap ref packets).length = packets.length +
      if coalesces heap (heap ref) packets then 0 else 1 := by
  unfold pushed
  split
  next h =>
    have hpos := List.length_pos_iff.mpr (ne_nil_of_coalesces h)
    rw [List.length_append, List.length_dropLast, List.length_singleton]
    omega
  next => rw [List.length_append, List.length_singleton]

theorem total_setFlow (count : ℕ) (hid : id ∈ flows.map PacketFlow.id)
    (packets : List PacketRef) :
    ((setFlow id packets flows).map fun f => f.packets.length).sum +
        (flowPackets ⟨flows, count⟩ id).length =
      (flows.map fun f => f.packets.length).sum + packets.length := by
  induction flows with
  | nil => cases hid
  | cons g flows ih =>
    unfold setFlow
    rw [flowPackets_cons]
    by_cases hg : g.id = id
    · rw [if_pos hg, if_pos hg]
      simp only [List.map_cons, List.sum_cons]
      omega
    have htail := ih (List.mem_of_ne_of_mem (Ne.symm hg) hid)
    rw [if_neg hg, if_neg hg]
    simp only [List.map_cons, List.sum_cons]
    omega

theorem packets_setFlow {packets : List PacketRef} {f : PacketFlow}
    (hids : (flows.map PacketFlow.id).Nodup) (hf : f ∈ setFlow id packets flows) :
    f.packets = packets ∨ f ∈ flows ∧ f.id ≠ id := by
  induction flows with
  | nil => cases hf
  | cons _ _ ih =>
    obtain ⟨hg, hrest⟩ := List.nodup_cons.mp hids
    unfold setFlow at hf
    split at hf
    next hid =>
      rcases List.mem_cons.mp hf with rfl | hf
      · exact Or.inl rfl
      · refine Or.inr ⟨List.mem_cons_of_mem _ hf, fun h => hg ?_⟩
        rw [hid, ← h]
        exact List.mem_map_of_mem hf
    next hid =>
      rcases List.mem_cons.mp hf with rfl | hf
      · exact Or.inr ⟨List.mem_cons_self, hid⟩
      · rcases ih hrest hf with h | ⟨hmem, h⟩
        · exact Or.inl h
        · exact Or.inr ⟨List.mem_cons_of_mem _ hmem, h⟩

theorem Fair.push (h : a.Fair) (heap : PacketHeap) (ref : PacketRef) :
    (a.push heap ref).2.Fair := by
  have hids : (a.push heap ref).2.ids.Nodup := by
    rw [ids_push]
    split
    · exact h.ids
    next hnew =>
      exact List.nodup_append.mpr ⟨h.ids, List.nodup_singleton _,
        fun x hx y hy hxy => hnew (List.mem_singleton.mp hy ▸ hxy ▸ hx)⟩
  have hadmit : ((a.withFlow (heap ref).flow).map PacketFlow.id).Nodup := by
    rwa [FairPacketQueue.ids, push_flows, ids_setFlow] at hids
  refine ⟨hids, fun f hf => ?_, ?_⟩
  · rw [push_flows] at hf
    rcases packets_setFlow hadmit hf with hpackets | ⟨hmem, hne⟩
    · rw [hpackets]
      exact pushed_ne_nil heap ref _
    unfold withFlow at hmem
    split at hmem
    · exact h.nonempty f hmem
    rcases List.mem_append.mp hmem with hmem | hmem
    · exact h.nonempty f hmem
    · rw [List.mem_singleton.mp hmem] at hne
      exact absurd rfl hne
  have htotal := total_setFlow a.count
    (mem_ids_withFlow a (heap ref).flow)
    (pushed heap ref (a.flowPackets (heap ref).flow))
  have hadmitted : ((a.withFlow (heap ref).flow).map fun f =>
      f.packets.length).sum = a.count := by
    rw [h.count]
    unfold withFlow
    split
    · rfl
    · simp
  rw [flowPackets_withFlow, hadmitted, length_pushed, ← push_flows] at htotal
  have hcount : (a.push heap ref).2.count = a.count +
      if coalesces heap (heap ref) (a.flowPackets (heap ref).flow) then 0
      else 1 := by
    dsimp only [FairPacketQueue.push]
    split <;> rfl
  omega

/-! ### `pop` -/

section Pop

variable {g : PacketFlow} {rest : List PacketFlow} {count : ℕ}

theorem flowPackets_pop (hids : ((g :: rest).map PacketFlow.id).Nodup)
    (f : FlowID) :
    (pop ⟨g :: rest, count⟩).flowPackets f =
      if f = g.id then g.packets.tail else flowPackets ⟨rest, count⟩ f := by
  have hg : g.id ∉ rest.map PacketFlow.id := (List.nodup_cons.mp hids).1
  dsimp only [pop]
  split
  next hempty =>
    split
    next hf =>
      rw [hf, List.isEmpty_iff.mp hempty]
      exact flowPackets_of_notMem hg
    next => rfl
  next => exact flowPackets_append (g := { g with packets := g.packets.tail }) hg f

theorem Fair.pop (h : Fair ⟨g :: rest, count⟩) :
    (FairPacketQueue.pop ⟨g :: rest, count⟩).Fair := by
  have hids := h.ids
  obtain ⟨hg, hrest⟩ := List.nodup_cons.mp hids
  have hnonempty := h.nonempty g List.mem_cons_self
  have hpos := List.length_pos_iff.mpr hnonempty
  have hcount : count = g.packets.length +
      (rest.map fun f => f.packets.length).sum := h.count
  dsimp only [FairPacketQueue.pop]
  split
  next hempty =>
    have hone : g.packets.tail.length = 0 := by
      rw [List.isEmpty_iff.mp hempty]
      rfl
    rw [List.length_tail] at hone
    refine ⟨hrest, fun f hf => h.nonempty f (List.mem_cons_of_mem _ hf), ?_⟩
    show count - 1 = (rest.map fun f => f.packets.length).sum
    omega
  next hmore =>
    refine ⟨?_, fun f hf => ?_, ?_⟩
    · show ((rest ++ [_]).map PacketFlow.id).Nodup
      rw [List.map_append]
      exact List.nodup_append.mpr ⟨hrest, List.nodup_singleton _,
        fun x hx y hy hxy => hg (List.mem_singleton.mp hy ▸ hxy ▸ hx)⟩
    · rcases List.mem_append.mp hf with hf | hf
      · exact h.nonempty f (List.mem_cons_of_mem _ hf)
      · rw [List.mem_singleton.mp hf]
        exact fun hnil => hmore (List.isEmpty_iff.mpr hnil)
    show count - 1 = ((rest ++ [{ g with packets := g.packets.tail }]).map
      fun f : PacketFlow => f.packets.length).sum
    rw [List.map_append, List.sum_append, List.map_singleton, List.sum_singleton,
      List.length_tail]
    omega

end Pop

/-! ### Runs of the list -/

/-- The flow that a call serves. -/
def turn (a : FairPacketQueue) : QueueOp → Option FlowID
  | .push _ => none
  | .pop => a.ids.head?

theorem Fair.move (h : a.Fair) {op : QueueOp} {a' : FairPacketQueue}
    (hstep : a.step heap op = some a') :
    RoundRobin.Move a.ids (a.turn op) a'.ids ∧ a'.Fair := by
  cases op with
  | push ref =>
    obtain rfl := Option.some.inj hstep
    refine ⟨?_, h.push heap ref⟩
    rw [ids_push]
    split
    · exact .wait _
    next hnew => exact .arrive _ hnew
  | pop =>
    obtain ⟨flows, count⟩ := a
    cases flows with
    | nil => cases hstep
    | cons g rest =>
      obtain rfl := Option.some.inj hstep
      refine ⟨?_, h.pop⟩
      dsimp only [FairPacketQueue.pop, FairPacketQueue.ids]
      split
      · exact .leave _ _
      · rw [List.map_append]
        exact .serve _ _

theorem fair_empty : empty.Fair := ⟨List.nodup_nil, nofun, rfl⟩

end FairPacketQueue

/-! ## Runs of the ring -/

namespace LinkedQueue

variable {heap : PacketHeap} {q q' : LinkedQueue} {ring : List FlowRef}
  {a : FairPacketQueue}

theorem represents_empty : empty.Represents [] FairPacketQueue.empty := by
  refine ⟨Links.Circle.nil _, rfl, rfl, fun id flow => ⟨?_, ?_⟩, rfl, nofun⟩
  · exact fun h => nomatch h
  · exact fun h => absurd h.1 List.not_mem_nil

/-- A call on the ring is the call on the list, and serves the same flow. -/
theorem Represents.step (h : q.Represents ring a) (op : QueueOp)
    (hstep : q.step heap op = some q') :
    ∃ ring' a', a.step heap op = some a' ∧ q'.Represents ring' a' ∧
      q.turn op = a.turn op := by
  cases op with
  | push ref =>
    obtain rfl := Option.some.inj hstep
    obtain ⟨ring', hrepresents, -⟩ := h.push heap ref
    exact ⟨ring', _, rfl, hrepresents, rfl⟩
  | pop =>
    cases ring with
    | nil =>
      have hhead : q.head = none := h.head
      change q.pop = some q' at hstep
      unfold LinkedQueue.pop at hstep
      rw [hhead] at hstep
      cases hstep
    | cons flow =>
      obtain ⟨q'', ring', hpop, hrepresents⟩ := h.pop
      obtain rfl := Option.some.inj (hpop.symm.trans hstep)
      have hhead : q.head = some flow := h.head
      refine ⟨ring', a.pop, ?_, hrepresents, ?_⟩
      · show (if a.flows.isEmpty then none else some a.pop) = some a.pop
        rw [h.flows]
        rfl
      show q.headFlow = a.ids.head?
      unfold headFlow FairPacketQueue.ids
      rw [hhead, h.flows]
      rfl

theorem runFrom_cons (heap : PacketHeap) (q : LinkedQueue) (op : QueueOp)
    (ops : List QueueOp) :
    runFrom heap q (op :: ops) =
      (q.step heap op).bind fun q' => runFrom heap q' ops :=
  List.foldlM_cons ..

/-- A run of the ring is a run of the list. -/
theorem Represents.run (ops : List QueueOp) :
    ∀ {q : LinkedQueue} {ring : List FlowRef} {a : FairPacketQueue},
      q.Represents ring a → a.Fair → runFrom heap q ops = some q' →
      ∃ ring' a', ops.foldlM (FairPacketQueue.step heap) a = some a' ∧
        q'.Represents ring' a' ∧ a'.Fair := by
  induction ops with
  | nil =>
    intro q ring a h hfair hrun
    obtain rfl := Option.some.inj hrun
    exact ⟨ring, a, rfl, h, hfair⟩
  | cons op ops ih =>
    intro q ring a h hfair hrun
    rw [runFrom_cons] at hrun
    obtain ⟨q₁, hstep, hrest⟩ := Option.bind_eq_some_iff.mp hrun
    obtain ⟨ring₁, a₁, hlist, h₁, -⟩ := h.step op hstep
    obtain ⟨ring', a', hlists, h', hfair'⟩ := ih h₁ (hfair.move hlist).2 hrest
    refine ⟨ring', a', ?_, h', hfair'⟩
    rwa [List.foldlM_cons, hlist]

/-- While both flows have packets, the list moves and both stay listed. -/
theorem Represents.moves {f g : FlowID} (ops : List QueueOp) :
    ∀ {q : LinkedQueue} {ring : List FlowRef} {a : FairPacketQueue},
      q.Represents ring a → a.Fair → runFrom heap q ops = some q' →
      (∀ ops₁ q₁, ops₁ <+: ops → runFrom heap q ops₁ = some q₁ →
        q₁.packetsOf f ≠ [] ∧ q₁.packetsOf g ≠ []) →
      ∃ l, RoundRobin.Moves (fun l => f ∈ l ∧ g ∈ l) a.ids (turns heap q ops) l ∧
        l.head? = q'.headFlow := by
  induction ops with
  | nil =>
    intro q ring a h hfair hrun hboth
    obtain rfl := Option.some.inj hrun
    obtain ⟨hf, hg⟩ := hboth [] q List.prefix_rfl rfl
    rw [← h.flowPackets] at hf hg
    refine ⟨_, .nil ⟨hfair.mem_ids_iff.mpr hf, hfair.mem_ids_iff.mpr hg⟩, ?_⟩
    unfold headFlow FairPacketQueue.ids
    rw [h.head, h.flows]
    cases ring <;> rfl
  | cons op ops ih =>
    intro q ring a h hfair hrun hboth
    obtain ⟨hf, hg⟩ := hboth [] q List.nil_prefix rfl
    rw [← h.flowPackets] at hf hg
    rw [runFrom_cons] at hrun
    obtain ⟨q₁, hstep, hrest⟩ := Option.bind_eq_some_iff.mp hrun
    obtain ⟨ring₁, a₁, hlist, h₁, hturn⟩ := h.step op hstep
    obtain ⟨hmove, hfair₁⟩ := hfair.move hlist
    obtain ⟨l, hmoves, hhead⟩ := ih h₁ hfair₁ hrest fun ops₁ q₂ hprefix hrun₁ =>
      hboth (op :: ops₁) q₂ (List.cons_prefix_cons.mpr ⟨rfl, hprefix⟩) (by
        rw [runFrom_cons, hstep]
        exact hrun₁)
    refine ⟨l, ?_, hhead⟩
    have hturns : turns heap q (op :: ops) = a.turn op :: turns heap q₁ ops := by
      rw [turns, hstep, hturn]
    rw [hturns]
    exact .cons ⟨hfair.mem_ids_iff.mpr hf, hfair.mem_ids_iff.mpr hg⟩ hmove hmoves

/-- Between two turns of a flow that keeps packets, every other flow that keeps
packets is served once. -/
def ServesInTurn (heap : PacketHeap) (q : LinkedQueue) : Prop :=
  ∀ f q₁ ops q₂, q.headFlow = some f → q.pop = some q₁ →
    runFrom heap q₁ ops = some q₂ → q₂.headFlow = some f →
    some f ∉ turns heap q₁ ops →
    (∀ ops' q', ops' <+: ops → runFrom heap q₁ ops' = some q' →
      q'.packetsOf f ≠ []) →
    ∀ g, g ≠ f → q.packetsOf g ≠ [] →
      (∀ ops' q', ops' <+: ops → runFrom heap q₁ ops' = some q' →
        q'.packetsOf g ≠ []) →
      (turns heap q₁ ops).count (some g) = 1

theorem Represents.servesInTurn (h : q.Represents ring a) (hfair : a.Fair) :
    q.ServesInTurn heap := by
  intro f q₁ ops q₂ hhead hpop hrun hend hnot hf g hgf hgq hg
  have hstep : q.step heap .pop = some q₁ := hpop
  obtain ⟨ring₁, a₁, hlist, h₁, -⟩ := h.step .pop hstep
  obtain ⟨hmove, hfair₁⟩ := hfair.move hlist
  obtain ⟨l, hmoves, hl⟩ := h₁.moves (f := f) (g := g) ops hfair₁ hrun
    fun ops' q' hprefix hrun' => ⟨hf ops' q' hprefix hrun', hg ops' q' hprefix hrun'⟩
  -- the flow goes to the end of the list, behind all others
  have hfirst : a.ids.head? = some f := by
    rw [← hhead]
    unfold headFlow FairPacketQueue.ids
    rw [h.head, h.flows]
    cases ring <;> rfl
  rw [← h.flowPackets] at hgq
  have hgids := hfair.mem_ids_iff.mpr hgq
  have hstart := hmoves.start
  have hahead : RoundRobin.Ahead g f a₁.ids := by
    change RoundRobin.Move a.ids a.ids.head? a₁.ids at hmove
    have hnodup := hfair.ids
    generalize a.ids = ids at hmove hfirst hgids hnodup
    generalize a₁.ids = ids₁ at hmove hstart
    cases ids with
    | nil => cases hfirst
    | cons x ids =>
      obtain rfl : x = f := Option.some.inj hfirst
      have hgrest : g ∈ ids := (List.mem_cons.mp hgids).resolve_left hgf
      cases hmove with
      | serve => exact .last hgrest
      | leave => exact absurd hstart.1 (List.nodup_cons.mp hnodup).1
  exact hmoves.count_eq_one hfair₁.ids hgf.symm hahead hnot (hl.trans hend)

end LinkedQueue

end Wanbond.Bond
