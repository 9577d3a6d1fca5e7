import Wanbond.Bond.History

/-!
# Transports over an adversarial network

A node is a transport together with its history with every peer.  The history
is not part of the program: it records what the calls returned, the packets
they stamped, and which frames were new on their lane.

A world has one node for each epoch.  Any frame that a node has sent can reach
any node, on any path and at any time, any number of times or never: this is
loss, duplication, delay and reordering of authenticated frames.  No node
enters a remote epoch that it has entered before.
-/

namespace Wanbond.Bond

open Wanbond.Support

/-! ## Nodes -/

/-- The history of the epoch `own` with one peer, from the moment the peer's
epoch was set.  `base` holds the bytes each lane had sent by then. -/
@[ext]
structure Stint where
  own : Epoch
  peer : Epoch
  log : List Entry
  stamps : List Stamp
  base : PathID → ℕ

def Stint.empty (own peer : Epoch) : Stint := ⟨own, peer, [], [], fun _ => 0⟩

/-- The history that begins when `t` enters the remote epoch `peer`. -/
def Stint.begin (t : Transport) (peer : Epoch) : Stint :=
  ⟨t.epoch, peer, [], [], fun id => ((t.find id).map fun p => p.sent).getD 0⟩

/-- The history after one more entry. -/
def Stint.push (s : Stint) (e : Entry) : Stint := { s with log := e :: s.log }

/-- The history after a list of frames was sent. -/
def Stint.send (s : Stint) (out : List Transmission) : Stint :=
  out.foldl (fun s sent => s.push (.sent sent.path sent.frame)) s

/-- The history after packets were stamped and frames sent. -/
def Stint.extend (s : Stint) (new : List Stamp) (out : List Transmission) :
    Stint :=
  { s with stamps := new ++ s.stamps }.send out

structure Node where
  transport : Transport
  history : Epoch → Stint
  visited : List Epoch
  datagrams : List (Bytes × PacketMetadata)

inductive Call where
  | enqueue (payload : Bytes) (metadata : PacketMetadata) (now : Time)
  | poll (now : Time) (order : MapOrder)
  | receive (path : PathID) (frame : Control) (now : Time) (order : MapOrder)
  | path (id remoteID : PathID) (rtt : Duration) (now : Time)
  | disable (id : PathID)
  | setRemote (epoch : Epoch) (adopted : Bool)

/-! ## Runs of a transport -/

namespace Transport

/-- The state after one call, whatever it returns. -/
def apply (t : Transport) : Call → Transport
  | .enqueue payload metadata now => (t.enqueue payload metadata now).1
  | .poll now order => (t.poll now order).1
  | .receive path frame now order => (t.receive path frame now order).1
  | .path id remoteID rtt now => (t.path id remoteID rtt now).1
  | .disable id => t.disable id
  | .setRemote epoch adopted => (t.setRemote epoch adopted).1

/-- The state after a sequence of calls. -/
def run (epoch : Epoch) (calls : List Call) : Transport :=
  calls.foldl apply (new epoch)

theorem run_induction {P : Transport → Prop} (epoch : Epoch)
    (hnew : P (new epoch)) (hcall : ∀ t call, P t → P (t.apply call))
    (calls : List Call) : P (run epoch calls) :=
  List.foldlRecOn calls _ hnew fun t h call _ => hcall t call h

end Transport

/-- Two lanes to a known peer come up, and three datagrams are queued. -/
def offered : List Call :=
  let metadata : PacketMetadata := ⟨FlowID.zero, ⟨false, 0, 0, 0, 0, false, 0, 0⟩⟩
  [.setRemote ⟨2, 1⟩ true, .path 1 1 (10 * millisecond) second,
    .path 2 2 (30 * millisecond) second,
    .enqueue (List.replicate 900 7) metadata second,
    .enqueue (List.replicate 900 8) metadata second, .enqueue [1] metadata second]

/-! ## What a call adds to a history -/

/-- The stamp of a packet that has been transmitted. -/
def stampOf (heap : PacketHeap) (ref : PacketRef) : Stamp :=
  ⟨ref, (heap ref).seq, (heap ref).order, (heap ref).payload⟩

/-- The packets stamped between two states, the newest first. -/
def newStamps (t t' : Transport) : List Stamp :=
  ((t'.pendingOrder.filter fun ref =>
    decide (t.seq < (t'.packets ref).seq)).map (stampOf t'.packets)).reverse

/-- The bytes counted on a lane of the peer. -/
def receivedBytes (t : Transport) (lane : PathID) : ℕ :=
  ((t.receiver lane).map Receiver.bytes).getD 0

/-- The frame was new on its lane. -/
def isCounted (t t' : Transport) (f : Control) : Bool :=
  match f.body with
  | .data h _ => decide (receivedBytes t h.lane < receivedBytes t' h.lane)
  | _ => false

namespace Node

def new (epoch : Epoch) : Node :=
  ⟨Transport.new epoch, Stint.empty epoch, [], []⟩

/-- The history with the present peer. -/
def current (n : Node) : Stint := n.history n.transport.remote

/-- Replace the transport and the history with the present peer. -/
def record (n : Node) (t : Transport) (s : Stint) : Node :=
  { n with
    transport := t
    history := Function.update n.history n.transport.remote s }

def step (n : Node) : Call → Node
  | .enqueue payload metadata now =>
    let t := (n.transport.enqueue payload metadata now).1
    { n with
      transport := t
      datagrams := if n.transport.allocated < t.allocated then
        n.datagrams ++ [(payload, metadata)] else n.datagrams }
  | .poll now order =>
    match n.transport.poll now order with
    | (t, .error _) => { n with transport := t }
    | (t, .ok out) =>
      n.record t (n.current.extend (newStamps n.transport t) out)
  | .receive path frame now order =>
    let (t, result) := n.transport.receive path frame now order
    n.record t (n.current.push
      (.received path frame (isCounted n.transport t frame) result))
  | .path id remoteID rtt now =>
    { n with transport := (n.transport.path id remoteID rtt now).1 }
  | .disable id => { n with transport := n.transport.disable id }
  | .setRemote epoch adopted =>
    if n.transport.acceptsRemote epoch adopted ∧ epoch ∉ n.visited then
      { n with
        transport := (n.transport.setRemote epoch adopted).1
        history := Function.update n.history epoch
          (Stint.begin n.transport epoch)
        visited := epoch :: n.visited }
    else n

end Node

/-! ## Worlds -/

abbrev World := Epoch → Node

def World.init : World := Node.new

/-- What happens next: a node's owner makes a call, or a frame arrives.  The
frame is named by its sender, the peer it was sent to, and its position in that
history. -/
inductive Event where
  | call (node : Epoch) (call : Call)
  | deliver (node : Epoch) (path : PathID) (sender peer : Epoch)
      (position : ℕ) (now : Time) (order : MapOrder)

/-- The frames sent in a history. -/
def sentFrames (log : List Entry) : List Control :=
  log.filterMap fun
    | .sent _ f => some f
    | .received .. => none

namespace World

def update (w : World) (epoch : Epoch) (call : Call) : World :=
  Function.update w epoch ((w epoch).step call)

/-- A frame reaches a node by `deliver` only. -/
def step (w : World) : Event → World
  | .call _ (.receive ..) => w
  | .call node call => w.update node call
  | .deliver node path sender peer position now order =>
    match (sentFrames ((w sender).history peer).log)[position]? with
    | none => w
    | some f => w.update node (.receive path f now order)

/-- The world after a run. -/
def run (events : List Event) : World := events.foldl step init

end World

end Wanbond.Bond
