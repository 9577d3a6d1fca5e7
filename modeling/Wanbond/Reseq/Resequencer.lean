import Mathlib.Logic.Function.Basic
import Wanbond.Bond.Wire

/-!
# The resequencer

`Resequencer` buffers datagrams that arrive out of order, in a ring of `window`
cells, and releases them in order.  A missing sequence is waited for until its
hold has passed; a frame far outside the window moves the release point only
when others corroborate it.

A cell of the ring is empty or holds a frame; the source keeps the old sequence
in an empty cell, but reads it only where the cell is occupied.  The FIFO of
released items is kept from its read cursor on.  Each call takes the reading of
the clock.  `trail` is not part of the program: it records what becomes of each
sequence, the newest first, and no function reads it.  Nor does any function
read `panicked`, which is set where the source panics.
-/

namespace Wanbond.Reseq

open Wanbond.Bond (Time Duration Bytes millisecond)

def resyncFactor : ℕ := 4

def resyncCorroborate : ℕ := 3

def holdBoundFloor : Duration := 10 * millisecond

/-! ## State -/

/-- One released inner datagram, with the source of the frame that carried it. -/
structure Item (α : Type) where
  payload : Bytes
  src : α

/-- A buffered frame. -/
structure Slot (α : Type) where
  seq : ℕ
  src : α
  payload : Bytes
  observedAt : Time

def Slot.item {α : Type} (c : Slot α) : Item α := ⟨c.payload, c.src⟩

/-- What becomes of sequences: the release point is pinned anew and the frames
buffered are discarded, a frame is released, or a gap is skipped. -/
inductive Mark (α : Type) where
  | pin (base discarded : ℕ)
  | released (c : Slot α)
  | skipped (first count : ℕ)

/-- The timeout at the head of the line. -/
structure Hold where
  waiting : Bool
  deadline : Time
  armedAt : Time
  armedWindow : Duration

/-- The present run of frames far outside the window. -/
structure Guard where
  resyncSeqs : List ℕ
  resyncLo : ℕ
  resyncHi : ℕ

structure Counters where
  highWater : ℕ
  dropDup : ℕ
  dropLate : ℕ
  dropSuspect : ℕ
  skipped : ℕ
  releasedN : ℕ
  resyncs : ℕ
  rebaselines : ℕ
  holds : ℕ
  holdNanos : ℕ
  deadlineWakeups : ℕ
  gapFills : ℕ
  holdSlotVisits : ℕ

structure Resequencer (α : Type) extends Hold, Guard, Counters where
  window : ℕ
  window_pos : 0 < window
  timeout : Duration
  holdBound : Duration
  started : Bool
  next : ℕ
  ring : ℕ → Option (Slot α)
  buf : ℕ
  ready : List (Item α)
  held : List ℕ
  heldPos : ℕ
  panicked : Bool
  trail : List (Mark α)

namespace Resequencer

variable {α : Type}

/-- `New`.  The source panics unless the window is positive. -/
def new (window : ℕ) (window_pos : 0 < window) (timeout : Duration) :
    Resequencer α where
  waiting := false
  deadline := 0
  armedAt := 0
  armedWindow := 0
  resyncSeqs := []
  resyncLo := 0
  resyncHi := 0
  highWater := 0
  dropDup := 0
  dropLate := 0
  dropSuspect := 0
  skipped := 0
  releasedN := 0
  resyncs := 0
  rebaselines := 0
  holds := 0
  holdNanos := 0
  deadlineWakeups := 0
  gapFills := 0
  holdSlotVisits := 0
  window := window
  window_pos := window_pos
  timeout := timeout
  holdBound := 0
  started := false
  next := 0
  ring := fun _ => none
  buf := 0
  ready := []
  held := []
  heldPos := 0
  panicked := false
  trail := []

/-- `SetHoldBound`. -/
def setHoldBound (r : Resequencer α) (d : Duration) : Resequencer α :=
  let d := if d < holdBoundFloor then holdBoundFloor else d
  let d := if d > r.timeout then r.timeout else d
  { r with holdBound := d }

/-- `effectiveHoldLocked`. -/
def effectiveHold (r : Resequencer α) : Duration :=
  if r.holdBound = 0 then r.timeout else r.holdBound

/-! ## Cells -/

/-- The frame buffered under a sequence. -/
def frame (r : Resequencer α) (seq : ℕ) : Option (Slot α) :=
  (r.ring (seq % r.window)).filter fun c => decide (c.seq = seq)

/-- `release`: a buffered frame goes to the FIFO. -/
def release (r : Resequencer α) (c : Slot α) : Resequencer α :=
  { r with
    ready := r.ready ++ [c.item]
    ring := Function.update r.ring (c.seq % r.window) none
    buf := r.buf - 1
    releasedN := r.releasedN + 1
    trail := .released c :: r.trail }

/-- The release point moves up to `target` over sequences taken as lost. -/
def skipTo (r : Resequencer α) (target : ℕ) : Resequencer α :=
  { r with
    skipped := r.skipped + (target - r.next)
    trail := .skipped r.next (target - r.next) :: r.trail
    next := target }

/-- The loop of `drain`. -/
def drainLoop : ℕ → Resequencer α → Resequencer α
  | 0, r => r
  | fuel + 1, r =>
    match r.frame r.next with
    | none => r
    | some c => drainLoop fuel { r.release c with next := r.next + 1 }

/-- `drain` releases the run that starts at the release point.  Every turn
takes a frame from the buffer, so the frames in it bound the turns. -/
def drain (r : Resequencer α) : Resequencer α := drainLoop r.buf r

/-- The loop of `advanceTo`, over the next `n` sequences. -/
def walk : ℕ → Resequencer α → Resequencer α
  | 0, r => r
  | n + 1, r =>
    match r.frame r.next with
    | none => walk n (r.skipTo (r.next + 1))
    | some c => walk n { r.release c with next := r.next + 1 }

/-- `advanceTo`.  Beyond a window from the release point no frame is buffered,
and the rest of the gap is closed by arithmetic. -/
def advanceTo (r : Resequencer α) (target : ℕ) : Resequencer α :=
  let limit := if target > r.next + r.window then r.next + r.window else target
  let r := walk (limit - r.next) r
  if r.next < target then r.skipTo target else r

/-- `smallestBuffered` scans the ring for the lowest sequence at or above the
release point. -/
def smallestBuffered (r : Resequencer α) : Option ℕ :=
  (List.range r.window).foldl
    (fun best i =>
      match r.ring i with
      | none => best
      | some c =>
        if c.seq ≥ r.next ∧ best.all (fun b => decide (c.seq < b)) then
          some c.seq
        else best) none

/-! ## Holds -/

/-- `endHoldLocked`. -/
def endHold (r : Resequencer α) (now : Time) : Resequencer α :=
  if r.waiting then
    { r with
      holdNanos := r.holdNanos + (now - r.armedAt).toNat
      waiting := false
      armedWindow := 0 }
  else r

/-- The loop of `oldestBufferedObservation`, over what is left of the list of
held sequences. -/
def oldestLoop : List ℕ → Resequencer α → Resequencer α × Option Time
  | [], r => ({ r with held := [], heldPos := 0 }, none)
  | seq :: rest, r =>
    let r := { r with holdSlotVisits := r.holdSlotVisits + 1 }
    match (r.frame seq).filter fun _ => decide (seq ≥ r.next) with
    | some c =>
      (if r.heldPos > r.held.length / 2 then
        { r with held := r.held.drop r.heldPos, heldPos := 0 } else r,
        some c.observedAt)
    | none => oldestLoop rest { r with heldPos := r.heldPos + 1 }

/-- `oldestBufferedObservation`: when the earliest arrival still buffered was
observed. -/
def oldestBufferedObservation (r : Resequencer α) :
    Resequencer α × Option Time :=
  oldestLoop (r.held.drop r.heldPos) r

/-- `arm`. -/
def arm (r : Resequencer α) (now : Time) : Resequencer α :=
  if (r.frame r.next).isNone ∧ r.buf > 0 then
    if r.waiting then r
    else
      let hold := r.effectiveHold
      let (r, observedAt) := r.oldestBufferedObservation
      match observedAt with
      | none => { r with panicked := true }
      | some observedAt =>
        { r with
          waiting := true
          deadline := observedAt + hold
          armedAt := now
          armedWindow := hold
          holds := r.holds + 1 }
  else r.endHold now

/-- The loop of `expire`. -/
def expireLoop (now : Time) : ℕ → Resequencer α → Resequencer α
  | 0, r => r
  | fuel + 1, r =>
    if r.waiting then
      if now < r.deadline then r
      else
        let r := { r with deadlineWakeups := r.deadlineWakeups + 1 }
        match r.smallestBuffered with
        | none => r.endHold now
        | some minSeq =>
          let r := if r.next < minSeq then r.skipTo minSeq else r
          expireLoop now fuel ((r.drain.endHold now).arm now)
    else r

/-- `expire` skips the gaps whose hold has passed.  Every turn releases a frame,
so the frames buffered bound the turns. -/
def expire (r : Resequencer α) (now : Time) : Resequencer α :=
  expireLoop now r.buf r

/-! ## The discontinuity guard -/

def resyncReset (r : Resequencer α) : Resequencer α :=
  { r with resyncSeqs := [], resyncLo := 0, resyncHi := 0 }

/-- The buffered frames are discarded and the release point is pinned at
`base`. -/
def pinTo (r : Resequencer α) (base : ℕ) : Resequencer α :=
  { r with
    trail := .pin base r.buf :: r.trail
    ring := fun _ => none
    buf := 0
    held := []
    heldPos := 0
    next := base }

/-- What `resync` and `RebaselineAt` share. -/
def repin (r : Resequencer α) (base : ℕ) (now : Time) : Resequencer α :=
  ((r.pinTo base).endHold now).resyncReset

def resync (r : Resequencer α) (base : ℕ) (now : Time) : Resequencer α :=
  let r := r.repin base now
  { r with resyncs := r.resyncs + 1 }

/-- `RebaselineAt`. -/
def rebaselineAt (r : Resequencer α) (next : ℕ) (now : Time) :
    Resequencer α :=
  if next = 0 then { r with panicked := true }
  else
    let r := r.repin next now
    { r with started := true, rebaselines := r.rebaselines + 1 }

def runContains (r : Resequencer α) (seq : ℕ) : Bool := r.resyncSeqs.contains seq

def spanExceeds (r : Resequencer α) (seq : ℕ) : Bool :=
  decide (max r.resyncHi seq - min r.resyncLo seq ≥ r.window)

/-- `tryResync` feeds a suspect sequence to the guard, and tells whether the
release point was pinned at it. -/
def tryResync (r : Resequencer α) (seq : ℕ) (now : Time) :
    Resequencer α × Bool :=
  if r.resyncSeqs.isEmpty || r.spanExceeds seq then
    ({ r with resyncLo := seq, resyncHi := seq, resyncSeqs := [seq] }, false)
  else if r.runContains seq then (r, false)
  else
    let r := { r with
      resyncLo := min r.resyncLo seq
      resyncHi := max r.resyncHi seq
      resyncSeqs := r.resyncSeqs ++ [seq] }
    if r.resyncSeqs.length < resyncCorroborate then (r, false)
    else (r.resync seq now, true)

/-- A suspect sequence re-pins the release point, or is dropped. -/
def admitSuspect (r : Resequencer α) (seq : ℕ) (now : Time) :
    Resequencer α × Bool :=
  let (r, resynced) := r.tryResync seq now
  if resynced then (r, true)
  else ({ r with dropSuspect := r.dropSuspect + 1 }, false)

/-- `admit` tells whether the frame has a place in the window, which it may
move. -/
def admitSeq (r : Resequencer α) (seq : ℕ) (now : Time) : Resequencer α × Bool :=
  if seq < r.next then
    if r.next - seq > r.window then r.admitSuspect seq now
    else
      let r := r.resyncReset
      ({ r with dropLate := r.dropLate + 1 }, false)
  else if seq - r.next ≥ resyncFactor * r.window then r.admitSuspect seq now
  else
    let r := r.resyncReset
    if seq - r.next ≥ r.window then
      ((r.endHold now).advanceTo (seq - r.window + 1), true)
    else (r, true)

/-! ## Calls -/

/-- The first frame pins the release point. -/
def start (r : Resequencer α) (seq : ℕ) : Resequencer α :=
  if r.started then r
  else { r with started := true, next := seq, trail := .pin seq 0 :: r.trail }

/-- A frame enters its cell. -/
def place (r : Resequencer α) (c : Slot α) : Resequencer α :=
  { r with
    ring := Function.update r.ring (c.seq % r.window) (some c)
    buf := r.buf + 1
    held := if c.seq = r.next then r.held else r.held ++ [c.seq]
    highWater := max r.highWater (r.buf + 1) }

/-- The hold at the release point ends with the frame that was waited for. -/
def fillGap (r : Resequencer α) (now : Time) : Resequencer α :=
  ({ r with gapFills := r.gapFills + 1 } : Resequencer α).endHold now

/-- What `Observe` does with a frame that has a place in the window. -/
def enter (r : Resequencer α) (c : Slot α) (now : Time) :
    Resequencer α × Bool :=
  if (r.frame c.seq).isSome then ({ r with dropDup := r.dropDup + 1 }, false)
  else
    let fillsGap := r.waiting && decide (c.seq = r.next)
    let r := r.place c
    let r := if fillsGap then r.fillGap now else r
    (r.drain.arm now, true)

/-- `Observe`: the resequencer, and whether the sequence was newly admitted. -/
def observe (r : Resequencer α) (seq : ℕ) (payload : Bytes) (src : α)
    (now : Time) : Resequencer α × Bool :=
  let r := (r.start seq).expire now
  let (r, admitted) := r.admitSeq seq now
  if admitted then r.enter ⟨seq, src, payload, now⟩ now else (r, false)

/-- `Pop`. -/
def pop (r : Resequencer α) (now : Time) : Resequencer α × Option (Item α) :=
  let r := r.expire now
  match r.ready with
  | [] => (r, none)
  | item :: rest => ({ r with ready := rest }, some item)

end Resequencer

inductive Call (α : Type) where
  | observe (seq : ℕ) (payload : Bytes) (src : α) (now : Time)
  | pop (now : Time)
  | setHoldBound (d : Duration)
  | rebaselineAt (next : ℕ) (now : Time)

namespace Resequencer

variable {α : Type}

/-- The state after one call, whatever it returns. -/
def apply (r : Resequencer α) : Call α → Resequencer α
  | .observe seq payload src now => (r.observe seq payload src now).1
  | .pop now => (r.pop now).1
  | .setHoldBound d => r.setHoldBound d
  | .rebaselineAt next now => r.rebaselineAt next now

/-- The state after a sequence of calls. -/
def run (window : ℕ) (window_pos : 0 < window) (timeout : Duration)
    (calls : List (Call α)) : Resequencer α :=
  calls.foldl apply (new window window_pos timeout)

end Resequencer

end Wanbond.Reseq
