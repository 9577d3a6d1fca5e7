import Mathlib.Data.Rat.Defs
import Wanbond.Support.BigEndian
import Wanbond.Support.WordMask

/-!
# Time, epochs and frames of the bonding transport

This module fixes the vocabulary of `internal/bond`: its clock, its epochs and
path identifiers, and the two frames that travel between two transports.

A frame is represented by what `Transport.receive` reads from it.  The body of
a frame records whether its header could be read and, for each control type,
whether its fields could; the byte encoding stays below this layer.  The 64-bit counters
of the wire are natural numbers, and the delivery order, whose top bit marks
the small-packet class on the wire, is the pair of that bit and the number.
-/

namespace Wanbond.Bond

open Wanbond.Support

/-! ## Clock -/

/-- Nanoseconds since the zero `time.Time`, which is therefore `0`. -/
abbrev Time := ℤ

/-- Nanoseconds. -/
abbrev Duration := ℤ

def millisecond : Duration := 1000000

def second : Duration := 1000000000

/-- `time.Duration(x)` of a floating-point number: truncation towards zero. -/
def truncate (x : ℚ) : ℤ := x.num.tdiv x.den

/-- `time.Duration(x * float64(time.Second))`. -/
def ofSeconds (x : ℚ) : Duration := truncate (x * second)

/-- `d.Seconds()`. -/
def seconds (d : Duration) : ℚ := d / second

def maxTime (a b : Time) : Time := if a > b then a else b

/-! ## Identities -/

structure Epoch where
  boot : ℕ
  generation : ℕ
  deriving DecidableEq, Repr, Inhabited

/-- The zero epoch: no peer has been learned yet. -/
def Epoch.zero : Epoch := ⟨0, 0⟩

/-- Both halves are nonzero, as `New` and `SetRemote` require. -/
def Epoch.Valid (e : Epoch) : Prop := e.boot ≠ 0 ∧ e.generation ≠ 0

instance (e : Epoch) : Decidable e.Valid :=
  inferInstanceAs (Decidable (e.boot ≠ 0 ∧ e.generation ≠ 0))

abbrev PathID := UInt16

abbrev Bytes := List UInt8

/-! ## Sizes on the wire -/

def headerBytes : ℕ := 19

/-- The destination epoch, sequence and order that follow the lane header. -/
def dataFieldBytes : ℕ := 16 + 8 + 8

/-- `frame.ControlOverhead`: nonce, kind, control type, sequence and tag. -/
def controlOverhead : ℕ := 24 + 1 + 1 + 8 + 16

/-- Bytes a data frame adds to its payload. -/
def overhead : ℕ := controlOverhead + headerBytes + dataFieldBytes

/-- Data frame, IPv4 and UDP headers. -/
def wireOverhead : ℕ := overhead + 28

def ackBytes : ℕ := 96

def ackWireBytes : ℕ := headerBytes + ackBytes + 78

def ackReceiptWords : ℕ := 4

def ackReceiptBits : ℕ := 64 * ackReceiptWords

def maxDatagram : ℕ := 9000

/-- The width of every receipt window, and the bound on retained packets. -/
def maxPackets : ℕ := 8192

/-! ## Frames -/

structure PacketHeader where
  epoch : Epoch
  lane : PathID
  deriving DecidableEq, Repr

/-- A delivery order: the class bit (`interactiveBit`) and the number. -/
structure Order where
  interactive : Bool
  number : ℕ
  deriving DecidableEq, Repr, Inhabited

/-- The order of a keepalive. -/
def Order.zero : Order := ⟨false, 0⟩

/-- What follows the header of a DATA frame. -/
structure DataFields where
  destination : Epoch
  seq : ℕ
  order : Order
  payload : Bytes
  deriving DecidableEq, Repr

/-- The bytes the receiver counts for a DATA frame. -/
def DataFields.wireBytes (d : DataFields) : ℕ := d.payload.length + wireOverhead

theorem DataFields.wireBytes_pos (d : DataFields) : 0 < d.wireBytes :=
  Nat.add_pos_right _ (by decide)

structure Acknowledgement where
  observed : Epoch
  high : ℕ
  mask : BitVec 64
  bytes : ℕ
  elapsed : ℕ
  delay : ℕ
  receivedHigh : ℕ
  receivedMask : WordMask ackReceiptWords

/-- The global receipt bitmap names `seq`. -/
def Acknowledgement.received (a : Acknowledgement) (seq : ℕ) : Bool :=
  if seq = 0 ∨ seq > a.receivedHigh ∨ a.receivedHigh - seq ≥ ackReceiptBits then
    false
  else
    let delta := a.receivedHigh - seq
    a.receivedMask.bit delta

/-- The lane bitmap names the lane sequence `seq`:
`seq <= a.high && a.high-seq < 64 && a.mask&(1<<(a.high-seq)) != 0`. -/
def Acknowledgement.laneBit (a : Acknowledgement) (seq : ℕ) : Bool :=
  decide (seq ≤ a.high) && decide (a.high - seq < 64) &&
    a.mask.getLsbD (a.high - seq)

theorem Acknowledgement.received_iff {a : Acknowledgement} {seq : ℕ} :
    a.received seq = true ↔ seq ≠ 0 ∧ seq ≤ a.receivedHigh ∧
      a.receivedHigh < seq + ackReceiptBits ∧
      a.receivedMask.bit (a.receivedHigh - seq) = true := by
  unfold received
  split
  next hout =>
    simp only [Bool.false_eq_true, false_iff]
    rintro ⟨h₁, h₂, h₃, -⟩
    omega
  next hin =>
    constructor
    · exact fun h => ⟨by omega, by omega, by omega, h⟩
    · exact fun h => h.2.2.2

theorem Acknowledgement.laneBit_iff {a : Acknowledgement} {seq : ℕ} :
    a.laneBit seq = true ↔ seq ≤ a.high ∧ a.high < seq + 64 ∧
      a.mask.getLsbD (a.high - seq) = true := by
  simp only [laneBit, Bool.and_eq_true, decide_eq_true_eq, and_assoc]
  refine and_congr_right fun h => ?_
  have hiff : a.high - seq < 64 ↔ a.high < seq + 64 := by omega
  rw [hiff]

/-- A control frame as `receive` reads it.  `malformed` is a payload with a
truncated header or another version; `data` and `ack` carry `none` when the
payload is too short for the fields, or for an acknowledgement too long;
`other` is an unknown control type. -/
inductive Body where
  | malformed
  | data (header : PacketHeader) (fields : Option DataFields)
  | ack (header : PacketHeader) (fields : Option Acknowledgement)
  | other (header : PacketHeader)

/-- `frame.Control`. -/
structure Control where
  seq : ℕ
  body : Body

/-! ## Reading a frame -/

def dataType : UInt8 := 0xa1

def ackType : UInt8 := 0xa2

def version : UInt8 := 1

/-- The big-endian field of `width` bytes at `offset`. -/
def field (b : Bytes) (offset width : ℕ) : ℕ :=
  BigEndian.decode ((b.drop offset).take width)

/-- `parseHeader`, up to its check of the epoch. -/
def parseHeader (b : Bytes) : Option PacketHeader :=
  if b.length < headerBytes ∨ b.head? ≠ some version then none
  else some ⟨⟨field b 1 8, field b 9 8⟩, UInt16.ofNat (field b 17 2)⟩

/-- The fields of a DATA frame, when there are enough bytes. -/
def parseData (b : Bytes) : Option DataFields :=
  if b.length < headerBytes + dataFieldBytes then none
  else
    let order := field b (headerBytes + 24) 8
    some {
      destination := ⟨field b headerBytes 8, field b (headerBytes + 8) 8⟩
      seq := field b (headerBytes + 16) 8
      order := ⟨decide (order ≥ 2 ^ 63), order % 2 ^ 63⟩
      payload := b.drop (headerBytes + dataFieldBytes) }

/-- `parseACK`, up to its check of the durations. -/
def parseACK (b : Bytes) : Option Acknowledgement :=
  if b.length ≠ headerBytes + ackBytes then none
  else
    let b := b.drop headerBytes
    some {
      observed := ⟨field b 0 8, field b 8 8⟩
      high := field b 16 8
      mask := BitVec.ofNat 64 (field b 24 8)
      bytes := field b 32 8
      elapsed := field b 40 8
      delay := field b 48 8
      receivedHigh := field b 56 8
      receivedMask := .ofFn fun i => BitVec.ofNat 64 (field b (64 + i * 8) 8) }

/-- A payload as `receive` reads it. -/
def Body.parse (controlType : UInt8) (b : Bytes) : Body :=
  match parseHeader b with
  | none => .malformed
  | some header =>
    if controlType = dataType then .data header (parseData b)
    else if controlType = ackType then .ack header (parseACK b)
    else .other header

/-- `frame.Control` with its type, sequence and payload. -/
def Control.parse (controlType : UInt8) (seq : ℕ) (payload : Bytes) : Control :=
  ⟨seq, Body.parse controlType payload⟩

/-! ## Writing a frame -/

def dataFrame (epoch destination : Epoch) (lane : PathID)
    (attempt seq : ℕ) (order : Order) (payload : Bytes) : Control where
  seq := attempt
  body := .data ⟨epoch, lane⟩ (some ⟨destination, seq, order, payload⟩)

def ackFrame (epoch : Epoch) (lane : PathID) (revision : ℕ)
    (a : Acknowledgement) : Control where
  seq := revision
  body := .ack ⟨epoch, lane⟩ (some a)

structure Transmission where
  path : PathID
  frame : Control

structure Delivery where
  sequence : ℕ
  interactive : Bool
  payload : Bytes
  deriving DecidableEq, Repr

/-! ## The hello of a probe -/

/-- The letters `bond`. -/
def helloMagic : Bytes := [0x62, 0x6f, 0x6e, 0x64]

/-- `Hello`, which probes and echoes carry as their payload. -/
def hello (epoch : Epoch) (path : UInt8) : Bytes :=
  helloMagic ++ [version, path] ++ BigEndian.encode 8 epoch.boot ++
    BigEndian.encode 8 epoch.generation

/-- `ParseHello`: the epoch and the path of the sender. -/
def parseHello (b : Bytes) : Option (Epoch × UInt8) :=
  if b.length ≠ 22 ∨ b.take 4 ≠ helloMagic ∨ b[4]? ≠ some version then none
  else
    let epoch : Epoch := ⟨field b 6 8, field b 14 8⟩
    if epoch.Valid then some (epoch, b.getD 5 0) else none

/-! ## Rejections -/

inductive RejectionCause where
  | malformed | epoch | path | lane | ack | type | time
  deriving DecidableEq, Repr

structure RejectionError where
  cause : RejectionCause
  message : String
  deriving DecidableEq, Repr

end Wanbond.Bond
