import Wanbond.Support.BigEndian

/-!
# The outer frame codec

A frame on the wire is a nonce in the clear, the body under a keystream, and a
tag over both.  The body is the kind, the header of the kind, and the payload.

The primitives are parameters: the keystream is any stream of bytes that the key
and the nonce determine, and the tag any 16 bytes that the key, the nonce and
the body determine.  The subkeys of a codec are any bytes.  An access to a byte
string is checked: where the source would panic, the model returns `outOfRange`.
-/

namespace Wanbond

open Wanbond.Support

namespace Frame

abbrev Bytes := List UInt8

def nonceLen : ℕ := 24

def tagLen : ℕ := 16

/-! ## Failures -/

inductive Fault where
  | malformed (message : String)
  | auth
  | entropy
  | outOfRange
  deriving DecidableEq, Repr

def Fault.message : Fault → String
  | .malformed message => "frame: malformed input: " ++ message
  | .auth => "frame: authentication failed"
  | .entropy => "frame: read nonce"
  | .outOfRange => "runtime error: slice bounds out of range"

/-- `b[i]`. -/
def index (b : Bytes) (i : ℕ) : Except Fault UInt8 :=
  match b[i]? with
  | some x => .ok x
  | none => .error .outOfRange

/-- `b[i:j]`. -/
def slice (b : Bytes) (i j : ℕ) : Except Fault Bytes :=
  if i ≤ j ∧ j ≤ b.length then .ok ((b.take j).drop i) else .error .outOfRange

/-! ## Frames -/

def kindProbe : UInt8 := 3

def kindControl : UInt8 := 4

def kindValid (kind : UInt8) : Bool :=
  decide (kind = kindProbe) || decide (kind = kindControl)

structure Probe where
  pathID : UInt8
  probeSeq : UInt64
  timestampNanos : Int64
  isEcho : Bool
  sessionID : UInt64
  challenge : UInt64
  padded : Bool
  padLen : UInt16
  payload : Bytes
  deriving DecidableEq, Repr

structure Control where
  controlType : UInt8
  seq : UInt64
  payload : Bytes
  deriving DecidableEq, Repr

end Frame

inductive Frame where
  | probe (p : Frame.Probe)
  | control (c : Frame.Control)
  deriving DecidableEq, Repr

namespace Frame

def probeFlagEcho : UInt8 := 1

def probeFlagPadded : UInt8 := 2

def probeFixedBody : ℕ := 1 + 1 + 8 + 8 + 1 + 8 + 8

def probeBaseOnWire : ℕ := nonceLen + probeFixedBody + 2 + tagLen

def maxPaddedProbeOnWire : ℕ := 9000

/-- `ProbeOnWireSize`. -/
def probeOnWireSize (padLen : UInt16) : ℕ := probeBaseOnWire + padLen.toNat

namespace Probe

/-- `Probe.validate`. -/
def validate (p : Probe) : Except Fault Unit :=
  if !p.padded then .ok ()
  else if p.payload.length > 0 then
    .error (.malformed "a padded probe must not carry a Payload")
  else if probeOnWireSize p.padLen > maxPaddedProbeOnWire then
    .error (.malformed ("padded-probe on-wire size " ++
      toString (probeOnWireSize p.padLen) ++ " above maximum " ++
      toString maxPaddedProbeOnWire))
  else .ok ()

/-- `Probe.flags`. -/
def flags (p : Probe) : UInt8 :=
  let b : UInt8 := 0
  let b := if p.isEcho then b ||| probeFlagEcho else b
  if p.padded then b ||| probeFlagPadded else b

/-- `Probe.appendBody`. -/
def appendBody (p : Probe) (dst : Bytes) : Bytes :=
  let dst := dst ++ [kindProbe]
  let dst := dst ++ [p.pathID]
  let dst := dst ++ BigEndian.encode 8 p.probeSeq.toNat
  let dst := dst ++ BigEndian.encode 8 p.timestampNanos.toUInt64.toNat
  let dst := dst ++ [p.flags]
  let dst := dst ++ BigEndian.encode 8 p.sessionID.toNat
  let dst := dst ++ BigEndian.encode 8 p.challenge.toNat
  if p.padded then
    let dst := dst ++ BigEndian.encode 2 p.padLen.toNat
    dst ++ List.replicate p.padLen.toNat 0
  else dst ++ p.payload

end Probe

/-- `Control.appendBody`. -/
def Control.appendBody (c : Control) (dst : Bytes) : Bytes :=
  let dst := dst ++ [kindControl]
  let dst := dst ++ [c.controlType]
  let dst := dst ++ BigEndian.encode 8 c.seq.toNat
  dst ++ c.payload

def appendBody : Frame → Bytes → Bytes
  | .probe p => p.appendBody
  | .control c => c.appendBody

/-- The check that `Encode` makes before it serialises. -/
def validate : Frame → Except Fault Unit
  | .probe p => p.validate
  | .control _ => .ok ()

/-! ## Primitives -/

structure Primitives where
  keystream : Bytes → Bytes → ℕ → UInt8
  tag : Bytes → Bytes → Bytes → Bytes
  tag_length : ∀ key nonce body, (tag key nonce body).length = tagLen

structure Nonce where
  bytes : Bytes
  length_eq : bytes.length = nonceLen

/-- A cipher consumes its keystream as it goes. -/
structure Cipher where
  stream : ℕ → UInt8
  pos : ℕ

/-- `XORKeyStream`. -/
def Cipher.xorKeyStream (c : Cipher) (b : Bytes) : Cipher × Bytes :=
  ({ c with pos := c.pos + b.length },
    b.mapIdx fun i x => x ^^^ c.stream (c.pos + i))

variable (prims : Primitives)

/-- `chacha20.NewUnauthenticatedCipher`. -/
def newCipher (key nonce : Bytes) : Cipher := ⟨prims.keystream key nonce, 0⟩

def obfuscate (obfKey nonce body : Bytes) : Bytes :=
  ((newCipher prims obfKey nonce).xorKeyStream body).2

/-! ## The reader -/

structure Reader where
  b : Bytes
  off : ℕ

namespace Reader

def need (r : Reader) (n : ℕ) : Except Fault Unit :=
  if r.off + n > r.b.length then
    .error (.malformed ("need " ++ toString n ++ " more bytes at offset " ++
      toString r.off))
  else .ok ()

def u8 (r : Reader) : Except Fault (UInt8 × Reader) := do
  r.need 1
  let v ← index r.b r.off
  return (v, { r with off := r.off + 1 })

/-- A big-endian integer of `n` bytes. -/
def unsigned (r : Reader) (n : ℕ) : Except Fault (ℕ × Reader) := do
  r.need n
  let tail ← slice r.b r.off r.b.length
  let field ← slice tail 0 n
  return (BigEndian.decode field, { r with off := r.off + n })

def u16 (r : Reader) : Except Fault (UInt16 × Reader) := do
  let (v, r) ← r.unsigned 2
  return (UInt16.ofNat v, r)

def u64 (r : Reader) : Except Fault (UInt64 × Reader) := do
  let (v, r) ← r.unsigned 8
  return (UInt64.ofNat v, r)

def rest (r : Reader) : Except Fault Bytes := slice r.b r.off r.b.length

end Reader

/-! ## Decoding -/

/-- The trailing part of a probe: padding, or the payload. -/
def decodeTail (probe : Probe) (flags : UInt8) (r : Reader) :
    Except Fault Frame := do
  if flags &&& probeFlagPadded ≠ 0 then
    let (padLen, r) ← r.u16
    let pad ← r.rest
    if pad.length ≠ padLen.toNat then
      .error (.malformed ("padded probe declares " ++ toString padLen.toNat ++
        " pad bytes but " ++ toString pad.length ++ " present"))
    else return .probe { probe with padded := true, padLen := padLen }
  else
    let payload ← r.rest
    return .probe { probe with payload := payload }

/-- The KindProbe branch of `decodeBody`.  A read that fails leaves the cursor
where it was and the others have no effect, so the first error is the one that
`firstErr` picks. -/
def decodeProbe (r : Reader) : Except Fault Frame := do
  let (pathID, r) ← r.u8
  let (probeSeq, r) ← r.u64
  let (ts, r) ← r.u64
  let (flags, r) ← r.u8
  let (sessionID, r) ← r.u64
  let (challenge, r) ← r.u64
  decodeTail
    { pathID := pathID
      probeSeq := probeSeq
      timestampNanos := ts.toInt64
      isEcho := decide (flags &&& probeFlagEcho ≠ 0)
      sessionID := sessionID
      challenge := challenge
      padded := false
      padLen := 0
      payload := [] } flags r

/-- The KindControl branch of `decodeBody`. -/
def decodeControl (r : Reader) : Except Fault Frame := do
  let (ctype, r) ← r.u8
  let (seq, r) ← r.u64
  let payload ← r.rest
  return .control ⟨ctype, seq, payload⟩

def decodeBody (kind : UInt8) (b : Bytes) : Except Fault Frame :=
  let r : Reader := ⟨b, 0⟩
  if kind = kindProbe then decodeProbe r
  else if kind = kindControl then decodeControl r
  else .error (.malformed ("unknown kind " ++ toString kind.toNat))

/-! ## The codec -/

structure Codec where
  obfKey : Bytes
  authKey : Bytes
  encScratch : Bytes
  decScratch : Bytes

namespace Codec

/-- `Encode`.  The nonce is what the system's random source returns, if it
does.  The body is obfuscated in the scratch buffer. -/
def encode (c : Codec) (dst : Bytes) (f : Frame) (nonce : Option Nonce) :
    Codec × Except Fault Bytes :=
  match f.validate with
  | .error e => (c, .error e)
  | .ok () =>
    let c := { c with encScratch := f.appendBody [] }
    match nonce with
    | none => (c, .error .entropy)
    | some nonce =>
      let body := obfuscate prims c.obfKey nonce.bytes c.encScratch
      let c := { c with encScratch := body }
      let dst := dst ++ nonce.bytes ++ body
      (c, .ok (dst ++ prims.tag c.authKey nonce.bytes body))

/-- `Decode` up to the plaintext body. -/
def unwrap (c : Codec) (raw : Bytes) : Except Fault (UInt8 × Bytes) := do
  if raw.length < nonceLen + 1 then
    .error (.malformed (toString raw.length ++ " bytes, need >= " ++
      toString (nonceLen + 1)))
  else
    let nonce ← slice raw 0 nonceLen
    let rest ← slice raw nonceLen raw.length
    let first ← index rest 0
    let (cipher, kindByte) :=
      (newCipher prims c.obfKey nonce).xorKeyStream [first]
    let kind ← index kindByte 0
    if !kindValid kind then
      .error (.malformed ("unknown kind " ++ toString kind.toNat))
    else if rest.length < tagLen + 1 then
      .error (.malformed "frame too short for its tag")
    else
      let obfBody ← slice rest 0 (rest.length - tagLen)
      let gotTag ← slice rest (rest.length - tagLen) rest.length
      if gotTag ≠ prims.tag c.authKey nonce obfBody then .error .auth
      else
        -- the rest of the body continues the keystream after the kind
        let tail ← slice obfBody 1 obfBody.length
        return (kind, kind :: (cipher.xorKeyStream tail).2)

/-- `Decode`. -/
def decode (c : Codec) (raw : Bytes) : Codec × Except Fault Frame :=
  match c.unwrap prims raw with
  | .error e => (c, .error e)
  | .ok (kind, body) =>
    ({ c with decScratch := body }, do
      let b ← slice body 1 body.length
      decodeBody kind b)

end Codec

end Frame

end Wanbond
