import Wanbond.Frame.Codec

/-!
# Correctness of the outer frame codec

What `Encode` writes `Decode` reads back, whatever keystream and tag the
primitives make.  The reader is described by what lies ahead of its cursor: on
an encoding it takes off one field after another, and on any input at all it
either reports a malformed frame or goes on within the bytes it has.
-/

namespace Wanbond.Frame

open Wanbond.Support

/-! ## Checked accesses -/

theorem slice_of_le {b : Bytes} {i j : ℕ} (hij : i ≤ j) (hj : j ≤ b.length) :
    slice b i j = .ok ((b.take j).drop i) := if_pos ⟨hij, hj⟩

theorem slice_left (a b : Bytes) : slice (a ++ b) 0 a.length = .ok a := by
  rw [slice_of_le (Nat.zero_le _) (by rw [List.length_append]; omega),
    List.take_left, List.drop_zero]

theorem slice_right (a b : Bytes) :
    slice (a ++ b) a.length (a ++ b).length = .ok b := by
  rw [slice_of_le (by rw [List.length_append]; omega) le_rfl, List.take_length,
    List.drop_left]

theorem index_of_lt {b : Bytes} {i : ℕ} (h : i < b.length) :
    index b i = .ok b[i] := by
  rw [index, List.getElem?_eq_getElem h]

theorem index_cons (x : UInt8) (b : Bytes) : index (x :: b) 0 = .ok x := rfl

/-! ## The keystream -/

section Cipher

variable (c : Cipher)

theorem length_xorKeyStream (b : Bytes) :
    (c.xorKeyStream b).2.length = b.length := List.length_mapIdx

theorem xorKeyStream_cons (x : UInt8) (b : Bytes) :
    (c.xorKeyStream (x :: b)).2 =
      (x ^^^ c.stream c.pos) :: (Cipher.xorKeyStream ⟨c.stream, c.pos + 1⟩ b).2 := by
  simp only [Cipher.xorKeyStream, List.mapIdx_cons, Nat.add_zero,
    List.cons.injEq, true_and]
  congr 1
  funext i y
  rw [Nat.add_right_comm, Nat.add_assoc]

theorem xorKeyStream_self (b : Bytes) :
    (c.xorKeyStream (c.xorKeyStream b).2).2 = b := by
  simp only [Cipher.xorKeyStream, List.mapIdx_mapIdx, Function.comp_def,
    UInt8.xor_assoc, UInt8.xor_self, UInt8.xor_zero]
  exact List.mapIdx_eq_iff.mpr fun i => by simp

end Cipher

/-! ## The reader on an encoding -/

namespace Reader

/-- What lies ahead of the cursor. -/
def Ahead (r : Reader) (ahead : Bytes) : Prop :=
  r.off ≤ r.b.length ∧ r.b.drop r.off = ahead

variable {r : Reader} {ahead : Bytes}

theorem Ahead.length (h : r.Ahead ahead) :
    r.off + ahead.length = r.b.length := by
  rw [← h.2, List.length_drop]
  have := h.1
  omega

theorem Ahead.advance {field rest : Bytes} (h : r.Ahead (field ++ rest)) :
    Ahead { r with off := r.off + field.length } rest := by
  have hlength := h.length
  rw [List.length_append] at hlength
  refine ⟨show r.off + field.length ≤ r.b.length by omega, ?_⟩
  rw [← List.drop_drop, h.2, List.drop_left]

theorem need_of_ahead (h : r.Ahead ahead) {n : ℕ} (hn : n ≤ ahead.length) :
    r.need n = .ok () := by
  have := h.length
  exact if_neg (by omega)

theorem rest_of_ahead (h : r.Ahead ahead) : r.rest = .ok ahead := by
  rw [rest, slice_of_le h.1 le_rfl, List.take_length, h.2]

theorem u8_of_ahead {x : UInt8} (h : r.Ahead (x :: ahead)) :
    ∃ r', r.u8 = .ok (x, r') ∧ r'.Ahead ahead := by
  have hlength := h.length
  rw [List.length_cons] at hlength
  have hlt : r.off < r.b.length := by omega
  have hx : index r.b r.off = .ok x := by
    rw [index_of_lt hlt]
    have hhead := List.drop_eq_getElem_cons hlt
    rw [h.2] at hhead
    exact congrArg _ (List.cons.inj hhead).1.symm
  refine ⟨_, ?_, @Ahead.advance r [x] ahead h⟩
  simp only [u8, need_of_ahead h (Nat.succ_le_of_lt (Nat.succ_pos _)), hx]
  rfl

theorem unsigned_of_ahead {n v : ℕ} (hv : v < 256 ^ n)
    (h : r.Ahead (BigEndian.encode n v ++ ahead)) :
    ∃ r', r.unsigned n = .ok (v, r') ∧ r'.Ahead ahead := by
  have hadvance := h.advance
  have hlength := BigEndian.length_encode n v
  have hneed : r.need n = .ok () :=
    need_of_ahead h (by rw [List.length_append]; omega)
  have hfield := slice_left (BigEndian.encode n v) ahead
  rw [hlength] at hadvance hfield
  refine ⟨_, ?_, hadvance⟩
  have htail : slice r.b r.off r.b.length = .ok (BigEndian.encode n v ++ ahead) :=
    rest_of_ahead h
  simp only [unsigned, hneed, htail]
  change (do let field ← slice (BigEndian.encode n v ++ ahead) 0 n; _) = _
  rw [hfield]
  change Except.ok (BigEndian.decode (BigEndian.encode n v), _) = _
  rw [BigEndian.decode_encode hv]

theorem u16_of_ahead {v : UInt16}
    (h : r.Ahead (BigEndian.encode 2 v.toNat ++ ahead)) :
    ∃ r', r.u16 = .ok (v, r') ∧ r'.Ahead ahead := by
  obtain ⟨r', hread, hahead⟩ := unsigned_of_ahead v.toNat_lt h
  refine ⟨r', ?_, hahead⟩
  rw [u16, hread]
  change Except.ok (UInt16.ofNat v.toNat, r') = _
  rw [UInt16.ofNat_toNat]

theorem u64_of_ahead {v : UInt64}
    (h : r.Ahead (BigEndian.encode 8 v.toNat ++ ahead)) :
    ∃ r', r.u64 = .ok (v, r') ∧ r'.Ahead ahead := by
  obtain ⟨r', hread, hahead⟩ := unsigned_of_ahead v.toNat_lt h
  refine ⟨r', ?_, hahead⟩
  rw [u64, hread]
  change Except.ok (UInt64.ofNat v.toNat, r') = _
  rw [UInt64.ofNat_toNat]

end Reader

/-! ## The reader on any input -/

/-- The computation reports a malformed frame, or returns a value with `P`: it
does not go out of range. -/
def Reads {β : Type} (P : β → Prop) (x : Except Fault β) : Prop :=
  (∃ message, x = .error (.malformed message)) ∨ ∃ v, x = .ok v ∧ P v

theorem Reads.bind {β γ : Type} {P : β → Prop} {Q : γ → Prop}
    {x : Except Fault β} {f : β → Except Fault γ} (h : Reads P x)
    (hf : ∀ v, P v → Reads Q (f v)) : Reads Q (x >>= f) := by
  rcases h with ⟨message, rfl⟩ | ⟨v, rfl, hv⟩
  · exact .inl ⟨message, rfl⟩
  · exact hf v hv

theorem Reads.ne {β : Type} {P : β → Prop} {x : Except Fault β}
    (h : Reads P x) : x ≠ .error .outOfRange := by
  rcases h with ⟨message, rfl⟩ | ⟨v, rfl, -⟩
  · exact fun heq => by cases heq
  · exact nofun

theorem Reads.ok {β : Type} {P : β → Prop} {v : β} (hv : P v) :
    Reads P (.ok v) := .inr ⟨v, rfl, hv⟩

namespace Reader

variable (r : Reader)

/-- The cursor is within the bytes. -/
def Within (r : Reader) : Prop := r.off ≤ r.b.length

theorem reads_need (n : ℕ) : Reads (fun _ => r.off + n ≤ r.b.length) (r.need n) := by
  unfold need
  split
  · exact .inl ⟨_, rfl⟩
  next h => exact .ok (not_lt.mp h)

theorem reads_u8 : Reads (fun x => x.2.Within) r.u8 := by
  refine (r.reads_need 1).bind fun _ h => ?_
  rw [index_of_lt (show r.off < r.b.length by omega)]
  exact .ok h

theorem reads_unsigned (n : ℕ) : Reads (fun x => x.2.Within) (r.unsigned n) := by
  refine (r.reads_need n).bind fun _ h => ?_
  have hlength : ((r.b.take r.b.length).drop r.off).length =
      r.b.length - r.off := by
    rw [List.take_length, List.length_drop]
  rw [slice_of_le (show r.off ≤ r.b.length by omega) le_rfl]
  change Reads _ (do let field ← slice ((r.b.take r.b.length).drop r.off) 0 n; _)
  rw [slice_of_le (Nat.zero_le n) (by omega)]
  exact .ok h

theorem reads_u16 : Reads (fun x => x.2.Within) r.u16 :=
  (r.reads_unsigned 2).bind fun _ h => .ok h

theorem reads_u64 : Reads (fun x => x.2.Within) r.u64 :=
  (r.reads_unsigned 8).bind fun _ h => .ok h

theorem reads_rest {r : Reader} (h : r.Within) : Reads (fun _ => True) r.rest := by
  rw [rest, slice_of_le h le_rfl]
  exact .ok trivial

end Reader

theorem reads_decodeTail (p : Probe) (flags : UInt8) {r : Reader}
    (h : r.Within) : Reads (fun _ => True) (decodeTail p flags r) := by
  unfold decodeTail
  split
  · refine r.reads_u16.bind fun x hx => ?_
    refine (Reader.reads_rest hx).bind fun pad _ => ?_
    split
    · exact .inl ⟨_, rfl⟩
    · exact .ok trivial
  · exact (Reader.reads_rest h).bind fun _ _ => .ok trivial

theorem reads_decodeBody (kind : UInt8) (b : Bytes) :
    Reads (fun _ => True) (decodeBody kind b) := by
  unfold decodeBody
  split
  · refine (Reader.reads_u8 _).bind fun x₁ h => ?_
    refine (Reader.reads_u64 _).bind fun x₂ h => ?_
    refine (Reader.reads_u64 _).bind fun x₃ h => ?_
    refine (Reader.reads_u8 _).bind fun x₄ h => ?_
    refine (Reader.reads_u64 _).bind fun x₅ h => ?_
    refine (Reader.reads_u64 _).bind fun x₆ h => ?_
    exact reads_decodeTail _ _ h
  split
  · refine (Reader.reads_u8 _).bind fun x₁ h => ?_
    refine (Reader.reads_u64 _).bind fun x₂ h => ?_
    exact (Reader.reads_rest h).bind fun _ _ => .ok trivial
  · exact .inl ⟨_, rfl⟩

/-! ## Bodies -/

/-- The frame that its encoding stands for: without the flag, the pad length is
not written. -/
def normal : Frame → Frame
  | .probe p => .probe (if p.padded then p else { p with padLen := 0 })
  | .control c => .control c

namespace Probe

variable (p : Probe)

theorem flags_echo :
    decide (p.flags &&& probeFlagEcho ≠ 0) = p.isEcho := by
  unfold flags
  cases p.isEcho <;> cases p.padded <;> rfl

theorem flags_padded :
    p.flags &&& probeFlagPadded ≠ 0 ↔ p.padded = true := by
  unfold flags
  cases p.isEcho <;> cases p.padded <;> decide

/-- What follows the fixed header of a probe. -/
def tail : Bytes :=
  if p.padded then
    BigEndian.encode 2 p.padLen.toNat ++ List.replicate p.padLen.toNat 0
  else p.payload

/-- The body of a probe after its kind. -/
def fields : Bytes :=
  p.pathID :: (BigEndian.encode 8 p.probeSeq.toNat ++
    (BigEndian.encode 8 p.timestampNanos.toUInt64.toNat ++
      (p.flags :: (BigEndian.encode 8 p.sessionID.toNat ++
        (BigEndian.encode 8 p.challenge.toNat ++ p.tail)))))

theorem appendBody_eq : p.appendBody [] = kindProbe :: p.fields := by
  unfold appendBody fields tail
  split <;> simp

theorem length_fields : p.fields.length = 34 + p.tail.length := by
  simp only [fields, List.length_cons, List.length_append,
    BigEndian.length_encode]
  omega

/-- The tail of a probe that passes its check is read back. -/
theorem decodeTail_tail (hvalid : p.validate = .ok ()) {q : Probe} {r : Reader}
    (hq : q = { p with padded := false, padLen := 0, payload := [] })
    (h : r.Ahead p.tail) :
    decodeTail q p.flags r = .ok (Frame.normal (.probe p)) := by
  unfold decodeTail tail at *
  by_cases hpadded : p.padded = true
  · rw [if_pos (p.flags_padded.mpr hpadded)]
    rw [if_pos hpadded] at h
    obtain ⟨r', hread, hahead⟩ := Reader.u16_of_ahead h
    have hpad := Reader.rest_of_ahead hahead
    have hpayload : p.payload = [] := by
      by_contra hne
      have hpos : p.payload.length > 0 := List.length_pos_of_ne_nil hne
      simp [validate, hpadded, hpos] at hvalid
    rw [hread]
    change (do let pad ← r'.rest; _) = _
    rw [hpad]
    change (if (List.replicate p.padLen.toNat (0 : UInt8)).length ≠
      p.padLen.toNat then _ else _) = _
    rw [if_neg (not_not.mpr List.length_replicate), Frame.normal, if_pos hpadded,
      hq]
    change Except.ok (Frame.probe { p with padded := true, payload := [] }) = _
    rw [← hpadded, ← hpayload]
  · rw [if_neg (mt p.flags_padded.mp hpadded)]
    rw [if_neg hpadded] at h
    rw [Reader.rest_of_ahead h, Frame.normal, if_neg hpadded, hq]
    change Except.ok (Frame.probe { p with padded := false, padLen := 0 }) = _
    rw [Bool.eq_false_iff.mpr hpadded]

theorem decodeProbe_fields (hvalid : p.validate = .ok ()) :
    decodeProbe ⟨p.fields, 0⟩ = .ok (Frame.normal (.probe p)) := by
  have h : Reader.Ahead ⟨p.fields, 0⟩ p.fields := ⟨Nat.zero_le _, rfl⟩
  obtain ⟨r₁, hread₁, h⟩ := Reader.u8_of_ahead h
  obtain ⟨r₂, hread₂, h⟩ := Reader.u64_of_ahead h
  obtain ⟨r₃, hread₃, h⟩ := Reader.u64_of_ahead h
  obtain ⟨r₄, hread₄, h⟩ := Reader.u8_of_ahead h
  obtain ⟨r₅, hread₅, h⟩ := Reader.u64_of_ahead h
  obtain ⟨r₆, hread₆, h⟩ := Reader.u64_of_ahead h
  have htail := p.decodeTail_tail hvalid rfl h
  simp only [decodeProbe, hread₁, hread₂, hread₃, hread₄, hread₅, hread₆,
    bind, Except.bind, flags_echo]
  exact htail

end Probe

namespace Control

variable (c : Control)

/-- The body of a control frame after its kind. -/
def fields : Bytes :=
  c.controlType :: (BigEndian.encode 8 c.seq.toNat ++ c.payload)

theorem appendBody_eq : c.appendBody [] = kindControl :: c.fields := by
  simp [appendBody, fields]

theorem length_fields : c.fields.length = 9 + c.payload.length := by
  simp only [fields, List.length_cons, List.length_append,
    BigEndian.length_encode]
  omega

theorem decodeControl_fields :
    decodeControl ⟨c.fields, 0⟩ = .ok (.control c) := by
  have h : Reader.Ahead ⟨c.fields, 0⟩ c.fields := ⟨Nat.zero_le _, rfl⟩
  obtain ⟨r₁, hread₁, h⟩ := Reader.u8_of_ahead h
  obtain ⟨r₂, hread₂, h⟩ := Reader.u64_of_ahead h
  simp only [decodeControl, hread₁, hread₂, Reader.rest_of_ahead h, bind,
    Except.bind]
  rfl

end Control

section Frame

variable (f : Frame)

def kind : Frame → UInt8
  | .probe _ => kindProbe
  | .control _ => kindControl

def fields : Frame → Bytes
  | .probe p => p.fields
  | .control c => c.fields

theorem appendBody_eq : f.appendBody [] = f.kind :: f.fields := by
  cases f with
  | probe p => exact p.appendBody_eq
  | control c => exact c.appendBody_eq

theorem kindValid_kind : kindValid f.kind = true := by
  cases f <;> rfl

theorem decodeBody_fields (hvalid : f.validate = .ok ()) :
    decodeBody f.kind f.fields = .ok f.normal := by
  cases f with
  | probe p => exact p.decodeProbe_fields hvalid
  | control c => exact c.decodeControl_fields

end Frame

/-! ## The wrapping -/

theorem slice_cons (x : UInt8) (b : Bytes) :
    slice (x :: b) 1 (x :: b).length = .ok b := slice_right [x] b

namespace Codec

variable (prims : Primitives) (c : Codec)

/-- A frame with all its parts is accepted when its kind is known and its tag is
right. -/
theorem unwrap_framed {nonce : Bytes} (hnonce : nonce.length = nonceLen)
    (first : UInt8) (rest : Bytes) {got : Bytes} (hgot : got.length = tagLen) :
    c.unwrap prims (nonce ++ ((first :: rest) ++ got)) =
      if !kindValid (first ^^^ prims.keystream c.obfKey nonce 0) then
        .error (.malformed ("unknown kind " ++
          toString (first ^^^ prims.keystream c.obfKey nonce 0).toNat))
      else if got ≠ prims.tag c.authKey nonce (first :: rest) then .error .auth
      else .ok (first ^^^ prims.keystream c.obfKey nonce 0,
        (first ^^^ prims.keystream c.obfKey nonce 0) ::
          (Cipher.xorKeyStream ⟨prims.keystream c.obfKey nonce, 1⟩ rest).2) := by
  have hbody := slice_left (first :: rest) got
  have htag := slice_right (first :: rest) got
  have hfirst : index ((first :: rest) ++ got) 0 = .ok first := rfl
  have hlength : ((first :: rest) ++ got).length - tagLen =
      (first :: rest).length := by
    rw [List.length_append]
    omega
  have henough : ¬((first :: rest) ++ got).length < tagLen + 1 := by
    rw [List.length_append, List.length_cons]
    omega
  rw [← hlength] at hbody htag
  generalize (first :: rest) ++ got = tail at hbody htag hfirst henough ⊢
  have hleft := slice_left nonce tail
  have hright := slice_right nonce tail
  rw [hnonce] at hleft hright
  have hlong : ¬(nonce ++ tail).length < nonceLen + 1 := by
    rw [List.length_append]
    omega
  simp only [unwrap, if_neg hlong, hleft, hright, hfirst, bind, Except.bind,
    newCipher, Cipher.xorKeyStream, List.mapIdx_cons, List.mapIdx_nil,
    index_cons, Nat.add_zero, if_neg henough, hbody, htag, slice_cons]
  rfl

/-- Whatever is shorter is malformed. -/
theorem unwrap_short {raw : Bytes} (h : raw.length < nonceLen + 1 + tagLen) :
    ∃ message, c.unwrap prims raw = .error (.malformed message) := by
  by_cases hshort : raw.length < nonceLen + 1
  · exact ⟨_, if_pos hshort⟩
  have hsplit : raw = raw.take nonceLen ++ raw.drop nonceLen :=
    (List.take_append_drop _ _).symm
  have hnonce : (raw.take nonceLen).length = nonceLen :=
    List.length_take_of_le (by omega)
  have hleft := slice_left (raw.take nonceLen) (raw.drop nonceLen)
  have hright := slice_right (raw.take nonceLen) (raw.drop nonceLen)
  rw [hnonce, ← hsplit] at hleft hright
  cases hrest : raw.drop nonceLen with
  | nil =>
    have := congrArg List.length hrest
    rw [List.length_drop, List.length_nil] at this
    omega
  | cons first rest =>
    have hlength := congrArg List.length hrest
    rw [List.length_drop] at hlength
    have hfew : (first :: rest).length < tagLen + 1 := by omega
    rw [hrest] at hright
    simp only [unwrap, if_neg hshort, hleft, hright, bind, Except.bind,
      index_cons, newCipher, Cipher.xorKeyStream, List.mapIdx_cons,
      List.mapIdx_nil]
    split
    · exact ⟨_, rfl⟩
    · exact ⟨_, rfl⟩

/-- Every longer input has the parts of a frame. -/
theorem exists_parts {raw : Bytes} (h : nonceLen + 1 + tagLen ≤ raw.length) :
    ∃ nonce first rest got, raw = nonce ++ ((first :: rest) ++ got) ∧
      nonce.length = nonceLen ∧ got.length = tagLen := by
  have hsplit : raw = raw.take nonceLen ++ raw.drop nonceLen :=
    (List.take_append_drop _ _).symm
  obtain ⟨tail, htail⟩ : ∃ tail, raw.drop nonceLen = tail := ⟨_, rfl⟩
  have hlength : tail.length = raw.length - nonceLen := by
    rw [← htail, List.length_drop]
  have hbody : (tail.take (tail.length - tagLen)).length =
      tail.length - tagLen := List.length_take_of_le (Nat.sub_le _ _)
  cases hcons : tail.take (tail.length - tagLen) with
  | nil =>
    rw [hcons, List.length_nil] at hbody
    omega
  | cons first rest =>
    refine ⟨raw.take nonceLen, first, rest, tail.drop (tail.length - tagLen),
      ?_, List.length_take_of_le (by omega), ?_⟩
    · rwa [← hcons, List.take_append_drop, ← htail]
    · rw [List.length_drop]
      omega

theorem encode_ok {dst wire : Bytes} {f : Frame} {nonce : Option Nonce}
    (h : (c.encode prims dst f nonce).2 = .ok wire) :
    f.validate = .ok () ∧ ∃ n, nonce = some n ∧
      wire = dst ++ (n.bytes ++ (obfuscate prims c.obfKey n.bytes
        (f.kind :: f.fields) ++ prims.tag c.authKey n.bytes
          (obfuscate prims c.obfKey n.bytes (f.kind :: f.fields)))) := by
  unfold encode at h
  split at h
  · cases h
  next hvalid =>
    refine ⟨hvalid, ?_⟩
    cases nonce with
    | none => cases h
    | some n =>
      refine ⟨n, rfl, ?_⟩
      have hwire := (Except.ok.inj h).symm
      rw [f.appendBody_eq] at hwire
      rw [hwire]
      simp only [List.append_assoc]

/-- The scratch buffers of the decoder do not matter. -/
theorem decode_framed {nonce : Bytes} (hnonce : nonce.length = nonceLen)
    {f : Frame} (hvalid : f.validate = .ok ()) (encScratch decScratch : Bytes) :
    let d : Codec := ⟨c.obfKey, c.authKey, encScratch, decScratch⟩
    let body := obfuscate prims c.obfKey nonce (f.kind :: f.fields)
    (d.decode prims (nonce ++ (body ++ prims.tag c.authKey nonce body))).2 =
      .ok f.normal := by
  intro d body
  have hbody : body = (f.kind ^^^ prims.keystream c.obfKey nonce 0) ::
      (Cipher.xorKeyStream ⟨prims.keystream c.obfKey nonce, 1⟩ f.fields).2 :=
    xorKeyStream_cons (newCipher prims c.obfKey nonce) f.kind f.fields
  have hkind : f.kind ^^^ prims.keystream c.obfKey nonce 0 ^^^
      prims.keystream c.obfKey nonce 0 = f.kind := by
    rw [UInt8.xor_assoc, UInt8.xor_self, UInt8.xor_zero]
  have hunwrap : d.unwrap prims
      (nonce ++ (body ++ prims.tag c.authKey nonce body)) =
        .ok (f.kind, f.kind :: f.fields) := by
    rw [hbody, unwrap_framed prims d hnonce _ _ (prims.tag_length _ _ _), hkind,
      f.kindValid_kind, if_neg (by decide), if_neg (not_not.mpr rfl),
      xorKeyStream_self]
  rw [decode, hunwrap]
  change (do let b ← slice (f.kind :: f.fields) 1 (f.kind :: f.fields).length
             decodeBody f.kind b) = _
  rw [slice_cons]
  exact f.decodeBody_fields hvalid

/-- What is accepted carries the tag of the rest, and nothing goes out of
range. -/
theorem decode_safe (raw : Bytes) :
    (c.decode prims raw).2 ≠ .error .outOfRange ∧
      ∀ f, (c.decode prims raw).2 = .ok f →
        nonceLen + 1 + tagLen ≤ raw.length ∧
        raw.drop (raw.length - tagLen) = prims.tag c.authKey
          (raw.take nonceLen) ((raw.take (raw.length - tagLen)).drop nonceLen) := by
  rcases Nat.lt_or_ge raw.length (nonceLen + 1 + tagLen) with hshort | hlong
  · obtain ⟨message, hunwrap⟩ := c.unwrap_short prims hshort
    rw [decode, hunwrap]
    exact ⟨nofun, nofun⟩
  obtain ⟨nonce, first, rest, got, rfl, hnonce, hgot⟩ := exists_parts hlong
  have hunwrap := c.unwrap_framed prims hnonce first rest hgot
  rw [decode]
  split at hunwrap
  · rw [hunwrap]
    exact ⟨nofun, nofun⟩
  split at hunwrap
  · rw [hunwrap]
    exact ⟨nofun, nofun⟩
  next htag =>
    rw [hunwrap]
    dsimp only
    rw [slice_cons]
    refine ⟨(reads_decodeBody _ _).ne, fun f _ => ⟨hlong, ?_⟩⟩
    have hlength : (nonce ++ ((first :: rest) ++ got)).length - tagLen =
        (nonce ++ (first :: rest)).length := by
      simp only [List.length_append]
      omega
    rw [hlength, ← List.append_assoc, List.drop_left, List.take_left,
      ← hnonce, List.drop_left, List.append_assoc, List.take_left]
    exact not_not.mp htag

end Codec

/-! ## Results -/

/-- What `Encode` accepts `Decode` returns, with any content of the scratch
buffers on either side; the sizes on the wire are as announced; and on any bytes
at all `Decode` stays within range and accepts only what ends in the tag of the
rest. -/
theorem frame_codec (prims : Primitives) (c : Codec)
    (encScratch decScratch : Bytes) :
    let d : Codec := ⟨c.obfKey, c.authKey, encScratch, decScratch⟩
    (∀ dst f nonce wire, (c.encode prims dst f nonce).2 = .ok wire →
      ∃ raw, wire = dst ++ raw ∧ (d.decode prims raw).2 = .ok f.normal ∧
        (∀ q, f = .control q → raw.length = 50 + q.payload.length) ∧
        ∀ p, f = .probe p → p.padded = true →
          raw.length = probeOnWireSize p.padLen) ∧
    ∀ raw, (d.decode prims raw).2 ≠ .error .outOfRange ∧
      ∀ f, (d.decode prims raw).2 = .ok f →
        nonceLen + 1 + tagLen ≤ raw.length ∧
        raw.drop (raw.length - tagLen) = prims.tag d.authKey
          (raw.take nonceLen)
          ((raw.take (raw.length - tagLen)).drop nonceLen) := by
  intro d
  refine ⟨fun dst f nonce wire hencode => ?_, d.decode_safe prims⟩
  obtain ⟨hvalid, n, -, rfl⟩ := c.encode_ok prims hencode
  have hlength : ∀ body : Bytes, (n.bytes ++ (obfuscate prims c.obfKey n.bytes
      (f.kind :: body) ++ prims.tag c.authKey n.bytes
        (obfuscate prims c.obfKey n.bytes (f.kind :: body)))).length =
          41 + body.length := by
    intro body
    rw [List.length_append, List.length_append, prims.tag_length, obfuscate,
      length_xorKeyStream, n.length_eq, List.length_cons, nonceLen, tagLen]
    omega
  refine ⟨_, rfl, c.decode_framed prims n.length_eq hvalid _ _, ?_, ?_⟩
  · rintro q rfl
    rw [hlength, Frame.fields, q.length_fields]
    omega
  rintro p rfl hpadded
  rw [hlength, Frame.fields, p.length_fields, Probe.tail, if_pos hpadded,
    List.length_append, BigEndian.length_encode, List.length_replicate,
    probeOnWireSize, probeBaseOnWire, nonceLen, probeFixedBody, tagLen]
  omega

end Wanbond.Frame
