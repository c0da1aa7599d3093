import SftpWire.Primitive

/-!
# Frames on the stream

`sendPacket` writes one frame: the payload's length as a `uint32` in network order, which
it builds by hand, and then the payload `MarshalBinary` returned, in two `Write` calls.
`recvPacket` reads the four length bytes with `io.ReadFull`, then that many bytes, and
returns the first of them as the packet type and the rest as the body.

A writer is modelled by what it makes of the output stream, and a reader by the inbound
stream it has left: `io.ReadFull` of `n` bytes succeeds when at least `n` are left, and
otherwise fails with `io.EOF` when none were left and `io.ErrUnexpectedEOF` when some
were. `make([]byte, l)` is taken to succeed for every `uint32` length `l`, as it does
where `int` has 64 bits; on a 32-bit target a length of `2^31` or more makes it panic.
The `debugDump*` constants are `false`, so their branches are left out.

`frame` is the framing the protocol asks for, a length prefix and the payload. The
results here say when the code writes and reads exactly that: `sendPacket` always writes
`frame` of a payload shorter than `2^32` bytes, and `recvPacket` reads one back unless
its payload is empty, where `b[0]` panics.
-/

namespace SftpWire

/-- An `io.Writer`: the output stream after `Write(p)`, and the error it returned. -/
def Writer := Bytes → Bytes → Bytes × Option GoError

/-- Every `Write` writes its whole buffer and returns no error. -/
def WritesWhole (w : Writer) : Prop := ∀ out p, w out p = (out ++ p, none)

/-- `sendPacket(w, m)`, where `m` is what `m.MarshalBinary()` returned. -/
def sendPacket (w : Writer) (out : Bytes) : Except GoError Bytes → Bytes × Option GoError
  | .error err => (out, some (.marshalFailed err))
  | .ok bb =>
    match w out (header bb) with
    | (out, some err) => (out, some err)
    | (out, none) => w out bb
where
  /-- `l := uint32(len(bb))`, then `hdr := []byte{byte(l >> 24), byte(l >> 16),
  byte(l >> 8), byte(l)}`. -/
  header (bb : Bytes) : Bytes :=
    let l := UInt32.ofNat bb.length
    [(l >>> 24).toUInt8, (l >>> 16).toUInt8, (l >>> 8).toUInt8, l.toUInt8]

/-- `io.ReadFull(r, buf)` with `len(buf) = n`: the bytes read, the stream left and the
error. -/
def readFull (s : Bytes) (n : Nat) : Bytes × Bytes × Option GoError :=
  if n ≤ s.length then (s.take n, s.drop n, none)
  else (s, [], some (if s.isEmpty then .eof else .unexpectedEOF))

/-- `recvPacket(r)`: the type byte, the body and the error, and the stream left; `none`
is a panic. -/
def recvPacket (s : Bytes) : Option ((UInt8 × Bytes × Option GoError) × Bytes) :=
  match readFull s 4 with
  | (_, s, some err) => some ((0, [], some err), s)
  | (b, s, none) => (unmarshalUint32 b).bind fun (l, _) => readPayload s l.toNat
where
  /-- `b = make([]byte, l)`, `io.ReadFull(r, b)`, then `return b[0], b[1:], nil`. -/
  readPayload (s : Bytes) (l : Nat) : Option ((UInt8 × Bytes × Option GoError) × Bytes) :=
    match readFull s l with
    | (_, s, some err) => some ((0, [], some err), s)
    | (b, s, none) => do
      let t ← b[0]?
      let body ← sliceFrom b 1
      pure ((t, body, none), s)

/-- The frame of a payload: its length in four bytes, network order, then the payload. -/
def frame (p : Bytes) : Bytes := bigEndian 4 p.length ++ p

/-- The hand-built header is the payload's length modulo `2^32`, in network order. -/
theorem sendPacket.header_eq (bb : Bytes) : sendPacket.header bb = bigEndian 4 bb.length := by
  show marshalUint32 [] (UInt32.ofNat bb.length) = _
  rw [marshalUint32_eq, UInt32.toNat_ofNat', two_pow_32, bigEndian_mod, List.nil_append]

theorem sendPacket_ok {w : Writer} (hw : WritesWhole w) (out bb : Bytes) :
    sendPacket w out (.ok bb) = (out ++ frame bb, none) := by
  have hw' : ∀ out p, w out p = (out ++ p, none) := hw
  simp only [sendPacket, hw', frame, sendPacket.header_eq, List.append_assoc]

/-- `sendPacket(w, m)` for each of `ms` in turn, from the output stream `out`. -/
def sendAll (w : Writer) (out : Bytes) (ms : List (Except GoError Bytes)) : Bytes :=
  ms.foldl (fun out m => (sendPacket w out m).1) out

theorem sendAll_ok {w : Writer} (hw : WritesWhole w) (out : Bytes) (ps : List Bytes) :
    sendAll w out (ps.map .ok) = out ++ ps.flatMap frame := by
  induction ps generalizing out with
  | nil => simp [sendAll]
  | cons p ps ih =>
    simp only [sendAll, List.map_cons, List.foldl_cons] at ih ⊢
    rw [sendPacket_ok hw, ih, List.flatMap_cons, List.append_assoc]

theorem readFull_of_le {s : Bytes} {n : Nat} (h : n ≤ s.length) :
    readFull s n = (s.take n, s.drop n, none) := if_pos h

theorem readFull_of_lt {s : Bytes} {n : Nat} (h : s.length < n) :
    ∃ e, readFull s n = (s, [], some e) := ⟨_, if_neg (Nat.not_le.mpr h)⟩

theorem recvPacket_of_le {s : Bytes} (h : 4 ≤ s.length) :
    recvPacket s = recvPacket.readPayload (s.drop 4) (beValue (s.take 4)) := by
  simp only [recvPacket, readFull_of_le h,
    unmarshalUint32_of_le (by simp; omega : 4 ≤ (s.take 4).length),
    List.take_take, Nat.min_self, UInt32.toNat_ofNat_beValue, Option.some_bind]

/-- `recvPacket` on every stream: an error when fewer than `4 + L` bytes are there, `L`
being the big-endian `uint32` of the first four; the frame and the stream after it when
they are and `L > 0`; and a panic when `L = 0`. -/
theorem recvPacket_spec (s : Bytes) :
    (s.length < 4 + beValue (s.take 4) → ∃ e, recvPacket s = some ((0, [], some e), [])) ∧
    (4 + beValue (s.take 4) ≤ s.length → 0 < beValue (s.take 4) →
      recvPacket s = some ((s.getD 4 0, ((s.drop 4).take (beValue (s.take 4))).tail, none),
        s.drop (4 + beValue (s.take 4)))) ∧
    (4 ≤ s.length → beValue (s.take 4) = 0 → recvPacket s = none) := by
  refine ⟨fun h => ?_, fun h hL => ?_, fun h hL => ?_⟩
  · by_cases h4 : s.length < 4
    · obtain ⟨e, he⟩ := readFull_of_lt h4
      exact ⟨e, by simp only [recvPacket, he]⟩
    · obtain ⟨e, he⟩ :=
        readFull_of_lt (by simp; omega : (s.drop 4).length < beValue (s.take 4))
      exact ⟨e, by rw [recvPacket_of_le (by omega), recvPacket.readPayload, he]⟩
  · rw [recvPacket_of_le (by omega), recvPacket.readPayload, readFull_of_le (by simp; omega)]
    obtain ⟨x, xs, hx⟩ : ∃ x xs, (s.drop 4).take (beValue (s.take 4)) = x :: xs :=
      List.exists_cons_of_ne_nil (by simp; omega)
    have hs : s.getD 4 0 = x := by
      have := congrArg (·.headD 0) hx
      simp only [List.headD_cons] at this
      rw [← this, List.getD_eq_getElem?_getD, List.headD_eq_head?_getD, List.head?_take,
        if_neg (by omega), List.head?_drop]
    simp [hx, ← hs, sliceFrom]
  · rw [recvPacket_of_le h, hL, recvPacket.readPayload, readFull_of_le (Nat.zero_le _)]
    rfl

/-- A frame's header holds the payload's length modulo `2^32`, and `recvPacket` reads
that many bytes of what follows. -/
theorem recvPacket_frame_eq (p rest : Bytes) :
    recvPacket (frame p ++ rest) = recvPacket.readPayload (p ++ rest) (p.length % 2 ^ 32) := by
  have htake : (frame p ++ rest).take 4 = bigEndian 4 p.length := by
    rw [frame, List.append_assoc, List.take_left' (length_bigEndian 4 _)]
  rw [recvPacket_of_le (by simp [frame]), htake, beValue_bigEndian, ← two_pow_32, frame,
    List.append_assoc, List.drop_left' (length_bigEndian 4 _)]

/-- A payload that is not empty and shorter than `2^32` bytes is read back, and the
stream after its frame is left. -/
theorem recvPacket_frame {p : Bytes} (hp : p.length < 2 ^ 32) (hne : p ≠ []) (rest : Bytes) :
    recvPacket (frame p ++ rest) = some ((p.headD 0, p.tail, none), rest) := by
  obtain ⟨x, xs, rfl⟩ := List.exists_cons_of_ne_nil hne
  rw [recvPacket_frame_eq, Nat.mod_eq_of_lt hp, recvPacket.readPayload,
    readFull_of_le (by simp), List.take_left' rfl, List.drop_left' rfl]
  simp [sliceFrom]

/-- A payload of `2^32` bytes or more is not read back: the header holds its length
modulo `2^32`, so `recvPacket` panics or returns a shorter body. -/
theorem recvPacket_frame_oversized {p : Bytes} (hp : 2 ^ 32 ≤ p.length) (rest s : Bytes) :
    recvPacket (frame p ++ rest) ≠ some ((p.headD 0, p.tail, none), s) := by
  have hL : p.length % 2 ^ 32 < p.length := Nat.lt_of_lt_of_le (Nat.mod_lt _ (by omega)) hp
  rw [recvPacket_frame_eq, recvPacket.readPayload, readFull_of_le (by simp; omega),
    List.take_append_of_le_length hL.le]
  intro h
  simp only [Option.bind_eq_bind, Option.bind_eq_some, Option.pure_def, Option.some.injEq,
    Prod.mk.injEq] at h
  obtain ⟨t, -, body, hbody, ⟨-, rfl, -⟩, -⟩ := h
  unfold sliceFrom at hbody
  split at hbody
  · have hlen := congrArg List.length (Option.some.inj hbody)
    simp only [List.length_drop, List.length_take, List.length_tail] at hlen
    omega
  · cases hbody

/-- A payload whose length is a multiple of `2^32` gets the header `[0, 0, 0, 0]`, and
`recvPacket` panics on it. -/
theorem recvPacket_frame_wraps {p : Bytes} (hp : p.length % 2 ^ 32 = 0) (rest : Bytes) :
    recvPacket (frame p ++ rest) = none := by
  rw [recvPacket_frame_eq, hp, recvPacket.readPayload, readFull_of_le (Nat.zero_le _)]
  rfl

/-- `n` successive `recvPacket` calls: the type and body of each and the stream left, or
`none` if one of them panics or returns an error. -/
def recvPackets : Nat → Bytes → Option (List (UInt8 × Bytes) × Bytes)
  | 0, s => some ([], s)
  | n + 1, s => match recvPacket s with
    | some ((t, body, none), s) => (recvPackets n s).map fun (ps, s) => ((t, body) :: ps, s)
    | _ => none

theorem recvPackets_succ_eq_some {n : Nat} {s s' : Bytes} {ps : List (UInt8 × Bytes)} :
    recvPackets (n + 1) s = some (ps, s') ↔ ∃ t body s₁ ps₁,
      recvPacket s = some ((t, body, none), s₁) ∧ recvPackets n s₁ = some (ps₁, s') ∧
        ps = (t, body) :: ps₁ := by
  rw [recvPackets]
  split
  · next t body s₁ h =>
    constructor
    · intro hr
      obtain ⟨⟨ps₁, s₂⟩, hr, heq⟩ := Option.map_eq_some'.mp hr
      cases heq
      exact ⟨t, body, s₁, ps₁, h, hr, rfl⟩
    · rintro ⟨t', body', s₂, ps₁, hr, hrs, rfl⟩
      rw [h] at hr
      cases hr
      rw [hrs]
      rfl
  · next h =>
    constructor
    · intro hr
      cases hr
    · rintro ⟨t, body, s₁, ps₁, hr, -, -⟩
      exact absurd hr (h t body s₁)

/-- The frames of non-empty payloads are read back one by one, leaving what follows them,
exactly when every payload is shorter than `2^32` bytes. -/
theorem recvPackets_frames {ps : List Bytes} (hne : ∀ p ∈ ps, p ≠ []) (rest : Bytes) :
    recvPackets ps.length (ps.flatMap frame ++ rest) =
        some (ps.map fun p => (p.headD 0, p.tail), rest) ↔ ∀ p ∈ ps, p.length < 2 ^ 32 := by
  induction ps with
  | nil => simp [recvPackets]
  | cons p ps ih =>
    have hne' : ∀ q ∈ ps, q ≠ [] := fun q hq => hne q (List.mem_cons_of_mem p hq)
    rw [List.length_cons, List.flatMap_cons, List.append_assoc, List.map_cons,
      recvPackets_succ_eq_some, List.forall_mem_cons]
    constructor
    · rintro ⟨t, body, s₁, ps₁, hr, hrs, hcons⟩
      obtain ⟨⟨rfl, rfl⟩, rfl⟩ := List.cons.inj hcons
      have hp : p.length < 2 ^ 32 := Nat.lt_of_not_le fun hp => recvPacket_frame_oversized hp _ _ hr
      rw [recvPacket_frame hp (hne p (List.mem_cons_self p ps)), Option.some.injEq] at hr
      obtain ⟨-, rfl⟩ := Prod.mk.inj hr
      exact ⟨hp, (ih hne').mp hrs⟩
    · rintro ⟨hp, hps⟩
      exact ⟨_, _, _, _, recvPacket_frame hp (hne p (List.mem_cons_self p ps)) _,
        (ih hne').mpr hps, rfl⟩

/-- Framing round-trips over any sequence of payloads: when every `Write` writes its whole
buffer, reading back as many frames as were sent gives every payload's type byte and body
in order and leaves no byte unread, exactly when every payload is shorter than `2^32`. -/
theorem recvPackets_sendAll {w : Writer} (hw : WritesWhole w) {ps : List Bytes}
    (hne : ∀ p ∈ ps, p ≠ []) :
    recvPackets ps.length (sendAll w [] (ps.map .ok)) =
        some (ps.map fun p => (p.headD 0, p.tail), []) ↔ ∀ p ∈ ps, p.length < 2 ^ 32 := by
  rw [sendAll_ok hw, List.nil_append, ← List.append_nil (ps.flatMap frame)]
  exact recvPackets_frames hne []

theorem recvPackets_sendAll_two_frames :
    WritesWhole (fun out p => (out ++ p, none)) ∧
    (∀ p ∈ ([[1, 2], [3]] : List Bytes), p ≠ []) ∧
    (recvPackets 2
        (sendAll (fun out p => (out ++ p, none)) [] (([[1, 2], [3]] : List Bytes).map .ok)) =
        some ([(1, [2]), (3, [])], []) ↔
      ∀ p ∈ ([[1, 2], [3]] : List Bytes), p.length < 2 ^ 32) :=
  ⟨fun _ _ => rfl, by decide,
    @recvPackets_sendAll (fun out p => (out ++ p, none)) (fun _ _ => rfl) [[1, 2], [3]]
      (by decide)⟩

/-- The frame of an empty payload, `[0, 0, 0, 0]`: `recvPacket` reads its four bytes and
no more, then indexes `b[0]` on the empty buffer and panics. -/
theorem recvPacket_empty_frame : recvPacket [0, 0, 0, 0] = none := rfl

end SftpWire
