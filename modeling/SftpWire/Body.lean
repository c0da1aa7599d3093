import SftpWire.Packet

/-!
# The body of each packet type

For each decoder chain of `Packet.lean`, its `Decode.Spec`: the encoding it inverts is
`MarshalBinary` without the tag byte, and the value it fills in is the packet that was
encoded. The fixed layouts are assembled field by field; the four chains that end in a
statement of their own (`WRITE` and `DATA` read a declared number of bytes, `SETSTAT`
and `FSETSTAT` keep the rest of the buffer, `INIT` loops over extension pairs) are
stated and proved separately.

Every decoder of a packet with an `Id` reads it first and never writes it again, so the
receiver's `Id` is the buffer's first word however the decode ends (the `decodeBody_sets_id`
lemmas).
-/

namespace SftpWire

open Decode

theorem SshFxpOpenPacket.decodeBody_spec :
    Spec SshFxpOpenPacket.decodeBody (fun p => p.marshalBinary.tail)
      (fun p => p.path.length < 2 ^ 32) (fun q _ => q) :=
  ((((Spec.field Codec.uint32 SshFxpOpenPacket.id _ fun _ _ => rfl).andThen_field Codec.string
    SshFxpOpenPacket.path _).andThen_field Codec.uint32 SshFxpOpenPacket.pflags _).andThen_field
    Codec.uint32 SshFxpOpenPacket.flags _).of_eq
    (fun p => by simp [SshFxpOpenPacket.marshalBinary])
    (fun p => by simp [Codec.uint32, Codec.string])
    (fun _ _ => rfl)

theorem SshFxpReadPacket.decodeBody_spec :
    Spec SshFxpReadPacket.decodeBody (fun p => p.marshalBinary.tail)
      (fun p => p.handle.length < 2 ^ 32) (fun q _ => q) :=
  ((((Spec.field Codec.uint32 SshFxpReadPacket.id _ fun _ _ => rfl).andThen_field Codec.string
    SshFxpReadPacket.handle _).andThen_field Codec.uint64 SshFxpReadPacket.offset _).andThen_field
    Codec.uint32 SshFxpReadPacket.len _).of_eq
    (fun p => by simp [SshFxpReadPacket.marshalBinary])
    (fun p => by simp [Codec.uint32, Codec.uint64, Codec.string])
    (fun _ _ => rfl)

theorem SshFxpRenamePacket.decodeBody_spec :
    Spec SshFxpRenamePacket.decodeBody (fun p => p.marshalBinary.tail)
      (fun p => p.oldpath.length < 2 ^ 32 ∧ p.newpath.length < 2 ^ 32) (fun q _ => q) :=
  (((Spec.field Codec.uint32 SshFxpRenamePacket.id _ fun _ _ => rfl).andThen_field Codec.string
    SshFxpRenamePacket.oldpath _).andThen_field Codec.string SshFxpRenamePacket.newpath _).of_eq
    (fun p => by simp [SshFxpRenamePacket.marshalBinary])
    (fun p => by simp [Codec.uint32, Codec.string])
    (fun _ _ => rfl)

theorem SshFxpMkdirPacket.decodeBody_spec :
    Spec SshFxpMkdirPacket.decodeBody (fun p => p.marshalBinary.tail)
      (fun p => p.path.length < 2 ^ 32) (fun q _ => q) :=
  (((Spec.field Codec.uint32 SshFxpMkdirPacket.id _ fun _ _ => rfl).andThen_field Codec.string
    SshFxpMkdirPacket.path _).andThen_field Codec.uint32 SshFxpMkdirPacket.flags _).of_eq
    (fun p => by simp [SshFxpMkdirPacket.marshalBinary])
    (fun p => by simp [Codec.uint32, Codec.string])
    (fun _ _ => rfl)

theorem SshFxpSymlinkPacket.decodeBody_spec :
    Spec SshFxpSymlinkPacket.decodeBody (fun p => p.marshalBinary.tail)
      (fun p => p.targetpath.length < 2 ^ 32 ∧ p.linkpath.length < 2 ^ 32) (fun q _ => q) :=
  (((Spec.field Codec.uint32 SshFxpSymlinkPacket.id _ fun _ _ => rfl).andThen_field Codec.string
    SshFxpSymlinkPacket.targetpath _).andThen_field Codec.string
    SshFxpSymlinkPacket.linkpath _).of_eq
    (fun p => by simp [SshFxpSymlinkPacket.marshalBinary])
    (fun p => by simp [Codec.uint32, Codec.string]) (fun _ _ => rfl)

theorem idStringBody_spec (packetType : UInt8) :
    Spec idStringBody (fun p => (marshalIdString packetType p.1 p.2).tail)
      (fun p => p.2.length < 2 ^ 32) (fun q _ => q) :=
  ((Spec.field Codec.uint32 Prod.fst _ fun _ _ => rfl).andThen_field Codec.string Prod.snd _).of_eq
    (fun p => by simp [marshalIdString]) (fun p => by simp [Codec.uint32, Codec.string])
    (fun _ _ => rfl)

/-- Passing the check `uint32(len(b)) < p.Length` means that many bytes are there. -/
theorem declared_le_of_check {b : Bytes} {n : UInt32} (h : ¬ UInt32.ofNat b.length < n) :
    n.toNat ≤ b.length := by
  have h' : ¬ (UInt32.ofNat b.length).toNat < n.toNat := h
  rw [UInt32.toNat_ofNat'] at h'
  have := Nat.mod_le b.length (2 ^ 32)
  omega

/-- A buffer shorter than `2^32` passes the check once the declared bytes are there. -/
theorem check_of_declared_le {b : Bytes} {n : UInt32} (h : n.toNat ≤ b.length)
    (hb : b.length < 2 ^ 32) : ¬ UInt32.ofNat b.length < n := by
  show ¬ (UInt32.ofNat b.length).toNat < n.toNat
  rw [UInt32.toNat_ofNat', Nat.mod_eq_of_lt hb]
  omega

theorem SshFxpWritePacket.readData_eq (p : SshFxpWritePacket) (b : Bytes) :
    SshFxpWritePacket.readData p b =
      if UInt32.ofNat b.length < p.length then some (p, b, some .shortPacket)
      else some ({ p with data := b.take p.length.toNat }, b.drop p.length.toNat, none) := by
  unfold SshFxpWritePacket.readData
  split
  · rfl
  · next h => simp [sliceTo_of_le (declared_le_of_check h)]

theorem SshFxpWritePacket.decodeHeader_spec :
    Spec SshFxpWritePacket.decodeHeader
      (fun p => ({ p with data := [] } : SshFxpWritePacket).marshalBinary.tail)
      (fun p => p.handle.length < 2 ^ 32) (fun q p => { q with data := p.data }) :=
  ((((Spec.field Codec.uint32 SshFxpWritePacket.id _ fun _ _ => rfl).andThen_field Codec.string
    SshFxpWritePacket.handle _).andThen_field Codec.uint64 SshFxpWritePacket.offset _).andThen_field
    Codec.uint32 SshFxpWritePacket.length _).of_eq
    (fun p => by simp [SshFxpWritePacket.marshalBinary])
    (fun p => by simp [Codec.uint32, Codec.uint64, Codec.string]) (fun _ _ => rfl)

theorem SshFxpWritePacket.marshalBinary_tail (p : SshFxpWritePacket) :
    p.marshalBinary.tail =
      ({ p with data := [] } : SshFxpWritePacket).marshalBinary.tail ++ p.data := by
  simp [SshFxpWritePacket.marshalBinary]

theorem SshFxpWritePacket.decodeBody_total : Total SshFxpWritePacket.decodeBody :=
  SshFxpWritePacket.decodeHeader_spec.total.andThen fun p b => by
    rw [SshFxpWritePacket.readData_eq]; split <;> rfl

theorem SshFxpWritePacket.decodeBody_fails :
    Fails SshFxpWritePacket.decodeBody (· = .shortPacket) :=
  SshFxpWritePacket.decodeHeader_spec.short.andThen fun p b q rest e h => by
    rw [SshFxpWritePacket.readData_eq] at h
    split at h <;> simp_all

theorem SshFxpWritePacket.decodeBody_sound {p q : SshFxpWritePacket} {b rest : Bytes}
    (h : SshFxpWritePacket.decodeBody p b = some (q, rest, none)) :
    b = q.marshalBinary.tail ++ rest ∧ q.length.toNat = q.data.length := by
  obtain ⟨p₁, b₁, h₁, h₂⟩ := andThen_eq_ok h
  rw [SshFxpWritePacket.readData_eq] at h₂
  split at h₂
  · cases h₂
  · next hcheck =>
    have hle := declared_le_of_check hcheck
    simp only [Option.some.injEq, Prod.mk.injEq, and_true] at h₂
    obtain ⟨rfl, rfl⟩ := h₂
    refine ⟨?_, by simp; omega⟩
    rw [SshFxpWritePacket.marshalBinary_tail, List.append_assoc, List.take_append_drop]
    exact (SshFxpWritePacket.decodeHeader_spec.sound h₁).1

theorem SshFxpWritePacket.decodeBody_complete (q p : SshFxpWritePacket) (r : Bytes)
    (hq : q.length.toNat = q.data.length) (hlen : (q.marshalBinary.tail ++ r).length < 2 ^ 32) :
    SshFxpWritePacket.decodeBody p (q.marshalBinary.tail ++ r) = some (q, r, none) := by
  rw [SshFxpWritePacket.marshalBinary_tail, List.append_assoc] at hlen ⊢
  have hok := SshFxpWritePacket.decodeHeader_spec.ok_of_length q
    (by rw [List.length_append] at hlen; omega)
  rw [SshFxpWritePacket.decodeBody,
    andThen_ok (SshFxpWritePacket.decodeHeader_spec.complete q p _ hok),
    SshFxpWritePacket.readData_eq,
    if_neg (check_of_declared_le (by simp; omega) (by simp at hlen ⊢; omega))]
  simp [hq]

theorem SshFxpDataPacket.decodeHeader_spec :
    Spec SshFxpDataPacket.decodeHeader
      (fun p => bigEndian 4 p.id.toNat ++ bigEndian 4 p.length.toNat) (fun _ => True)
      (fun q p => { q with data := p.data, spare := p.spare }) :=
  ((Spec.field Codec.uint32 SshFxpDataPacket.id _ fun _ _ => rfl).andThen_field Codec.uint32
    SshFxpDataPacket.length _).of_eq (fun _ => rfl) (fun _ => by simp [Codec.uint32])
    (fun _ _ => rfl)

theorem SshFxpDataPacket.marshalBinary_eq_some {q : SshFxpDataPacket} {bb : Bytes} :
    q.marshalBinary = some bb ↔ q.length.toNat ≤ q.data.length + q.spare.length ∧
      bb = sshFxpData :: (bigEndian 4 q.id.toNat ++ bigEndian 4 q.length.toNat ++
        (q.data ++ q.spare).take q.length.toNat) := by
  simp only [SshFxpDataPacket.marshalBinary, sliceTo, List.length_append]
  split <;> simp [*, eq_comm]

theorem SshFxpDataPacket.decodeBody_total : Total SshFxpDataPacket.decodeBody :=
  SshFxpDataPacket.decodeHeader_spec.total.andThen fun p b => by
    unfold SshFxpDataPacket.readData; split <;> rfl

theorem SshFxpDataPacket.decodeBody_fails : Fails SshFxpDataPacket.decodeBody
    (fun e => e = .shortPacket ∨ e = .errorf "truncated packet") :=
  (SshFxpDataPacket.decodeHeader_spec.short.mono fun _ => .inl).andThen fun p b q rest e h => by
    unfold SshFxpDataPacket.readData at h
    split at h <;> simp_all

theorem SshFxpDataPacket.decodeBody_sound {p q : SshFxpDataPacket} {b rest : Bytes}
    (h : SshFxpDataPacket.decodeBody p b = some (q, rest, none)) :
    ∃ bb, q.marshalBinary = some bb ∧ b = bb.tail ++ rest ∧
      q.length.toNat = q.data.length := by
  obtain ⟨p₁, b₁, h₁, h₂⟩ := andThen_eq_ok h
  unfold SshFxpDataPacket.readData at h₂
  split at h₂
  · cases h₂
  · next hcheck =>
    have hle := declared_le_of_check hcheck
    simp only [Option.some.injEq, Prod.mk.injEq, and_true] at h₂
    obtain ⟨rfl, rfl⟩ := h₂
    have hlen : (b₁.take p₁.length.toNat).length = p₁.length.toNat := by simp; omega
    refine ⟨_, SshFxpDataPacket.marshalBinary_eq_some.mpr ⟨hlen.ge, rfl⟩, ?_, hlen.symm⟩
    rw [(SshFxpDataPacket.decodeHeader_spec.sound h₁).1]
    simp [List.take_take]

theorem SshFxpDataPacket.decodeBody_complete {q : SshFxpDataPacket} {bb : Bytes}
    (p : SshFxpDataPacket)
    (r : Bytes) (hq : q.marshalBinary = some bb) (hlen : (bb.tail ++ r).length < 2 ^ 32) :
    SshFxpDataPacket.decodeBody p (bb.tail ++ r) =
      some ({ q with data := (q.data ++ q.spare).take q.length.toNat, spare := [] }, r, none) := by
  obtain ⟨hle, rfl⟩ := SshFxpDataPacket.marshalBinary_eq_some.mp hq
  simp only [List.tail_cons] at hlen ⊢
  rw [List.append_assoc (bigEndian 4 q.id.toNat ++ _), SshFxpDataPacket.decodeBody,
    andThen_ok (SshFxpDataPacket.decodeHeader_spec.complete q p _ trivial)]
  unfold SshFxpDataPacket.readData
  rw [if_neg (check_of_declared_le (by simp; omega) (by simp at hlen ⊢; omega))]
  simp [hle]

section Attrs

variable {P : Type} {d : Decode P} {put : P → Bytes} {ok : P → Prop} {fill : P → P → P}
  (setAttrs : P → Value → P)

/-- The statement `p.Attrs = b` that ends both decoders. -/
def attrsTail : Decode P := fun p b => some (setAttrs p (.ofBytes b), [], none)

theorem Decode.Spec.andThen_attrs_total (h : Spec d put ok fill) :
    Total (d.andThen (attrsTail setAttrs)) :=
  h.total.andThen fun _ _ => rfl

theorem Decode.Spec.andThen_attrs_fails (h : Spec d put ok fill) :
    Fails (d.andThen (attrsTail setAttrs)) (· = .shortPacket) :=
  h.short.andThen fun _ _ _ _ _ h => by cases h

theorem Decode.Spec.andThen_attrs_sound (h : Spec d put ok fill)
    (hput : ∀ p v, put (setAttrs p v) = put p) {p q : P} {b rest : Bytes}
    (hd : d.andThen (attrsTail setAttrs) p b = some (q, rest, none)) :
    ∃ p₁ b₁, q = setAttrs p₁ (.ofBytes b₁) ∧ b = put q ++ b₁ ∧ rest = [] := by
  obtain ⟨p₁, b₁, h₁, h₂⟩ := andThen_eq_ok hd
  simp only [attrsTail, Option.some.injEq, Prod.mk.injEq, and_true] at h₂
  obtain ⟨rfl, rfl⟩ := h₂
  exact ⟨p₁, b₁, rfl, by rw [hput]; exact (h.sound h₁).1, rfl⟩

theorem Decode.Spec.andThen_attrs_complete (h : Spec d put ok fill) (q p : P) (a r : Bytes)
    (hq : ok q) : d.andThen (attrsTail setAttrs) p (put q ++ (a ++ r)) =
      some (setAttrs (fill q p) (.ofBytes (a ++ r)), [], none) := by
  rw [andThen_ok (h.complete q p _ hq)]
  rfl

end Attrs

theorem SshFxpSetstatPacket.decodeHeader_spec :
    Spec SshFxpSetstatPacket.decodeHeader
      (fun p => bigEndian 4 p.id.toNat ++ (bigEndian 4 p.path.length ++ p.path) ++
        bigEndian 4 p.flags.toNat) (fun p => p.path.length < 2 ^ 32)
      (fun q p => { q with attrs := p.attrs }) :=
  (((Spec.field Codec.uint32 SshFxpSetstatPacket.id _ fun _ _ => rfl).andThen_field Codec.string
    SshFxpSetstatPacket.path _).andThen_field Codec.uint32 SshFxpSetstatPacket.flags _).of_eq
    (fun _ => rfl) (fun _ => by simp [Codec.uint32, Codec.string]) (fun _ _ => rfl)

theorem SshFxpSetstatPacket.marshalBinary_eq (q : SshFxpSetstatPacket) :
    q.marshalBinary = (marshal [] q.attrs).map fun a => sshFxpSetstat ::
      (bigEndian 4 q.id.toNat ++ (bigEndian 4 q.path.length ++ q.path) ++
        bigEndian 4 q.flags.toNat ++ a) := by
  rw [SshFxpSetstatPacket.marshalBinary, marshal_append]
  simp

theorem SshFxpFsetstatPacket.decodeHeader_spec :
    Spec SshFxpFsetstatPacket.decodeHeader
      (fun p => bigEndian 4 p.id.toNat ++ (bigEndian 4 p.handle.length ++ p.handle) ++
        bigEndian 4 p.flags.toNat) (fun p => p.handle.length < 2 ^ 32)
      (fun q p => { q with attrs := p.attrs }) :=
  (((Spec.field Codec.uint32 SshFxpFsetstatPacket.id _ fun _ _ => rfl).andThen_field Codec.string
    SshFxpFsetstatPacket.handle _).andThen_field Codec.uint32 SshFxpFsetstatPacket.flags _).of_eq
    (fun _ => rfl) (fun _ => by simp [Codec.uint32, Codec.string]) (fun _ _ => rfl)

theorem SshFxpFsetstatPacket.marshalBinary_eq (q : SshFxpFsetstatPacket) :
    q.marshalBinary = (marshal [] q.attrs).map fun a => sshFxpFsetstat ::
      (bigEndian 4 q.id.toNat ++ (bigEndian 4 q.handle.length ++ q.handle) ++
        bigEndian 4 q.flags.toNat ++ a) := by
  rw [SshFxpFsetstatPacket.marshalBinary, marshal_append]
  simp

theorem SshFxpOpenPacket.decodeBody_sets_id :
    Sets SshFxpOpenPacket.decodeBody SshFxpOpenPacket.id firstWord := by
  unfold SshFxpOpenPacket.decodeBody
  exact (((Sets.uint32 (by intros; rfl)).andThen (Keeps.field (by intros; rfl))).andThen
    (Keeps.field (by intros; rfl))).andThen (Keeps.field (by intros; rfl))

theorem SshFxpReadPacket.decodeBody_sets_id :
    Sets SshFxpReadPacket.decodeBody SshFxpReadPacket.id firstWord := by
  unfold SshFxpReadPacket.decodeBody
  exact (((Sets.uint32 (by intros; rfl)).andThen (Keeps.field (by intros; rfl))).andThen
    (Keeps.field (by intros; rfl))).andThen (Keeps.field (by intros; rfl))

theorem SshFxpRenamePacket.decodeBody_sets_id :
    Sets SshFxpRenamePacket.decodeBody SshFxpRenamePacket.id firstWord := by
  unfold SshFxpRenamePacket.decodeBody
  exact ((Sets.uint32 (by intros; rfl)).andThen (Keeps.field (by intros; rfl))).andThen
    (Keeps.field (by intros; rfl))

theorem SshFxpMkdirPacket.decodeBody_sets_id :
    Sets SshFxpMkdirPacket.decodeBody SshFxpMkdirPacket.id firstWord := by
  unfold SshFxpMkdirPacket.decodeBody
  exact ((Sets.uint32 (by intros; rfl)).andThen (Keeps.field (by intros; rfl))).andThen
    (Keeps.field (by intros; rfl))

theorem SshFxpSymlinkPacket.decodeBody_sets_id :
    Sets SshFxpSymlinkPacket.decodeBody SshFxpSymlinkPacket.id firstWord := by
  unfold SshFxpSymlinkPacket.decodeBody
  exact ((Sets.uint32 (by intros; rfl)).andThen (Keeps.field (by intros; rfl))).andThen
    (Keeps.field (by intros; rfl))

theorem idStringBody_sets_id : Sets idStringBody Prod.fst firstWord := by
  unfold idStringBody
  exact (Sets.uint32 (by intros; rfl)).andThen (Keeps.field (by intros; rfl))

theorem SshFxpWritePacket.decodeBody_sets_id :
    Sets SshFxpWritePacket.decodeBody SshFxpWritePacket.id firstWord := by
  unfold SshFxpWritePacket.decodeBody SshFxpWritePacket.decodeHeader
  refine ((((Sets.uint32 (by intros; rfl)).andThen (Keeps.field (by intros; rfl))).andThen
    (Keeps.field (by intros; rfl))).andThen (Keeps.field (by intros; rfl))).andThen
    ⟨fun {p b q rest e} hd => ?_⟩
  rw [SshFxpWritePacket.readData_eq] at hd
  split at hd <;> simp only [Option.some.injEq, Prod.mk.injEq] at hd <;> rw [← hd.1]

theorem SshFxpDataPacket.decodeBody_sets_id :
    Sets SshFxpDataPacket.decodeBody SshFxpDataPacket.id firstWord := by
  unfold SshFxpDataPacket.decodeBody SshFxpDataPacket.decodeHeader
  refine ((Sets.uint32 (by intros; rfl)).andThen (Keeps.field (by intros; rfl))).andThen
    ⟨fun {p b q rest e} hd => ?_⟩
  unfold SshFxpDataPacket.readData at hd
  split at hd <;> simp only [Option.some.injEq, Prod.mk.injEq] at hd <;> rw [← hd.1]

theorem SshFxpSetstatPacket.decodeBody_sets_id :
    Sets SshFxpSetstatPacket.decodeBody SshFxpSetstatPacket.id firstWord := by
  unfold SshFxpSetstatPacket.decodeBody SshFxpSetstatPacket.decodeHeader
  exact (((Sets.uint32 (by intros; rfl)).andThen (Keeps.field (by intros; rfl))).andThen
    (Keeps.field (by intros; rfl))).andThen ⟨fun hd => by cases hd; rfl⟩

theorem SshFxpFsetstatPacket.decodeBody_sets_id :
    Sets SshFxpFsetstatPacket.decodeBody SshFxpFsetstatPacket.id firstWord := by
  unfold SshFxpFsetstatPacket.decodeBody SshFxpFsetstatPacket.decodeHeader
  exact (((Sets.uint32 (by intros; rfl)).andThen (Keeps.field (by intros; rfl))).andThen
    (Keeps.field (by intros; rfl))).andThen ⟨fun hd => by cases hd; rfl⟩

namespace SshFxInitPacket

theorem unmarshalExtensionPair_ne_none (b : Bytes) : unmarshalExtensionPair b ≠ none :=
  Option.ne_none_iff_isSome.mpr (ExtensionPair.decodeBody_spec.total {} b)

theorem extensionsLoop_empty {p : SshFxInitPacket} {b : Bytes} (h : ¬ 0 < b.length) :
    extensionsLoop p b = some (p, b, none) := by
  rw [extensionsLoop, if_neg h]

theorem extensionsLoop_error {p : SshFxInitPacket} {b rest : Bytes} {ep : ExtensionPair}
    {e : GoError} (h0 : 0 < b.length) (h : unmarshalExtensionPair b = some (ep, rest, some e)) :
    extensionsLoop p b = some (p, rest, some e) := by
  rw [extensionsLoop, if_pos h0]
  split <;> simp_all

theorem extensionsLoop_ok {p : SshFxInitPacket} {b rest : Bytes} {ep : ExtensionPair}
    (h0 : 0 < b.length) (h : unmarshalExtensionPair b = some (ep, rest, none)) :
    extensionsLoop p b = extensionsLoop { p with extensions := p.extensions ++ [ep] } rest := by
  rw [extensionsLoop, if_pos h0]
  split <;> simp_all

theorem extensionsLoop_total : Total extensionsLoop := fun p b => by
  induction p, b using extensionsLoop.induct with
  | case1 p b _ h => exact absurd h (unmarshalExtensionPair_ne_none b)
  | case2 p b h0 _ _ _ h => simp [extensionsLoop_error h0 h]
  | case3 p b h0 _ _ h ih => rwa [extensionsLoop_ok h0 h]
  | case4 p b h0 => simp [extensionsLoop_empty h0]

theorem extensionsLoop_fails : Fails extensionsLoop (· = .shortPacket) := fun p b => by
  induction p, b using extensionsLoop.induct with
  | case1 p b _ h => exact absurd h (unmarshalExtensionPair_ne_none b)
  | case2 p b h0 _ _ _ h =>
    intro q rest e hd
    rw [extensionsLoop_error h0 h] at hd
    cases hd
    exact ExtensionPair.decodeBody_spec.short _ _ _ _ _ h
  | case3 p b h0 _ _ h ih =>
    intro q rest e hd
    rw [extensionsLoop_ok h0 h] at hd
    exact ih q rest e hd
  | case4 p b h0 => intro q rest e hd; simp [extensionsLoop_empty h0] at hd

/-- The loop consumes the whole buffer as a list of encoded pairs. -/
theorem extensionsLoop_sound {p q : SshFxInitPacket} {b rest : Bytes}
    (hd : extensionsLoop p b = some (q, rest, none)) :
    ∃ eps : List ExtensionPair, q = { p with extensions := p.extensions ++ eps } ∧
      b = eps.flatMap ExtensionPair.put ∧ rest = [] := by
  induction p, b using extensionsLoop.induct generalizing q rest with
  | case1 p b _ h => exact absurd h (unmarshalExtensionPair_ne_none b)
  | case2 p b h0 _ _ _ h => rw [extensionsLoop_error h0 h] at hd; cases hd
  | case3 p b h0 ep b' h ih =>
    rw [extensionsLoop_ok h0 h] at hd
    obtain ⟨eps, rfl, rfl, rfl⟩ := ih hd
    refine ⟨ep :: eps, by simp, ?_, rfl⟩
    rw [List.flatMap_cons, ← (ExtensionPair.decodeBody_spec.sound h).1]
  | case4 p b h0 =>
    rw [extensionsLoop_empty h0] at hd
    simp only [Option.some.injEq, Prod.mk.injEq, and_true] at hd
    obtain ⟨rfl, rfl⟩ := hd
    exact ⟨[], by simp, List.eq_nil_of_length_eq_zero (by omega),
      List.eq_nil_of_length_eq_zero (by omega)⟩

theorem extensionsLoop_complete (eps : List ExtensionPair)
    (hok : ∀ e ∈ eps, e.name.length < 2 ^ 32 ∧ e.data.length < 2 ^ 32) (p : SshFxInitPacket) :
    extensionsLoop p (eps.flatMap ExtensionPair.put) =
      some ({ p with extensions := p.extensions ++ eps }, [], none) := by
  induction eps generalizing p with
  | nil => simp [extensionsLoop_empty]
  | cons e eps ih =>
    have hpair : unmarshalExtensionPair (e.put ++ eps.flatMap ExtensionPair.put) =
        some (e, eps.flatMap ExtensionPair.put, none) :=
      ExtensionPair.decodeBody_spec.complete e {} _ (hok e (List.mem_cons_self _ _))
    rw [List.flatMap_cons, extensionsLoop_ok (by simp [ExtensionPair.put]) hpair,
      ih (fun e he => hok e (List.mem_cons_of_mem _ he))]
    simp

/-- The `range p.Extensions` loop of `MarshalBinary` appends each pair's encoding. -/
theorem foldl_marshalExtension (es : List ExtensionPair) (b : Bytes) :
    es.foldl (fun b e => marshalString (marshalString b e.name) e.data) b =
      b ++ es.flatMap ExtensionPair.put := by
  induction es generalizing b with
  | nil => simp
  | cons e es ih => rw [List.foldl_cons, ih]; simp [ExtensionPair.put]

theorem marshalBinary_eq (p : SshFxInitPacket) :
    p.marshalBinary =
      sshFxpInit :: (bigEndian 4 p.version.toNat ++ p.extensions.flatMap ExtensionPair.put) := by
  rw [marshalBinary, foldl_marshalExtension]
  simp

theorem version_spec :
    Spec (field unmarshalUint32Safe fun (p : SshFxInitPacket) v => { p with version := v })
      (fun p => bigEndian 4 p.version.toNat) (fun _ => True)
      (fun q p => { p with version := q.version }) :=
  (Spec.field Codec.uint32 SshFxInitPacket.version _ fun _ _ => rfl).of_eq (fun _ => rfl)
    (fun _ => by simp [Codec.uint32]) (fun _ _ => rfl)

theorem decodeBody_total : Total decodeBody :=
  version_spec.total.andThen extensionsLoop_total

theorem decodeBody_fails : Fails decodeBody (· = .shortPacket) :=
  version_spec.short.andThen extensionsLoop_fails

/-- A successful decode read the version and then pairs up to the end of the buffer, and
appended those pairs to what the receiver held. -/
theorem decodeBody_sound {p q : SshFxInitPacket} {b rest : Bytes}
    (h : decodeBody p b = some (q, rest, none)) :
    ∃ eps : List ExtensionPair, q.extensions = p.extensions ++ eps ∧
      b = bigEndian 4 q.version.toNat ++ eps.flatMap ExtensionPair.put ∧ rest = [] := by
  obtain ⟨p₁, b₁, h₁, h₂⟩ := andThen_eq_ok h
  obtain ⟨eps, rfl, rfl, rfl⟩ := extensionsLoop_sound h₂
  have hkeep : Keeps (field unmarshalUint32Safe fun (p : SshFxInitPacket) v =>
      { p with version := v }) SshFxInitPacket.extensions := Keeps.field fun _ _ => rfl
  exact ⟨eps, by rw [← hkeep.keeps h₁], (version_spec.sound h₁).1, rfl⟩

theorem decodeBody_complete (q p : SshFxInitPacket)
    (hok : ∀ e ∈ q.extensions, e.name.length < 2 ^ 32 ∧ e.data.length < 2 ^ 32) :
    decodeBody p (bigEndian 4 q.version.toNat ++ q.extensions.flatMap ExtensionPair.put) =
      some ({ version := q.version, extensions := p.extensions ++ q.extensions }, [], none) := by
  rw [decodeBody, andThen_ok (version_spec.complete q p _ trivial), extensionsLoop_complete _ hok]

end SshFxInitPacket

end SftpWire
