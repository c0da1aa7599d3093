import SftpWire.Catalog

/-!
# The replies the server writes

`NAME`, `VERSION`, `HANDLE`, `STATUS` and `DATA` are what the server sends back, and the
file has no decoder for the first four: what a client can read of them is their layout.
This module gives the layout of the two replies whose encoders loop. `NAME` writes its
entries, and each entry its attributes through the reflective `marshal`, threading a
possible panic through both loops. `VERSION` writes the version and extension pairs
`INIT` carries, so `INIT`'s own decoder reads a `VERSION` body back.

Of the kinds the catalog gathers, three encoders can panic: `DATA` reslices its data, and
`SETSTAT` and `FSETSTAT` hand their attributes to `marshal`;
`Packet.marshalBinary_eq_none_iff` says exactly when. `StatVFS`'s accessors `TotalSpace`
and `FreeSpace` multiply `uint64`s, and `StatVFS.freeSpace_le_totalSpace` says when their
results keep the order of the block counts.
-/

namespace SftpWire

/-- A loop that threads a possible panic, `none`, through `bind` stays `none`. -/
theorem foldl_bind_none {α : Type} (g : α → Option Bytes) :
    ∀ l : List α, l.foldl (fun b x => b.bind fun b => (g x).map (b ++ ·)) none = none
  | [] => rfl
  | _ :: l => foldl_bind_none g l

/-- A loop in which each element appends the bytes `g` gives it, and panics when `g` has
none: the buffer followed by every element's bytes, or a panic if one element panics. -/
theorem foldl_bind_append {α : Type} (g : α → Option Bytes) :
    ∀ (l : List α) (b : Bytes),
      l.foldl (fun b x => b.bind fun b => (g x).map (b ++ ·)) (some b) =
        if l.all (g · |>.isSome) then some (b ++ l.flatMap fun x => (g x).getD []) else none
  | [], b => by simp
  | x :: l, b => by
    rw [List.foldl_cons, Option.some_bind]
    cases hx : g x with
    | none => simp [hx, foldl_bind_none]
    | some a =>
      rw [Option.map_some', foldl_bind_append g l (b ++ a)]
      simp [hx, List.append_assoc]

/-- One entry: its name and long name, then each attribute as `marshal` writes it, or a
panic if `marshal` cannot handle one of them. -/
theorem SshFxpNameAttr.marshalBinary_eq (na : SshFxpNameAttr) :
    na.marshalBinary = if na.attrs.all Value.encodable then
      some (bigEndian 4 na.name.length ++ na.name ++
        (bigEndian 4 na.longName.length ++ na.longName) ++
        na.attrs.flatMap fun a => (marshal [] a).getD [])
    else none := by
  have hstep : (fun (b : Option Bytes) attr => b.bind (marshal · attr)) =
      fun b attr => b.bind fun b => (marshal [] attr).map (b ++ ·) := by
    funext b attr
    congr
    funext b
    exact marshal_append b attr
  have hall : (na.attrs.all fun a => (marshal [] a).isSome) = na.attrs.all Value.encodable := by
    simp only [marshal_isSome]
  rw [marshalBinary, hstep, foldl_bind_append, hall]
  simp

/-- `NAME`'s `MarshalBinary` panics exactly when an attribute of one of its entries holds a
dynamic type `marshal` cannot handle. Otherwise it writes the tag, the id, the number of
entries modulo `2^32`, and then each entry in order: its name, its long name and the
encoding of each of its attributes. -/
theorem SshFxpNamePacket.marshalBinary_entries (p : SshFxpNamePacket) :
    p.marshalBinary = if p.nameAttrs.all (·.attrs.all Value.encodable) then
      some (sshFxpName :: (bigEndian 4 p.id.toNat ++ bigEndian 4 p.nameAttrs.length ++
        p.nameAttrs.flatMap fun na =>
          bigEndian 4 na.name.length ++ na.name ++
            (bigEndian 4 na.longName.length ++ na.longName) ++
            na.attrs.flatMap fun a => (marshal [] a).getD []))
    else none := by
  have hsome : ∀ na : SshFxpNameAttr, na.marshalBinary.isSome = na.attrs.all Value.encodable :=
    fun na => by rw [SshFxpNameAttr.marshalBinary_eq]; split <;> simp_all
  rw [marshalBinary, foldl_bind_append]
  simp only [hsome]
  split
  · next hall =>
    have hentry : ∀ na ∈ p.nameAttrs, na.marshalBinary.getD [] =
        bigEndian 4 na.name.length ++ na.name ++ (bigEndian 4 na.longName.length ++ na.longName) ++
          na.attrs.flatMap fun a => (marshal [] a).getD [] := fun na hna => by
      rw [SshFxpNameAttr.marshalBinary_eq, if_pos (List.all_eq_true.mp hall na hna)]
      rfl
    rw [List.flatMap_congr hentry]
    simp [UInt32.toNat_ofNat', two_pow_32]
  · rfl

theorem SshFxVersionPacket.marshalBinary_eq (v : SshFxVersionPacket) :
    v.marshalBinary =
      sshFxpVersion :: (bigEndian 4 v.version.toNat ++ v.extensions.flatMap ExtensionPair.put) := by
  rw [marshalBinary, SshFxInitPacket.foldl_marshalExtension]
  simp

/-- The body of a `VERSION` reply is laid out as an `INIT` body: `INIT`'s `UnmarshalBinary`
reads it back, without error, into the same version and extension pairs, whenever the
reply is shorter than `2^32` bytes. -/
theorem version_body_reads_as_init (v : SshFxVersionPacket)
    (hlen : v.marshalBinary.length < 2 ^ 32) :
    SshFxInitPacket.unmarshalBinary {} v.marshalBinary.tail =
      some ({ version := v.version, extensions := v.extensions }, none) := by
  have htail : v.marshalBinary.tail =
      (SshFxInitPacket.marshalBinary
        { version := v.version, extensions := v.extensions }).tail := by
    rw [SshFxVersionPacket.marshalBinary_eq, SshFxInitPacket.marshalBinary_eq]
    rfl
  have h := kind_init.complete (p := { version := v.version, extensions := v.extensions }) [] rfl
    (by rw [List.append_nil, ← htail, List.length_tail]; omega) rfl
  rw [List.append_nil, ← htail] at h
  obtain ⟨⟨q, e⟩, hq, heq⟩ := Option.map_eq_some'.mp h
  simp only [Prod.map, id, Prod.mk.injEq] at heq
  obtain rfl : q = { version := v.version, extensions := v.extensions } := Packet.init.inj heq.1
  rw [hq, heq.2]

theorem version_body_reads_as_init_one_pair :
    ([2, 0, 0, 0, 3, 0, 0, 0, 1, 97, 0, 0, 0, 1, 98] : Bytes).length < 2 ^ 32 ∧
    (SshFxVersionPacket.marshalBinary
        { version := 3, extensions := [{ name := [97], data := [98] }] } =
      [2, 0, 0, 0, 3, 0, 0, 0, 1, 97, 0, 0, 0, 1, 98]) ∧
    SshFxInitPacket.unmarshalBinary {}
        (SshFxVersionPacket.marshalBinary
          { version := 3, extensions := [{ name := [97], data := [98] }] }).tail =
      some ({ version := 3, extensions := [{ name := [97], data := [98] }] }, none) :=
  ⟨by decide, rfl, version_body_reads_as_init _ (by decide)⟩

/-- `MarshalBinary` panics exactly when `DATA`'s `Length` exceeds the capacity of its
`Data`, or the `Attrs` of `SETSTAT` or `FSETSTAT` holds, at some depth, a dynamic type
`marshal` cannot handle. Every other kind always encodes. -/
theorem Packet.marshalBinary_eq_none_iff (q : Packet) :
    q.marshalBinary = none ↔
      (∃ p, q = .data p ∧ p.data.length + p.spare.length < p.length.toNat) ∨
      (∃ p, q = .setstat p ∧ p.attrs.encodable = false) ∨
      ∃ p, q = .fsetstat p ∧ p.attrs.encodable = false := by
  cases q with
  | data p => simp [marshalBinary, SshFxpDataPacket.marshalBinary, sliceTo]
  | setstat p =>
    simp [marshalBinary, SshFxpSetstatPacket.marshalBinary, ← Option.not_isSome_iff_eq_none,
      marshal_isSome]
  | fsetstat p =>
    simp [marshalBinary, SshFxpFsetstatPacket.marshalBinary, ← Option.not_isSome_iff_eq_none,
      marshal_isSome]
  | _ => simp [marshalBinary]

/-- `TotalSpace` and `FreeSpace` multiply `uint64`s, which wrap. When `Frsize * Blocks`
does not wrap, `FreeSpace` is at most `TotalSpace` whenever `Bfree ≤ Blocks`. When it
wraps, `FreeSpace` can exceed `TotalSpace`: `Frsize = Blocks = 2^32` make `TotalSpace`
zero. -/
theorem StatVFS.freeSpace_le_totalSpace :
    (∀ p : StatVFS, p.bfree ≤ p.blocks → p.frsize.toNat * p.blocks.toNat < 2 ^ 64 →
      p.freeSpace ≤ p.totalSpace) ∧
    ∃ p : StatVFS, p.bfree ≤ p.blocks ∧ p.totalSpace < p.freeSpace := by
  refine ⟨fun p (hb : p.bfree.toNat ≤ p.blocks.toNat) hov => ?_,
    ⟨{ frsize := 4294967296, blocks := 4294967296, bfree := 1 }, by decide, by decide⟩⟩
  have hle : p.frsize.toNat * p.bfree.toNat ≤ p.frsize.toNat * p.blocks.toNat :=
    Nat.mul_le_mul_left _ hb
  have hsize : UInt64.size = 2 ^ 64 := rfl
  show (p.frsize * p.bfree).toNat ≤ (p.frsize * p.blocks).toNat
  rw [UInt64.toNat_mul, UInt64.toNat_mul, hsize, Nat.mod_eq_of_lt hov,
    Nat.mod_eq_of_lt (hle.trans_lt hov)]
  exact hle

end SftpWire
