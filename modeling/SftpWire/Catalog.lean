import SftpWire.Body

/-!
# The packet catalog

`Packet` puts side by side the twenty packet types of `packet.go` that have both a
`MarshalBinary` and an `UnmarshalBinary`, so that one statement can range over every
kind. `unmarshalBinary` decodes into the packet it is called on, as the pointer-receiver
methods do; `blank` is the zero value of the packet's own type, the fresh receiver a
dispatcher decodes a request body into.

Three kinds do not decode back exactly what they encode. `DATA` writes only the first
`Length` bytes of its data, `SETSTAT` and `FSETSTAT` keep whatever follows their fixed
fields as raw attribute bytes, and `INIT` reads extension pairs until the buffer ends.
`Fits` and `decoded` say what a round trip needs and gives for each kind.

`Kind` says once what the catalog theorems need of one packet type, and `Packet.kind`
finds it for all twenty from the decoder specs of `Body.lean`; the catalog theorems at
the end split only on that.
-/

namespace SftpWire

open Decode

/-- The packet types with both a marshaller and an unmarshaller. -/
inductive Packet where
  | init (p : SshFxInitPacket)
  | «open» (p : SshFxpOpenPacket)
  | close (p : SshFxpClosePacket)
  | read (p : SshFxpReadPacket)
  | write (p : SshFxpWritePacket)
  | lstat (p : SshFxpLstatPacket)
  | stat (p : SshFxpStatPacket)
  | fstat (p : SshFxpFstatPacket)
  | opendir (p : SshFxpOpendirPacket)
  | readdir (p : SshFxpReaddirPacket)
  | remove (p : SshFxpRemovePacket)
  | mkdir (p : SshFxpMkdirPacket)
  | rmdir (p : SshFxpRmdirPacket)
  | realpath (p : SshFxpRealpathPacket)
  | readlink (p : SshFxpReadlinkPacket)
  | rename (p : SshFxpRenamePacket)
  | symlink (p : SshFxpSymlinkPacket)
  | data (p : SshFxpDataPacket)
  | setstat (p : SshFxpSetstatPacket)
  | fsetstat (p : SshFxpFsetstatPacket)
  deriving Repr

namespace Packet

/-- `none` is a panic of `MarshalBinary`. -/
def marshalBinary : Packet → Option Bytes
  | init p => some p.marshalBinary
  | «open» p => some p.marshalBinary
  | close p => some p.marshalBinary
  | read p => some p.marshalBinary
  | write p => some p.marshalBinary
  | lstat p => some p.marshalBinary
  | stat p => some p.marshalBinary
  | fstat p => some p.marshalBinary
  | opendir p => some p.marshalBinary
  | readdir p => some p.marshalBinary
  | remove p => some p.marshalBinary
  | mkdir p => some p.marshalBinary
  | rmdir p => some p.marshalBinary
  | realpath p => some p.marshalBinary
  | readlink p => some p.marshalBinary
  | rename p => some p.marshalBinary
  | symlink p => some p.marshalBinary
  | data p => p.marshalBinary
  | setstat p => p.marshalBinary
  | fsetstat p => p.marshalBinary

/-- The receiver after `UnmarshalBinary` and the error it returned; `none` is a panic. -/
def unmarshalBinary : Packet → Bytes → Option (Packet × Option GoError)
  | init p, b => (p.unmarshalBinary b).map (Prod.map init id)
  | «open» p, b => (p.unmarshalBinary b).map (Prod.map «open» id)
  | close p, b => (p.unmarshalBinary b).map (Prod.map close id)
  | read p, b => (p.unmarshalBinary b).map (Prod.map read id)
  | write p, b => (p.unmarshalBinary b).map (Prod.map write id)
  | lstat p, b => (p.unmarshalBinary b).map (Prod.map lstat id)
  | stat p, b => (p.unmarshalBinary b).map (Prod.map stat id)
  | fstat p, b => (p.unmarshalBinary b).map (Prod.map fstat id)
  | opendir p, b => (p.unmarshalBinary b).map (Prod.map opendir id)
  | readdir p, b => (p.unmarshalBinary b).map (Prod.map readdir id)
  | remove p, b => (p.unmarshalBinary b).map (Prod.map remove id)
  | mkdir p, b => (p.unmarshalBinary b).map (Prod.map mkdir id)
  | rmdir p, b => (p.unmarshalBinary b).map (Prod.map rmdir id)
  | realpath p, b => (p.unmarshalBinary b).map (Prod.map realpath id)
  | readlink p, b => (p.unmarshalBinary b).map (Prod.map readlink id)
  | rename p, b => (p.unmarshalBinary b).map (Prod.map rename id)
  | symlink p, b => (p.unmarshalBinary b).map (Prod.map symlink id)
  | data p, b => (p.unmarshalBinary b).map (Prod.map data id)
  | setstat p, b => (p.unmarshalBinary b).map (Prod.map setstat id)
  | fsetstat p, b => (p.unmarshalBinary b).map (Prod.map fsetstat id)

/-- The zero value of the packet's type. -/
def blank : Packet → Packet
  | init _ => init {}
  | «open» _ => «open» {}
  | close _ => close {}
  | read _ => read {}
  | write _ => write {}
  | lstat _ => lstat {}
  | stat _ => stat {}
  | fstat _ => fstat {}
  | opendir _ => opendir {}
  | readdir _ => readdir {}
  | remove _ => remove {}
  | mkdir _ => mkdir {}
  | rmdir _ => rmdir {}
  | realpath _ => realpath {}
  | readlink _ => readlink {}
  | rename _ => rename {}
  | symlink _ => symlink {}
  | data _ => data {}
  | setstat _ => setstat {}
  | fsetstat _ => fsetstat {}

/-- Modelled from the spec: the tag the protocol's registry gives each kind, which a
payload must begin with. -/
def registryTag : Packet → UInt8
  | init _ => sshFxpInit
  | «open» _ => sshFxpOpen
  | close _ => sshFxpClose
  | read _ => sshFxpRead
  | write _ => sshFxpWrite
  | lstat _ => sshFxpLstat
  | stat _ => sshFxpStat
  | fstat _ => sshFxpFstat
  | opendir _ => sshFxpOpendir
  | readdir _ => sshFxpReaddir
  | remove _ => sshFxpRemove
  | mkdir _ => sshFxpMkdir
  | rmdir _ => sshFxpRmdir
  | realpath _ => sshFxpRealpath
  | readlink _ => sshFxpReadlink
  | rename _ => sshFxpRename
  | symlink _ => sshFxpSymlink
  | data _ => sshFxpData
  | setstat _ => sshFxpSetstat
  | fsetstat _ => sshFxpFsetstat

/-- Modelled from the spec: the dispatcher, which is not under src/, decodes a payload's
body into the fresh receiver of the kind whose registry tag is the payload's first byte. -/
def ofTag (t : UInt8) : Option Packet :=
  [init {}, «open» {}, close {}, read {}, write {}, lstat {}, stat {}, fstat {}, opendir {},
    readdir {}, remove {}, mkdir {}, rmdir {}, realpath {}, readlink {}, rename {}, symlink {},
    data {}, setstat {}, fsetstat {}].find? (·.registryTag == t)

/-- The registry tags are distinct: the dispatcher takes each kind's tag back to it. -/
theorem ofTag_registryTag (q : Packet) : ofTag q.registryTag = some q.blank := by
  cases q <;> rfl

/-- The request id; `INIT` has none. -/
def idField : Packet → Option UInt32
  | init _ => none
  | «open» p => some p.id
  | close p => some p.id
  | read p => some p.id
  | write p => some p.id
  | lstat p => some p.id
  | stat p => some p.id
  | fstat p => some p.id
  | opendir p => some p.id
  | readdir p => some p.id
  | remove p => some p.id
  | mkdir p => some p.id
  | rmdir p => some p.id
  | realpath p => some p.id
  | readlink p => some p.id
  | rename p => some p.id
  | symlink p => some p.id
  | data p => some p.id
  | setstat p => some p.id
  | fsetstat p => some p.id

/-- What a round trip of `q` followed by the bytes `r` needs, besides a buffer shorter
than `2^32`: `INIT` reads pairs to the end, so nothing may follow it, and the declared
`Length` of `WRITE` and `DATA` must match the data it counts. -/
def Fits : Packet → Bytes → Prop
  | init _, r => r = []
  | write p, _ => p.length.toNat = p.data.length
  | data p, _ => p.length.toNat ≤ p.data.length
  | _, _ => True

/-- What the round trip of `q` followed by `r` decodes: `q`, except that `DATA` keeps
only the `Length` bytes it wrote, and `SETSTAT` and `FSETSTAT` hold their encoded
attributes and `r` as raw bytes. -/
def decoded : Packet → Bytes → Packet
  | data p, _ => data { p with data := (p.data ++ p.spare).take p.length.toNat, spare := [] }
  | setstat p, r => setstat { p with attrs := .ofBytes ((marshal [] p.attrs).getD [] ++ r) }
  | fsetstat p, r => fsetstat { p with attrs := .ofBytes ((marshal [] p.attrs).getD [] ++ r) }
  | q, _ => q

/-- The kinds whose decoder reads the buffer to its end. -/
def readsToEnd : Packet → Bool
  | init _ | setstat _ | fsetstat _ => true
  | _ => false

/-- The errors a decoder into `q` can return: `shortPacketError`, and for `DATA` also
the "truncated packet" error of its length check. -/
def DecodeError (q : Packet) (e : GoError) : Prop :=
  e = .shortPacket ∨ (∃ p, q = data p) ∧ e = .errorf "truncated packet"

end Packet

/-- What the catalog theorems need of the packet type `T` that `c` embeds, whose zero
value is `z`: the decoder never panics and fails only with a `DecodeError`; from the zero
value it reads a prefix of the buffer that is the body of the packet it returns; it reads
every body back; and whatever it returns, the id is the buffer's first word. -/
structure Kind {T : Type} (c : T → Packet) (z : T) : Prop where
  blank : ∀ p, (c p).blank = c z
  total : ∀ p b, ((c p).unmarshalBinary b).isSome
  fails : ∀ {p b q e}, (c p).unmarshalBinary b = some (q, some e) → (c p).DecodeError e
  sound : ∀ {b q}, (c z).unmarshalBinary b = some (q, none) → q.blank = c z ∧
    ∃ bb r, q.marshalBinary = some bb ∧ b = bb.tail ++ r ∧ q.Fits r ∧
      (q.readsToEnd → r = [])
  complete : ∀ {p bb} r, (c p).marshalBinary = some bb → (bb.tail ++ r).length < 2 ^ 32 →
    (c p).Fits r → (c z).unmarshalBinary (bb.tail ++ r) = some ((c p).decoded r, none)
  keepsId : ∀ {p b q e}, (c p).unmarshalBinary b = some (q, e) →
    q.idField = (c p).idField.map fun _ => firstWord b

section OfDecode

variable {T P : Type} {c : T → Packet} {z : T} {d : Decode P} {get : T → P} {mk : P → T}

theorem unmarshalBinary_eq_some_of
    (hu : ∀ p b, (c p).unmarshalBinary b = (d.run (get p) b).map (Prod.map (c ∘ mk) id))
    {p : T} {b : Bytes} {q : Packet} {e : Option GoError}
    (h : (c p).unmarshalBinary b = some (q, e)) :
    ∃ v rest, d (get p) b = some (v, rest, e) ∧ q = c (mk v) := by
  rw [hu, Option.map_eq_some'] at h
  obtain ⟨⟨v, e'⟩, hr, hq⟩ := h
  obtain ⟨rest, hd⟩ := run_eq_some.mp hr
  simp only [Prod.map, Function.comp, id, Prod.mk.injEq] at hq
  obtain ⟨rfl, rfl⟩ := hq
  exact ⟨v, rest, hd, rfl⟩

/-- A packet type whose `UnmarshalBinary` runs the chain `d` on a view `get` of the
receiver (the receiver itself, or the two fields `unmarshalIdString` fills) and rebuilds
the receiver with `mk`. -/
theorem Kind.ofDecode (get : T → P) (mk : P → T) (htotal : Total d)
    (hfails : ∀ {p b v rest e}, d (get p) b = some (v, rest, some e) → (c p).DecodeError e)
    (hsound : ∀ {b v rest}, d (get z) b = some (v, rest, none) →
      ∃ bb, (c (mk v)).marshalBinary = some bb ∧ b = bb.tail ++ rest ∧
        (c (mk v)).Fits rest ∧
        ((c (mk v)).readsToEnd → rest = []))
    (hcomplete : ∀ {p bb} r, (c p).marshalBinary = some bb → (bb.tail ++ r).length < 2 ^ 32 →
      (c p).Fits r →
        ∃ v rest, d (get z) (bb.tail ++ r) = some (v, rest, none) ∧ c (mk v) = (c p).decoded r)
    (hid : ∀ {p b v rest e}, d (get p) b = some (v, rest, e) →
      (c (mk v)).idField = (c p).idField.map fun _ => firstWord b)
    (hu : ∀ p b, (c p).unmarshalBinary b = (d.run (get p) b).map (Prod.map (c ∘ mk) id) := by
      intros; rfl)
    (hblank : ∀ p, (c p).blank = c z := by intros; rfl) : Kind c z where
  blank := hblank
  total p b := by simpa [hu] using htotal.run (get p) b
  fails h := by
    obtain ⟨v, rest, hd, -⟩ := unmarshalBinary_eq_some_of hu h
    exact hfails hd
  sound h := by
    obtain ⟨v, rest, hd, rfl⟩ := unmarshalBinary_eq_some_of hu h
    obtain ⟨bb, hbb⟩ := hsound hd
    exact ⟨hblank _, bb, rest, hbb⟩
  complete r hm hlen hfits := by
    obtain ⟨v, rest, hd, hv⟩ := hcomplete r hm hlen hfits
    rw [hu, run_eq_some.mpr ⟨rest, hd⟩, ← hv]
    rfl
  keepsId h := by
    obtain ⟨v, rest, hd, rfl⟩ := unmarshalBinary_eq_some_of hu h
    exact hid hd

/-- A packet type whose decoder is a `Spec` chain with no side condition and whose
round trip gives back the packet itself. -/
theorem Kind.ofSpec {m : P → Bytes} {ok : P → Prop} {idOf : P → UInt32} (get : T → P)
    (mk : P → T) (hspec : Spec d (fun v => (m v).tail) ok fun q _ => q)
    (hid : Sets d idOf firstWord)
    (hu : ∀ p b, (c p).unmarshalBinary b = (d.run (get p) b).map (Prod.map (c ∘ mk) id) := by
      intros; rfl)
    (hm : ∀ v, (c (mk v)).marshalBinary = some (m v) := by intros; rfl)
    (hmk : ∀ p, mk (get p) = p := by intros; rfl)
    (hidField : ∀ v, (c (mk v)).idField = some (idOf v) := by intros; rfl)
    (hblank : ∀ p, (c p).blank = c z := by intros; rfl)
    (hplain : ∀ p r, (c p).Fits r ∧ (c p).decoded r = c p ∧ (c p).readsToEnd = false := by
      intros; exact ⟨trivial, rfl, rfl⟩) : Kind c z :=
  Kind.ofDecode get mk hspec.total (fun hd => .inl (hspec.short _ _ _ _ _ hd))
    (fun {_ v _} hd => ⟨m v, hm v, (hspec.sound hd).1, (hplain _ _).1,
      fun h => by rw [(hplain (mk v) []).2.2] at h; cases h⟩)
    (fun {p _} r hm' hlen _ => by
      rw [← hmk p, hm, Option.some.injEq] at hm'
      subst hm'
      rw [List.length_append] at hlen
      refine ⟨get p, r, hspec.complete (get p) (get z) r (hspec.ok_of_length _ (by omega)), ?_⟩
      rw [hmk, (hplain p r).2.1])
    (fun {p _ v _ _} hd => by rw [hidField, ← hmk p, hidField, hid _ _ _ _ _ hd]; rfl)
    hu hblank

/-- The ten packet types that `marshalIdString` and `unmarshalIdString` encode and
decode. -/
theorem Kind.ofIdString (packetType : UInt8) (get : T → UInt32 × Bytes)
    (mk : UInt32 × Bytes → T)
    (hu : ∀ p b, (c p).unmarshalBinary b = ((unmarshalIdString b (get p).1 (get p).2).map
      fun (id, s, err) => (mk (id, s), err)).map (Prod.map c id) := by intros; rfl)
    (hm : ∀ v, (c (mk v)).marshalBinary = some (marshalIdString packetType v.1 v.2) := by
      intros; rfl)
    (hmk : ∀ p, mk (get p) = p := by intros; rfl)
    (hidField : ∀ v, (c (mk v)).idField = some v.1 := by intros; rfl)
    (hblank : ∀ p, (c p).blank = c z := by intros; rfl)
    (hplain : ∀ p r, (c p).Fits r ∧ (c p).decoded r = c p ∧ (c p).readsToEnd = false := by
      intros; exact ⟨trivial, rfl, rfl⟩) : Kind c z :=
  Kind.ofSpec get mk (idStringBody_spec packetType) idStringBody_sets_id
    (fun p b => by rw [hu, unmarshalIdString, Option.map_map, Option.map_map]; rfl)
    hm hmk hidField hblank hplain

/-- `SETSTAT` and `FSETSTAT`: three fixed fields, then the rest of the buffer as the
attributes, which `MarshalBinary` writes back through `marshal`. -/
theorem Kind.ofAttrs {put : T → Bytes} {ok : T → Prop} {fill : T → T → T}
    {idOf : T → UInt32}
    {d : Decode T} (tag : UInt8) (attrs : T → Value) (setAttrs : T → Value → T)
    (hspec : Spec d put ok fill) (hid : Sets (d.andThen (attrsTail setAttrs)) idOf firstWord)
    (hm : ∀ p, (c p).marshalBinary = (marshal [] (attrs p)).map fun a => tag :: (put p ++ a))
    (hdecoded : ∀ p r,
      (c p).decoded r = c (setAttrs (fill p z) (.ofBytes ((marshal [] (attrs p)).getD [] ++ r))))
    (hu : ∀ p b, (c p).unmarshalBinary b =
      ((d.andThen (attrsTail setAttrs)).run p b).map (Prod.map c id) := by intros; rfl)
    (hput : ∀ p v, put (setAttrs p v) = put p := by intros; rfl)
    (hattrs : ∀ p v, attrs (setAttrs p v) = v := by intros; rfl)
    (hidField : ∀ p, (c p).idField = some (idOf p) := by intros; rfl)
    (hblank : ∀ p, (c p).blank = c z := by intros; rfl)
    (hplain : ∀ p r, (c p).Fits r ∧ (c p).readsToEnd = true := by
      intros; exact ⟨trivial, rfl⟩) : Kind c z :=
  Kind.ofDecode id id (hspec.andThen_attrs_total setAttrs)
    (fun hd => .inl (hspec.andThen_attrs_fails setAttrs _ _ _ _ _ hd))
    (fun hd => by
      obtain ⟨p₁, b₁, rfl, hb, rfl⟩ := hspec.andThen_attrs_sound setAttrs hput hd
      refine ⟨tag :: (put p₁ ++ b₁), ?_, ?_, (hplain _ _).1, fun _ => rfl⟩
      · rw [hm, id, hattrs, marshal_ofBytes, hput]
        rfl
      · rw [hb, hput, List.tail_cons, List.append_nil])
    (fun {p _} r hmp hlen _ => by
      obtain ⟨a, ha, rfl⟩ := Option.map_eq_some'.mp ((hm p).symm.trans hmp)
      rw [List.tail_cons, List.append_assoc] at hlen ⊢
      rw [List.length_append] at hlen
      refine ⟨_, [], hspec.andThen_attrs_complete setAttrs p z a r
        (hspec.ok_of_length p (by omega)), ?_⟩
      rw [hdecoded, ha]
      rfl)
    (fun {p _ _ _ _} hd => by
      rw [hidField, hidField]
      exact congrArg some (hid _ _ _ _ _ hd))
    hu hblank

end OfDecode

theorem kind_init : Kind Packet.init {} :=
  Kind.ofDecode id id SshFxInitPacket.decodeBody_total
    (fun hd => .inl (SshFxInitPacket.decodeBody_fails _ _ _ _ _ hd))
    (fun hd => by
      obtain ⟨eps, hq, rfl, rfl⟩ := SshFxInitPacket.decodeBody_sound hd
      refine ⟨_, rfl, ?_, rfl, fun _ => rfl⟩
      rw [SshFxInitPacket.marshalBinary_eq, List.tail_cons, List.append_nil, id, hq]
      rfl)
    (fun {p _} r hm hlen (hr : r = []) => by
      subst hr
      obtain rfl := Option.some.inj hm
      rw [SshFxInitPacket.marshalBinary_eq, List.tail_cons, List.append_nil] at hlen ⊢
      have hok : ∀ e ∈ p.extensions, e.name.length < 2 ^ 32 ∧ e.data.length < 2 ^ 32 := by
        intro e he
        have hsub :=
          (List.sublist_flatten_of_mem (List.mem_map_of_mem ExtensionPair.put he)).length_le
        have : (p.extensions.flatMap ExtensionPair.put).length < 2 ^ 32 := by
          rw [List.length_append] at hlen; omega
        simp only [ExtensionPair.put, Codec.string_put, List.length_append,
          length_bigEndian] at hsub
        exact ⟨by unfold List.flatMap at this; omega, by unfold List.flatMap at this; omega⟩
      exact ⟨_, [], SshFxInitPacket.decodeBody_complete p {} hok, rfl⟩)
    (fun _ => rfl)

theorem kind_open : Kind Packet.open {} :=
  Kind.ofSpec id id SshFxpOpenPacket.decodeBody_spec SshFxpOpenPacket.decodeBody_sets_id

theorem kind_read : Kind Packet.read {} :=
  Kind.ofSpec id id SshFxpReadPacket.decodeBody_spec SshFxpReadPacket.decodeBody_sets_id

theorem kind_rename : Kind Packet.rename {} :=
  Kind.ofSpec id id SshFxpRenamePacket.decodeBody_spec SshFxpRenamePacket.decodeBody_sets_id

theorem kind_mkdir : Kind Packet.mkdir {} :=
  Kind.ofSpec id id SshFxpMkdirPacket.decodeBody_spec SshFxpMkdirPacket.decodeBody_sets_id

theorem kind_symlink : Kind Packet.symlink {} :=
  Kind.ofSpec id id SshFxpSymlinkPacket.decodeBody_spec SshFxpSymlinkPacket.decodeBody_sets_id

theorem kind_readdir : Kind Packet.readdir {} :=
  Kind.ofIdString sshFxpReaddir (fun p => (p.id, p.handle)) fun v => { id := v.1, handle := v.2 }

theorem kind_opendir : Kind Packet.opendir {} :=
  Kind.ofIdString sshFxpOpendir (fun p => (p.id, p.path)) fun v => { id := v.1, path := v.2 }

theorem kind_lstat : Kind Packet.lstat {} :=
  Kind.ofIdString sshFxpLstat (fun p => (p.id, p.path)) fun v => { id := v.1, path := v.2 }

theorem kind_stat : Kind Packet.stat {} :=
  Kind.ofIdString sshFxpLstat (fun p => (p.id, p.path)) fun v => { id := v.1, path := v.2 }

theorem kind_fstat : Kind Packet.fstat {} :=
  Kind.ofIdString sshFxpFstat (fun p => (p.id, p.handle)) fun v => { id := v.1, handle := v.2 }

theorem kind_close : Kind Packet.close {} :=
  Kind.ofIdString sshFxpClose (fun p => (p.id, p.handle)) fun v => { id := v.1, handle := v.2 }

theorem kind_remove : Kind Packet.remove {} :=
  Kind.ofIdString sshFxpRemove (fun p => (p.id, p.filename)) fun v =>
    { id := v.1, filename := v.2 }

theorem kind_rmdir : Kind Packet.rmdir {} :=
  Kind.ofIdString sshFxpRmdir (fun p => (p.id, p.path)) fun v => { id := v.1, path := v.2 }

theorem kind_readlink : Kind Packet.readlink {} :=
  Kind.ofIdString sshFxpReadlink (fun p => (p.id, p.path)) fun v => { id := v.1, path := v.2 }

theorem kind_realpath : Kind Packet.realpath {} :=
  Kind.ofIdString sshFxpReadlink (fun p => (p.id, p.path)) fun v => { id := v.1, path := v.2 }

theorem kind_write : Kind Packet.write {} :=
  Kind.ofDecode id id SshFxpWritePacket.decodeBody_total
    (fun hd => .inl (SshFxpWritePacket.decodeBody_fails _ _ _ _ _ hd))
    (fun hd => ⟨_, rfl, (SshFxpWritePacket.decodeBody_sound hd).1,
      (SshFxpWritePacket.decodeBody_sound hd).2, fun h => by cases h⟩)
    (fun {p _} r hm hlen hfits => by
      obtain rfl := Option.some.inj hm
      exact ⟨p, r, SshFxpWritePacket.decodeBody_complete p {} r hfits hlen, rfl⟩)
    (fun hd => congrArg some (SshFxpWritePacket.decodeBody_sets_id _ _ _ _ _ hd))

theorem kind_data : Kind Packet.data {} :=
  Kind.ofDecode id id SshFxpDataPacket.decodeBody_total
    (fun {p _ _ _ _} hd => (SshFxpDataPacket.decodeBody_fails _ _ _ _ _ hd).imp_right
      fun h => ⟨⟨p, rfl⟩, h⟩)
    (fun hd => by
      obtain ⟨bb, hm, hb, hl⟩ := SshFxpDataPacket.decodeBody_sound hd
      exact ⟨bb, hm, hb, hl.le, fun h => by cases h⟩)
    (fun r hm hlen _ => ⟨_, r, SshFxpDataPacket.decodeBody_complete {} r hm hlen, rfl⟩)
    (fun hd => congrArg some (SshFxpDataPacket.decodeBody_sets_id _ _ _ _ _ hd))

theorem kind_setstat : Kind Packet.setstat {} :=
  Kind.ofAttrs sshFxpSetstat SshFxpSetstatPacket.attrs (fun p v => { p with attrs := v })
    SshFxpSetstatPacket.decodeHeader_spec SshFxpSetstatPacket.decodeBody_sets_id
    SshFxpSetstatPacket.marshalBinary_eq (fun _ _ => rfl)

theorem kind_fsetstat : Kind Packet.fsetstat {} :=
  Kind.ofAttrs sshFxpFsetstat SshFxpFsetstatPacket.attrs (fun p v => { p with attrs := v })
    SshFxpFsetstatPacket.decodeHeader_spec SshFxpFsetstatPacket.decodeBody_sets_id
    SshFxpFsetstatPacket.marshalBinary_eq (fun _ _ => rfl)

/-- Every packet is one of the twenty kinds. -/
theorem Packet.kind :
    ∀ q : Packet, ∃ (T : Type) (c : T → Packet) (z p : T), Kind c z ∧ q = c p
  | init p => ⟨_, _, _, p, kind_init, rfl⟩
  | «open» p => ⟨_, _, _, p, kind_open, rfl⟩
  | close p => ⟨_, _, _, p, kind_close, rfl⟩
  | read p => ⟨_, _, _, p, kind_read, rfl⟩
  | write p => ⟨_, _, _, p, kind_write, rfl⟩
  | lstat p => ⟨_, _, _, p, kind_lstat, rfl⟩
  | stat p => ⟨_, _, _, p, kind_stat, rfl⟩
  | fstat p => ⟨_, _, _, p, kind_fstat, rfl⟩
  | opendir p => ⟨_, _, _, p, kind_opendir, rfl⟩
  | readdir p => ⟨_, _, _, p, kind_readdir, rfl⟩
  | remove p => ⟨_, _, _, p, kind_remove, rfl⟩
  | mkdir p => ⟨_, _, _, p, kind_mkdir, rfl⟩
  | rmdir p => ⟨_, _, _, p, kind_rmdir, rfl⟩
  | realpath p => ⟨_, _, _, p, kind_realpath, rfl⟩
  | readlink p => ⟨_, _, _, p, kind_readlink, rfl⟩
  | rename p => ⟨_, _, _, p, kind_rename, rfl⟩
  | symlink p => ⟨_, _, _, p, kind_symlink, rfl⟩
  | data p => ⟨_, _, _, p, kind_data, rfl⟩
  | setstat p => ⟨_, _, _, p, kind_setstat, rfl⟩
  | fsetstat p => ⟨_, _, _, p, kind_fsetstat, rfl⟩

namespace Packet

theorem unmarshalBinary_isSome (q : Packet) (b : Bytes) : (q.unmarshalBinary b).isSome := by
  obtain ⟨T, c, z, p, K, rfl⟩ := q.kind
  exact K.total p b

theorem unmarshalBinary_blank_sound {q p : Packet} {b : Bytes}
    (h : q.blank.unmarshalBinary b = some (p, none)) : p.blank = q.blank ∧
      ∃ bb r, p.marshalBinary = some bb ∧ b = bb.tail ++ r ∧ p.Fits r ∧
        (p.readsToEnd → r = []) := by
  obtain ⟨T, c, z, p₀, K, rfl⟩ := q.kind
  rw [K.blank] at h ⊢
  exact K.sound h

/-- Decoding undoes encoding: the body `MarshalBinary` writes, followed by any `r` that
fits, decodes in a fresh receiver of the same type to `q.decoded r`. -/
theorem unmarshalBinary_blank_marshalBinary {q : Packet} {bb : Bytes} (r : Bytes)
    (hm : q.marshalBinary = some bb) (hlen : (bb.tail ++ r).length < 2 ^ 32) (hfits : q.Fits r) :
    q.blank.unmarshalBinary (bb.tail ++ r) = some (q.decoded r, none) := by
  obtain ⟨T, c, z, p, K, rfl⟩ := q.kind
  rw [K.blank]
  exact K.complete r hm hlen hfits

theorem write_round_trip :
    (write { id := 1, handle := [104], length := 2, data := [5, 6] }).marshalBinary =
      some [6, 0, 0, 0, 1, 0, 0, 0, 1, 104, 0, 0, 0, 0, 0, 0, 0, 0, 0, 0, 0, 2, 5, 6] ∧
    (List.tail [6, 0, 0, 0, 1, 0, 0, 0, 1, 104, 0, 0, 0, 0, 0, 0, 0, 0, 0, 0, 0, 2, 5, 6] ++
      [9]).length < 2 ^ 32 ∧
    (write { id := 1, handle := [104], length := 2, data := [5, 6] }).Fits [9] ∧
    (write {}).unmarshalBinary
      (List.tail [6, 0, 0, 0, 1, 0, 0, 0, 1, 104, 0, 0, 0, 0, 0, 0, 0, 0, 0, 0, 0, 2, 5, 6] ++
        [9]) = some (write { id := 1, handle := [104], length := 2, data := [5, 6] }, none) :=
  ⟨rfl, by decide, rfl, unmarshalBinary_blank_marshalBinary
    (q := write { id := 1, handle := [104], length := 2, data := [5, 6] }) [9] rfl (by decide)
    rfl⟩

/-- Every decoder is total, reads from a fresh receiver a prefix of the buffer that is
the body of the packet it returns (the whole buffer for the kinds that read to its end),
and, on a buffer shorter than `2^32`, fails exactly when no packet of its type has a body
that, with what follows it, fits. -/
theorem unmarshalBinary_safe_exact :
    (∀ (q : Packet) (b : Bytes), (q.unmarshalBinary b).isSome) ∧
    (∀ (q p : Packet) (b : Bytes), q.blank.unmarshalBinary b = some (p, none) →
      ∃ bb r, p.marshalBinary = some bb ∧ b = bb.tail ++ r ∧ (p.readsToEnd → r = [])) ∧
    (∀ (q : Packet) (b : Bytes), b.length < 2 ^ 32 →
      ((∃ p e, q.blank.unmarshalBinary b = some (p, some e)) ↔
        ¬ ∃ (p : Packet) (bb r : Bytes), p.blank = q.blank ∧ p.marshalBinary = some bb ∧
          b = bb.tail ++ r ∧ p.Fits r)) := by
  refine ⟨unmarshalBinary_isSome, fun q p b h => ?_, fun q b hb => ⟨?_, fun hno => ?_⟩⟩
  · obtain ⟨-, bb, r, hm, hb, -, hend⟩ := unmarshalBinary_blank_sound h
    exact ⟨bb, r, hm, hb, hend⟩
  · rintro ⟨p, e, he⟩ ⟨p', bb, r, hblank, hm, rfl, hfits⟩
    obtain ⟨T, c, z, p₀, K, rfl⟩ := p'.kind
    rw [← hblank, K.blank, K.complete r hm hb hfits] at he
    cases he
  · obtain ⟨⟨p, err⟩, h⟩ := Option.isSome_iff_exists.mp (unmarshalBinary_isSome q.blank b)
    cases err with
    | some e => exact ⟨p, e, h⟩
    | none =>
      obtain ⟨hblank, bb, r, hm, hbb, hfits, -⟩ := unmarshalBinary_blank_sound h
      exact absurd ⟨p, bb, r, hblank, hm, hbb, hfits⟩ hno

/-- Every error a decoder returns is `shortPacketError`, except the "truncated packet"
error of `DATA`. -/
theorem unmarshalBinary_error {q p : Packet} {b : Bytes} {e : GoError}
    (h : q.unmarshalBinary b = some (p, some e)) :
    e = .shortPacket ∨ (∃ d, q = data d) ∧ e = .errorf "truncated packet" := by
  obtain ⟨T, c, z, p₀, K, rfl⟩ := q.kind
  exact K.fails h

theorem unmarshalBinary_error_short_handle :
    (write {}).unmarshalBinary [0, 0, 0, 7, 0, 0, 0, 5] =
      some (write { id := 7 }, some .shortPacket) ∧
      (GoError.shortPacket = .shortPacket ∨
        (∃ d, write {} = data d) ∧ GoError.shortPacket = .errorf "truncated packet") :=
  ⟨rfl, unmarshalBinary_error (b := [0, 0, 0, 7, 0, 0, 0, 5]) (p := write { id := 7 }) rfl⟩

/-- `DATA` with a declared `Length` of 5 and no data: its decoder returns
`fmt.Errorf("truncated packet")`, which is not `shortPacketError`. -/
theorem data_truncated_error :
    (data {}).unmarshalBinary [0, 0, 0, 1, 0, 0, 0, 5] =
      some (data { id := 1, length := 5 }, some (.errorf "truncated packet")) ∧
    GoError.errorf "truncated packet" ≠ .shortPacket :=
  ⟨rfl, GoError.noConfusion⟩

/-- The request id is the buffer's first word however the decode ends, error or not. -/
theorem unmarshalBinary_idField {q p : Packet} {b : Bytes} {e : Option GoError} {id : UInt32}
    (hq : q.idField = some id) (hb : 4 ≤ b.length) (h : q.unmarshalBinary b = some (p, e)) :
    p.idField = some (UInt32.ofNat (beValue (b.take 4))) := by
  obtain ⟨T, c, z, p₀, K, rfl⟩ := q.kind
  rw [K.keepsId h, hq, Option.map_some', firstWord, if_neg (by omega)]

theorem unmarshalBinary_idField_short_handle :
    (write {}).idField = some 0 ∧ 4 ≤ [0, 0, 0, 7, 0, 0, 0, 5].length ∧
    (write {}).unmarshalBinary [0, 0, 0, 7, 0, 0, 0, 5] =
      some (write { id := 7 }, some .shortPacket) ∧
    (write { id := 7 }).idField =
      some (UInt32.ofNat (beValue (List.take 4 [0, 0, 0, 7, 0, 0, 0, 5]))) :=
  ⟨rfl, by decide, rfl, unmarshalBinary_idField (q := write {}) rfl (by decide) rfl⟩

/-- `Stat` and `Lstat`, with the same id and path, encode to the same bytes, the tag byte
included: `[7, 0, 0, 0, 0, 0, 0, 0, 0]` for id `0` and the empty path. -/
theorem stat_lstat_same_bytes :
    (stat { id := 0, path := [] }).marshalBinary = some [7, 0, 0, 0, 0, 0, 0, 0, 0] ∧
    (lstat { id := 0, path := [] }).marshalBinary = some [7, 0, 0, 0, 0, 0, 0, 0, 0] :=
  ⟨rfl, rfl⟩

/-- The first byte of every encoding is the registry tag of its kind, except that `Stat`
writes the tag of `LSTAT` and `Realpath` the tag of `READLINK`. -/
theorem marshalBinary_head {q : Packet} {bb : Bytes} (h : q.marshalBinary = some bb) :
    bb.head? = some (match q with
      | stat _ => sshFxpLstat
      | realpath _ => sshFxpReadlink
      | q => q.registryTag) := by
  cases q
  case init p => cases h; exact congrArg List.head? (SshFxInitPacket.marshalBinary_eq p)
  case data p => obtain ⟨-, rfl⟩ := SshFxpDataPacket.marshalBinary_eq_some.mp h; rfl
  case setstat p =>
    rw [marshalBinary, SshFxpSetstatPacket.marshalBinary_eq] at h
    obtain ⟨a, -, rfl⟩ := Option.map_eq_some'.mp h
    rfl
  case fsetstat p =>
    rw [marshalBinary, SshFxpFsetstatPacket.marshalBinary_eq] at h
    obtain ⟨a, -, rfl⟩ := Option.map_eq_some'.mp h
    rfl
  all_goals cases h; rfl

/-- Dispatching an encoded packet on its first byte gives a fresh receiver of its own
kind, except that a `Stat` is taken for an `LSTAT` and a `Realpath` for a `READLINK`. -/
theorem dispatch_marshalBinary {q : Packet} {bb : Bytes} (h : q.marshalBinary = some bb) :
    bb.head?.bind ofTag = some (match q with
      | stat _ => lstat {}
      | realpath _ => readlink {}
      | q => q.blank) := by
  rw [marshalBinary_head h]
  cases q <;> rfl

theorem dispatch_realpath_as_readlink :
    (realpath { id := 1, path := [47] }).marshalBinary =
      some [19, 0, 0, 0, 1, 0, 0, 0, 1, 47] ∧
    Option.bind (List.head? [19, 0, 0, 0, 1, 0, 0, 0, 1, 47]) ofTag = some (readlink {}) :=
  ⟨rfl, dispatch_marshalBinary (q := realpath { id := 1, path := [47] }) rfl⟩

end Packet

end SftpWire
