import SftpWire.Decode
import SftpWire.Marshal

/-!
# The packets of `packet.go`

Each packet type of the source is a structure whose fields default to Go's zero
values, so `{}` is the fresh receiver a dispatcher decodes into. `marshalBinary` writes
the tag byte and the fields in declared order; where the source can panic on the way
(the reflective `marshal`, or `p.Data[:p.Length]`) it returns an `Option`. Every
`MarshalBinary` of the file returns a `nil` error, which the model leaves out. The
pre-computed capacity `l` each of them passes to `make` does not change the bytes
written, and is left out too.

`unmarshalBinary` is the decoder chain of the source as a `Decode` run (`Decode.run`);
`decodeBody` is that chain, where the later modules prove things about it.
-/

namespace SftpWire

open Decode

/-- Modelled from the spec: the package's `ssh_FXP_*` constants are not under src/.
These are the values of the protocol's numeric registry, which the spec requires. -/
def sshFxpInit : UInt8 := 1
def sshFxpVersion : UInt8 := 2
def sshFxpOpen : UInt8 := 3
def sshFxpClose : UInt8 := 4
def sshFxpRead : UInt8 := 5
def sshFxpWrite : UInt8 := 6
def sshFxpLstat : UInt8 := 7
def sshFxpFstat : UInt8 := 8
def sshFxpSetstat : UInt8 := 9
def sshFxpFsetstat : UInt8 := 10
def sshFxpOpendir : UInt8 := 11
def sshFxpReaddir : UInt8 := 12
def sshFxpRemove : UInt8 := 13
def sshFxpMkdir : UInt8 := 14
def sshFxpRmdir : UInt8 := 15
def sshFxpRealpath : UInt8 := 16
def sshFxpStat : UInt8 := 17
def sshFxpRename : UInt8 := 18
def sshFxpReadlink : UInt8 := 19
def sshFxpSymlink : UInt8 := 20
def sshFxpStatus : UInt8 := 101
def sshFxpHandle : UInt8 := 102
def sshFxpData : UInt8 := 103
def sshFxpName : UInt8 := 104
def sshFxpExtended : UInt8 := 200

structure ExtensionPair where
  name : Bytes := []
  data : Bytes := []
  deriving DecidableEq, Repr

def ExtensionPair.decodeBody : Decode ExtensionPair :=
  (field unmarshalStringSafe fun ep v => { ep with name := v })
    |>.andThen (field unmarshalStringSafe fun ep v => { ep with data := v })

/-- Fills a fresh `ExtensionPair{}` and returns it with the rest and the error. -/
def unmarshalExtensionPair (b : Bytes) : Option (ExtensionPair × Bytes × Option GoError) :=
  ExtensionPair.decodeBody {} b

/-- The bytes of one pair, as `MarshalBinary` of `INIT` and `VERSION` writes them. -/
def ExtensionPair.put (e : ExtensionPair) : Bytes :=
  Codec.string.put e.name ++ Codec.string.put e.data

theorem ExtensionPair.decodeBody_spec :
    Spec ExtensionPair.decodeBody ExtensionPair.put
      (fun e => e.name.length < 2 ^ 32 ∧ e.data.length < 2 ^ 32)
      (fun q p => { { p with name := q.name } with data := q.data }) :=
  (Spec.field Codec.string ExtensionPair.name _ fun _ _ => rfl).andThen_field Codec.string
    ExtensionPair.data _

/-- Each pair read takes at least its two length prefixes, so the `INIT` loop ends. -/
theorem unmarshalExtensionPair_shrinks {b rest : Bytes} {ep : ExtensionPair}
    (h : unmarshalExtensionPair b = some (ep, rest, none)) : rest.length < b.length := by
  have := congrArg List.length (ExtensionPair.decodeBody_spec.sound h).1
  simp [ExtensionPair.put] at this
  omega

structure SshFxInitPacket where
  version : UInt32 := 0
  extensions : List ExtensionPair := []
  deriving DecidableEq, Repr

def SshFxInitPacket.marshalBinary (p : SshFxInitPacket) : Bytes :=
  p.extensions.foldl (fun b e => marshalString (marshalString b e.name) e.data)
    (marshalUint32 [sshFxpInit] p.version)

/-- `for len(b) > 0 { ep, b, err = unmarshalExtensionPair(b); if err != nil { return err };
p.Extensions = append(p.Extensions, ep) }` -/
def SshFxInitPacket.extensionsLoop (p : SshFxInitPacket) (b : Bytes) :
    Option (SshFxInitPacket × Bytes × Option GoError) :=
  if 0 < b.length then
    match hx : unmarshalExtensionPair b with
    | none => none
    | some (_, rest, some e) => some (p, rest, some e)
    | some (ep, rest, none) => extensionsLoop { p with extensions := p.extensions ++ [ep] } rest
  else some (p, b, none)
termination_by b.length
decreasing_by exact unmarshalExtensionPair_shrinks hx

def SshFxInitPacket.decodeBody : Decode SshFxInitPacket :=
  (field unmarshalUint32Safe fun p v => { p with version := v })
    |>.andThen SshFxInitPacket.extensionsLoop

def SshFxInitPacket.unmarshalBinary (p : SshFxInitPacket) (b : Bytes) :
    Option (SshFxInitPacket × Option GoError) :=
  SshFxInitPacket.decodeBody.run p b

/-- The source's `Extensions` is an anonymous `struct { Name, Data string }`, the same
shape as `ExtensionPair`. -/
structure SshFxVersionPacket where
  version : UInt32 := 0
  extensions : List ExtensionPair := []
  deriving DecidableEq, Repr

def SshFxVersionPacket.marshalBinary (p : SshFxVersionPacket) : Bytes :=
  p.extensions.foldl (fun b e => marshalString (marshalString b e.name) e.data)
    (marshalUint32 [sshFxpVersion] p.version)

def marshalIdString (packetType : UInt8) (id : UInt32) (str : Bytes) : Bytes :=
  marshalString (marshalUint32 [packetType] id) str

def idStringBody : Decode (UInt32 × Bytes) :=
  (field unmarshalUint32Safe fun (_, str) v => (v, str))
    |>.andThen (field unmarshalStringSafe fun (id, _) v => (id, v))

/-- `unmarshalIdString(b, &id, &str)`: the targets of the two pointers go in, their new
contents and the error come out. -/
def unmarshalIdString (b : Bytes) (id : UInt32) (str : Bytes) :
    Option (UInt32 × Bytes × Option GoError) :=
  (idStringBody.run (id, str) b).map fun ((id, str), err) => (id, str, err)

structure SshFxpReaddirPacket where
  id : UInt32 := 0
  handle : Bytes := []
  deriving DecidableEq, Repr

def SshFxpReaddirPacket.marshalBinary (p : SshFxpReaddirPacket) : Bytes :=
  marshalIdString sshFxpReaddir p.id p.handle

def SshFxpReaddirPacket.unmarshalBinary (p : SshFxpReaddirPacket) (b : Bytes) :
    Option (SshFxpReaddirPacket × Option GoError) :=
  (unmarshalIdString b p.id p.handle).map fun (id, handle, err) => ({ id, handle }, err)

structure SshFxpOpendirPacket where
  id : UInt32 := 0
  path : Bytes := []
  deriving DecidableEq, Repr

def SshFxpOpendirPacket.marshalBinary (p : SshFxpOpendirPacket) : Bytes :=
  marshalIdString sshFxpOpendir p.id p.path

def SshFxpOpendirPacket.unmarshalBinary (p : SshFxpOpendirPacket) (b : Bytes) :
    Option (SshFxpOpendirPacket × Option GoError) :=
  (unmarshalIdString b p.id p.path).map fun (id, path, err) => ({ id, path }, err)

structure SshFxpLstatPacket where
  id : UInt32 := 0
  path : Bytes := []
  deriving DecidableEq, Repr

def SshFxpLstatPacket.marshalBinary (p : SshFxpLstatPacket) : Bytes :=
  marshalIdString sshFxpLstat p.id p.path

def SshFxpLstatPacket.unmarshalBinary (p : SshFxpLstatPacket) (b : Bytes) :
    Option (SshFxpLstatPacket × Option GoError) :=
  (unmarshalIdString b p.id p.path).map fun (id, path, err) => ({ id, path }, err)

structure SshFxpStatPacket where
  id : UInt32 := 0
  path : Bytes := []
  deriving DecidableEq, Repr

/-- The source passes `ssh_FXP_LSTAT` here, not `ssh_FXP_STAT`. -/
def SshFxpStatPacket.marshalBinary (p : SshFxpStatPacket) : Bytes :=
  marshalIdString sshFxpLstat p.id p.path

def SshFxpStatPacket.unmarshalBinary (p : SshFxpStatPacket) (b : Bytes) :
    Option (SshFxpStatPacket × Option GoError) :=
  (unmarshalIdString b p.id p.path).map fun (id, path, err) => ({ id, path }, err)

structure SshFxpFstatPacket where
  id : UInt32 := 0
  handle : Bytes := []
  deriving DecidableEq, Repr

def SshFxpFstatPacket.marshalBinary (p : SshFxpFstatPacket) : Bytes :=
  marshalIdString sshFxpFstat p.id p.handle

def SshFxpFstatPacket.unmarshalBinary (p : SshFxpFstatPacket) (b : Bytes) :
    Option (SshFxpFstatPacket × Option GoError) :=
  (unmarshalIdString b p.id p.handle).map fun (id, handle, err) => ({ id, handle }, err)

structure SshFxpClosePacket where
  id : UInt32 := 0
  handle : Bytes := []
  deriving DecidableEq, Repr

def SshFxpClosePacket.marshalBinary (p : SshFxpClosePacket) : Bytes :=
  marshalIdString sshFxpClose p.id p.handle

def SshFxpClosePacket.unmarshalBinary (p : SshFxpClosePacket) (b : Bytes) :
    Option (SshFxpClosePacket × Option GoError) :=
  (unmarshalIdString b p.id p.handle).map fun (id, handle, err) => ({ id, handle }, err)

structure SshFxpRemovePacket where
  id : UInt32 := 0
  filename : Bytes := []
  deriving DecidableEq, Repr

def SshFxpRemovePacket.marshalBinary (p : SshFxpRemovePacket) : Bytes :=
  marshalIdString sshFxpRemove p.id p.filename

def SshFxpRemovePacket.unmarshalBinary (p : SshFxpRemovePacket) (b : Bytes) :
    Option (SshFxpRemovePacket × Option GoError) :=
  (unmarshalIdString b p.id p.filename).map fun (id, filename, err) => ({ id, filename }, err)

structure SshFxpRmdirPacket where
  id : UInt32 := 0
  path : Bytes := []
  deriving DecidableEq, Repr

def SshFxpRmdirPacket.marshalBinary (p : SshFxpRmdirPacket) : Bytes :=
  marshalIdString sshFxpRmdir p.id p.path

def SshFxpRmdirPacket.unmarshalBinary (p : SshFxpRmdirPacket) (b : Bytes) :
    Option (SshFxpRmdirPacket × Option GoError) :=
  (unmarshalIdString b p.id p.path).map fun (id, path, err) => ({ id, path }, err)

structure SshFxpReadlinkPacket where
  id : UInt32 := 0
  path : Bytes := []
  deriving DecidableEq, Repr

def SshFxpReadlinkPacket.marshalBinary (p : SshFxpReadlinkPacket) : Bytes :=
  marshalIdString sshFxpReadlink p.id p.path

def SshFxpReadlinkPacket.unmarshalBinary (p : SshFxpReadlinkPacket) (b : Bytes) :
    Option (SshFxpReadlinkPacket × Option GoError) :=
  (unmarshalIdString b p.id p.path).map fun (id, path, err) => ({ id, path }, err)

structure SshFxpRealpathPacket where
  id : UInt32 := 0
  path : Bytes := []
  deriving DecidableEq, Repr

/-- The source passes `ssh_FXP_READLINK` here, not `ssh_FXP_REALPATH`. -/
def SshFxpRealpathPacket.marshalBinary (p : SshFxpRealpathPacket) : Bytes :=
  marshalIdString sshFxpReadlink p.id p.path

def SshFxpRealpathPacket.unmarshalBinary (p : SshFxpRealpathPacket) (b : Bytes) :
    Option (SshFxpRealpathPacket × Option GoError) :=
  (unmarshalIdString b p.id p.path).map fun (id, path, err) => ({ id, path }, err)

structure SshFxpSymlinkPacket where
  id : UInt32 := 0
  targetpath : Bytes := []
  linkpath : Bytes := []
  deriving DecidableEq, Repr

def SshFxpSymlinkPacket.marshalBinary (p : SshFxpSymlinkPacket) : Bytes :=
  marshalString (marshalString (marshalUint32 [sshFxpSymlink] p.id) p.targetpath) p.linkpath

def SshFxpSymlinkPacket.decodeBody : Decode SshFxpSymlinkPacket :=
  (field unmarshalUint32Safe fun p v => { p with id := v })
    |>.andThen (field unmarshalStringSafe fun p v => { p with targetpath := v })
    |>.andThen (field unmarshalStringSafe fun p v => { p with linkpath := v })

def SshFxpSymlinkPacket.unmarshalBinary (p : SshFxpSymlinkPacket) (b : Bytes) :
    Option (SshFxpSymlinkPacket × Option GoError) :=
  SshFxpSymlinkPacket.decodeBody.run p b

structure SshFxpOpenPacket where
  id : UInt32 := 0
  path : Bytes := []
  pflags : UInt32 := 0
  flags : UInt32 := 0
  deriving DecidableEq, Repr

def SshFxpOpenPacket.marshalBinary (p : SshFxpOpenPacket) : Bytes :=
  marshalUint32 (marshalUint32 (marshalString (marshalUint32 [sshFxpOpen] p.id) p.path)
    p.pflags) p.flags

def SshFxpOpenPacket.decodeBody : Decode SshFxpOpenPacket :=
  (field unmarshalUint32Safe fun p v => { p with id := v })
    |>.andThen (field unmarshalStringSafe fun p v => { p with path := v })
    |>.andThen (field unmarshalUint32Safe fun p v => { p with pflags := v })
    |>.andThen (field unmarshalUint32Safe fun p v => { p with flags := v })

def SshFxpOpenPacket.unmarshalBinary (p : SshFxpOpenPacket) (b : Bytes) :
    Option (SshFxpOpenPacket × Option GoError) :=
  SshFxpOpenPacket.decodeBody.run p b

structure SshFxpReadPacket where
  id : UInt32 := 0
  handle : Bytes := []
  offset : UInt64 := 0
  len : UInt32 := 0
  deriving DecidableEq, Repr

def SshFxpReadPacket.marshalBinary (p : SshFxpReadPacket) : Bytes :=
  marshalUint32 (marshalUint64 (marshalString (marshalUint32 [sshFxpRead] p.id) p.handle)
    p.offset) p.len

def SshFxpReadPacket.decodeBody : Decode SshFxpReadPacket :=
  (field unmarshalUint32Safe fun p v => { p with id := v })
    |>.andThen (field unmarshalStringSafe fun p v => { p with handle := v })
    |>.andThen (field unmarshalUint64Safe fun p v => { p with offset := v })
    |>.andThen (field unmarshalUint32Safe fun p v => { p with len := v })

def SshFxpReadPacket.unmarshalBinary (p : SshFxpReadPacket) (b : Bytes) :
    Option (SshFxpReadPacket × Option GoError) :=
  SshFxpReadPacket.decodeBody.run p b

structure SshFxpRenamePacket where
  id : UInt32 := 0
  oldpath : Bytes := []
  newpath : Bytes := []
  deriving DecidableEq, Repr

def SshFxpRenamePacket.marshalBinary (p : SshFxpRenamePacket) : Bytes :=
  marshalString (marshalString (marshalUint32 [sshFxpRename] p.id) p.oldpath) p.newpath

def SshFxpRenamePacket.decodeBody : Decode SshFxpRenamePacket :=
  (field unmarshalUint32Safe fun p v => { p with id := v })
    |>.andThen (field unmarshalStringSafe fun p v => { p with oldpath := v })
    |>.andThen (field unmarshalStringSafe fun p v => { p with newpath := v })

def SshFxpRenamePacket.unmarshalBinary (p : SshFxpRenamePacket) (b : Bytes) :
    Option (SshFxpRenamePacket × Option GoError) :=
  SshFxpRenamePacket.decodeBody.run p b

structure SshFxpWritePacket where
  id : UInt32 := 0
  handle : Bytes := []
  offset : UInt64 := 0
  length : UInt32 := 0
  data : Bytes := []
  deriving DecidableEq, Repr

def SshFxpWritePacket.marshalBinary (s : SshFxpWritePacket) : Bytes :=
  marshalUint32 (marshalUint64 (marshalString (marshalUint32 [sshFxpWrite] s.id) s.handle)
    s.offset) s.length ++ s.data

/-- `else if uint32(len(b)) < p.Length { err = shortPacketError; return } else
{ p.Data = append([]byte{}, b[:p.Length]...) }`. The buffer left is what follows the
data; the method drops it. -/
def SshFxpWritePacket.readData : Decode SshFxpWritePacket := fun p b =>
  if UInt32.ofNat b.length < p.length then some (p, b, some .shortPacket)
  else (sliceTo b p.length.toNat).map fun data => ({ p with data }, b.drop p.length.toNat, none)

def SshFxpWritePacket.decodeHeader : Decode SshFxpWritePacket :=
  (field unmarshalUint32Safe fun p v => { p with id := v })
    |>.andThen (field unmarshalStringSafe fun p v => { p with handle := v })
    |>.andThen (field unmarshalUint64Safe fun p v => { p with offset := v })
    |>.andThen (field unmarshalUint32Safe fun p v => { p with length := v })

def SshFxpWritePacket.decodeBody : Decode SshFxpWritePacket :=
  SshFxpWritePacket.decodeHeader.andThen SshFxpWritePacket.readData

def SshFxpWritePacket.unmarshalBinary (p : SshFxpWritePacket) (b : Bytes) :
    Option (SshFxpWritePacket × Option GoError) :=
  SshFxpWritePacket.decodeBody.run p b

structure SshFxpMkdirPacket where
  id : UInt32 := 0
  path : Bytes := []
  flags : UInt32 := 0
  deriving DecidableEq, Repr

def SshFxpMkdirPacket.marshalBinary (p : SshFxpMkdirPacket) : Bytes :=
  marshalUint32 (marshalString (marshalUint32 [sshFxpMkdir] p.id) p.path) p.flags

def SshFxpMkdirPacket.decodeBody : Decode SshFxpMkdirPacket :=
  (field unmarshalUint32Safe fun p v => { p with id := v })
    |>.andThen (field unmarshalStringSafe fun p v => { p with path := v })
    |>.andThen (field unmarshalUint32Safe fun p v => { p with flags := v })

def SshFxpMkdirPacket.unmarshalBinary (p : SshFxpMkdirPacket) (b : Bytes) :
    Option (SshFxpMkdirPacket × Option GoError) :=
  SshFxpMkdirPacket.decodeBody.run p b

structure SshFxpSetstatPacket where
  id : UInt32 := 0
  path : Bytes := []
  flags : UInt32 := 0
  attrs : Value := .nil
  deriving Repr

structure SshFxpFsetstatPacket where
  id : UInt32 := 0
  handle : Bytes := []
  flags : UInt32 := 0
  attrs : Value := .nil
  deriving Repr

def SshFxpSetstatPacket.marshalBinary (p : SshFxpSetstatPacket) : Option Bytes :=
  marshal (marshalUint32 (marshalString (marshalUint32 [sshFxpSetstat] p.id) p.path) p.flags)
    p.attrs

def SshFxpFsetstatPacket.marshalBinary (p : SshFxpFsetstatPacket) : Option Bytes :=
  marshal (marshalUint32 (marshalString (marshalUint32 [sshFxpFsetstat] p.id) p.handle)
    p.flags) p.attrs

def SshFxpSetstatPacket.decodeHeader : Decode SshFxpSetstatPacket :=
  (field unmarshalUint32Safe fun p v => { p with id := v })
    |>.andThen (field unmarshalStringSafe fun p v => { p with path := v })
    |>.andThen (field unmarshalUint32Safe fun p v => { p with flags := v })

/-- `p.Attrs = b`: the rest of the buffer, kept as raw bytes. -/
def SshFxpSetstatPacket.decodeBody : Decode SshFxpSetstatPacket :=
  SshFxpSetstatPacket.decodeHeader.andThen fun p b =>
    some ({ p with attrs := .ofBytes b }, [], none)

def SshFxpSetstatPacket.unmarshalBinary (p : SshFxpSetstatPacket) (b : Bytes) :
    Option (SshFxpSetstatPacket × Option GoError) :=
  SshFxpSetstatPacket.decodeBody.run p b

def SshFxpFsetstatPacket.decodeHeader : Decode SshFxpFsetstatPacket :=
  (field unmarshalUint32Safe fun p v => { p with id := v })
    |>.andThen (field unmarshalStringSafe fun p v => { p with handle := v })
    |>.andThen (field unmarshalUint32Safe fun p v => { p with flags := v })

def SshFxpFsetstatPacket.decodeBody : Decode SshFxpFsetstatPacket :=
  SshFxpFsetstatPacket.decodeHeader.andThen fun p b =>
    some ({ p with attrs := .ofBytes b }, [], none)

def SshFxpFsetstatPacket.unmarshalBinary (p : SshFxpFsetstatPacket) (b : Bytes) :
    Option (SshFxpFsetstatPacket × Option GoError) :=
  SshFxpFsetstatPacket.decodeBody.run p b

/-- The `EXTENDED` request `statvfs@openssh.com`; it has no decoder. -/
structure SshFxpStatvfsPacket where
  id : UInt32 := 0
  path : Bytes := []
  deriving DecidableEq, Repr

def SshFxpStatvfsPacket.marshalBinary (p : SshFxpStatvfsPacket) : Bytes :=
  marshalString (marshalString (marshalUint32 [sshFxpExtended] p.id)
    "statvfs@openssh.com".toUTF8.toList) p.path

structure SshFxpHandlePacket where
  id : UInt32 := 0
  handle : Bytes := []
  deriving DecidableEq, Repr

def SshFxpHandlePacket.marshalBinary (p : SshFxpHandlePacket) : Bytes :=
  marshalString (marshalUint32 [sshFxpHandle] p.id) p.handle

/-- Modelled from the spec: `StatusError` is not under src/. The spec gives it a code, a
message and a language tag. -/
structure StatusError where
  code : UInt32 := 0
  msg : Bytes := []
  lang : Bytes := []
  deriving DecidableEq, Repr

/-- Modelled from the spec: `marshalStatus` is not under src/. The spec fixes the order
code, message, language. -/
def marshalStatus (b : Bytes) (err : StatusError) : Bytes :=
  marshalString (marshalString (marshalUint32 b err.code) err.msg) err.lang

structure SshFxpStatusPacket where
  id : UInt32 := 0
  statusError : StatusError := {}
  deriving DecidableEq, Repr

def SshFxpStatusPacket.marshalBinary (p : SshFxpStatusPacket) : Bytes :=
  marshalStatus (marshalUint32 [sshFxpStatus] p.id) p.statusError

structure SshFxpDataPacket where
  id : UInt32 := 0
  length : UInt32 := 0
  data : Bytes := []
  /-- The elements of `Data`'s backing array past `len(Data)`, up to `cap(Data)`. -/
  spare : Bytes := []
  deriving DecidableEq, Repr

/-- `p.Data[:p.Length]` reslices `Data` up to its capacity: it panics only when `Length`
exceeds `cap(Data)`, and past `len(Data)` it takes the bytes of the backing array. -/
def SshFxpDataPacket.marshalBinary (p : SshFxpDataPacket) : Option Bytes :=
  (sliceTo (p.data ++ p.spare) p.length.toNat).map
    (marshalUint32 (marshalUint32 [sshFxpData] p.id) p.length ++ ·)

/-- `else if uint32(len(b)) < p.Length { return fmt.Errorf("truncated packet") } else
{ p.Data = make([]byte, p.Length); copy(p.Data, b) }`: `copy` fills all `Length` bytes,
since the check leaves at least that many, and the new slice has no spare capacity. -/
def SshFxpDataPacket.readData : Decode SshFxpDataPacket := fun p b =>
  if UInt32.ofNat b.length < p.length then some (p, b, some (.errorf "truncated packet"))
  else some ({ p with data := b.take p.length.toNat, spare := [] }, b.drop p.length.toNat, none)

def SshFxpDataPacket.decodeHeader : Decode SshFxpDataPacket :=
  (field unmarshalUint32Safe fun p v => { p with id := v })
    |>.andThen (field unmarshalUint32Safe fun p v => { p with length := v })

def SshFxpDataPacket.decodeBody : Decode SshFxpDataPacket :=
  SshFxpDataPacket.decodeHeader.andThen SshFxpDataPacket.readData

def SshFxpDataPacket.unmarshalBinary (p : SshFxpDataPacket) (b : Bytes) :
    Option (SshFxpDataPacket × Option GoError) :=
  SshFxpDataPacket.decodeBody.run p b

structure SshFxpNameAttr where
  name : Bytes := []
  longName : Bytes := []
  attrs : List Value := []
  deriving Repr

def SshFxpNameAttr.marshalBinary (p : SshFxpNameAttr) : Option Bytes :=
  p.attrs.foldl (fun b attr => b.bind (marshal · attr))
    (some (marshalString (marshalString [] p.name) p.longName))

structure SshFxpNamePacket where
  id : UInt32 := 0
  nameAttrs : List SshFxpNameAttr := []
  deriving Repr

def SshFxpNamePacket.marshalBinary (p : SshFxpNamePacket) : Option Bytes :=
  p.nameAttrs.foldl (fun b na => b.bind fun b => (na.marshalBinary).map (b ++ ·))
    (some (marshalUint32 (marshalUint32 [sshFxpName] p.id) (UInt32.ofNat p.nameAttrs.length)))

/-- Filesystem statistics of a `statvfs@openssh.com` reply: the fields `TotalSpace` and
`FreeSpace` read. -/
structure StatVFS where
  frsize : UInt64 := 0
  blocks : UInt64 := 0
  bfree : UInt64 := 0
  deriving DecidableEq, Repr

/-- `p.Frsize * p.Blocks`, a `uint64` product that wraps. -/
def StatVFS.totalSpace (p : StatVFS) : UInt64 := p.frsize * p.blocks

def StatVFS.freeSpace (p : StatVFS) : UInt64 := p.frsize * p.bfree

end SftpWire
