import SftpWire.Primitive

/-!
# The reflective encoder `marshal`

`marshal(b, v)` encodes a value held in an `interface{}`: a type switch on its dynamic
type for the integers, strings and `os.FileInfo`, then `reflect` for structs and
slices, field by field or element by element, and a panic ("cannot handle type") for
every other dynamic type. `Value` keeps exactly the distinctions that switch makes.

`SETSTAT` and `FSETSTAT` carry their attributes as such a value, and decode them as
the raw `[]byte` left after the fixed fields, so the two directions meet only through
`marshal_ofBytes`.
-/

namespace SftpWire

/-- Modelled from the spec: `marshalFileInfo` and the attribute record it reads out of
an `os.FileInfo` are not under src/. The spec's attribute block is a flags word and the
optional fields size, uid/gid, permissions and atime/mtime. -/
structure FileStat where
  flags : UInt32
  size : UInt64
  uid : UInt32
  gid : UInt32
  mode : UInt32
  atime : UInt32
  mtime : UInt32
  deriving DecidableEq, Repr

/-- Modelled from the spec: the flag bits of the protocol's attribute block. -/
def sshFilexferAttrSize : UInt32 := 0x00000001
def sshFilexferAttrUidgid : UInt32 := 0x00000002
def sshFilexferAttrPermissions : UInt32 := 0x00000004
def sshFilexferAttrAcmodtime : UInt32 := 0x00000008

/-- Modelled from the spec: the flags field first, then each optional field only if
its bit is set, in the one canonical order. -/
def marshalFileInfo (b : Bytes) (fi : FileStat) : Bytes :=
  let b := marshalUint32 b fi.flags
  let b := if fi.flags &&& sshFilexferAttrSize ≠ 0 then marshalUint64 b fi.size else b
  let b := if fi.flags &&& sshFilexferAttrUidgid ≠ 0 then
    marshalUint32 (marshalUint32 b fi.uid) fi.gid else b
  let b := if fi.flags &&& sshFilexferAttrPermissions ≠ 0 then marshalUint32 b fi.mode else b
  if fi.flags &&& sshFilexferAttrAcmodtime ≠ 0 then
    marshalUint32 (marshalUint32 b fi.atime) fi.mtime else b

/-- A Go value in an `interface{}`, by the case of `marshal` it takes. The type switch
matches the exact types `uint8`, `uint32`, `uint64` and `string`, and any `os.FileInfo`;
every other value goes to `reflect`. -/
inductive Value where
  /-- The nil interface. -/
  | nil
  | uint8 (v : UInt8)
  | uint32 (v : UInt32)
  | uint64 (v : UInt64)
  | string (s : Bytes)
  | fileInfo (fi : FileStat)
  /-- A struct all of whose fields are exported, with their values in order. -/
  | struct (fields : List Value)
  /-- A slice, with its elements in order. -/
  | slice (elems : List Value)
  /-- Any other value, on which `marshal` panics: one of a named type over a number or a
  string, an array, a pointer, a map and so on, and a struct with an unexported field,
  whose `d.Field(i).Interface()` panics. The type is named for the panic message. -/
  | other (type : String)
  deriving Repr

/-- A `[]byte` stored in an `interface{}`, as `UnmarshalBinary` stores `p.Attrs = b`. -/
def Value.ofBytes (b : Bytes) : Value := .slice (b.map .uint8)

/-- `none` is the "cannot handle type" panic. -/
def marshal (b : Bytes) : Value → Option Bytes
  | .nil => some b
  | .uint8 v => some (b ++ [v])
  | .uint32 v => some (marshalUint32 b v)
  | .uint64 v => some (marshalUint64 b v)
  | .string s => some (marshalString b s)
  | .fileInfo fi => some (marshalFileInfo b fi)
  | .struct fields => marshalEach b fields
  | .slice elems => marshalEach b elems
  | .other _ => none
where
  /-- `for i := 0; i < n; i++ { b = append(marshal(b, d.Field(i).Interface())) }` -/
  marshalEach (b : Bytes) : List Value → Option Bytes
    | [] => some b
    | v :: vs => (marshal b v).bind fun b => marshalEach b vs

private theorem ite_append_prefix (c : Prop) [Decidable c] (x y z : Bytes) :
    (if c then x ++ y else x ++ z) = x ++ if c then y else z := by
  split <;> rfl

theorem marshalFileInfo_append (b : Bytes) (fi : FileStat) :
    marshalFileInfo b fi = b ++ marshalFileInfo [] fi := by
  simp only [marshalFileInfo, marshalUint32_eq, marshalUint64_eq, List.append_assoc,
    List.nil_append, ite_append_prefix]

mutual

/-- `marshal` only appends to the buffer it is given. -/
theorem marshal_append (b : Bytes) : ∀ v : Value, marshal b v = (marshal [] v).map (b ++ ·)
  | .nil => by simp [marshal]
  | .uint8 _ => by simp [marshal]
  | .uint32 _ => by simp [marshal]
  | .uint64 _ => by simp [marshal]
  | .string _ => by simp [marshal]
  | .fileInfo fi => by simp [marshal, marshalFileInfo_append b fi]
  | .struct fields => by simp only [marshal]; exact marshalEach_append b fields
  | .slice elems => by simp only [marshal]; exact marshalEach_append b elems
  | .other _ => rfl

theorem marshalEach_append (b : Bytes) :
    ∀ vs : List Value, marshal.marshalEach b vs = (marshal.marshalEach [] vs).map (b ++ ·)
  | [] => by simp [marshal.marshalEach]
  | v :: vs => by
    simp only [marshal.marshalEach, marshal_append b v]
    cases marshal [] v with
    | none => rfl
    | some a =>
      simp only [Option.map_some', Option.some_bind]
      rw [marshalEach_append (b ++ a) vs, marshalEach_append a vs]
      cases marshal.marshalEach [] vs <;> simp

end

/-- Every dynamic type in `v`, inside structs and slices at any depth, is one the type
switch of `marshal` handles. -/
def Value.encodable : Value → Bool
  | .struct fields => encodableAll fields
  | .slice elems => encodableAll elems
  | .other _ => false
  | _ => true
where
  encodableAll : List Value → Bool
    | [] => true
    | v :: vs => v.encodable && encodableAll vs

mutual

/-- `marshal` panics exactly on a value that holds, at some depth, a dynamic type its
type switch does not handle. -/
theorem marshal_isSome (b : Bytes) : ∀ v : Value, (marshal b v).isSome = v.encodable
  | .nil | .uint8 _ | .uint32 _ | .uint64 _ | .string _ | .fileInfo _ | .other _ => rfl
  | .struct fields => marshalEach_isSome b fields
  | .slice elems => marshalEach_isSome b elems

theorem marshalEach_isSome (b : Bytes) :
    ∀ vs : List Value, (marshal.marshalEach b vs).isSome = Value.encodable.encodableAll vs
  | [] => rfl
  | v :: vs => by
    rw [marshal.marshalEach, Value.encodable.encodableAll, ← marshal_isSome b v]
    cases marshal b v with
    | none => rfl
    | some b' => exact marshalEach_isSome b' vs

end

/-- A decoded attribute block is written back byte for byte. -/
theorem marshal_ofBytes (b bs : Bytes) : marshal b (.ofBytes bs) = some (b ++ bs) := by
  simp only [Value.ofBytes, marshal]
  induction bs generalizing b with
  | nil => simp [marshal.marshalEach]
  | cons x xs ih => simp [marshal.marshalEach, marshal, ih]

end SftpWire
