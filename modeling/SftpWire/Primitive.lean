import Mathlib.Data.String.Basic
import Mathlib.Data.List.Basic

/-!
# The primitive codec of `packet.go`

Go byte slices and strings are both modelled as `Bytes`, a list of bytes: a Go string
is an immutable byte sequence, never decoded as text by this package.

A slice's capacity matters only to a slice expression that reaches past its length. In
the decoders none does: each `b[:n]` comes after a check that `n ≤ len(b)`, or beside
`b[n:]`, which panics past `len(b)` whatever the capacity. So `sliceTo` takes a slice's
capacity to be its length. The one expression that can reach past the length is
`p.Data[:p.Length]` in the `MarshalBinary` of `DATA`, whose `Data` the caller supplies;
that slice keeps the rest of its backing array (`SshFxpDataPacket.spare`).

Go's fixed-width integers keep their types (`UInt8`, `UInt32`, `UInt64`). A Go
function that can panic returns an `Option`: `none` is a run-time panic, an index or
slice bound out of range. Multiple results become tuples, `error` is `Option GoError`
with `none` for `nil`.

`bigEndian` and `beValue` are the network byte order the code is meant to produce,
written as arithmetic rather than as the shifts and masks of the source, so that the
lemmas below compare the two.
-/

namespace SftpWire

abbrev Bytes := List UInt8

/-- The error values the package returns or passes on. -/
inductive GoError where
  /-- `shortPacketError`, the package's one `fmt.Errorf("packet too short")` value. -/
  | shortPacket
  /-- A fresh `fmt.Errorf(text)` value, distinct from `shortPacketError`. -/
  | errorf (text : String)
  /-- `io.EOF`: `io.ReadFull` read no byte before the end of the stream. -/
  | eof
  /-- `io.ErrUnexpectedEOF`: the stream ended part way through `io.ReadFull`. -/
  | unexpectedEOF
  /-- `fmt.Errorf("marshal2(%#v): binary marshaller failed", err)` in `sendPacket`. -/
  | marshalFailed (err : GoError)
  /-- An error of the underlying writer, passed on unchanged. -/
  | io (text : String)
  deriving DecidableEq, Repr

/-- `b[lo:]`; `none` is the slice-bounds panic. -/
def sliceFrom (b : Bytes) (lo : Nat) : Option Bytes :=
  if lo ≤ b.length then some (b.drop lo) else none

/-- `b[:hi]` on a slice whose capacity is its length; `none` is the slice-bounds panic. -/
def sliceTo (b : Bytes) (hi : Nat) : Option Bytes :=
  if hi ≤ b.length then some (b.take hi) else none

@[simp] theorem sliceFrom_of_le {b : Bytes} {lo : Nat} (h : lo ≤ b.length) :
    sliceFrom b lo = some (b.drop lo) := if_pos h

@[simp] theorem sliceTo_of_le {b : Bytes} {hi : Nat} (h : hi ≤ b.length) :
    sliceTo b hi = some (b.take hi) := if_pos h

/-- The `n` low bytes of `v`, most significant first. -/
def bigEndian : Nat → Nat → Bytes
  | 0, _ => []
  | n + 1, v => UInt8.ofNat (v / 256 ^ n) :: bigEndian n v

/-- The number a byte list spells in network byte order. -/
def beValue : Bytes → Nat
  | [] => 0
  | x :: xs => x.toNat * 256 ^ xs.length + beValue xs

@[simp] theorem length_bigEndian (n v : Nat) : (bigEndian n v).length = n := by
  induction n <;> simp [bigEndian, *]

@[simp] theorem UInt8.toNat_ofNat' (n : Nat) : (UInt8.ofNat n).toNat = n % 256 := by
  simp [UInt8.toNat, UInt8.ofNat]

theorem UInt32.toNat_ofNat' (n : Nat) : (UInt32.ofNat n).toNat = n % 2 ^ 32 := by
  simp [UInt32.toNat, UInt32.ofNat]

theorem bigEndian_four (v : Nat) : bigEndian 4 v =
    [UInt8.ofNat (v / 2 ^ 24), UInt8.ofNat (v / 2 ^ 16), UInt8.ofNat (v / 2 ^ 8),
      UInt8.ofNat v] := by
  simp [bigEndian]

theorem bigEndian_add (m n v : Nat) :
    bigEndian (m + n) v = bigEndian m (v / 256 ^ n) ++ bigEndian n v := by
  induction m with
  | zero => simp [bigEndian]
  | succ m ih =>
    rw [Nat.add_right_comm, bigEndian, ih, bigEndian, Nat.div_div_eq_div_mul, ← Nat.pow_add,
      Nat.add_comm n m]
    rfl

theorem UInt8.ofNat_mod (v : Nat) : UInt8.ofNat (v % 256) = UInt8.ofNat v :=
  UInt8.ext (by simp)

/-- Only the low `n` bytes of a number are written. -/
@[simp] theorem bigEndian_mod (n v : Nat) : bigEndian n (v % 256 ^ n) = bigEndian n v := by
  induction n generalizing v with
  | zero => rfl
  | succ n ih =>
    have tail : bigEndian n (v % 256 ^ (n + 1)) = bigEndian n v := by
      rw [← ih, Nat.mod_mod_of_dvd _ (Nat.pow_dvd_pow 256 (Nat.le_succ n)), ih]
    rw [bigEndian, bigEndian, tail, Nat.pow_succ, Nat.mod_mul_right_div_self, UInt8.ofNat_mod]

theorem two_pow_32 : (2 : Nat) ^ 32 = 256 ^ 4 := by
  rw [show (256 : Nat) = 2 ^ 8 from rfl, ← Nat.pow_mul]

theorem two_pow_64 : (2 : Nat) ^ 64 = 256 ^ 8 := by
  rw [show (256 : Nat) = 2 ^ 8 from rfl, ← Nat.pow_mul]

@[simp] theorem bigEndian_four_mod (v : Nat) : bigEndian 4 (v % 4294967296) = bigEndian 4 v :=
  bigEndian_mod 4 v

theorem beValue_lt (b : Bytes) : beValue b < 256 ^ b.length := by
  induction b with
  | nil => simp [beValue]
  | cons x xs ih =>
    have hx : x.toNat < 256 := x.toNat_lt
    calc x.toNat * 256 ^ xs.length + beValue xs
        < (x.toNat + 1) * 256 ^ xs.length := by rw [Nat.succ_mul]; omega
      _ ≤ 256 * 256 ^ xs.length := Nat.mul_le_mul_right _ hx
      _ = 256 ^ (x :: xs).length := by rw [List.length_cons, Nat.pow_succ, Nat.mul_comm]

@[simp] theorem beValue_bigEndian (n v : Nat) : beValue (bigEndian n v) = v % 256 ^ n := by
  induction n with
  | zero => simp [bigEndian, beValue, Nat.mod_one]
  | succ n ih =>
    rw [bigEndian, beValue, ih, length_bigEndian, UInt8.toNat_ofNat', Nat.pow_succ,
      Nat.mod_mul, Nat.add_comm, Nat.mul_comm]

/-- Every byte list is the encoding of the number it spells. -/
theorem bigEndian_beValue (b : Bytes) : bigEndian b.length (beValue b) = b := by
  induction b with
  | nil => rfl
  | cons x xs ih =>
    have hlt := beValue_lt xs
    have hpos : 0 < 256 ^ xs.length := Nat.pos_pow_of_pos _ (by decide)
    have hhead : (x.toNat * 256 ^ xs.length + beValue xs) / 256 ^ xs.length = x.toNat := by
      rw [Nat.mul_comm, Nat.mul_add_div hpos, Nat.div_eq_of_lt hlt, Nat.add_zero]
    have htail : bigEndian xs.length (x.toNat * 256 ^ xs.length + beValue xs) = xs := by
      rw [← bigEndian_mod, Nat.add_comm, Nat.add_mul_mod_self_right, Nat.mod_eq_of_lt hlt, ih]
    have hx : UInt8.ofNat x.toNat = x := UInt8.ext (by simpa using x.toNat_lt)
    rw [List.length_cons, bigEndian, beValue, hhead, htail, hx]

/-- `append(b, byte(v>>24), byte(v>>16), byte(v>>8), byte(v))` -/
def marshalUint32 (b : Bytes) (v : UInt32) : Bytes :=
  b ++ [(v >>> 24).toUInt8, (v >>> 16).toUInt8, (v >>> 8).toUInt8, v.toUInt8]

def marshalUint64 (b : Bytes) (v : UInt64) : Bytes :=
  marshalUint32 (marshalUint32 b (v >>> 32).toUInt32) v.toUInt32

/-- The length prefix is `uint32(len(v))`, which wraps for a string of `2^32` bytes. -/
def marshalString (b : Bytes) (v : Bytes) : Bytes :=
  marshalUint32 b (UInt32.ofNat v.length) ++ v

/-- `uint32(b[3]) | uint32(b[2])<<8 | uint32(b[1])<<16 | uint32(b[0])<<24`, then `b[4:]`. -/
def unmarshalUint32 (b : Bytes) : Option (UInt32 × Bytes) := do
  let v := (← b[3]?).toUInt32 ||| (← b[2]?).toUInt32 <<< 8 ||| (← b[1]?).toUInt32 <<< 16 |||
    (← b[0]?).toUInt32 <<< 24
  return (v, ← sliceFrom b 4)

def unmarshalUint64 (b : Bytes) : Option (UInt64 × Bytes) := do
  let (h, b) ← unmarshalUint32 b
  let (l, b) ← unmarshalUint32 b
  return (h.toUInt64 <<< 32 ||| l.toUInt64, b)

/-- `string(b[:n]), b[n:]` after the length `n`. -/
def unmarshalString (b : Bytes) : Option (Bytes × Bytes) := do
  let (n, b) ← unmarshalUint32 b
  return (← sliceTo b n.toNat, ← sliceFrom b n.toNat)

/-- On a short buffer Go returns `0, nil, shortPacketError`; `nil` is the empty slice. -/
def unmarshalUint32Safe (b : Bytes) : Option (UInt32 × Bytes × Option GoError) :=
  if b.length < 4 then some (0, [], some .shortPacket)
  else (unmarshalUint32 b).map fun (v, b) => (v, b, none)

def unmarshalUint64Safe (b : Bytes) : Option (UInt64 × Bytes × Option GoError) :=
  if b.length < 8 then some (0, [], some .shortPacket)
  else (unmarshalUint64 b).map fun (v, b) => (v, b, none)

/-- The length check `int64(n) > int64(len(b))` compares the exact values: neither
conversion can wrap. -/
def unmarshalStringSafe (b : Bytes) : Option (Bytes × Bytes × Option GoError) := do
  let (n, b, err) ← unmarshalUint32Safe b
  if let some e := err then return ([], [], some e)
  if b.length < n.toNat then return ([], [], some .shortPacket)
  return (← sliceTo b n.toNat, ← sliceFrom b n.toNat, none)

section Bits

private theorem u32_toNat_shiftRight (x y : UInt32) :
    (x >>> y).toNat = x.toNat >>> (y.toNat % 32) := by
  show (x.toBitVec >>> (UInt32.mod y 32).toBitVec).toNat = _
  rw [BitVec.ushiftRight_eq', BitVec.toNat_ushiftRight]
  rfl

private theorem u32_toNat_shiftLeft (x y : UInt32) :
    (x <<< y).toNat = (x.toNat <<< (y.toNat % 32)) % 2 ^ 32 := by
  show (x.toBitVec <<< (UInt32.mod y 32).toBitVec).toNat = _
  rw [BitVec.shiftLeft_eq', BitVec.toNat_shiftLeft]
  rfl

private theorem u32_toNat_or (x y : UInt32) : (x ||| y).toNat = x.toNat ||| y.toNat :=
  BitVec.toNat_or _ _

private theorem u64_toNat_shiftRight (x y : UInt64) :
    (x >>> y).toNat = x.toNat >>> (y.toNat % 64) := by
  show (x.toBitVec >>> (UInt64.mod y 64).toBitVec).toNat = _
  rw [BitVec.ushiftRight_eq', BitVec.toNat_ushiftRight]
  rfl

private theorem u64_toNat_shiftLeft (x y : UInt64) :
    (x <<< y).toNat = (x.toNat <<< (y.toNat % 64)) % 2 ^ 64 := by
  show (x.toBitVec <<< (UInt64.mod y 64).toBitVec).toNat = _
  rw [BitVec.shiftLeft_eq', BitVec.toNat_shiftLeft]
  rfl

private theorem u64_toNat_or (x y : UInt64) : (x ||| y).toNat = x.toNat ||| y.toNat :=
  BitVec.toNat_or _ _

/-- Or-ing a number into the zero low bits of a shifted one adds it. -/
private theorem or_shiftLeft_mod {x y k w : Nat} (hy : y < 2 ^ k) (hx : x < 2 ^ (w - k))
    (hk : k ≤ w) : y ||| (x <<< k) % 2 ^ w = 2 ^ k * x + y := by
  have : 2 ^ k * x < 2 ^ w :=
    calc 2 ^ k * x < 2 ^ k * 2 ^ (w - k) := Nat.mul_lt_mul_of_pos_left hx (Nat.two_pow_pos k)
      _ = 2 ^ w := by rw [← Nat.pow_add, Nat.add_sub_cancel' hk]
  rw [Nat.shiftLeft_eq, Nat.mul_comm, Nat.mod_eq_of_lt this, Nat.or_comm,
    ← Nat.mul_add_lt_is_or hy]

/-- The value `unmarshalUint32` assembles from four bytes. -/
private theorem word_toNat (a b c d : UInt8) :
    (d.toUInt32 ||| c.toUInt32 <<< 8 ||| b.toUInt32 <<< 16 ||| a.toUInt32 <<< 24).toNat =
      beValue [a, b, c, d] := by
  have := a.toNat_lt; have := b.toNat_lt; have := c.toNat_lt; have := d.toNat_lt
  simp only [u32_toNat_or, u32_toNat_shiftLeft, UInt8.toUInt32_toNat, UInt32.toNat_ofNat,
    UInt32.size, Nat.reduceMod, beValue, List.length_cons, List.length_nil]
  rw [or_shiftLeft_mod (k := 8) (by omega) (by omega) (by omega),
    or_shiftLeft_mod (k := 16) (by omega) (by omega) (by omega),
    or_shiftLeft_mod (k := 24) (by omega) (by omega) (by omega)]
  omega

end Bits

@[simp] theorem marshalUint32_eq (b : Bytes) (v : UInt32) :
    marshalUint32 b v = b ++ bigEndian 4 v.toNat := by
  simp only [marshalUint32, bigEndian_four, List.append_cancel_left_eq, List.cons.injEq,
    and_true]
  refine ⟨?_, ?_, ?_, ?_⟩ <;> apply UInt8.ext <;>
    simp only [UInt32.toUInt8_toNat, u32_toNat_shiftRight, UInt8.toNat_ofNat',
      UInt32.toNat_ofNat, UInt32.size, Nat.reduceMod, Nat.shiftRight_eq_div_pow]

@[simp] theorem marshalUint64_eq (b : Bytes) (v : UInt64) :
    marshalUint64 b v = b ++ bigEndian 8 v.toNat := by
  have hv := v.toNat_lt
  have hhi : ((v >>> 32).toUInt32).toNat = v.toNat / 2 ^ 32 := by
    simp only [UInt64.toUInt32_toNat, u64_toNat_shiftRight, UInt64.toNat_ofNat, UInt64.size,
      Nat.reduceMod, Nat.shiftRight_eq_div_pow]
    omega
  rw [marshalUint64, marshalUint32_eq, marshalUint32_eq, hhi, UInt64.toUInt32_toNat,
    show 8 = 4 + 4 from rfl, bigEndian_add, List.append_assoc]
  simp

@[simp] theorem marshalString_eq (b v : Bytes) :
    marshalString b v = b ++ (bigEndian 4 v.length ++ v) := by
  rw [marshalString, marshalUint32_eq, UInt32.toNat_ofNat', two_pow_32, bigEndian_mod,
    List.append_assoc]

theorem beValue_append (x y : Bytes) :
    beValue (x ++ y) = beValue x * 256 ^ y.length + beValue y := by
  induction x with
  | nil => simp [beValue]
  | cons a x ih =>
    rw [List.cons_append, beValue, beValue, ih, List.length_append, Nat.pow_add,
      Nat.add_mul, Nat.mul_assoc, Nat.add_assoc]

theorem beValue_take_lt (n : Nat) (b : Bytes) : beValue (b.take n) < 256 ^ n :=
  calc beValue (b.take n) < 256 ^ (b.take n).length := beValue_lt _
    _ ≤ 256 ^ n := Nat.pow_le_pow_right (by decide) (List.length_take_le n b)

theorem beValue_take_four_lt (b : Bytes) : beValue (b.take 4) < 2 ^ 32 :=
  two_pow_32 ▸ beValue_take_lt 4 b

theorem unmarshalUint32_of_lt {b : Bytes} (h : b.length < 4) : unmarshalUint32 b = none := by
  simp [unmarshalUint32, List.getElem?_eq_none (by omega : b.length ≤ 3)]

theorem unmarshalUint32_of_le {b : Bytes} (h : 4 ≤ b.length) :
    unmarshalUint32 b = some (UInt32.ofNat (beValue (b.take 4)), b.drop 4) := by
  match b, h with
  | a :: b :: c :: d :: r, _ =>
    have hlt : beValue [a, b, c, d] < 2 ^ 32 := word_toNat a b c d ▸ UInt32.toNat_lt _
    simp only [unmarshalUint32, sliceFrom, List.getElem?_cons_succ, List.getElem?_cons_zero,
      List.length_cons, List.drop_succ_cons, List.drop_zero, List.take_succ_cons, List.take_zero]
    simp only [Option.bind_eq_bind, Option.some_bind, Nat.le_add_left, ↓reduceIte,
      Option.pure_def, Option.some.injEq, Prod.mk.injEq, and_true]
    apply UInt32.ext
    rw [word_toNat, UInt32.toNat_ofNat', Nat.mod_eq_of_lt hlt]

theorem UInt64.toNat_ofNat' (n : Nat) : (UInt64.ofNat n).toNat = n % 2 ^ 64 := by
  simp [UInt64.toNat, UInt64.ofNat]

theorem unmarshalUint64_of_le {b : Bytes} (h : 8 ≤ b.length) :
    unmarshalUint64 b = some (UInt64.ofNat (beValue (b.take 8)), b.drop 8) := by
  have hhi := beValue_take_four_lt b
  have hlo := beValue_take_four_lt (b.drop 4)
  have hval : beValue (b.take 8) =
      beValue (b.take 4) * 2 ^ 32 + beValue ((b.drop 4).take 4) := by
    rw [show 8 = 4 + 4 from rfl, List.take_add, beValue_append, List.length_take,
      List.length_drop, show min 4 (b.length - 4) = 4 by omega, two_pow_32]
  simp only [unmarshalUint64, unmarshalUint32_of_le (by omega : 4 ≤ b.length),
    unmarshalUint32_of_le (by simp; omega : 4 ≤ (b.drop 4).length), Option.bind_eq_bind,
    Option.some_bind, List.drop_drop, Option.pure_def, Option.some.injEq, Prod.mk.injEq, and_true]
  apply UInt64.ext
  rw [u64_toNat_or, u64_toNat_shiftLeft, UInt32.toUInt64_toNat, UInt32.toUInt64_toNat,
    UInt32.toNat_ofNat', UInt32.toNat_ofNat', Nat.mod_eq_of_lt hhi, Nat.mod_eq_of_lt hlo, hval,
    UInt64.toNat_ofNat', Nat.or_comm, show (32 : UInt64).toNat % 64 = 32 from rfl,
    or_shiftLeft_mod (w := 64) (k := 32) hlo hhi (by omega)]
  omega

@[simp] theorem UInt32.toNat_ofNat_beValue (b : Bytes) :
    (UInt32.ofNat (beValue (b.take 4))).toNat = beValue (b.take 4) := by
  rw [UInt32.toNat_ofNat', Nat.mod_eq_of_lt (beValue_take_four_lt b)]

theorem unmarshalString_of_le {b : Bytes} (h : 4 + beValue (b.take 4) ≤ b.length) :
    unmarshalString b =
      some ((b.drop 4).take (beValue (b.take 4)), (b.drop 4).drop (beValue (b.take 4))) := by
  have hn := beValue_take_four_lt b
  simp only [unmarshalString, unmarshalUint32_of_le (by omega : 4 ≤ b.length),
    UInt32.toNat_ofNat_beValue, Option.bind_eq_bind, Option.some_bind,
    sliceTo_of_le (by simp; omega : beValue (b.take 4) ≤ (b.drop 4).length),
    sliceFrom_of_le (by simp; omega : beValue (b.take 4) ≤ (b.drop 4).length), Option.pure_def]

theorem unmarshalUint32Safe_of_lt {b : Bytes} (h : b.length < 4) :
    unmarshalUint32Safe b = some (0, [], some .shortPacket) := if_pos h

theorem unmarshalUint32Safe_of_le {b : Bytes} (h : 4 ≤ b.length) :
    unmarshalUint32Safe b = some (UInt32.ofNat (beValue (b.take 4)), b.drop 4, none) := by
  simp [unmarshalUint32Safe, Nat.not_lt.mpr h, unmarshalUint32_of_le h]

theorem unmarshalUint64Safe_of_lt {b : Bytes} (h : b.length < 8) :
    unmarshalUint64Safe b = some (0, [], some .shortPacket) := if_pos h

theorem unmarshalUint64Safe_of_le {b : Bytes} (h : 8 ≤ b.length) :
    unmarshalUint64Safe b = some (UInt64.ofNat (beValue (b.take 8)), b.drop 8, none) := by
  simp [unmarshalUint64Safe, Nat.not_lt.mpr h, unmarshalUint64_of_le h]

/-- Both short cases: fewer than four bytes, or fewer than the declared length after them. -/
theorem unmarshalStringSafe_of_lt {b : Bytes} (h : b.length < 4 + beValue (b.take 4)) :
    unmarshalStringSafe b = some ([], [], some .shortPacket) := by
  by_cases h4 : b.length < 4
  · simp only [unmarshalStringSafe, unmarshalUint32Safe_of_lt h4, Option.bind_eq_bind,
      Option.some_bind, Option.pure_def]
  · have hn := beValue_take_four_lt b
    simp only [unmarshalStringSafe, unmarshalUint32Safe_of_le (Nat.le_of_not_lt h4),
      Option.bind_eq_bind, Option.some_bind, Option.pure_def, List.length_drop,
      UInt32.toNat_ofNat_beValue, show b.length - 4 < beValue (b.take 4) by omega, ↓reduceIte]

theorem unmarshalStringSafe_of_le {b : Bytes} (h : 4 + beValue (b.take 4) ≤ b.length) :
    unmarshalStringSafe b = some
      ((b.drop 4).take (beValue (b.take 4)), (b.drop 4).drop (beValue (b.take 4)), none) := by
  have hn := beValue_take_four_lt b
  simp only [unmarshalStringSafe, unmarshalUint32Safe_of_le (by omega : 4 ≤ b.length),
    Option.bind_eq_bind, Option.some_bind, Option.pure_def, List.length_drop,
    UInt32.toNat_ofNat_beValue, show ¬ b.length - 4 < beValue (b.take 4) by omega, ↓reduceIte,
    sliceTo_of_le (by simp; omega : beValue (b.take 4) ≤ (b.drop 4).length),
    sliceFrom_of_le (by simp; omega : beValue (b.take 4) ≤ (b.drop 4).length)]

/-- The `uint32` that `unmarshalUint32Safe` returns for `b`: `0` when `b` is short. -/
def firstWord (b : Bytes) : UInt32 :=
  if b.length < 4 then 0 else UInt32.ofNat (beValue (b.take 4))

theorem unmarshalUint32Safe_eq_firstWord {b rest : Bytes} {v : UInt32} {e : Option GoError}
    (h : unmarshalUint32Safe b = some (v, rest, e)) : v = firstWord b := by
  unfold firstWord
  split
  · next h4 => rw [unmarshalUint32Safe_of_lt h4] at h; cases h; rfl
  · next h4 => rw [unmarshalUint32Safe_of_le (by omega)] at h; cases h; rfl

theorem UInt32.ofNat_toNat' (v : UInt32) : UInt32.ofNat v.toNat = v :=
  UInt32.ext (by rw [UInt32.toNat_ofNat', Nat.mod_eq_of_lt v.toNat_lt])

theorem UInt64.ofNat_toNat' (v : UInt64) : UInt64.ofNat v.toNat = v :=
  UInt64.ext (by rw [UInt64.toNat_ofNat', Nat.mod_eq_of_lt v.toNat_lt])

theorem bigEndian_take {b : Bytes} {n : Nat} (h : n ≤ b.length) :
    bigEndian n (beValue (b.take n)) = b.take n := by
  have hl : (b.take n).length = n := by simp [h]
  have := bigEndian_beValue (b.take n)
  rwa [hl] at this

theorem unmarshalUint32Safe_bigEndian (v : UInt32) (r : Bytes) :
    unmarshalUint32Safe (bigEndian 4 v.toNat ++ r) = some (v, r, none) := by
  rw [unmarshalUint32Safe_of_le (by simp), List.take_left' (length_bigEndian 4 _),
    List.drop_left' (length_bigEndian 4 _), beValue_bigEndian,
    Nat.mod_eq_of_lt (two_pow_32 ▸ v.toNat_lt), UInt32.ofNat_toNat']

theorem unmarshalUint64Safe_bigEndian (v : UInt64) (r : Bytes) :
    unmarshalUint64Safe (bigEndian 8 v.toNat ++ r) = some (v, r, none) := by
  rw [unmarshalUint64Safe_of_le (by simp), List.take_left' (length_bigEndian 8 _),
    List.drop_left' (length_bigEndian 8 _), beValue_bigEndian,
    Nat.mod_eq_of_lt (two_pow_64 ▸ v.toNat_lt), UInt64.ofNat_toNat']

theorem unmarshalStringSafe_bigEndian {s : Bytes} (r : Bytes) (hs : s.length < 2 ^ 32) :
    unmarshalStringSafe (bigEndian 4 s.length ++ s ++ r) = some (s, r, none) := by
  have hb : beValue ((bigEndian 4 s.length ++ (s ++ r)).take 4) = s.length := by
    rw [List.take_left' (length_bigEndian 4 _), beValue_bigEndian,
      Nat.mod_eq_of_lt (two_pow_32 ▸ hs)]
  rw [List.append_assoc, unmarshalStringSafe_of_le (by
      rw [hb, List.length_append, List.length_append, length_bigEndian]; omega), hb,
    List.drop_left' (length_bigEndian 4 _), List.take_left' rfl, List.drop_left' rfl]

/-- A `Codec` packs a checked decoder of the package with the encoding it inverts. Its
fields are what every packet decoder built from these needs: the decoder never
panics, fails only with `shortPacketError`, on success has read exactly the encoding
of a value that `fits`, and reads every such encoding back. -/
structure Codec (α : Type) where
  put : α → Bytes
  get : Bytes → Option (α × Bytes × Option GoError)
  fits : α → Prop
  get_isSome : ∀ b, (get b).isSome
  get_error : ∀ {b v rest e}, get b = some (v, rest, some e) → e = .shortPacket
  get_ok : ∀ {b v rest}, get b = some (v, rest, none) → b = put v ++ rest ∧ fits v
  get_put : ∀ v r, fits v → get (put v ++ r) = some (v, r, none)
  fits_of_length : ∀ v, (put v).length < 2 ^ 32 → fits v

def Codec.uint32 : Codec UInt32 where
  put v := bigEndian 4 v.toNat
  get := unmarshalUint32Safe
  fits _ := True
  get_isSome b := by
    by_cases h : b.length < 4
    · simp [unmarshalUint32Safe_of_lt h]
    · simp [unmarshalUint32Safe_of_le (Nat.le_of_not_lt h)]
  get_error {b v rest e} hget := by
    by_cases h : b.length < 4
    · simp_all [unmarshalUint32Safe_of_lt h]
    · simp [unmarshalUint32Safe_of_le (Nat.le_of_not_lt h)] at hget
  get_ok {b v rest} hget := by
    by_cases h : b.length < 4
    · simp [unmarshalUint32Safe_of_lt h] at hget
    · obtain ⟨rfl, rfl⟩ : _ ∧ _ := by
        simpa [unmarshalUint32Safe_of_le (Nat.le_of_not_lt h), eq_comm] using hget
      refine ⟨?_, trivial⟩
      show b = bigEndian 4 (UInt32.ofNat _).toNat ++ _
      rw [UInt32.toNat_ofNat', Nat.mod_eq_of_lt (beValue_take_four_lt b),
        bigEndian_take (Nat.le_of_not_lt h), List.take_append_drop]
  get_put v r _ := unmarshalUint32Safe_bigEndian v r
  fits_of_length _ _ := trivial

def Codec.uint64 : Codec UInt64 where
  put v := bigEndian 8 v.toNat
  get := unmarshalUint64Safe
  fits _ := True
  get_isSome b := by
    by_cases h : b.length < 8
    · simp [unmarshalUint64Safe_of_lt h]
    · simp [unmarshalUint64Safe_of_le (Nat.le_of_not_lt h)]
  get_error {b v rest e} hget := by
    by_cases h : b.length < 8
    · simp_all [unmarshalUint64Safe_of_lt h]
    · simp [unmarshalUint64Safe_of_le (Nat.le_of_not_lt h)] at hget
  get_ok {b v rest} hget := by
    by_cases h : b.length < 8
    · simp [unmarshalUint64Safe_of_lt h] at hget
    · obtain ⟨rfl, rfl⟩ : _ ∧ _ := by
        simpa [unmarshalUint64Safe_of_le (Nat.le_of_not_lt h), eq_comm] using hget
      refine ⟨?_, trivial⟩
      show b = bigEndian 8 (UInt64.ofNat _).toNat ++ _
      rw [UInt64.toNat_ofNat', Nat.mod_eq_of_lt (two_pow_64 ▸ beValue_take_lt 8 b),
        bigEndian_take (Nat.le_of_not_lt h), List.take_append_drop]
  get_put v r _ := unmarshalUint64Safe_bigEndian v r
  fits_of_length _ _ := trivial

/-- Strings that fit the 32-bit length prefix. -/
def Codec.string : Codec Bytes where
  put s := bigEndian 4 s.length ++ s
  get := unmarshalStringSafe
  fits s := s.length < 2 ^ 32
  get_isSome b := by
    by_cases h : b.length < 4 + beValue (b.take 4)
    · simp [unmarshalStringSafe_of_lt h]
    · simp [unmarshalStringSafe_of_le (Nat.le_of_not_lt h)]
  get_error {b v rest e} hget := by
    by_cases h : b.length < 4 + beValue (b.take 4)
    · simp_all [unmarshalStringSafe_of_lt h]
    · simp [unmarshalStringSafe_of_le (Nat.le_of_not_lt h)] at hget
  get_ok {b v rest} hget := by
    by_cases h : b.length < 4 + beValue (b.take 4)
    · simp [unmarshalStringSafe_of_lt h] at hget
    · have hn := beValue_take_four_lt b
      rw [unmarshalStringSafe_of_le (Nat.le_of_not_lt h)] at hget
      simp only [Option.some.injEq, Prod.mk.injEq] at hget
      obtain ⟨rfl, rfl, -⟩ := hget
      have hlen : ((b.drop 4).take (beValue (b.take 4))).length = beValue (b.take 4) := by
        simp; omega
      refine ⟨?_, show _ < _ by rw [hlen]; exact hn⟩
      show b = (bigEndian 4 _ ++ _) ++ _
      rw [hlen, List.append_assoc, List.take_append_drop, bigEndian_take (by omega),
        List.take_append_drop]
  get_put s r hs := unmarshalStringSafe_bigEndian r hs
  fits_of_length s h := by
    show s.length < 2 ^ 32
    simp only [List.length_append, length_bigEndian] at h
    omega

@[simp] theorem Codec.uint32_put (v : UInt32) : Codec.uint32.put v = bigEndian 4 v.toNat := rfl
@[simp] theorem Codec.uint64_put (v : UInt64) : Codec.uint64.put v = bigEndian 8 v.toNat := rfl
@[simp] theorem Codec.string_put (s : Bytes) :
    Codec.string.put s = bigEndian 4 s.length ++ s := rfl

/-- Each encoder appends the network-order encoding; each checked decoder reads it back
in front of any suffix, returns `shortPacketError` exactly on a buffer shorter than the
field, and otherwise what the unchecked decoder it guards returns, which then does not
panic. -/
theorem primitive_codec_correct :
    (∀ (a r : Bytes) (v : UInt32), marshalUint32 a v = a ++ bigEndian 4 v.toNat ∧
        unmarshalUint32Safe (bigEndian 4 v.toNat ++ r) = some (v, r, none)) ∧
    (∀ (a r : Bytes) (v : UInt64), marshalUint64 a v = a ++ bigEndian 8 v.toNat ∧
        unmarshalUint64Safe (bigEndian 8 v.toNat ++ r) = some (v, r, none)) ∧
    (∀ (a r s : Bytes), s.length < 2 ^ 32 →
        marshalString a s = a ++ (bigEndian 4 s.length ++ s) ∧
        unmarshalStringSafe (bigEndian 4 s.length ++ s ++ r) = some (s, r, none)) ∧
    (∀ b : Bytes, (b.length < 4 → unmarshalUint32Safe b = some (0, [], some .shortPacket)) ∧
        (4 ≤ b.length → ∃ v rest, unmarshalUint32 b = some (v, rest) ∧
          unmarshalUint32Safe b = some (v, rest, none))) ∧
    (∀ b : Bytes, (b.length < 8 → unmarshalUint64Safe b = some (0, [], some .shortPacket)) ∧
        (8 ≤ b.length → ∃ v rest, unmarshalUint64 b = some (v, rest) ∧
          unmarshalUint64Safe b = some (v, rest, none))) ∧
    (∀ b : Bytes, (b.length < 4 + beValue (b.take 4) →
          unmarshalStringSafe b = some ([], [], some .shortPacket)) ∧
        (4 + beValue (b.take 4) ≤ b.length → ∃ s rest, unmarshalString b = some (s, rest) ∧
          unmarshalStringSafe b = some (s, rest, none))) :=
  ⟨fun a r v => ⟨marshalUint32_eq a v, unmarshalUint32Safe_bigEndian v r⟩,
    fun a r v => ⟨marshalUint64_eq a v, unmarshalUint64Safe_bigEndian v r⟩,
    fun a r s hs => ⟨marshalString_eq a s, unmarshalStringSafe_bigEndian r hs⟩,
    fun _ => ⟨unmarshalUint32Safe_of_lt, fun h => ⟨_, _, unmarshalUint32_of_le h,
      unmarshalUint32Safe_of_le h⟩⟩,
    fun _ => ⟨unmarshalUint64Safe_of_lt, fun h => ⟨_, _, unmarshalUint64_of_le h,
      unmarshalUint64Safe_of_le h⟩⟩,
    fun _ => ⟨unmarshalStringSafe_of_lt, fun h => ⟨_, _, unmarshalString_of_le h,
      unmarshalStringSafe_of_le h⟩⟩⟩

theorem primitive_codec_correct_one_byte_string :
    [7].length < 2 ^ 32 ∧
      unmarshalStringSafe (bigEndian 4 1 ++ [7] ++ [9]) = some ([7], [9], none) :=
  ⟨by decide, (primitive_codec_correct.2.2.1 [] [9] [7] (by decide)).2⟩

end SftpWire
