import Mathlib.Data.List.Forall2
import SftpWire.Catalog
import SftpWire.Framing

/-!
# Requests end to end

A client sends each request with `sendPacket`, which frames what `MarshalBinary`
returned. The server reads the frames back with `recvPacket`, picks the fresh receiver
of the kind the type byte names, and decodes the body into it with `UnmarshalBinary`.
The dispatcher is not under src/, and `receive` models it from the spec.

The result here composes the layers below: the framing of `Framing.lean` and the decoder
specs of `Catalog.lean`. A stream of requests, each shorter than `2^32` bytes and each
fitting its round trip (`Packet.Fits`), is received as exactly those requests, in order,
with no error and no byte left over. `Stat` and `Realpath` are the exceptions, since
they write the tags of `LSTAT` and `READLINK`.
-/

namespace SftpWire

open Packet

/-- Modelled from the spec: the server's side of one frame, the type byte `t` and the
body. The dispatcher chooses the fresh receiver by `t`, and its `UnmarshalBinary`
decodes the body. -/
def receive (t : UInt8) (body : Bytes) : Option (Packet × Option GoError) :=
  (ofTag t).bind fun q => q.unmarshalBinary body

/-- The kinds that write their own registry tag. -/
def Packet.WritesOwnTag (q : Packet) : Prop :=
  q.registryTag ≠ sshFxpStat ∧ q.registryTag ≠ sshFxpRealpath

instance (q : Packet) : Decidable q.WritesOwnTag :=
  inferInstanceAs (Decidable (q.registryTag ≠ sshFxpStat ∧ q.registryTag ≠ sshFxpRealpath))

/-- The encoding of a kind that writes its own tag begins with that tag. -/
theorem head_eq_registryTag {q : Packet} {bb : Bytes} (h : q.marshalBinary = some bb)
    (ho : q.WritesOwnTag) : bb = q.registryTag :: bb.tail := by
  have hhead := marshalBinary_head h
  obtain ⟨hs, hr⟩ := ho
  cases bb with
  | nil => cases hhead
  | cons t body =>
    cases q <;> first | exact absurd rfl hs | exact absurd rfl hr |
      exact congrArg (· :: body) (Option.some.inj hhead)

/-- The payload of one such request is received as what its round trip decodes. -/
theorem receive_marshalBinary {q : Packet} {bb : Bytes} (h : q.marshalBinary = some bb)
    (hlen : bb.length < 2 ^ 32) (hfits : q.Fits []) (ho : q.WritesOwnTag) :
    receive (bb.headD 0) bb.tail = some (q.decoded [], none) := by
  have hbb := head_eq_registryTag h ho
  obtain ⟨T, c, z, p, K, rfl⟩ := q.kind
  have hcomplete := K.complete [] h (by rw [List.append_nil, List.length_tail]; omega) hfits
  rw [List.append_nil] at hcomplete
  rw [hbb, List.headD_cons, List.tail_cons, receive, ofTag_registryTag, Option.some_bind, K.blank]
  exact hcomplete

/-- The payloads of requests that write their own tag and fit their round trip: each is
a non-empty frame payload, and each is received as its round trip decodes it. -/
theorem receive_payloads {qs : List Packet} {bbs : List Bytes}
    (hm : List.Forall₂ (fun q bb => q.marshalBinary = some bb ∧ bb.length < 2 ^ 32) qs bbs)
    (hq : ∀ q ∈ qs, q.Fits [] ∧ q.WritesOwnTag) :
    (∀ bb ∈ bbs, bb ≠ [] ∧ bb.length < 2 ^ 32) ∧
      (bbs.map fun p => (p.headD 0, p.tail)).map (fun f => receive f.1 f.2) =
        qs.map fun q => some (q.decoded [], none) := by
  induction hm with
  | nil => simp
  | @cons q bb qs bbs hqb _ ih =>
    obtain ⟨⟨hfits, ho⟩, hqs⟩ := List.forall_mem_cons.mp hq
    obtain ⟨hbbs, hrecv⟩ := ih hqs
    have hne : bb ≠ [] := fun h =>
      List.cons_ne_nil _ _ ((head_eq_registryTag hqb.1 ho).symm.trans h)
    refine ⟨List.forall_mem_cons.mpr ⟨⟨hne, hqb.2⟩, hbbs⟩, ?_⟩
    rw [List.map_cons, List.map_cons, List.map_cons, hrecv,
      receive_marshalBinary hqb.1 hqb.2 hfits ho]

/-- Requests sent one after another over a stream whose every `Write` writes its whole
buffer are received as the same requests in the same order, each as its round trip
decodes it, with no error and no byte left over. -/
theorem receive_sendAll {w : Writer} (hw : WritesWhole w) {qs : List Packet} {bbs : List Bytes}
    (hm : List.Forall₂ (fun q bb => q.marshalBinary = some bb ∧ bb.length < 2 ^ 32) qs bbs)
    (hq : ∀ q ∈ qs, q.Fits [] ∧ q.WritesOwnTag) :
    ∃ fs, recvPackets qs.length (sendAll w [] (bbs.map .ok)) = some (fs, []) ∧
      fs.map (fun f => receive f.1 f.2) = qs.map fun q => some (q.decoded [], none) := by
  obtain ⟨hbbs, hrecv⟩ := receive_payloads hm hq
  refine ⟨_, ?_, hrecv⟩
  rw [hm.length_eq, sendAll_ok hw, List.nil_append, ← List.append_nil (bbs.flatMap frame)]
  exact (recvPackets_frames (fun bb h => (hbbs bb h).1) []).mpr fun bb h => (hbbs bb h).2

theorem receive_sendAll_close_open :
    WritesWhole (fun out p => (out ++ p, none)) ∧
    List.Forall₂ (fun q bb => q.marshalBinary = some bb ∧ bb.length < 2 ^ 32)
      [close { id := 1, handle := [104] }, «open» { id := 2, path := [47], pflags := 1 }]
      [[4, 0, 0, 0, 1, 0, 0, 0, 1, 104],
        [3, 0, 0, 0, 2, 0, 0, 0, 1, 47, 0, 0, 0, 1, 0, 0, 0, 0]] ∧
    (∀ q ∈ [close { id := 1, handle := [104] },
        «open» { id := 2, path := [47], pflags := 1 }],
      q.Fits [] ∧ q.WritesOwnTag) ∧
    ∃ fs, recvPackets 2 (sendAll (fun out p => (out ++ p, none)) []
        ([[4, 0, 0, 0, 1, 0, 0, 0, 1, 104],
          [3, 0, 0, 0, 2, 0, 0, 0, 1, 47, 0, 0, 0, 1, 0, 0, 0, 0]].map
          .ok)) = some (fs, []) ∧
      fs.map (fun f => receive f.1 f.2) =
        [some (close { id := 1, handle := [104] }, none),
          some («open» { id := 2, path := [47], pflags := 1 }, none)] := by
  have hm : List.Forall₂ (fun q bb => q.marshalBinary = some bb ∧ bb.length < 2 ^ 32)
      [close { id := 1, handle := [104] }, «open» { id := 2, path := [47], pflags := 1 }]
      [[4, 0, 0, 0, 1, 0, 0, 0, 1, 104],
        [3, 0, 0, 0, 2, 0, 0, 0, 1, 47, 0, 0, 0, 1, 0, 0, 0, 0]] :=
    .cons ⟨rfl, by decide⟩ (.cons ⟨rfl, by decide⟩ .nil)
  have hq : ∀ q ∈ [close { id := 1, handle := [104] },
      «open» { id := 2, path := [47], pflags := 1 }],
      q.Fits [] ∧ q.WritesOwnTag := by
    intro q hq
    rcases List.mem_pair.mp hq with rfl | rfl <;> exact ⟨trivial, by decide⟩
  exact ⟨fun _ _ => rfl, hm, hq, receive_sendAll (fun _ _ => rfl) hm hq⟩

end SftpWire
