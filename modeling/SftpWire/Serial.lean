import SftpWire.Faults

/-!
# Concurrent senders over a stream that never fails

When every `Write` writes its whole buffer, a call that returned an error failed to
marshal and has no frame to write (`MarshalErrorsOnly`). The pieces of `Contiguous` are
then whole: each released call has written its whole frame, and the holder what it has
reached of its own. `Serial` states that picture and `Contiguous.serial` derives it, so
the step lemmas of `Faults.lean` serve the failing stream and this one alike.

Over such a stream concurrent calls never interleave their frames, and once every call
has returned, `recvPacket` reads the payloads back in the order the calls took the mutex
(`sendPacket_frames_serialized`).
-/

namespace SftpWire

namespace Server

variable {n : Nat} {w : Writer} {m : Fin n → Except GoError Bytes} {s : Server n} {i : Fin n}

/-- What a call at `pc` has written of `frameOf`. -/
def written (mi : Except GoError Bytes) : Pc → Bytes
  | .header bb => bigEndian 4 bb.length
  | .unlocking _ | .done _ => frameOf mi
  | .start | .locked => []

variable (m) in
/-- The calls that took the mutex are the released ones, all `done`, then the holder;
the stream is the released calls' frames in that order, then what the holder wrote. -/
structure Serial (s : Server n) : Prop where
  nodup : s.acquired.Nodup
  start_iff : ∀ i, s.pc i = .start ↔ i ∉ s.acquired
  released : ∃ fin : List (Fin n), s.acquired = fin ++ s.outMutex.toList ∧
    (∀ i ∈ fin, ∃ err, s.pc i = .done err) ∧
    s.out = fin.flatMap (fun i => frameOf (m i)) ++
      (s.outMutex.map fun h => written (m h) (s.pc h)).getD []
  holder : ∀ h ∈ s.outMutex,
    s.pc h = .locked ∨ (∃ bb, s.pc h = .header bb ∧ m h = .ok bb) ∨
    ∃ err, s.pc h = .unlocking err

variable (m) in
/-- Every call that returned an error, or is about to, failed to marshal, and so has no
frame to write. -/
def MarshalErrorsOnly (s : Server n) : Prop :=
  ∀ i e, s.pc i = .unlocking (some e) ∨ s.pc i = .done (some e) → frameOf (m i) = []

theorem initial_marshalErrorsOnly : MarshalErrorsOnly m (initial n) :=
  fun _ _ h => by simp [initial] at h

/-- Call `i` moves to `pc`, where an error means that it failed to marshal. -/
theorem MarshalErrorsOnly.setPc {s' : Server n} {pc : Pc} (hs : MarshalErrorsOnly m s)
    (hpc' : s'.pc = (s.setPc i pc).pc)
    (hpc : ∀ e, pc = .unlocking (some e) ∨ pc = .done (some e) → frameOf (m i) = []) :
    MarshalErrorsOnly m s' := by
  intro j e hj
  rw [hpc'] at hj
  by_cases hji : j = i
  · subst hji
    exact hpc e (by simpa using hj)
  · exact hs j e (by simpa [hji] using hj)

theorem step_marshalErrorsOnly (hw : WritesWhole w) (hs : MarshalErrorsOnly m s) (i : Fin n) :
    MarshalErrorsOnly m (step w m s i) := by
  rcases step_cases w s i with
    ⟨h, -⟩ | ⟨-, -, h⟩ | ⟨_, -, hm, h⟩ | ⟨_, _, _, -, -, hwh, -⟩ | ⟨_, _, -, -, -, h⟩ |
    ⟨_, _, _, -, hwh, h⟩ | ⟨_, hpc, h⟩
  · rwa [h]
  · exact hs.setPc (by rw [h]) fun _ he => by simp at he
  · exact hs.setPc (by rw [h]) fun _ _ => by simp [hm, frameOf]
  · exact Option.noConfusion (Prod.mk.inj (hwh.symm.trans (hw _ _))).2
  · exact hs.setPc (by rw [h]) fun _ he => by simp at he
  · obtain ⟨-, rfl⟩ := Prod.mk.inj (hwh.symm.trans (hw _ _))
    exact hs.setPc (by rw [h]) fun _ he => by simp at he
  · exact hs.setPc (by rw [h]) fun e he => hs i e (.inl (by simp at he; rw [hpc, he]))

theorem run_marshalErrorsOnly (hw : WritesWhole w) (hs : MarshalErrorsOnly m s)
    (sched : List (Fin n)) : MarshalErrorsOnly m (run w m s sched) := by
  induction sched generalizing s with
  | nil => exact hs
  | cons i sched ih => exact ih (step_marshalErrorsOnly hw hs i)

/-- When only marshalling fails, what a call may have written is what it has written. -/
theorem MarshalErrorsOnly.wrote_eq (he : MarshalErrorsOnly m s) {p : Bytes}
    (h : Wrote (m i) (s.pc i) p) : p = written (m i) (s.pc i) := by
  cases hpc : s.pc i with
  | start | locked => rw [hpc] at h; exact h
  | header bb => rw [hpc] at h; exact h.2
  | unlocking err | done err =>
    rw [hpc] at h
    cases err with
    | none => exact h.2 rfl
    | some e =>
      have hnil : frameOf (m i) = [] := he i e (by simp [hpc])
      have hp : p <+: frameOf (m i) := h.1
      rw [hnil] at hp
      exact (List.prefix_nil.mp hp).trans hnil.symm

/-- Over a stream that never fails, the contiguous pieces are the whole frames of the
released calls, then what the holder has written. -/
theorem Contiguous.serial (hc : Contiguous m s) (he : MarshalErrorsOnly m s) : Serial m s := by
  obtain ⟨piece, hwrote, hout⟩ := hc.pieces
  have hpiece : ∀ i, piece i = written (m i) (s.pc i) := fun i => he.wrote_eq (hwrote i)
  obtain ⟨fin, hacq⟩ : ∃ fin, s.acquired = fin ++ s.outMutex.toList := by
    cases hmx : s.outMutex with
    | none => exact ⟨s.acquired, by simp⟩
    | some h =>
      obtain ⟨fin, hfin⟩ := hc.holder_last h hmx
      exact ⟨fin, by simp [hfin]⟩
  have hdone : ∀ i ∈ fin, ∃ err, s.pc i = .done err := fun i hi =>
    Pc.eq_done_of_not_busy
      (fun h => (hc.start_iff i).mp h (by rw [hacq]; exact List.mem_append_left _ hi))
      fun hb => List.disjoint_of_nodup_append (hacq ▸ hc.nodup) hi (by simp [hc.busy_holder i hb])
  refine ⟨hc.nodup, hc.start_iff, ⟨fin, hacq, hdone, ?_⟩, fun h hh => ?_⟩
  · rw [hout, hacq, List.flatMap_append]
    congr 1
    · refine List.flatMap_congr fun i hi => ?_
      obtain ⟨err, hd⟩ := hdone i hi
      rw [hpiece, hd]
      rfl
    · cases s.outMutex <;> simp [hpiece]
  · have hw := hwrote h
    have hb := hc.holder_busy h hh
    cases hpc : s.pc h with
    | locked => exact .inl rfl
    | header bb =>
      rw [hpc] at hw
      exact .inr (.inl ⟨bb, rfl, hw.1⟩)
    | unlocking err => exact .inr (.inr ⟨err, rfl⟩)
    | start | done _ =>
      rw [hpc] at hb
      exact hb.elim

/-- At every state some schedule reaches over a stream whose every `Write` writes its
whole buffer, `Serial` holds: such a run is a run of honest writers in which only
marshalling fails. -/
theorem serial_run (hw : WritesWhole w) (sched : List (Fin n)) :
    Serial m (run w m (initial n) sched) := by
  have hc : Contiguous m (runWith m (initial n) (sched.map (·, w))) :=
    runWith_contiguous initial_contiguous fun x hx => by
      obtain ⟨_, -, rfl⟩ := List.mem_map.mp hx
      exact hw.honest
  rw [← run_eq_runWith] at hc
  exact hc.serial (run_marshalErrorsOnly hw initial_marshalErrorsOnly sched)

/-- A call that has started has taken the mutex. -/
theorem Serial.mem_acquired (hs : Serial m s) (h : s.pc i ≠ .start) : i ∈ s.acquired :=
  not_not.mp fun hi => h ((hs.start_iff i).mpr hi)

/-- The holder of the mutex has not returned. -/
theorem Serial.holder_ne_done {err : Option GoError} (hs : Serial m s) (hh : i ∈ s.outMutex) :
    s.pc i ≠ .done err := by
  rcases hs.holder i hh with h | ⟨_, h, -⟩ | ⟨_, h⟩ <;> simp [h]

/-- A call that is `done` has released the mutex. -/
theorem Serial.mem_released {fin : List (Fin n)} {err : Option GoError} (hs : Serial m s)
    (hacq : s.acquired = fin ++ s.outMutex.toList) (hpc : s.pc i = .done err) : i ∈ fin := by
  have hi := hs.mem_acquired (i := i) (by simp [hpc])
  rw [hacq, List.mem_append] at hi
  exact hi.resolve_right fun hh => hs.holder_ne_done (Option.mem_toList.mp hh) hpc

theorem written_prefix (hs : Serial m s) (hh : s.outMutex = some i) :
    written (m i) (s.pc i) <+: frameOf (m i) := by
  rcases hs.holder i hh with h | ⟨bb, h, hm⟩ | ⟨_, h⟩ <;> rw [h]
  · exact List.nil_prefix
  · rw [hm]
    exact List.prefix_append _ _
  · exact List.prefix_refl _

/-- Concurrent calls never interleave their frames. At every reachable state the calls
that have returned are the first of those that took `outMutex`, in that order, and the
stream is their frames followed by a prefix of at most the holder's frame. Once every
call has returned, each with a non-empty payload shorter than `2^32` bytes, every call
took the mutex once, and `n` calls of `recvPacket` read back the `n` payloads in that
order and nothing else. -/
theorem sendPacket_frames_serialized (hw : WritesWhole w) (hs : Reachable w m s) :
    (∃ fin : List (Fin n), s.acquired = fin ++ s.outMutex.toList ∧
      (∀ i, i ∈ fin ↔ ∃ err, s.pc i = .done err) ∧
      ∃ pre, s.out = fin.flatMap (fun i => frameOf (m i)) ++ pre ∧
        (s.outMutex = none → pre = []) ∧ ∀ h ∈ s.outMutex, pre <+: frameOf (m h)) ∧
    ((∀ i, ∃ err, s.pc i = .done err) → ∀ ps : Fin n → Bytes,
      (∀ i, m i = .ok (ps i) ∧ ps i ≠ [] ∧ (ps i).length < 2 ^ 32) →
      s.acquired.Nodup ∧ s.acquired.length = n ∧ (∀ i, i ∈ s.acquired) ∧
        recvPackets n s.out =
          some (s.acquired.map fun i => ((ps i).headD 0, (ps i).tail), [])) := by
  obtain ⟨sched, rfl⟩ := hs
  have hs := serial_run (m := m) hw sched
  obtain ⟨fin, hacq, hfin, hout⟩ := hs.released
  refine ⟨⟨fin, hacq, fun i => ⟨hfin i, fun ⟨_, h⟩ => hs.mem_released hacq h⟩, _, hout,
    fun h => by simp [h], fun h hh => by
      rw [Option.mem_def.mp hh]
      exact written_prefix hs hh⟩, ?_⟩
  intro hdone ps hps
  have hfree : (run w m (initial n) sched).outMutex = none :=
    Option.eq_none_iff_forall_not_mem.mpr fun h hh =>
      let ⟨_, he⟩ := hdone h
      hs.holder_ne_done hh he
  have hall : ∀ i, i ∈ (run w m (initial n) sched).acquired := fun i =>
    hs.mem_acquired fun h => by simpa [h] using hdone i
  have hlen : (run w m (initial n) sched).acquired.length = n := by
    rw [← List.toFinset_card_of_nodup hs.nodup,
      Finset.eq_univ_iff_forall.mpr fun i => List.mem_toFinset.mpr (hall i), Finset.card_univ,
      Fintype.card_fin]
  refine ⟨hs.nodup, hlen, hall, ?_⟩
  rw [hfree, Option.toList_none, List.append_nil] at hacq
  have hframes : (run w m (initial n) sched).out =
      ((run w m (initial n) sched).acquired.map ps).flatMap frame ++ [] := by
    rw [hout, hfree, hacq, List.flatMap_map]
    simp [frameOf, (hps _).1]
  have hrecv := (@recvPackets_frames ((run w m (initial n) sched).acquired.map ps)
    (fun p hp => ?_) []).mpr fun p hp => ?_
  · rwa [List.length_map, hlen, ← hframes, List.map_map] at hrecv
  · obtain ⟨i, -, rfl⟩ := List.mem_map.mp hp
    exact (hps i).2.1
  · obtain ⟨i, -, rfl⟩ := List.mem_map.mp hp
    exact (hps i).2.2

theorem sendPacket_frames_serialized_two_calls :
    WritesWhole (fun out p => (out ++ p, none)) ∧
    Reachable (fun out p => (out ++ p, none)) (fun i : Fin 2 => .ok [UInt8.ofNat i.val, 9])
      (run (fun out p => (out ++ p, none)) (fun i : Fin 2 => .ok [UInt8.ofNat i.val, 9])
        (initial 2) [1, 0, 1, 0, 1, 1, 0, 0, 0, 0]) ∧
    recvPackets 2 (run (fun out p => (out ++ p, none)) (fun i : Fin 2 => .ok [UInt8.ofNat i.val, 9])
        (initial 2) [1, 0, 1, 0, 1, 1, 0, 0, 0, 0]).out = some ([(1, [9]), (0, [9])], []) :=
  ⟨fun _ _ => rfl, ⟨_, rfl⟩,
    ((sendPacket_frames_serialized (fun _ _ => rfl) ⟨_, rfl⟩).2
      (fun i => ⟨none, by revert i; decide⟩)
      (fun i => [UInt8.ofNat i.val, 9]) fun _ => ⟨rfl, List.cons_ne_nil _ _, by simp⟩).2.2.2⟩


end Server

end SftpWire
