import SftpWire.Server

/-!
# Concurrent senders over a failing stream

`Server.lean` gives the calls of `Server.sendPacket` and runs whose steps all meet one
writer. A network stream need not behave the same at every `Write`: it may write part of
its buffer and fail, and fail differently at each call. Here every step meets a writer of
its own, which the schedule names (`runWith`), so each statement covers every order of
steps and every way the stream behaves; `run` is the run whose steps all meet one writer
(`run_eq_runWith`).

From `step_cases`: whatever the writers return, a call is between `Lock` and the deferred
`Unlock` exactly when it is the call `outMutex` records (`Exclusive`). When every writer
keeps the contract of `io.Writer`, writing a prefix of its buffer and failing when that
prefix is short, the stream is one piece per call that took the mutex, in the order they
took it, each piece a prefix of that call's frame, and the whole frame for a call that
returned `nil` (`Contiguous`). A writer that always writes its whole buffer keeps the
contract (`WritesWhole.honest`), and `Serial.lean` derives the whole-write picture from
`Contiguous`.
-/

namespace SftpWire

/-- The contract of `io.Writer`: `Write(p)` appends a prefix of `p` to the stream, and
returns a non-nil error when the prefix is shorter than `p`. -/
def Writer.Honest (w : Writer) : Prop :=
  ∀ out p, ∃ k ≤ p.length, (w out p).1 = out ++ p.take k ∧
    (k < p.length → (w out p).2.isSome)

theorem WritesWhole.honest {w : Writer} (hw : WritesWhole w) : w.Honest := fun out p =>
  ⟨p.length, le_rfl, by rw [hw, List.take_length], fun h => absurd h (lt_irrefl _)⟩

/-- One honest `Write(p)` appends a prefix `q` of `p`, all of `p` when it returns no
error. -/
theorem Writer.Honest.write {w : Writer} (hw : w.Honest) (out p : Bytes) :
    ∃ q, q <+: p ∧ (w out p).1 = out ++ q ∧ ((w out p).2 = none → q = p) := by
  obtain ⟨k, hk, hout, herr⟩ := hw out p
  refine ⟨p.take k, List.take_prefix k p, hout, fun hnone => List.take_of_length_le ?_⟩
  by_contra hlt
  simpa [hnone] using herr (by omega)

/-- Between `Lock` and the deferred `Unlock`. -/
def Pc.Busy : Pc → Prop
  | .locked | .header _ | .unlocking _ => True
  | .start | .done _ => False

instance : DecidablePred Pc.Busy
  | .locked | .header _ | .unlocking _ => isTrue trivial
  | .start | .done _ => isFalse id

theorem Pc.Busy.ne_start {pc : Pc} (h : pc.Busy) : pc ≠ .start := by
  rintro rfl
  exact h

/-- A call past `start` and outside the critical section has returned. -/
theorem Pc.eq_done_of_not_busy {pc : Pc} (hs : pc ≠ .start) (hb : ¬ pc.Busy) :
    ∃ err, pc = .done err := by
  cases pc with
  | start => exact absurd rfl hs
  | done err => exact ⟨err, rfl⟩
  | _ => exact absurd trivial hb

namespace Server

variable {n : Nat} (m : Fin n → Except GoError Bytes)

/-- A run in which step `j` is taken by the call `sched[j].1`, whose `Write` calls go to
the writer `sched[j].2`. -/
def runWith (s : Server n) (sched : List (Fin n × Writer)) : Server n :=
  sched.foldl (fun s x => step x.2 m s x.1) s

theorem run_eq_runWith (w : Writer) (s : Server n) (sched : List (Fin n)) :
    run w m s sched = runWith m s (sched.map (·, w)) := by
  rw [run, runWith, List.foldl_map]

/-- The states some schedule reaches from `initial` when every writer it meets
satisfies `P`. -/
def ReachableUnder (P : Writer → Prop) (s : Server n) : Prop :=
  ∃ sched : List (Fin n × Writer), (∀ x ∈ sched, P x.2) ∧ s = runWith m (initial n) sched

variable {m} {s : Server n} {i : Fin n}

/-- The holder of `outMutex` is between `Lock` and `Unlock`, and a call between them
holds `outMutex`. -/
structure Exclusive (s : Server n) : Prop where
  holder_busy : ∀ h ∈ s.outMutex, (s.pc h).Busy
  busy_holder : ∀ i, (s.pc i).Busy → s.outMutex = some i

theorem initial_exclusive : Exclusive (initial n) :=
  ⟨fun _ h => Option.noConfusion h, fun _ h => (h : False).elim⟩

theorem Exclusive.acquire (hs : Exclusive s) (hfree : s.outMutex = none) :
    Exclusive { s.setPc i .locked with outMutex := some i, acquired := s.acquired ++ [i] } := by
  refine ⟨fun h hh => ?_, fun j hj => ?_⟩
  · obtain rfl : h = i := (Option.some.inj hh).symm
    simp [Pc.Busy]
  · by_cases hji : j = i
    · rw [hji]
    · simp only [setPc_pc_of_ne _ _ hji] at hj
      simpa [hfree] using hs.busy_holder j hj

/-- The holder moves from one busy state to another, and may write. -/
theorem Exclusive.moves {s' : Server n} {pc : Pc} (hs : Exclusive s)
    (hpc' : s'.pc = (s.setPc i pc).pc) (hmx : s'.outMutex = s.outMutex) (hi : (s.pc i).Busy)
    (hpc : pc.Busy) : Exclusive s' := by
  have hh := hs.busy_holder i hi
  refine ⟨fun h hh' => ?_, fun j hj => ?_⟩
  · obtain rfl : i = h := Option.some.inj (hh.symm.trans (hmx.symm.trans hh'))
    simpa [hpc'] using hpc
  · by_cases hji : j = i
    · rw [hmx, hh, hji]
    · rw [hpc', setPc_pc_of_ne _ _ hji] at hj
      rw [hmx, hs.busy_holder j hj]

theorem Exclusive.release {err : Option GoError} (hs : Exclusive s)
    (hpc : s.pc i = .unlocking err) :
    Exclusive { s.setPc i (.done err) with outMutex := none } := by
  refine ⟨fun _ h => Option.noConfusion h, fun j hj => ?_⟩
  by_cases hji : j = i
  · subst hji
    simp [Pc.Busy] at hj
  · simp only [setPc_pc_of_ne _ _ hji] at hj
    have h₁ := hs.busy_holder j hj
    rw [hs.busy_holder i (by simp [hpc, Pc.Busy]), Option.some.injEq] at h₁
    exact absurd h₁.symm hji

theorem step_exclusive (w : Writer) (hs : Exclusive s) (i : Fin n) :
    Exclusive (step w m s i) := by
  rcases step_cases w s i with
    ⟨h, -⟩ | ⟨-, hfree, h⟩ | ⟨_, hpc, -, h⟩ | ⟨_, _, _, hpc, -, -, h⟩ | ⟨_, _, hpc, -, -, h⟩ |
    ⟨_, _, _, hpc, -, h⟩ | ⟨_, hpc, h⟩ <;> rw [h]
  · exact hs
  · exact hs.acquire hfree
  all_goals first
    | exact hs.release hpc
    | exact hs.moves rfl rfl (by simp [hpc, Pc.Busy]) trivial

theorem runWith_exclusive (hs : Exclusive s) (sched : List (Fin n × Writer)) :
    Exclusive (runWith m s sched) := by
  induction sched generalizing s with
  | nil => exact hs
  | cons x sched ih => exact ih (step_exclusive x.2 hs x.1)

/-- At every state some schedule reaches, whatever its writers return, a call is between
`Lock` and the deferred `Unlock` exactly when it is the call holding `outMutex`: at most
one call is ever in that section, and the holder is always in it. -/
theorem busy_iff_holds_outMutex (sched : List (Fin n × Writer)) (i : Fin n) :
    ((runWith m (initial n) sched).pc i).Busy ↔ (runWith m (initial n) sched).outMutex = some i :=
  have hs := runWith_exclusive (m := m) initial_exclusive sched
  ⟨hs.busy_holder i, hs.holder_busy i⟩

/-- What a call at `pc` may have written: nothing before its header `Write`; after it, the
whole header; once `sendPacket` has returned, a prefix of its frame, and all of it if
`sendPacket` returned `nil`. -/
def Wrote (mi : Except GoError Bytes) : Pc → Bytes → Prop
  | .start, p | .locked, p => p = []
  | .header bb, p => mi = .ok bb ∧ p = bigEndian 4 bb.length
  | .unlocking err, p | .done err, p => p <+: frameOf mi ∧ (err = none → p = frameOf mi)

theorem Wrote.within_frame {mi : Except GoError Bytes} {pc : Pc} {p : Bytes} (h : Wrote mi pc p) :
    p <+: frameOf mi := by
  cases pc with
  | start | locked => exact (h : p = []) ▸ List.nil_prefix
  | header bb =>
    obtain ⟨rfl, rfl⟩ := h
    exact List.prefix_append _ _
  | unlocking err | done err => exact h.1

variable (m) in
/-- The stream is one piece per call that took the mutex, in the order they took it, each
what that call may have written; the holder took it last. -/
structure Contiguous (s : Server n) extends Exclusive s : Prop where
  nodup : s.acquired.Nodup
  start_iff : ∀ i, s.pc i = .start ↔ i ∉ s.acquired
  holder_last : ∀ h ∈ s.outMutex, ∃ fin, s.acquired = fin ++ [h]
  pieces : ∃ piece : Fin n → Bytes, (∀ i, Wrote (m i) (s.pc i) (piece i)) ∧
    s.out = s.acquired.flatMap piece

theorem initial_contiguous : Contiguous m (initial n) :=
  ⟨initial_exclusive, List.nodup_nil, fun _ => by simp [initial], fun _ h => Option.noConfusion h,
    fun _ => [], fun _ => rfl, rfl⟩

theorem Contiguous.acquire (hs : Contiguous m s) (hpc : s.pc i = .start)
    (hfree : s.outMutex = none) :
    Contiguous m { s.setPc i .locked with outMutex := some i, acquired := s.acquired ++ [i] } := by
  obtain ⟨piece, hwrote, hout⟩ := hs.pieces
  have hi : i ∉ s.acquired := (hs.start_iff i).mp hpc
  have hpiece : piece i = [] := by simpa [hpc] using hwrote i
  refine ⟨hs.toExclusive.acquire hfree,
    hs.nodup.append (List.nodup_singleton i) (by simpa using hi),
    start_iff_setPc hs.start_iff (by simp) (by simp), fun h hh => ⟨s.acquired, ?_⟩,
    piece, fun j => ?_, by simp [hout, hpiece]⟩
  · rw [← Option.some.inj hh]
  · by_cases hji : j = i
    · subst hji
      simpa [Wrote] using hpiece
    · simpa [hji] using hwrote j

/-- The holder's own actions: it moves to another busy state and writes `extra`, which
extends what it may have written. -/
theorem Contiguous.holder_writes {pc : Pc} (extra : Bytes) (hs : Contiguous m s)
    (hi : (s.pc i).Busy) (hpc : pc.Busy)
    (hwr : ∀ p, Wrote (m i) (s.pc i) p → Wrote (m i) pc (p ++ extra)) :
    Contiguous m { s.setPc i pc with out := s.out ++ extra } := by
  have hh := hs.busy_holder i hi
  obtain ⟨fin, hacq⟩ := hs.holder_last i hh
  obtain ⟨piece, hwrote, hout⟩ := hs.pieces
  have hfin : ∀ j ∈ fin, j ≠ i := fun j hj hji =>
    List.disjoint_of_nodup_append (hacq ▸ hs.nodup) hj (List.mem_singleton.mpr hji)
  refine ⟨hs.toExclusive.moves rfl rfl hi hpc, hs.nodup,
    start_iff_setPc hs.start_iff hpc.ne_start (by simp [hacq]), hs.holder_last,
    Function.update piece i (piece i ++ extra), fun j => ?_, ?_⟩
  · by_cases hji : j = i
    · subst hji
      simpa using hwr _ (hwrote j)
    · simpa [hji] using hwrote j
  · have hsame : fin.flatMap (Function.update piece i (piece i ++ extra)) = fin.flatMap piece :=
      List.flatMap_congr fun j hj => Function.update_noteq (hfin j hj) _ _
    simp only [setPc_acquired, hout, hacq, List.flatMap_append, List.flatMap_singleton, hsame,
      Function.update_same, List.append_assoc]

theorem Contiguous.release {err : Option GoError} (hs : Contiguous m s)
    (hpc : s.pc i = .unlocking err) :
    Contiguous m { s.setPc i (.done err) with outMutex := none } := by
  obtain ⟨piece, hwrote, hout⟩ := hs.pieces
  have hmem : i ∈ s.acquired := not_not.mp fun hn => by simp [(hs.start_iff i).mpr hn] at hpc
  refine ⟨hs.toExclusive.release hpc, hs.nodup,
    start_iff_setPc hs.start_iff (by simp) fun j => ⟨.inl, fun h => h.elim id (· ▸ hmem)⟩,
    fun _ h => Option.noConfusion h, piece, fun j => ?_, hout⟩
  by_cases hji : j = i
  · subst hji
    simpa [hpc, Wrote] using hwrote j
  · simpa [hji] using hwrote j

/-- The holder makes one `Write(buf)` that keeps the contract of `io.Writer`, returns
`err`, and moves to `pc`: it appends a prefix of `buf`, all of it if `err` is nil. -/
theorem Contiguous.holder_writes_honest {w : Writer} {buf out : Bytes} {err : Option GoError}
    {pc : Pc} (hw : w.Honest) (hwb : w s.out buf = (out, err)) (hs : Contiguous m s)
    (hi : (s.pc i).Busy) (hpc : pc.Busy)
    (hwr : ∀ p q, Wrote (m i) (s.pc i) p → q <+: buf → (err = none → q = buf) →
      Wrote (m i) pc (p ++ q)) :
    Contiguous m { s.setPc i pc with out } := by
  obtain ⟨q, hq, hout, hall⟩ := hw.write s.out buf
  rw [hwb] at hout hall
  rw [show out = s.out ++ q from hout]
  exact hs.holder_writes q hi hpc fun p hp => hwr p q hp hq hall

theorem step_contiguous {w : Writer} (hw : w.Honest) (hs : Contiguous m s) (i : Fin n) :
    Contiguous m (step w m s i) := by
  rcases step_cases w s i with ⟨h, -⟩ | ⟨hpc, hfree, h⟩ | ⟨err, hpc, hm, h⟩ |
      ⟨bb, _, _, hpc, hm, hwh, h⟩ | ⟨bb, _, hpc, hm, hwh, h⟩ | ⟨bb, _, _, hpc, hwh, h⟩ |
      ⟨err, hpc, h⟩ <;> rw [h]
  · exact hs
  · exact hs.acquire hpc hfree
  · have h' : Contiguous m { s.setPc i (.unlocking (some (.marshalFailed err))) with
        out := s.out ++ [] } :=
      hs.holder_writes [] (by simp [hpc, Pc.Busy]) trivial fun p hp => by
        rw [hpc] at hp
        obtain rfl : p = [] := hp
        simp [Wrote, hm, frameOf]
    rwa [List.append_nil] at h'
  · refine hs.holder_writes_honest hw hwh (by simp [hpc, Pc.Busy]) trivial fun p q hp hq _ => ?_
    rw [hpc] at hp
    rw [(hp : p = []), List.nil_append, sendPacket.header_eq] at *
    exact ⟨hq.trans (by simp [hm, frameOf, frame]), fun h => Option.noConfusion h⟩
  · refine hs.holder_writes_honest hw hwh (by simp [hpc, Pc.Busy]) trivial fun p q hp _ hall => ?_
    rw [hpc] at hp
    rw [(hp : p = []), List.nil_append, hall rfl, sendPacket.header_eq]
    exact ⟨hm, rfl⟩
  · refine hs.holder_writes_honest hw hwh (by simp [hpc, Pc.Busy]) trivial fun p q hp hq hall => ?_
    rw [hpc] at hp
    obtain ⟨hm, rfl⟩ := hp
    rw [hm]
    exact ⟨(List.prefix_append_right_inj _).mpr hq, fun he => by rw [hall he]; rfl⟩
  · exact hs.release hpc

theorem runWith_contiguous (hs : Contiguous m s) {sched : List (Fin n × Writer)}
    (hw : ∀ x ∈ sched, x.2.Honest) : Contiguous m (runWith m s sched) := by
  induction sched generalizing s with
  | nil => exact hs
  | cons x sched ih =>
    rw [List.forall_mem_cons] at hw
    exact ih (step_contiguous hw.1 hs x.1) hw.2

/-- Frames never interleave, however the stream fails. At every state some schedule
reaches while every writer keeps the contract of `io.Writer`, the calls that took
`outMutex` did so once each; the stream is one piece per such call, in the order they
took it; each piece is a prefix of that call's frame, and its whole frame if the call
returned `nil`; and a call that never took the mutex has not started. -/
theorem frames_contiguous {s : Server n} (hs : ReachableUnder m Writer.Honest s) :
    s.acquired.Nodup ∧ (∀ i, s.pc i = .start ↔ i ∉ s.acquired) ∧
    ∃ piece : Fin n → Bytes, s.out = s.acquired.flatMap piece ∧
      ∀ i, piece i <+: frameOf (m i) ∧ (s.pc i = .done none → piece i = frameOf (m i)) := by
  obtain ⟨sched, hw, rfl⟩ := hs
  have hc := runWith_contiguous (m := m) initial_contiguous hw
  obtain ⟨piece, hwrote, hout⟩ := hc.pieces
  refine ⟨hc.nodup, hc.start_iff, piece, hout,
    fun i => ⟨(hwrote i).within_frame, fun hd => ?_⟩⟩
  have h := hwrote i
  rw [hd] at h
  exact h.2 rfl

theorem frames_contiguous_broken_pipe :
    ∃ s : Server 1, ReachableUnder (fun _ => .ok [7]) Writer.Honest s ∧
      s.pc 0 = .done (some (.io "broken pipe")) ∧
      (s.acquired.Nodup ∧ (∀ i, s.pc i = .start ↔ i ∉ s.acquired) ∧
        ∃ piece : Fin 1 → Bytes, s.out = s.acquired.flatMap piece ∧
          ∀ i, piece i <+: frameOf (.ok [7]) ∧
            (s.pc i = .done none → piece i = frameOf (.ok [7]))) :=
  have hs : ReachableUnder (fun _ : Fin 1 => .ok [7]) Writer.Honest
      (runWith (fun _ => .ok [7]) (initial 1)
        [(0, fun out _ => (out, some (.io "broken pipe"))),
          (0, fun out _ => (out, some (.io "broken pipe"))),
          (0, fun out _ => (out, some (.io "broken pipe")))]) :=
    have hb : Writer.Honest fun out _ => (out, some (.io "broken pipe")) := fun out p =>
      ⟨0, Nat.zero_le _, by simp, fun _ => rfl⟩
    ⟨_, by simpa using hb, rfl⟩
  ⟨_, hs, rfl, frames_contiguous hs⟩

end Server

end SftpWire
