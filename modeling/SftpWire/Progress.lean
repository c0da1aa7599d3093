import Mathlib.Algebra.Order.BigOperators.Group.Finset
import SftpWire.Serial

/-!
# Every call returns under a fair scheduler

Safety allows a run in which nothing happens. Here a run goes on forever: step `k` is
taken by the call `σ k`, which meets the writer `ω k`. The scheduler is fair when it gives
every call a step again and again (`Fair`). Under any fair scheduler, whatever the writers
return, every call of `Server.sendPacket` whose `MarshalBinary` returns returns itself:
the holder releases the mutex within its next steps, and a call waiting for the mutex
takes it once it is free.

The proof counts the actions the calls have still to take (`Server.remaining`). A step
either leaves the state as it is, for a call waiting on a held mutex or one that has
returned, or takes one action off (`step_waits_or_acts`). While some call has not
returned, some call would take an action at its next step (`Exclusive.progress`): the
holder, or a call that can take the free mutex. A fair scheduler gives that call a step,
so the count falls, and it cannot fall forever.

With a stream whose every `Write` writes its whole buffer, the run is a run of
`Server.lean` (`runForever_eq_run`), so `Serial` holds along it: once every call has
returned, the stream holds every call's frame exactly once (`every_frame_delivered`).
-/

namespace SftpWire

/-- The actions of `Server.sendPacket` a call at `pc` has still to take. -/
def Pc.remaining : Pc → Nat
  | .start => 4
  | .locked => 3
  | .header _ => 2
  | .unlocking _ => 1
  | .done _ => 0

theorem Pc.remaining_eq_zero {pc : Pc} : pc.remaining = 0 ↔ ∃ err, pc = .done err := by
  cases pc <;> simp [Pc.remaining]

namespace Server

variable {n : Nat} {m : Fin n → Except GoError Bytes}

/-- The actions all calls have still to take. -/
def remaining (s : Server n) : Nat := ∑ i, (s.pc i).remaining

theorem remaining_eq_zero {s : Server n} :
    s.remaining = 0 ↔ ∀ i, ∃ err, s.pc i = .done err := by
  simp [remaining, Pc.remaining_eq_zero]

/-- Moving one call to a state with fewer actions left lowers the count. -/
theorem remaining_lt {s s' : Server n} {i : Fin n} {pc : Pc} (hpc' : s'.pc = (s.setPc i pc).pc)
    (hlt : pc.remaining < (s.pc i).remaining) : s'.remaining < s.remaining := by
  unfold remaining
  rw [hpc']
  refine Finset.sum_lt_sum (fun j _ => ?_) ⟨i, Finset.mem_univ _, by simpa using hlt⟩
  by_cases hji : j = i
  · subst hji
    simpa using hlt.le
  · simp [hji]

/-- A step either leaves the state as it is, the call waiting on a held mutex or having
returned, or takes one action off the count. -/
theorem step_waits_or_acts (w : Writer) (s : Server n) (i : Fin n) :
    (step w m s i = s ∧
        ((s.pc i = .start ∧ s.outMutex ≠ none) ∨ ∃ err, s.pc i = .done err)) ∨
      (step w m s i).remaining < s.remaining := by
  rcases step_cases w s i with
    h | ⟨hpc, -, h⟩ | ⟨_, hpc, -, h⟩ | ⟨_, _, _, hpc, -, -, h⟩ | ⟨_, _, hpc, -, -, h⟩ |
    ⟨_, _, _, hpc, -, h⟩ | ⟨_, hpc, h⟩
  · exact .inl h
  all_goals exact .inr (remaining_lt (by rw [h]) (by simp [hpc, Pc.remaining]))

/-- While some call has not returned, some call would take an action at its next step,
whatever its writer returns: the holder of the mutex, or, when the mutex is free, a call
that has not started. -/
theorem Exclusive.progress {s : Server n} (hs : Exclusive s)
    (hnd : ¬ ∀ i, ∃ err, s.pc i = .done err) :
    ∃ i, ∀ w, (step w m s i).remaining < s.remaining := by
  have acts : ∀ i,
      ¬ ((s.pc i = .start ∧ s.outMutex ≠ none) ∨ ∃ err, s.pc i = .done err) →
      ∀ w, (step w m s i).remaining < s.remaining := fun i hi w =>
    (step_waits_or_acts w s i).resolve_left fun h => hi h.2
  cases hmx : s.outMutex with
  | some h =>
    refine ⟨h, acts h fun hw => ?_⟩
    have hb := hs.holder_busy h hmx
    rcases hw with ⟨hpc, -⟩ | ⟨_, hpc⟩ <;> rw [hpc] at hb <;> exact hb
  | none =>
    obtain ⟨i, hi⟩ := not_forall.mp hnd
    refine ⟨i, acts i fun hw => ?_⟩
    rcases hw with ⟨-, hheld⟩ | hd
    · exact hheld hmx
    · exact hi hd

variable (m) in
/-- The state after the first `k` steps of a schedule that goes on forever: step `j` is
taken by the call `σ j`, whose `Write` calls go to the writer `ω j`. -/
def runForever (σ : ℕ → Fin n) (ω : ℕ → Writer) : ℕ → Server n
  | 0 => initial n
  | k + 1 => step (ω k) m (runForever σ ω k) (σ k)

/-- The scheduler gives every call a step again and again. -/
def Fair (σ : ℕ → Fin n) : Prop := ∀ i k, ∃ l, k ≤ l ∧ σ l = i

variable {σ : ℕ → Fin n} {ω : ℕ → Writer}

theorem runForever_exclusive (k : ℕ) : Exclusive (runForever m σ ω k) := by
  induction k with
  | zero => exact initial_exclusive
  | succ k ih => exact step_exclusive (ω k) ih (σ k)

theorem remaining_succ_le (k : ℕ) :
    (runForever m σ ω (k + 1)).remaining ≤ (runForever m σ ω k).remaining := by
  rcases step_waits_or_acts (ω k) (runForever m σ ω k) (σ k) with ⟨h, -⟩ | h
  · exact (congrArg remaining h).le
  · exact h.le

theorem remaining_antitone {k l : ℕ} (h : k ≤ l) :
    (runForever m σ ω l).remaining ≤ (runForever m σ ω k).remaining := by
  induction l, h using Nat.le_induction with
  | base => exact le_rfl
  | succ l _ ih => exact (remaining_succ_le l).trans ih

/-- Steps that take no action off the count change nothing. -/
theorem runForever_eq_of_remaining_eq {k l : ℕ} (h : k ≤ l)
    (heq : (runForever m σ ω l).remaining = (runForever m σ ω k).remaining) :
    runForever m σ ω l = runForever m σ ω k := by
  induction l, h using Nat.le_induction with
  | base => rfl
  | succ l hkl ih =>
    have hl : (runForever m σ ω l).remaining = (runForever m σ ω k).remaining :=
      le_antisymm (remaining_antitone hkl) (heq ▸ remaining_succ_le l)
    rcases step_waits_or_acts (ω l) (runForever m σ ω l) (σ l) with ⟨hstep, -⟩ | hlt
    · exact hstep.trans (ih hl)
    · exact absurd (heq.trans hl.symm) (ne_of_lt hlt)

/-- Under a fair scheduler, while some call has not returned, the count falls. -/
theorem exists_remaining_lt (hf : Fair σ) (k : ℕ)
    (hnd : ¬ ∀ i, ∃ err, (runForever m σ ω k).pc i = .done err) :
    ∃ l, (runForever m σ ω l).remaining < (runForever m σ ω k).remaining := by
  obtain ⟨t, ht⟩ := (runForever_exclusive k).progress hnd
  obtain ⟨l, hkl, hσ⟩ := hf t k
  refine ⟨l + 1, ?_⟩
  by_cases heq : (runForever m σ ω l).remaining = (runForever m σ ω k).remaining
  · have hact := ht (ω l)
    rw [← runForever_eq_of_remaining_eq hkl heq, ← hσ] at hact
    exact hact.trans_eq heq
  · exact (remaining_succ_le l).trans_lt
      (lt_of_le_of_ne (remaining_antitone hkl) heq)

/-- Under a fair scheduler the count reaches zero. -/
theorem exists_remaining_eq_zero (hf : Fair σ) : ∃ K, (runForever m σ ω K).remaining = 0 := by
  suffices h : ∀ r k, (runForever m σ ω k).remaining ≤ r →
      ∃ K, (runForever m σ ω K).remaining = 0 from h _ 0 le_rfl
  intro r
  induction r using Nat.strong_induction_on with
  | _ r ih =>
    intro k hk
    by_cases hnd : ∀ i, ∃ err, (runForever m σ ω k).pc i = .done err
    · exact ⟨k, remaining_eq_zero.mpr hnd⟩
    · obtain ⟨l, hl⟩ := exists_remaining_lt hf k hnd
      exact ih _ (hl.trans_le hk) l le_rfl

/-- Under any fair scheduler, whatever every `Write` returns, every call of
`Server.sendPacket` whose `MarshalBinary` returns (the model's `m i`) returns itself, and
from some step on all of them have returned. -/
theorem every_call_returns (hf : Fair σ) :
    ∃ K, ∀ k, K ≤ k → ∀ i, ∃ err, (runForever m σ ω k).pc i = .done err := by
  obtain ⟨K, hK⟩ := exists_remaining_eq_zero (m := m) (ω := ω) hf
  exact ⟨K, fun k hk =>
    remaining_eq_zero.mp (Nat.eq_zero_of_le_zero (hK ▸ remaining_antitone hk))⟩

theorem every_call_returns_round_robin :
    Fair (fun k => (⟨k % 2, Nat.mod_lt _ Nat.zero_lt_two⟩ : Fin 2)) ∧
    ∃ K, ∀ k, K ≤ k → ∀ i, ∃ err,
      (runForever (fun _ : Fin 2 => .ok [1]) (fun k => ⟨k % 2, Nat.mod_lt _ Nat.zero_lt_two⟩)
        (fun _ out _ => (out, some (.io "broken pipe"))) k).pc i = .done err :=
  have hf : Fair (fun k => (⟨k % 2, Nat.mod_lt _ Nat.zero_lt_two⟩ : Fin 2)) := fun i k =>
    ⟨2 * k + i.val, by omega, Fin.ext (by have := i.isLt; simp only; omega)⟩
  ⟨hf, every_call_returns hf⟩

/-- A run that meets one writer at every step is the finite run of its first `k` steps. -/
theorem runForever_eq_run (w : Writer) (k : ℕ) :
    runForever m σ (fun _ => w) k = run w m (initial n) ((List.range k).map σ) := by
  induction k with
  | zero => rfl
  | succ k ih =>
    rw [runForever, ih, List.range_succ, List.map_append]
    unfold run
    rw [List.foldl_append]
    rfl

/-- Every frame is delivered exactly once. Under a fair scheduler and a stream whose every
`Write` writes its whole buffer, from some step on every call has taken `outMutex` exactly
once, and the stream is the frames of all calls in the order they took it and nothing
else (a call whose `MarshalBinary` failed writes nothing). -/
theorem every_frame_delivered {w : Writer} (hw : WritesWhole w) (hf : Fair σ) :
    ∃ K, ∀ k, K ≤ k →
      (runForever m σ (fun _ => w) k).acquired.Perm (List.finRange n) ∧
      (runForever m σ (fun _ => w) k).out =
        (runForever m σ (fun _ => w) k).acquired.flatMap fun i => frameOf (m i) := by
  obtain ⟨K, hK⟩ := exists_remaining_eq_zero (m := m) (ω := fun _ => w) hf
  refine ⟨K, fun k hk => ?_⟩
  have hdone := remaining_eq_zero.mp (Nat.eq_zero_of_le_zero (hK ▸ remaining_antitone hk))
  have hs := serial_run (m := m) hw ((List.range k).map σ)
  rw [← runForever_eq_run] at hs
  have hfree : (runForever m σ (fun _ => w) k).outMutex = none :=
    Option.eq_none_iff_forall_not_mem.mpr fun h hh =>
      let ⟨_, he⟩ := hdone h
      hs.holder_ne_done hh he
  obtain ⟨fin, hacq, -, hout⟩ := hs.released
  rw [hfree, Option.toList_none, List.append_nil] at hacq
  refine ⟨(List.perm_ext_iff_of_nodup hs.nodup (List.nodup_finRange n)).mpr fun i =>
    ⟨fun _ => List.mem_finRange i, fun _ => hs.mem_acquired fun h => ?_⟩, ?_⟩
  · obtain ⟨_, he⟩ := hdone i
    exact Pc.noConfusion (h.symm.trans he)
  · rw [hout, hfree, hacq]
    simp

theorem every_frame_delivered_round_robin :
    WritesWhole (fun out p => (out ++ p, none)) ∧
    Fair (fun k => (⟨k % 2, Nat.mod_lt _ Nat.zero_lt_two⟩ : Fin 2)) ∧
    ∃ K, ∀ k, K ≤ k →
      (runForever (fun i : Fin 2 => .ok [UInt8.ofNat i.val, 9])
          (fun k => ⟨k % 2, Nat.mod_lt _ Nat.zero_lt_two⟩) (fun _ out p => (out ++ p, none))
          k).acquired.Perm
        (List.finRange 2) ∧
      (runForever (fun i : Fin 2 => .ok [UInt8.ofNat i.val, 9])
          (fun k => ⟨k % 2, Nat.mod_lt _ Nat.zero_lt_two⟩) (fun _ out p => (out ++ p, none))
          k).out =
        (runForever (fun i : Fin 2 => .ok [UInt8.ofNat i.val, 9])
          (fun k => ⟨k % 2, Nat.mod_lt _ Nat.zero_lt_two⟩) (fun _ out p => (out ++ p, none))
          k).acquired.flatMap
          fun i => frameOf (.ok [UInt8.ofNat i.val, 9]) :=
  have hw : WritesWhole (fun out p => (out ++ p, none)) := fun _ _ => rfl
  have hf : Fair (fun k => (⟨k % 2, Nat.mod_lt _ Nat.zero_lt_two⟩ : Fin 2)) := fun i k =>
    ⟨2 * k + i.val, by omega, Fin.ext (by have := i.isLt; simp only; omega)⟩
  ⟨hw, hf, every_frame_delivered hw hf⟩

end Server

end SftpWire
