import Mathlib.Data.Fintype.Card
import SftpWire.Framing

/-!
# Concurrent senders on one server

`Server.sendPacket` locks `svr.outMutex`, calls `sendPacket(svr.out, m)` and unlocks the
mutex when that returns (`defer`). Any responder may call it, so any number of calls run
at once. The model runs `n` calls, one per `Fin n`, as the threads of one state machine:
a step advances one call by one action on the shared state, and a schedule is any list
of calls. The actions are those of the source: take the mutex (a call that finds it
taken waits), marshal and write the header, write the payload, release the mutex.
Marshalling touches no shared state, so it is taken together with the header write.

Call `i` sends `m i`, what its `MarshalBinary` returned: a payload or an error. A
`MarshalBinary` that panics instead (`DATA` past its capacity, an attribute `marshal`
cannot handle) unwinds through the deferred `Unlock` and never returns; the calls here
are those whose `MarshalBinary` returns.

The mutex records the call that holds it, and a ghost list `acquired` the calls in the
order they took it; neither changes what the calls do. `step_cases` says once what a step
can do, whatever the writer returns; the invariants of `Faults.lean` and `Serial.lean`
are derived from it. A call that runs alone performs `sendPacket` (`run_alone`), and a
payload whose length is a multiple of `2^32` shows that the header wraps.
-/

namespace SftpWire

/-- Where one `Server.sendPacket` call is. -/
inductive Pc where
  /-- `svr.outMutex.Lock()` has not returned. -/
  | start
  /-- Holds the mutex and has written nothing. -/
  | locked
  /-- Has written the header of the payload `bb`. -/
  | header (bb : Bytes)
  /-- `sendPacket` returned `err`; the deferred `Unlock` has not run. -/
  | unlocking (err : Option GoError)
  /-- Returned `err`. -/
  | done (err : Option GoError)
  deriving DecidableEq, Repr

/-- Modelled from the spec: the `Server` type is not under src/. These are the two fields
`Server.sendPacket` uses, `out` as the bytes written to it and `outMutex` with the call
that holds it, and where each of the `n` calls is. -/
structure Server (n : Nat) where
  out : Bytes
  outMutex : Option (Fin n)
  pc : Fin n → Pc
  /-- Ghost: the calls in the order they took `outMutex`. -/
  acquired : List (Fin n)

namespace Server

variable {n : Nat}

/-- No call has started, and nothing is written. -/
def initial (n : Nat) : Server n := ⟨[], none, fun _ => .start, []⟩

def setPc (s : Server n) (i : Fin n) (pc : Pc) : Server n :=
  { s with pc := Function.update s.pc i pc }

@[simp] theorem setPc_pc_self (s : Server n) (i : Fin n) (pc : Pc) : (s.setPc i pc).pc i = pc :=
  Function.update_same _ _ _

@[simp] theorem setPc_pc_of_ne (s : Server n) {i j : Fin n} (pc : Pc) (h : j ≠ i) :
    (s.setPc i pc).pc j = s.pc j :=
  Function.update_noteq h _ _

@[simp] theorem setPc_out (s : Server n) (i : Fin n) (pc : Pc) : (s.setPc i pc).out = s.out := rfl

@[simp] theorem setPc_outMutex (s : Server n) (i : Fin n) (pc : Pc) :
    (s.setPc i pc).outMutex = s.outMutex := rfl

@[simp] theorem setPc_acquired (s : Server n) (i : Fin n) (pc : Pc) :
    (s.setPc i pc).acquired = s.acquired := rfl

/-- Once call `i` has moved past `start`, the calls at `start` are those outside `acq`,
when before they were those outside `s.acquired` and `acq` adds `i` to it. -/
theorem start_iff_setPc {s : Server n} {i : Fin n} {pc : Pc} {acq : List (Fin n)}
    (hstart : ∀ j, s.pc j = .start ↔ j ∉ s.acquired) (hpc : pc ≠ .start)
    (hacq : ∀ j, j ∈ acq ↔ j ∈ s.acquired ∨ j = i) (j : Fin n) :
    (s.setPc i pc).pc j = .start ↔ j ∉ acq := by
  by_cases hji : j = i
  · subst hji
    simp [hpc, hacq]
  · simp [hji, hacq, hstart j]

variable (w : Writer) (m : Fin n → Except GoError Bytes)

/-- Call `i`, whose `m.MarshalBinary()` returns `m i`, takes its next action. -/
def step (s : Server n) (i : Fin n) : Server n :=
  match s.pc i with
  | .start =>
    match s.outMutex with
    | none => { s.setPc i .locked with outMutex := some i, acquired := s.acquired ++ [i] }
    | some _ => s
  | .locked =>
    match m i with
    | .error err => s.setPc i (.unlocking (some (.marshalFailed err)))
    | .ok bb =>
      match w s.out (sendPacket.header bb) with
      | (out, some err) => { s.setPc i (.unlocking (some err)) with out }
      | (out, none) => { s.setPc i (.header bb) with out }
  | .header bb =>
    match w s.out bb with
    | (out, err) => { s.setPc i (.unlocking err) with out }
  | .unlocking err => { s.setPc i (.done err) with outMutex := none }
  | .done _ => s

def run (s : Server n) (sched : List (Fin n)) : Server n := sched.foldl (step w m) s

/-- The states some schedule reaches from `initial`. -/
def Reachable (s : Server n) : Prop := ∃ sched, s = run w m (initial n) sched

variable {w m} {s : Server n} {i : Fin n}

theorem step_start_free (hpc : s.pc i = .start) (hfree : s.outMutex = none) :
    step w m s i =
      { s.setPc i .locked with outMutex := some i, acquired := s.acquired ++ [i] } := by
  simp only [step, hpc, hfree]

theorem step_start_held {h : Fin n} (hpc : s.pc i = .start) (hheld : s.outMutex = some h) :
    step w m s i = s := by
  simp only [step, hpc, hheld]

theorem step_locked_error {err : GoError} (hpc : s.pc i = .locked) (hm : m i = .error err) :
    step w m s i = s.setPc i (.unlocking (some (.marshalFailed err))) := by
  simp only [step, hpc, hm]

theorem step_locked_ok {bb : Bytes} (hw : WritesWhole w) (hpc : s.pc i = .locked)
    (hm : m i = .ok bb) :
    step w m s i = { s.setPc i (.header bb) with out := s.out ++ bigEndian 4 bb.length } := by
  simp only [step, hpc, hm, hw s.out, sendPacket.header_eq]

theorem step_header {bb : Bytes} (hw : WritesWhole w) (hpc : s.pc i = .header bb) :
    step w m s i = { s.setPc i (.unlocking none) with out := s.out ++ bb } := by
  simp only [step, hpc, hw s.out]

theorem step_unlocking {err : Option GoError} (hpc : s.pc i = .unlocking err) :
    step w m s i = { s.setPc i (.done err) with outMutex := none } := by
  simp only [step, hpc]

theorem step_done {err : Option GoError} (hpc : s.pc i = .done err) : step w m s i = s := by
  simp only [step, hpc]

/-- Everything a step of call `i` can do: nothing (it waits for the mutex, or has
returned); take the free mutex; fail to marshal; write the header, failing or not; write
the payload; or return and release the mutex. -/
theorem step_cases (w : Writer) (s : Server n) (i : Fin n) :
    (step w m s i = s ∧
      ((s.pc i = .start ∧ s.outMutex ≠ none) ∨ ∃ err, s.pc i = .done err)) ∨
    (s.pc i = .start ∧ s.outMutex = none ∧
      step w m s i =
        { s.setPc i .locked with outMutex := some i, acquired := s.acquired ++ [i] }) ∨
    (∃ err, s.pc i = .locked ∧ m i = .error err ∧
      step w m s i = s.setPc i (.unlocking (some (.marshalFailed err)))) ∨
    (∃ bb out e, s.pc i = .locked ∧ m i = .ok bb ∧
      w s.out (sendPacket.header bb) = (out, some e) ∧
      step w m s i = { s.setPc i (.unlocking (some e)) with out }) ∨
    (∃ bb out, s.pc i = .locked ∧ m i = .ok bb ∧
      w s.out (sendPacket.header bb) = (out, none) ∧
      step w m s i = { s.setPc i (.header bb) with out }) ∨
    (∃ bb out err, s.pc i = .header bb ∧ w s.out bb = (out, err) ∧
      step w m s i = { s.setPc i (.unlocking err) with out }) ∨
    (∃ err, s.pc i = .unlocking err ∧
      step w m s i = { s.setPc i (.done err) with outMutex := none }) := by
  cases hpc : s.pc i with
  | start =>
    cases hmx : s.outMutex with
    | none => exact .inr <| .inl ⟨rfl, rfl, step_start_free hpc hmx⟩
    | some h => exact .inl ⟨step_start_held hpc hmx, .inl ⟨rfl, Option.noConfusion⟩⟩
  | locked =>
    cases hm : m i with
    | error err => exact .inr <| .inr <| .inl ⟨err, rfl, rfl, step_locked_error hpc hm⟩
    | ok bb =>
      cases hw : w s.out (sendPacket.header bb) with
      | mk out err =>
        cases err with
        | some e =>
          exact .inr <| .inr <| .inr <| .inl
            ⟨bb, out, e, rfl, rfl, hw, by simp only [step, hpc, hm, hw]⟩
        | none =>
          exact .inr <| .inr <| .inr <| .inr <| .inl
            ⟨bb, out, rfl, rfl, hw, by simp only [step, hpc, hm, hw]⟩
  | header bb =>
    cases hw : w s.out bb with
    | mk out err =>
      exact .inr <| .inr <| .inr <| .inr <| .inr <| .inl
        ⟨bb, out, err, rfl, hw, by simp only [step, hpc, hw]⟩
  | unlocking err =>
    exact .inr <| .inr <| .inr <| .inr <| .inr <| .inr ⟨err, rfl, step_unlocking hpc⟩
  | done err => exact .inl ⟨step_done hpc, .inr ⟨err, rfl⟩⟩

/-- What a call writes in all, every `Write` writing its whole buffer: nothing when
`MarshalBinary` fails. -/
def frameOf : Except GoError Bytes → Bytes
  | .ok bb => frame bb
  | .error _ => []

/-- A call that finds the mutex free and runs alone performs `sendPacket(svr.out, m)`:
four steps later it has returned what `sendPacket` returns, and the stream is what
`sendPacket` leaves. -/
theorem run_alone {bb : Bytes} (hw : WritesWhole w) (hpc : s.pc i = .start)
    (hfree : s.outMutex = none) (hm : m i = .ok bb) :
    (run w m s [i, i, i, i]).out = (sendPacket w s.out (m i)).1 ∧
      (run w m s [i, i, i, i]).pc i = .done (sendPacket w s.out (m i)).2 := by
  simp only [run, List.foldl_cons, List.foldl_nil]
  have h₁ := step_start_free (w := w) (m := m) hpc hfree
  have h₂ := step_locked_ok (s := step w m s i) hw (by rw [h₁]; simp) hm
  have h₃ := step_header (m := m) hw
    (by rw [h₂]; simp : (step w m (step w m s i) i).pc i = .header bb)
  have h₄ := step_unlocking (w := w) (m := m)
    (by rw [h₃]; simp : (step w m (step w m (step w m s i) i) i).pc i = .unlocking none)
  rw [h₄, h₃, h₂, h₁, hm, sendPacket_ok hw, frame]
  simp

/-- A lone call whose payload length is a multiple of `2^32` returns without error, and
the stream it leaves makes `recvPacket` panic. -/
theorem run_alone_wraps {w : Writer} (hw : WritesWhole w) {p : Bytes} (hp : p.length % 2 ^ 32 = 0) :
    (run w (fun _ : Fin 1 => .ok p) (initial 1) [0, 0, 0, 0]).pc 0 = .done none ∧
    recvPackets 1 (run w (fun _ : Fin 1 => .ok p) (initial 1) [0, 0, 0, 0]).out = none := by
  obtain ⟨hout, hpc⟩ := run_alone (s := initial 1) (i := 0) (m := fun _ : Fin 1 => .ok p) hw rfl
    rfl rfl
  rw [sendPacket_ok hw] at hout hpc
  refine ⟨hpc, ?_⟩
  rw [hout]
  show recvPackets 1 (frame p) = none
  rw [← List.append_nil (frame p), recvPackets, recvPacket_frame_wraps hp []]

/-- One call whose payload has `2^32` bytes, such as a `DATA` response with `2^32 - 9`
data bytes: it returns without error, but its header wraps to `[0, 0, 0, 0]`, and
`recvPacket` panics on the stream. -/
theorem sendPacket_oversized_payload :
    (run (fun out p => (out ++ p, none)) (fun _ : Fin 1 => .ok (List.replicate (2 ^ 32) 0))
        (initial 1) [0, 0, 0, 0]).pc 0 = .done none ∧
    recvPackets 1 (run (fun out p => (out ++ p, none))
        (fun _ : Fin 1 => .ok (List.replicate (2 ^ 32) 0)) (initial 1) [0, 0, 0, 0]).out = none :=
  run_alone_wraps (fun _ _ => rfl) (by rw [List.length_replicate, Nat.mod_self])

end Server

end SftpWire
