import Xv6.Pipe.Basic
import Xv6.Lib.Transition

/-!
# A pipe shared by any number of processes

Processes call `pipewrite`, `piperead` and `pipeclose` on one pipe and may be
killed at any time.  A writer inside `pipewrite` stores its bytes one loop
iteration at a time, so that writers and readers interleave at every byte;
a process that sleeps takes no step until the condition it sleeps on has
changed, which is the same as having no step while it holds.  Two ghost
streams record every byte `pipewrite` stored and every byte `piperead`
returned.  In every reachable state the counters are at most `PIPESIZE`
apart and the bytes returned followed by the bytes in the pipe are exactly
the bytes stored: no byte is lost, duplicated or reordered, however often the
counters have wrapped.
-/

namespace Xv6
namespace Pipe

open WrapCounter

/-- Where a process stands: outside the pipe, or inside `pipewrite` with the
bytes of `addr` it has not yet stored. -/
inductive Call where
  | idle
  | writing (rest : List UInt8)
  deriving DecidableEq

/-- The pipe, its users, and the ghost streams of stored and returned bytes. -/
structure System (ι : Type*) where
  pipe : Pipe
  calls : ι → Call
  killed : ι → Bool
  stored : List UInt8
  delivered : List UInt8

inductive Action (ι : Type*) where
  | pipewrite (q : ι) (addr : List UInt8)
  | writeNext (q : ι)
  | piperead (q : ι) (n : Nat)
  | pipeclose (writable : Bool)
  | kill (q : ι)

variable {ι : Type*} [DecidableEq ι]

/-- The next iteration of the loop of the `pipewrite` that process `q` is in:
return `n` when no byte is left, return -1, sleep, or store one byte. -/
def writeNext (s : System ι) (q : ι) : Option (System ι) :=
  match s.calls q with
  | .idle => none
  | .writing [] => some { s with calls := Function.update s.calls q .idle }
  | .writing (c :: rest) =>
      match pipewriteStep s.pipe (s.killed q) c with
      | .stored p =>
          some { s with
            pipe := p
            calls := Function.update s.calls q (.writing rest)
            stored := s.stored ++ [c] }
      | .failed => some { s with calls := Function.update s.calls q .idle }
      | .sleeps => none

def step (s : System ι) : Action ι → Option (System ι)
  | .pipewrite q addr =>
      if s.calls q = .idle then some { s with calls := Function.update s.calls q (.writing addr) }
      else none
  | .writeNext q => writeNext s q
  | .piperead q n =>
      if s.calls q = .idle then
        (Pipe.piperead s.pipe (s.killed q) n).map fun out =>
          { s with pipe := out.1, delivered := s.delivered ++ out.2.2 }
      else none
  | .pipeclose writable => some { s with pipe := Pipe.pipeclose s.pipe writable }
  | .kill q => some { s with killed := Function.update s.killed q true }

/-- A freshly allocated pipe, no process inside it and nobody killed. -/
def initial (data : Fin pipeSize → UInt8) : System ι :=
  ⟨alloc data, fun _ => .idle, fun _ => false, [], []⟩

def Reachable (data : Fin pipeSize → UInt8) (s : System ι) : Prop :=
  Machine.Reachable (· = initial data) step s

/-- The pipe holds at most `PIPESIZE` bytes, and what was returned followed by
what it holds is what was stored. -/
structure Inv (s : System ι) : Prop where
  bounded : s.pipe.Bounded
  fifo : s.delivered ++ s.pipe.contents = s.stored

omit [DecidableEq ι] in
theorem inv_initial (data : Fin pipeSize → UInt8) : Inv (initial data : System ι) := by
  refine ⟨?_, ?_⟩
  · show gap 0 0 ≤ pipeSize
    decide
  · show [] ++ (alloc data).contents = []
    rw [contents_eq_nil rfl]
    rfl

theorem inv_writeNext {s t : System ι} {q : ι} (invariant : Inv s)
    (stepped : writeNext s q = some t) : Inv t := by
  unfold writeNext at stepped
  split at stepped
  · cases stepped
  · cases stepped
    exact ⟨invariant.bounded, invariant.fifo⟩
  · rename_i c rest _
    split at stepped
    · rename_i p stored
      cases stepped
      obtain ⟨bounded, appended⟩ := pipewriteStep_stored invariant.bounded stored
      refine ⟨bounded, ?_⟩
      dsimp only
      rw [appended, ← List.append_assoc, invariant.fifo]
    · cases stepped
      exact ⟨invariant.bounded, invariant.fifo⟩
    · cases stepped

theorem inv_piperead {s t : System ι} {q : ι} {n : Nat} (invariant : Inv s)
    (stepped : step s (.piperead q n) = some t) : Inv t := by
  simp only [step] at stepped
  split_ifs at stepped
  obtain ⟨⟨p, ret, bytes⟩, read, rfl⟩ := Option.map_eq_some_iff.mp stepped
  obtain ⟨bounded, returned⟩ := piperead_contents invariant.bounded read
  refine ⟨bounded, ?_⟩
  dsimp only
  rw [List.append_assoc, returned, invariant.fifo]

/-- One step of any process keeps the invariant. -/
theorem inv_step {s t : System ι} {action : Action ι} (invariant : Inv s)
    (stepped : step s action = some t) : Inv t := by
  cases action with
  | pipewrite q addr =>
      simp only [step] at stepped
      split_ifs at stepped
      cases stepped
      exact ⟨invariant.bounded, invariant.fifo⟩
  | writeNext q => exact inv_writeNext invariant stepped
  | piperead q n => exact inv_piperead invariant stepped
  | pipeclose writable =>
      cases stepped
      refine ⟨?_, ?_⟩
      · exact (bounded_pipeclose s.pipe writable).mpr invariant.bounded
      · rw [contents_pipeclose]
        exact invariant.fifo
  | kill q =>
      cases stepped
      exact ⟨invariant.bounded, invariant.fifo⟩

theorem inv_reachable {data : Fin pipeSize → UInt8} {s : System ι} (reachable : Reachable data s) :
    Inv s := by
  refine Machine.Reachable.induction (fun s initial => ?_)
    (fun _ _ _ _ invariant stepped => inv_step invariant stepped) reachable
  rw [initial]
  exact inv_initial data

/-- FIFO integrity of a pipe under any interleaving of its users. -/
theorem pipe_fifo_integrity (data : Fin pipeSize → UInt8) :
    ∀ s : System ι, Reachable data s →
      gap s.pipe.nread s.pipe.nwrite ≤ pipeSize ∧
      s.delivered ++ s.pipe.contents = s.stored ∧
      s.delivered <+: s.stored ∧
      ∀ killed n q bytes, 0 < n → Pipe.piperead s.pipe killed n = some (q, 0, bytes) →
        s.pipe.nread = s.pipe.nwrite ∧ s.pipe.writeopen = false := by
  intro s reachable
  have invariant := inv_reachable reachable
  refine ⟨invariant.bounded, invariant.fifo, ⟨s.pipe.contents, invariant.fifo⟩, ?_⟩
  intro killed n q bytes positive read
  exact piperead_eq_zero positive read

/-- pipewrite of one byte into a pipe that is not full: the byte goes to the
slot `nwrite` names, `nwrite` advances by one, and the call returns. -/
theorem run_writeOne {s : System ι} {q : ι} (idle : s.calls q = .idle)
    (notFull : s.pipe.nwrite ≠ s.pipe.nread + pipeSize.toUInt32) (c : UInt8) :
    Machine.run step s [.pipewrite q [c], .writeNext q, .writeNext q] =
      some { s with
        pipe := { s.pipe with
          data := Function.update s.pipe.data (slot s.pipe.nwrite) c, nwrite := s.pipe.nwrite + 1 }
        stored := s.stored ++ [c] } := by
  let filled : Pipe :=
    { s.pipe with data := Function.update s.pipe.data (slot s.pipe.nwrite) c, nwrite := s.pipe.nwrite + 1 }
  let entered : System ι := { s with calls := Function.update s.calls q (.writing [c]) }
  let written : System ι :=
    { s with
      pipe := filled
      calls := Function.update s.calls q (.writing [])
      stored := s.stored ++ [c] }
  have enter : step s (.pipewrite q [c]) = some entered := by
    simp only [step, idle, if_true]
    rfl
  have store : step entered (.writeNext q) = some written := by
    simp only [step, writeNext, entered, Function.update_self, pipewriteStep_of_not_full _ c notFull,
      Function.update_idem]
    rfl
  have finish : step written (.writeNext q) = some { s with pipe := filled, stored := s.stored ++ [c] } := by
    simp only [step, writeNext, written, Function.update_self, Function.update_idem]
    rw [← idle, Function.update_eq_self]
  rw [Machine.run_cons, enter, Option.bind_some, Machine.run_cons, store, Option.bind_some,
    Machine.run_cons, finish, Option.bind_some, Machine.run_nil]

/-- Writing one byte to an empty pipe and reading it back advances both
counters by one and hands the byte over. -/
theorem run_roundTrip {s : System ι} {q : ι} (idle : s.calls q = .idle)
    (empty : s.pipe.nread = s.pipe.nwrite) (c : UInt8) :
    ∃ t, Machine.run step s [.pipewrite q [c], .writeNext q, .writeNext q, .piperead q 1] = some t ∧
      t.calls = s.calls ∧ t.pipe.nread = s.pipe.nread + 1 ∧ t.pipe.nwrite = s.pipe.nwrite + 1 ∧
      t.stored = s.stored ++ [c] ∧ t.delivered = s.delivered ++ [c] := by
  let filled : Pipe :=
    { s.pipe with data := Function.update s.pipe.data (slot s.pipe.nwrite) c, nwrite := s.pipe.nwrite + 1 }
  let returned : System ι := { s with pipe := filled, stored := s.stored ++ [c] }
  have nonempty : filled.nread ≠ filled.nwrite := by
    show s.pipe.nread ≠ s.pipe.nwrite + 1
    rw [empty]
    exact ne_add_one _
  have handedOver : filled.data (slot filled.nread) = c := by
    show Function.update s.pipe.data (slot s.pipe.nwrite) c (slot s.pipe.nread) = c
    rw [empty, Function.update_self]
  have read : step returned (.piperead q 1) =
      some { returned with
        pipe := { filled with nread := filled.nread + 1 }
        delivered := s.delivered ++ [c] } := by
    simp only [step, returned, idle, if_true, piperead_of_nonempty _ 1 nonempty, copyOut_one nonempty,
      Option.map_some, handedOver]
  refine ⟨{ returned with
      pipe := { filled with nread := filled.nread + 1 }
      delivered := s.delivered ++ [c] }, ?_, rfl, rfl, rfl, rfl, rfl⟩
  have split : [.pipewrite q [c], .writeNext q, .writeNext q, .piperead q 1] =
      [.pipewrite q [c], .writeNext q, .writeNext q] ++ [(.piperead q 1 : Action ι)] := rfl
  rw [split, Machine.run_append, run_writeOne idle (not_full_of_empty empty) c, Option.bind_some,
    Machine.run_cons, read, Option.bind_some, Machine.run_nil]

/-- The counters take every value in reachable states, `k` bytes having gone
through the pipe: they wrap past `2^32`. -/
theorem reachable_counters (data : Fin pipeSize → UInt8) (q : ι) (k : Nat) :
    ∃ s : System ι, Reachable data s ∧ s.calls = (fun _ => .idle) ∧
      s.pipe.nread = UInt32.ofNat k ∧ s.pipe.nwrite = UInt32.ofNat k ∧
      s.stored = List.replicate k 0 ∧ s.delivered = List.replicate k 0 := by
  induction k with
  | zero => exact ⟨initial data, Machine.Reachable.initial rfl, rfl, rfl, rfl, rfl, rfl⟩
  | succ k inductionHypothesis =>
      obtain ⟨s, reachable, idle, nread, nwrite, stored, delivered⟩ := inductionHypothesis
      obtain ⟨t, ran, calls, tRead, tWrite, tStored, tDelivered⟩ :=
        run_roundTrip (congrFun idle q) (nread.trans nwrite.symm) 0
      refine ⟨t, Machine.Reachable.run reachable ran, calls.trans idle, ?_, ?_, ?_, ?_⟩
      · rw [tRead, nread, UInt32.ofNat_add]
        rfl
      · rw [tWrite, nwrite, UInt32.ofNat_add]
        rfl
      · rw [tStored, stored, List.replicate_succ']
      · rw [tDelivered, delivered, List.replicate_succ']

/-- FIFO integrity across the wrap of the counters: after `2^32 - 1` bytes
have gone through the pipe, two more bytes written carry `nwrite` past
`2^32`, and the pipe holds exactly those two, in the order written. -/
theorem pipe_fifo_integrity_across_wrap :
    ∃ s : System (Fin 1), Reachable (fun _ => 0) s ∧ s.pipe.nread = 0xFFFFFFFF ∧ s.pipe.nwrite = 1 ∧
      gap s.pipe.nread s.pipe.nwrite ≤ pipeSize ∧ s.pipe.contents = [1, 2] := by
  obtain ⟨s₀, reachable, idle, nread, nwrite, stored, delivered⟩ :=
    reachable_counters (fun _ => 0) (0 : Fin 1) (2 ^ 32 - 1)
  have first := run_writeOne (congrFun idle 0) (by rw [nread, nwrite]; decide) 1
  have second := run_writeOne (s := { s₀ with
      pipe := { s₀.pipe with
        data := Function.update s₀.pipe.data (slot s₀.pipe.nwrite) 1, nwrite := s₀.pipe.nwrite + 1 }
      stored := s₀.stored ++ [1] }) (congrFun idle 0) (by dsimp only; rw [nread, nwrite]; decide) 2
  have ran := Machine.run_append step s₀ [.pipewrite 0 [1], .writeNext 0, .writeNext 0]
    [.pipewrite 0 [2], .writeNext 0, .writeNext 0]
  rw [first, Option.bind_some, second] at ran
  obtain ⟨bounded, fifo, -⟩ :=
    pipe_fifo_integrity (fun _ => 0) _ (Machine.Reachable.run reachable ran)
  dsimp only at bounded fifo ⊢
  rw [stored, delivered, List.append_assoc, List.singleton_append] at fifo
  refine ⟨_, Machine.Reachable.run reachable ran, nread, ?_, bounded, List.append_cancel_left fifo⟩
  show s₀.pipe.nwrite + 1 + 1 = 1
  rw [nwrite]
  decide

end Pipe
end Xv6
