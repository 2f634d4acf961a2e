import Mathlib.Logic.Function.Basic
import Mathlib.Tactic.SplitIfs
import Xv6.Param
import Xv6.Lib.WrapCounter

/-!
# Pipes

A pipe is a ring of `PIPESIZE` bytes driven by two free-running 32-bit
counters: `nwrite` counts the bytes ever written and `nread` the bytes ever
read, so the pipe holds `nwrite - nread` bytes, modulo `2^32`, in the slots
from `nread % PIPESIZE` on.  Each operation below is what `pipe.c` does while
it holds `p->lock`; `pipewrite` gives up the lock only when it sleeps, between
two bytes, so its loop is modelled one byte at a time.  The main facts are
how the bytes in the ring change: storing a byte appends it, and the copy loop
of `piperead` removes a prefix and returns it.
-/

namespace Xv6

/-- The state of struct pipe; its spinlock is the atomicity of each step. -/
structure Pipe where
  data : Fin pipeSize → UInt8
  nread : UInt32
  nwrite : UInt32
  readopen : Bool
  writeopen : Bool

namespace Pipe

open WrapCounter

theorem pipeSize_dvd : pipeSize ∣ 2 ^ 32 := by decide

/-- The slot of position `i` of the byte stream. -/
def slotAt (i : Nat) : Fin pipeSize := ⟨i % pipeSize, Nat.mod_lt _ (by decide)⟩

/-- The slot a counter names, `c % PIPESIZE`. -/
def slot (c : UInt32) : Fin pipeSize := slotAt c.toNat

/-- The pipe `pipealloc` sets up, with whatever bytes its page held. -/
def alloc (data : Fin pipeSize → UInt8) : Pipe :=
  ⟨data, 0, 0, true, true⟩

/-- The bytes in the pipe, oldest first. -/
def contents (p : Pipe) : List UInt8 :=
  window (fun i => p.data (slotAt i)) p.nread.toNat (gap p.nread p.nwrite)

/-- No more than `PIPESIZE` bytes are in the pipe. -/
def Bounded (p : Pipe) : Prop := gap p.nread p.nwrite ≤ pipeSize

instance : DecidablePred Bounded := fun p =>
  inferInstanceAs (Decidable (gap p.nread p.nwrite ≤ pipeSize))

/-- pipeclose: mark the write end or the read end closed. -/
def pipeclose (p : Pipe) (writable : Bool) : Pipe :=
  if writable then { p with writeopen := false } else { p with readopen := false }

/-- What one iteration of pipewrite's loop does with the next byte. -/
inductive WriteStep where
  | stored (p : Pipe)
  | failed
  | sleeps

/-- One iteration of pipewrite's loop: while the pipe is full it returns -1
if the read end is closed or the caller is killed and sleeps otherwise;
then it stores the byte at `nwrite++ % PIPESIZE`. -/
def pipewriteStep (p : Pipe) (killed : Bool) (c : UInt8) : WriteStep :=
  if p.nwrite = p.nread + pipeSize.toUInt32 then
    if p.readopen = false ∨ killed = true then .failed else .sleeps
  else .stored { p with data := Function.update p.data (slot p.nwrite) c, nwrite := p.nwrite + 1 }

/-- The copy loop of piperead: up to `n` bytes from `nread++ % PIPESIZE`,
stopping when the pipe is empty. -/
def copyOut (p : Pipe) : Nat → Pipe × List UInt8
  | 0 => (p, [])
  | n + 1 =>
      if p.nread = p.nwrite then (p, [])
      else
        let rest := copyOut { p with nread := p.nread + 1 } n
        (rest.1, p.data (slot p.nread) :: rest.2)

/-- piperead: `none` while it sleeps on an empty pipe whose write end is
open; otherwise the pipe, the value returned and the bytes copied to `addr`.
A killed caller that would sleep returns -1. -/
def piperead (p : Pipe) (killed : Bool) (n : Nat) : Option (Pipe × Int × List UInt8) :=
  if p.nread = p.nwrite ∧ p.writeopen = true then
    if killed then some (p, -1, []) else none
  else
    let out := copyOut p n
    some (out.1, out.2.length, out.2)

theorem toNat_pipeSize : pipeSize.toUInt32.toNat = pipeSize := by decide

theorem gap_pos {p : Pipe} (nonempty : p.nread ≠ p.nwrite) : 0 < gap p.nread p.nwrite :=
  Nat.pos_of_ne_zero fun empty => nonempty (gap_eq_zero_iff.mp empty)

theorem full_iff {p : Pipe} :
    p.nwrite = p.nread + pipeSize.toUInt32 ↔ gap p.nread p.nwrite = pipeSize := by
  rw [eq_add_iff_gap, toNat_pipeSize]

theorem slotAt_mod (i : Nat) : slotAt (i % pipeSize) = slotAt i := by
  simp only [slotAt, Nat.mod_mod]

theorem contents_eq_nil {p : Pipe} (empty : p.nread = p.nwrite) : p.contents = [] := by
  have zero : gap p.nread p.nwrite = 0 := gap_eq_zero_iff.mpr empty
  rw [contents, zero]
  rfl

/-- Reading the oldest byte leaves the rest of the pipe, in order. -/
theorem contents_advance {p : Pipe} (nonempty : p.nread ≠ p.nwrite) :
    p.contents = p.data (slot p.nread) :: { p with nread := p.nread + 1 }.contents := by
  have shrinks := gap_succ_front (gap_pos nonempty)
  obtain ⟨count, hcount⟩ :=
    Nat.exists_eq_add_one_of_ne_zero (Nat.pos_iff_ne_zero.mp (gap_pos nonempty))
  rw [hcount, Nat.add_sub_cancel] at shrinks
  simp only [contents]
  rw [hcount, shrinks, window_succ_front]
  congr 1
  exact window_periodic (fun i => congrArg p.data (slotAt_mod i)) count
    (slot_succ pipeSize_dvd p.nread).symm

/-- Storing a byte in a pipe that is not full appends it. -/
theorem contents_store {p : Pipe} (bounded : p.Bounded)
    (notFull : gap p.nread p.nwrite ≠ pipeSize) (c : UInt8) :
    { p with data := Function.update p.data (slot p.nwrite) c, nwrite := p.nwrite + 1 }.contents =
      p.contents ++ [c] := by
  have room : gap p.nread p.nwrite < pipeSize := Nat.lt_of_le_of_ne bounded notFull
  have grows : gap p.nread (p.nwrite + 1) = gap p.nread p.nwrite + 1 :=
    gap_succ_back (by simp only [pipeSize_eq] at room; omega)
  have atBack : slot p.nwrite = slotAt (p.nread.toNat + gap p.nread p.nwrite) :=
    Fin.ext (slot_back pipeSize_dvd p.nread p.nwrite)
  simp only [contents, grows, window_succ]
  congr 1
  · apply window_congr
    intro k below
    apply Function.update_of_ne
    rw [atBack]
    intro same
    exact slot_ne below room (congrArg Fin.val same)
  · rw [← atBack, Function.update_self]

theorem bounded_advance {p : Pipe} (bounded : p.Bounded) (nonempty : p.nread ≠ p.nwrite) :
    ({ p with nread := p.nread + 1 } : Pipe).Bounded := by
  have shrinks := gap_succ_front (gap_pos nonempty)
  unfold Bounded at bounded ⊢
  dsimp only
  omega

@[simp] theorem contents_pipeclose (p : Pipe) (writable : Bool) :
    (pipeclose p writable).contents = p.contents := by
  cases writable <;> rfl

@[simp] theorem bounded_pipeclose (p : Pipe) (writable : Bool) :
    (pipeclose p writable).Bounded ↔ p.Bounded := by
  cases writable <;> rfl

theorem not_full_of_empty {p : Pipe} (empty : p.nread = p.nwrite) :
    p.nwrite ≠ p.nread + pipeSize.toUInt32 := by
  rw [Ne, full_iff, empty, gap_eq_zero_iff.mpr rfl]
  decide

theorem pipewriteStep_of_not_full {p : Pipe} (killed : Bool) (c : UInt8)
    (notFull : p.nwrite ≠ p.nread + pipeSize.toUInt32) :
    pipewriteStep p killed c =
      .stored { p with data := Function.update p.data (slot p.nwrite) c, nwrite := p.nwrite + 1 } := by
  simp only [pipewriteStep, if_neg notFull]

theorem copyOut_one {p : Pipe} (nonempty : p.nread ≠ p.nwrite) :
    copyOut p 1 = ({ p with nread := p.nread + 1 }, [p.data (slot p.nread)]) := by
  simp only [copyOut, if_neg nonempty]

theorem piperead_of_nonempty {p : Pipe} (killed : Bool) (n : Nat) (nonempty : p.nread ≠ p.nwrite) :
    piperead p killed n =
      some ((copyOut p n).1, ((copyOut p n).2.length : Int), (copyOut p n).2) := by
  simp only [piperead, nonempty, false_and, if_false]

/-- A byte pipewrite stores is appended to the pipe, which stays bounded. -/
theorem pipewriteStep_stored {p q : Pipe} {killed : Bool} {c : UInt8} (bounded : p.Bounded)
    (stored : pipewriteStep p killed c = .stored q) : q.Bounded ∧ q.contents = p.contents ++ [c] := by
  unfold pipewriteStep at stored
  split_ifs at stored with full
  cases stored
  have notFull : gap p.nread p.nwrite ≠ pipeSize := fun equal => full (full_iff.mpr equal)
  have room : gap p.nread p.nwrite < pipeSize := Nat.lt_of_le_of_ne bounded notFull
  have grows : gap p.nread (p.nwrite + 1) = gap p.nread p.nwrite + 1 :=
    gap_succ_back (by simp only [pipeSize_eq] at room; omega)
  refine ⟨?_, contents_store bounded notFull c⟩
  unfold Bounded
  dsimp only
  omega

/-- The copy loop returns the oldest bytes and leaves the others in order. -/
theorem copyOut_contents (n : Nat) :
    ∀ p : Pipe, p.Bounded →
      (copyOut p n).2 ++ (copyOut p n).1.contents = p.contents ∧ (copyOut p n).1.Bounded := by
  induction n with
  | zero =>
      intro p bounded
      exact ⟨rfl, bounded⟩
  | succ n inductionHypothesis =>
      intro p bounded
      by_cases empty : p.nread = p.nwrite
      · simp only [copyOut, if_pos empty]
        exact ⟨rfl, bounded⟩
      · obtain ⟨rest, restBounded⟩ := inductionHypothesis _ (bounded_advance bounded empty)
        simp only [copyOut, if_neg empty]
        refine ⟨?_, restBounded⟩
        rw [List.cons_append, rest, ← contents_advance empty]

/-- The copy loop copies as many bytes as were asked for or as the pipe holds. -/
theorem length_copyOut (n : Nat) :
    ∀ p : Pipe, (copyOut p n).2.length = min n (gap p.nread p.nwrite) := by
  induction n with
  | zero =>
      intro p
      simp [copyOut]
  | succ n inductionHypothesis =>
      intro p
      by_cases empty : p.nread = p.nwrite
      · simp only [copyOut, if_pos empty, List.length_nil, gap_eq_zero_iff.mpr empty]
        rfl
      · have shrinks := gap_succ_front (gap_pos empty)
        have positive := gap_pos empty
        simp only [copyOut, if_neg empty, List.length_cons, inductionHypothesis]
        omega

/-- What piperead returns comes off the front of the pipe, in order. -/
theorem piperead_contents {p q : Pipe} {killed : Bool} {n : Nat} {ret : Int} {bytes : List UInt8}
    (bounded : p.Bounded) (read : piperead p killed n = some (q, ret, bytes)) :
    q.Bounded ∧ bytes ++ q.contents = p.contents := by
  unfold piperead at read
  split_ifs at read with waits
  · cases read
    exact ⟨bounded, rfl⟩
  · cases read
    obtain ⟨copied, copiedBounded⟩ := copyOut_contents n p bounded
    exact ⟨copiedBounded, copied⟩

/-- piperead asked for at least one byte returns 0 only on an empty pipe
whose write end is closed. -/
theorem piperead_eq_zero {p q : Pipe} {killed : Bool} {n : Nat} {bytes : List UInt8}
    (positive : 0 < n) (read : piperead p killed n = some (q, 0, bytes)) :
    p.nread = p.nwrite ∧ p.writeopen = false := by
  unfold piperead at read
  split_ifs at read with waits
  · cases read
  · simp only [Option.some.injEq, Prod.mk.injEq] at read
    have none : min n (gap p.nread p.nwrite) = 0 := by
      rw [← length_copyOut]
      exact_mod_cast read.2.1
    have empty : p.nread = p.nwrite := gap_eq_zero_iff.mp (by omega)
    refine ⟨empty, ?_⟩
    simpa [empty] using waits

end Pipe

end Xv6
