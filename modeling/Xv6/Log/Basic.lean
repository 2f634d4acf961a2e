import Xv6.Param
import Mathlib.Data.List.Nodup

/-!
# The log's in-memory record

`struct log` of `log.c` and the functions that touch only it: `begin_op`,
the bookkeeping half of `end_op`, and `log_write` with its absorption loop.
A panic of the source is an `Except.error` carrying the panic's text, and a
call that has to sleep is `none`.  The spin-lock `log.lock` is left out: the
system model runs each of these functions as one atomic step.
-/

namespace Xv6

/-- `struct log`: where the log lives on disk and the header being built. -/
structure Log where
  /-- `log.start`: block number of the header block. -/
  start : Nat
  /-- `log.size`: number of log blocks, the header block included. -/
  size : Nat
  /-- `log.outstanding`: how many file-system calls are executing. -/
  outstanding : Nat
  /-- `log.committing`: `commit()` is running. -/
  committing : Bool
  /-- `log.lh.block[0 .. log.lh.n)`, the block numbers logged so far. -/
  lh : List Nat
  deriving DecidableEq, Repr

namespace Log

/-- The absorption loop of `log_write`: scan the header for `b`, and append
`b` when the scan runs off the end. -/
def absorb : List Nat → Nat → List Nat
  | [], b => [b]
  | c :: rest, b => if c = b then c :: rest else c :: absorb rest b

theorem absorb_eq (lh : List Nat) (b : Nat) :
    absorb lh b = if b ∈ lh then lh else lh ++ [b] := by
  induction lh with
  | nil => rfl
  | cons c rest inductionHypothesis =>
      by_cases found : c = b
      · simp [absorb, found]
      · have notHead : b ≠ c := fun equal => found equal.symm
        rw [absorb, if_neg found, inductionHypothesis]
        by_cases later : b ∈ rest <;> simp [later, notHead]

@[simp] theorem mem_absorb {lh : List Nat} {b c : Nat} :
    c ∈ absorb lh b ↔ c ∈ lh ∨ c = b := by
  rw [absorb_eq]
  by_cases present : b ∈ lh
  · rw [if_pos present]
    constructor
    · exact Or.inl
    · rintro (member | rfl)
      · exact member
      · exact present
  · simp [present]

theorem nodup_absorb {lh : List Nat} (distinct : lh.Nodup) (b : Nat) :
    (absorb lh b).Nodup := by
  rw [absorb_eq]
  by_cases present : b ∈ lh
  · simpa [present] using distinct
  · simp only [present, if_false]
    exact distinct.append (List.nodup_singleton b) (by simpa using present)

theorem length_absorb_le (lh : List Nat) (b : Nat) :
    (absorb lh b).length ≤ lh.length + 1 := by
  rw [absorb_eq]
  split <;> simp

/-- A block already in the header is absorbed: the header does not change. -/
theorem absorb_of_mem {lh : List Nat} {b : Nat} (present : b ∈ lh) :
    absorb lh b = lh := by
  rw [absorb_eq, if_pos present]

/-- `begin_op`: `none` while the caller has to sleep, because a commit is
running or because this operation might exhaust the log; otherwise the
operation is admitted. -/
def beginOp (l : Log) : Option Log :=
  if l.committing then none
  else if l.lh.length + (l.outstanding + 1) * maxOpBlocks > logSize then none
  else some { l with outstanding := l.outstanding + 1 }

theorem beginOp_eq_some {l l' : Log} :
    l.beginOp = some l' ↔
      l.committing = false ∧
        l.lh.length + (l.outstanding + 1) * maxOpBlocks ≤ logSize ∧
        l' = { l with outstanding := l.outstanding + 1 } := by
  unfold beginOp
  cases committing : l.committing with
  | true => simp
  | false =>
      by_cases full : l.lh.length + (l.outstanding + 1) * maxOpBlocks > logSize
      · simp only [Bool.false_eq_true, if_false, if_pos full, reduceCtorEq,
          false_iff]
        omega
      · simp only [Bool.false_eq_true, if_false, if_neg full, Option.some.injEq,
          true_and]
        constructor
        · intro equal
          exact ⟨by omega, equal.symm⟩
        · rintro ⟨-, rfl⟩
          rfl

/-- The first half of `end_op`: the new record, and whether the caller now
has to run `commit()` because it ended the last outstanding operation. -/
def endOp (l : Log) : Except String (Log × Bool) :=
  let l := { l with outstanding := l.outstanding - 1 }
  if l.committing then .error "log.committing"
  else if l.outstanding = 0 then .ok ({ l with committing := true }, true)
  else .ok (l, false)

theorem endOp_eq_ok {l l' : Log} {doCommit : Bool} :
    l.endOp = .ok (l', doCommit) ↔
      l.committing = false ∧ doCommit = decide (l.outstanding - 1 = 0) ∧
        l' = { l with outstanding := l.outstanding - 1,
                      committing := decide (l.outstanding - 1 = 0) } := by
  unfold endOp
  cases committing : l.committing with
  | true => simp
  | false =>
      by_cases last : l.outstanding - 1 = 0
      · simp only [Bool.false_eq_true, if_false, last, if_true, Except.ok.injEq,
          Prod.mk.injEq]
        constructor
        · rintro ⟨rfl, rfl⟩
          simp
        · rintro ⟨-, rfl, rfl⟩
          simp
      · simp only [Bool.false_eq_true, if_false, last, Except.ok.injEq,
          Prod.mk.injEq]
        constructor
        · rintro ⟨rfl, rfl⟩
          simp
        · rintro ⟨-, rfl, rfl⟩
          simp

/-- `log_write`: record block `b` in the header, absorbing a block that is
already there, or panic.  The `B_DIRTY` pin it also sets belongs to the
buffer cache and is modelled there. -/
def logWrite (l : Log) (b : Nat) : Except String Log :=
  if l.lh.length ≥ logSize ∨ l.lh.length ≥ l.size - 1 then
    .error "too big a transaction"
  else if l.outstanding < 1 then
    .error "log_write outside of trans"
  else
    .ok { l with lh := absorb l.lh b }

theorem logWrite_eq_ok {l l' : Log} {b : Nat} :
    l.logWrite b = .ok l' ↔
      l.lh.length < logSize ∧ l.lh.length < l.size - 1 ∧ 1 ≤ l.outstanding ∧
        l' = { l with lh := absorb l.lh b } := by
  unfold logWrite
  by_cases full : l.lh.length ≥ logSize ∨ l.lh.length ≥ l.size - 1
  · simp only [full, if_true, reduceCtorEq, false_iff]
    omega
  · by_cases outside : l.outstanding < 1
    · simp only [full, outside, if_true, if_false, reduceCtorEq, false_iff]
      omega
    · simp only [full, outside, if_false, Except.ok.injEq]
      constructor
      · rintro rfl
        exact ⟨by omega, by omega, by omega, rfl⟩
      · rintro ⟨-, -, -, rfl⟩
        rfl

/-- The panic of `log_write` when the header is full. -/
theorem logWrite_full {l : Log} {b : Nat} (full : l.size - 1 ≤ l.lh.length) :
    l.logWrite b = .error "too big a transaction" := by
  unfold logWrite
  rw [if_pos (Or.inr full)]

end Log

end Xv6
