import Xv6.Log.Basic
import Xv6.Lib.Transition
import Xv6.Lib.Overwrite

/-!
# The log over a disk that can crash

`commit`, `write_log`, `write_head`, `install_trans`, `read_head`,
`recover_from_log` and `initlog`, run one block write at a time over a disk,
beneath processes that bracket their updates with `begin_op` and `end_op` and
change blocks only through `log_write`.  A crash can strike between any two
steps, recovery included: the disk survives it, memory does not.

The buffer cache is a total map `cache` from block numbers to the contents
`bread` returns.  That it never drops a block pinned by `log_write` is a
property of `bio.c`, proved with the buffer-cache model.  The on-disk header
block is kept typed, as the list of block numbers `write_head` stores.

The state also carries ghost fields the code does not have: the transactions
whose header write reached the disk, in commit order, the writes of the
transaction being built, and the number the next operation will get.
-/

namespace Xv6
namespace Log

/-- The fields of `struct superblock` that `initlog` reads. -/
structure Superblock where
  /-- `sb.logstart`: block number of the first log block, the header. -/
  logstart : Nat
  /-- `sb.nlog`: number of log blocks, the header included. -/
  nlog : Nat

/-- A block outside the on-disk log: a home location. -/
def Superblock.Home (sb : Superblock) (b : Nat) : Prop :=
  b < sb.logstart ∨ sb.logstart + sb.nlog ≤ b

instance (sb : Superblock) (b : Nat) : Decidable (sb.Home b) :=
  inferInstanceAs (Decidable (b < sb.logstart ∨ sb.logstart + sb.nlog ≤ b))

/-- A log block is never a home location. -/
theorem Superblock.not_home_log {sb : Superblock} {tail : Nat}
    (fits : tail + 1 < sb.nlog) : ¬ sb.Home (sb.logstart + tail + 1) := by
  unfold Superblock.Home
  omega

/-- A write made by a file-system operation through `log_write` (ghost). -/
structure Write (α : Type*) where
  /-- Number of the operation that made it. -/
  op : Nat
  /-- The block written. -/
  block : Nat
  /-- Its new contents. -/
  value : α

/-- A transaction's writes as `(block, contents)` pairs, in order. -/
def Write.pairs {α : Type*} (writes : List (Write α)) : List (Nat × α) :=
  writes.map fun write => (write.block, write.value)

@[simp] theorem Write.pairs_nil {α : Type*} : Write.pairs ([] : List (Write α)) = [] := rfl

@[simp] theorem Write.pairs_concat {α : Type*} (writes : List (Write α)) (write : Write α) :
    Write.pairs (writes ++ [write]) = Write.pairs writes ++ [(write.block, write.value)] := by
  simp [Write.pairs]

@[simp] theorem Write.map_fst_pairs {α : Type*} (writes : List (Write α)) :
    (Write.pairs writes).map Prod.fst = writes.map Write.block := by
  simp [Write.pairs]

/-- Where a process stands: outside any operation, or inside the operation
with the given number. -/
inductive Activity
  | idle
  | inOp (op : Nat)
  deriving DecidableEq, Repr

/-- An activity that counts in `log.outstanding`. -/
def Activity.Active : Activity → Prop
  | .idle => False
  | .inOp _ => True

instance : DecidablePred Activity.Active
  | .idle => isFalse id
  | .inOp _ => isTrue trivial

/-- The control point of recovery or of a commit. -/
inductive Phase
  /-- The machine has (re)started; `initlog` has not run. -/
  | boot
  /-- No commit and no recovery is in progress. -/
  | running
  /-- `write_log` is about to copy header entry `tail` to its log block. -/
  | writeLog (tail : Nat)
  /-- `commit` is about to call `write_head`: the commit point. -/
  | writeHead
  /-- `install_trans` is about to install header entry `tail`. -/
  | install (recovering : Bool) (tail : Nat)
  /-- `log.lh.n = 0` and the `write_head` that erases the transaction. -/
  | clear (recovering : Bool)
  deriving DecidableEq, Repr

/-- The log layer with the disk below it and the processes above it. -/
structure System (ι α : Type*) where
  /-- Contents of every block on disk, log blocks included. -/
  disk : Nat → α
  /-- The header block on disk: `hb->block[0 .. hb->n)`. -/
  head : List Nat
  /-- What `bread` returns for every block. -/
  cache : Nat → α
  /-- The in-memory `struct log`. -/
  log : Log
  /-- Where commit or recovery stands. -/
  phase : Phase
  /-- Each process's activity. -/
  procs : ι → Activity
  /-- Ghost: the transactions whose header write reached the disk. -/
  committed : List (List (Write α))
  /-- Ghost: the writes of the transaction being built. -/
  pending : List (Write α)
  /-- Ghost: the number of the next operation to begin. -/
  nextOp : Nat

/-- What a process or the machine can do next. -/
inductive Action (ι α : Type*)
  /-- A process calls `begin_op`. -/
  | beginOp (p : ι)
  /-- A process changes block `b` to `value` and calls `log_write`. -/
  | logWrite (p : ι) (b : Nat) (value : α)
  /-- A process calls `end_op`. -/
  | endOp (p : ι)
  /-- The next step of recovery or of the running commit. -/
  | advance
  /-- Power fails. -/
  | crash

variable {ι α : Type*} [DecidableEq ι]

/-- `commit()` as `end_op` calls it: with an empty header it returns at once
and `end_op` clears `log.committing`; otherwise `write_log` starts. -/
def commit (s : System ι α) : System ι α :=
  if 0 < s.log.lh.length then { s with phase := .writeLog 0 }
  else { s with log := { s.log with committing := false } }

/-- The next step of `initlog` and `recover_from_log`, or of `commit`: each
writes at most one block. -/
def advance (sb : Superblock) (s : System ι α) : Option (System ι α) :=
  match s.phase with
  | .boot =>
      -- `initlog` reads the superblock, `read_head` the header block
      some { s with
        log := { start := sb.logstart, size := sb.nlog, outstanding := 0,
                 committing := false, lh := s.head },
        phase := .install true 0 }
  | .running => none
  | .writeLog tail =>
      match s.log.lh[tail]? with
      | some b =>
          -- one iteration of `write_log`: copy the cached block to its log block
          let logBlock := s.log.start + tail + 1
          some { s with
            cache := Function.update s.cache logBlock (s.cache b),
            disk := Function.update s.disk logBlock (s.cache b),
            phase := .writeLog (tail + 1) }
      | none => some { s with phase := .writeHead }
  | .writeHead =>
      -- `write_head`: the transaction commits
      some { s with
        head := s.log.lh,
        phase := .install false 0,
        committed := s.committed ++ [s.pending],
        pending := [] }
  | .install recovering tail =>
      match s.log.lh[tail]? with
      | some b =>
          -- one iteration of `install_trans`: copy the log block home
          let logBlock := s.log.start + tail + 1
          some { s with
            cache := Function.update s.cache b (s.cache logBlock),
            disk := Function.update s.disk b (s.cache logBlock),
            phase := .install recovering (tail + 1) }
      | none => some { s with phase := .clear recovering }
  | .clear _ =>
      some { s with
        log := { s.log with lh := [], committing := false },
        head := [],
        phase := .running }

/-- A crash: memory is lost, so the next `bread` of any block reads the disk. -/
def crash (s : System ι α) : System ι α :=
  { s with cache := s.disk, phase := .boot, procs := fun _ => .idle, pending := [] }

/-- One step of the system.  Processes act only while the machine runs;
`log_write` is called only on home blocks, inside an operation. -/
def step (sb : Superblock) (s : System ι α) : Action ι α → Option (System ι α)
  | .beginOp p =>
      if s.phase = .running ∧ s.procs p = .idle then
        s.log.beginOp.map fun l =>
          { s with
            log := l,
            procs := Function.update s.procs p (.inOp s.nextOp),
            nextOp := s.nextOp + 1 }
      else none
  | .logWrite p b value =>
      match s.procs p, s.log.logWrite b with
      | .inOp op, .ok l =>
          if sb.Home b then
            some { s with
              log := l,
              cache := Function.update s.cache b value,
              pending := s.pending ++ [⟨op, b, value⟩] }
          else none
      | _, _ => none
  | .endOp p =>
      match s.procs p, s.log.endOp with
      | .inOp _, .ok (l, doCommit) =>
          let ended := { s with log := l, procs := Function.update s.procs p .idle }
          some (if doCommit then commit ended else ended)
      | _, _ => none
  | .advance => advance sb s
  | .crash => some (crash s)

/-- The machine just before its first boot, over the image `mkfs` wrote: the
header block holds `n = 0`. -/
def initial (sb : Superblock) (image : Nat → α) : System ι α where
  disk := image
  head := []
  cache := image
  log := { start := sb.logstart, size := sb.nlog, outstanding := 0,
           committing := false, lh := [] }
  phase := .boot
  procs := fun _ => .idle
  committed := []
  pending := []
  nextOp := 0

/-- States reachable from the initial image by any interleaving of steps. -/
def Reachable (sb : Superblock) (image : Nat → α) (s : System ι α) : Prop :=
  Machine.Reachable (· = initial sb image) (step sb) s

/-- The home contents produced by the committed transactions, in commit order. -/
def view (image : Nat → α) (s : System ι α) : Nat → α :=
  Overwrite.applyAll (s.committed.map Write.pairs) image

/-- The contents memory should show: the committed view with the writes of
the transaction being built on top. -/
def pendingView (image : Nat → α) (s : System ι α) : Nat → α :=
  Overwrite.apply (Write.pairs s.pending) (view image s)

/-! ## What one step can do -/

theorem step_beginOp {sb : Superblock} {s t : System ι α} {p : ι}
    (stepped : step sb s (.beginOp p) = some t) :
    s.phase = .running ∧ s.procs p = .idle ∧ s.log.committing = false ∧
      s.log.lh.length + (s.log.outstanding + 1) * maxOpBlocks ≤ logSize ∧
      t = { s with
        log := { s.log with outstanding := s.log.outstanding + 1 },
        procs := Function.update s.procs p (.inOp s.nextOp),
        nextOp := s.nextOp + 1 } := by
  simp only [step] at stepped
  split at stepped
  · rename_i enabled
    obtain ⟨l, admitted, rfl⟩ := Option.map_eq_some_iff.mp stepped
    obtain ⟨notCommitting, room, rfl⟩ := Log.beginOp_eq_some.mp admitted
    exact ⟨enabled.1, enabled.2, notCommitting, room, rfl⟩
  · cases stepped

theorem step_logWrite {sb : Superblock} {s t : System ι α} {p : ι} {b : Nat} {value : α}
    (stepped : step sb s (.logWrite p b value) = some t) :
    ∃ op, s.procs p = .inOp op ∧ sb.Home b ∧
      s.log.lh.length < logSize ∧ s.log.lh.length < s.log.size - 1 ∧
      1 ≤ s.log.outstanding ∧
      t = { s with
        log := { s.log with lh := Log.absorb s.log.lh b },
        cache := Function.update s.cache b value,
        pending := s.pending ++ [⟨op, b, value⟩] } := by
  simp only [step] at stepped
  split at stepped
  · rename_i op l active written
    split at stepped
    · rename_i home
      cases stepped
      obtain ⟨short, fits, inside, rfl⟩ := Log.logWrite_eq_ok.mp written
      exact ⟨op, active, home, short, fits, inside, rfl⟩
    · cases stepped
  · cases stepped

theorem step_endOp {sb : Superblock} {s t : System ι α} {p : ι}
    (stepped : step sb s (.endOp p) = some t) :
    ∃ op, s.procs p = .inOp op ∧ s.log.committing = false ∧
      let ended := { s with
        log := { s.log with outstanding := s.log.outstanding - 1,
                            committing := decide (s.log.outstanding - 1 = 0) },
        procs := Function.update s.procs p .idle }
      t = if s.log.outstanding - 1 = 0 then commit ended else ended := by
  simp only [step] at stepped
  split at stepped
  · rename_i op l doCommit active ended
    cases stepped
    obtain ⟨notCommitting, rfl, rfl⟩ := Log.endOp_eq_ok.mp ended
    refine ⟨op, active, notCommitting, ?_⟩
    by_cases last : s.log.outstanding - 1 = 0 <;> simp [last]
  · cases stepped

end Log

end Xv6
