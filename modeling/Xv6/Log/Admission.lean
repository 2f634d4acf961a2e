import Xv6.Log.Crash

/-!
# Admission to the log

`begin_op` admits an operation while `lh.n + (outstanding + 1) * MAXOPBLOCKS`
stays within `LOGSIZE`, so with an empty header it admits three operations
of up to `MAXOPBLOCKS` blocks each.  `mkfs` gives the log `nlog = LOGSIZE`
blocks, the header among them, and `log_write` panics once `lh.n` reaches
`log.size - 1`.  So the reservation counts `LOGSIZE` data slots where the
disk has `LOGSIZE - 1`: the run below admits three operations, logs 29
distinct blocks, ten at most per operation, and the next `log_write`, of any
block, panics.  What the header does keep is its distinctness.
-/

namespace Xv6
namespace Log

/-- The log fields of the superblock `mkfs` writes: `logstart = 2` and
`nlog = LOGSIZE`. -/
def mkfsLog : Superblock := ⟨2, logSize⟩

/-- The entries of the in-memory header are pairwise distinct whenever it
describes the log, that is, outside `boot`. -/
theorem lh_nodup_of_reachable {ι α : Type*} [Fintype ι] [DecidableEq ι]
    {sb : Superblock} {image : Nat → α} {s : System ι α} (reachable : Reachable sb image s)
    (booted : s.phase ≠ .boot) : s.log.lh.Nodup := by
  have mem := (inv_reachable reachable).mem
  unfold MemInv at mem
  split at mem
  · contradiction
  · exact mem.2.2.1.lh_nodup
  · exact mem.2.2.1.lh_nodup
  · exact mem.2.2.1.lh_nodup
  · exact mem.2.1.lh_nodup
  · exact mem.2.1.lh_nodup

/-- Boot over an empty log, admit three operations, and let them log 10, 10
and 9 distinct blocks. -/
def overfullRun : List (Action (Fin 3) Nat) :=
  [.advance, .advance, .advance, .beginOp 0, .beginOp 1, .beginOp 2] ++
    (List.range 10).map (fun i => .logWrite 0 (100 + i) 1) ++
    (List.range 10).map (fun i => .logWrite 1 (110 + i) 1) ++
    (List.range 9).map (fun i => .logWrite 2 (120 + i) 1)

/-- The failing input: after `overfullRun` three operations are admitted and
none has logged more than `MAXOPBLOCKS` distinct blocks, yet the header holds
`log.size - 1` entries and `log_write` of any block panics. -/
theorem overfullRun_logWrite_panics :
    ∃ s : System (Fin 3) Nat,
      Machine.run (step mkfsLog) (initial mkfsLog fun _ => 0) overfullRun = some s ∧
        Reachable mkfsLog (fun _ => 0) s ∧ s.log.outstanding = 3 ∧
        (∀ op, ((s.pending.filter fun w => w.op = op).map Write.block).dedup.length ≤
          maxOpBlocks) ∧
        s.log.lh.length = s.log.size - 1 ∧
        ∀ b, s.log.logWrite b = .error "too big a transaction" := by
  have logs : (Machine.run (step mkfsLog) (initial mkfsLog fun _ => 0) overfullRun).map
      (fun s => s.log) = some ⟨2, 30, 3, false, (List.range 29).map (100 + ·)⟩ := by
    decide
  have writes : (Machine.run (step mkfsLog) (initial mkfsLog fun _ => 0) overfullRun).map
      (fun s => s.pending.map fun w => (w.op, w.block)) =
        some ((List.range 29).map fun i => (i / 10, 100 + i)) := by
    decide
  obtain ⟨s, ran⟩ : ∃ s, Machine.run (step mkfsLog) (initial mkfsLog fun _ => 0)
      overfullRun = some s := Option.isSome_iff_exists.mp (by decide)
  rw [ran, Option.map_some, Option.some.injEq] at logs writes
  have perOp : ∀ op, ((s.pending.filter fun w => w.op = op).map Write.block) =
      (((s.pending.map fun w => (w.op, w.block)).filter fun w => w.1 = op).map Prod.snd) := by
    intro op
    simp [List.filter_map, Function.comp_def]
  refine ⟨s, ran, Machine.Reachable.run (Machine.Reachable.initial rfl) ran, by rw [logs], ?_,
    by rw [logs]; rfl, fun b => Log.logWrite_full (by rw [logs]; decide)⟩
  intro op
  rw [perOp, writes]
  by_cases small : op < 3
  · obtain rfl | rfl | rfl : op = 0 ∨ op = 1 ∨ op = 2 := by omega
    all_goals decide
  · have none : ((List.range 29).map fun i => (i / 10, 100 + i)).filter
        (fun w => decide (w.1 = op)) = [] := by
      rw [List.filter_eq_nil_iff]
      intro w member
      simp only [List.mem_map, List.mem_range] at member
      obtain ⟨i, below, rfl⟩ := member
      simp only [decide_eq_true_eq]
      omega
    rw [none]
    decide

/-- After `overfullRun` the log is running and its header's 29 entries are
distinct. -/
theorem lh_nodup_after_overfullRun :
    ∃ s : System (Fin 3) Nat,
      Machine.run (step mkfsLog) (initial mkfsLog fun _ => 0) overfullRun = some s ∧
        Reachable mkfsLog (fun _ => 0) s ∧ s.phase ≠ .boot ∧ s.log.lh.Nodup := by
  obtain ⟨s, ran⟩ : ∃ s, Machine.run (step mkfsLog) (initial mkfsLog fun _ => 0)
      overfullRun = some s := Option.isSome_iff_exists.mp (by decide)
  have reachable : Reachable mkfsLog (fun _ => 0) s := Machine.Reachable.run (Machine.Reachable.initial rfl) ran
  have running : (Machine.run (step mkfsLog) (initial mkfsLog fun _ => 0) overfullRun).map
      (fun s => s.phase) = some .running := by
    decide
  rw [ran, Option.map_some, Option.some.injEq] at running
  have booted : s.phase ≠ .boot := by
    rw [running]
    decide
  exact ⟨s, ran, reachable, booted, lh_nodup_of_reachable reachable booted⟩

end Log

end Xv6
