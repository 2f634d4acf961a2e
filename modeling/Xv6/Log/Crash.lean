import Xv6.Log.Commit

/-!
# Crash atomicity

From every reachable state, a crash followed by `initlog` runs to completion,
and afterwards every home block holds what the committed transactions, applied
in commit order to the image `mkfs` wrote, produce.  The same holds in every
reachable state where no commit or recovery is running, so also after any
number of crashes during recovery.  A transaction is exactly the list of
writes made between two commits, recorded at the `write_head` that committed
it; no operation has writes in two of them, and an operation still running
has none in any, so every operation's writes appear all together or not at
all.
-/

namespace Xv6
namespace Log

variable {ι α : Type*} [Fintype ι] [DecidableEq ι]

/-- Outside commit and recovery the disk holds the committed view. -/
theorem disk_eq_view {sb : Superblock} {image : Nat → α} {s : System ι α} (invariant : Inv sb image s)
    (running : s.phase = .running) {b : Nat} (home : sb.Home b) :
    s.disk b = view image s b := by
  have mem := invariant.mem
  simp only [MemInv, running] at mem
  have settled := invariant.disk.home_settled b home
  rw [mem.2.2.2.head_empty] at settled
  exact settled List.not_mem_nil

/-- `install_trans` runs over the header entries it has not yet installed. -/
theorem run_install (sb : Superblock) (recovering : Bool) :
    ∀ (remaining tail : Nat) (u : System ι α), u.phase = .install recovering tail →
      tail + remaining = u.log.lh.length →
      ∃ v, Machine.run (step sb) u (List.replicate remaining .advance) = some v ∧
        v.phase = .install recovering (tail + remaining) ∧ v.log = u.log ∧
        v.head = u.head ∧ v.committed = u.committed
  | 0, tail, u, phase, _ => ⟨u, rfl, phase, rfl, rfl, rfl⟩
  | remaining + 1, tail, u, phase, count => by
      have inside : tail < u.log.lh.length := by omega
      have entry : u.log.lh[tail]? = some u.log.lh[tail] := List.getElem?_eq_getElem inside
      let next : System ι α := { u with
        cache := Function.update u.cache u.log.lh[tail] (u.cache (u.log.start + tail + 1)),
        disk := Function.update u.disk u.log.lh[tail] (u.cache (u.log.start + tail + 1)),
        phase := .install recovering (tail + 1) }
      have stepped : step sb u .advance = some next := by
        simp only [step, advance, phase, entry]
        rfl
      obtain ⟨v, ran, vPhase, vLog, vHead, vCommitted⟩ :=
        run_install sb recovering remaining (tail + 1) next rfl (by simp only [next]; omega)
      refine ⟨v, ?_, ?_, vLog, vHead, vCommitted⟩
      · rw [List.replicate_succ, Machine.run_cons, stepped]
        exact ran
      · rw [vPhase]
        congr 1
        omega

/-- Recovery from a crash at any state: `initlog` reads the header, installs
every entry and erases the header, and no crash interrupts it. -/
theorem run_recovery (sb : Superblock) (s : System ι α) :
    ∃ t, Machine.run (step sb) s (.crash :: List.replicate (s.head.length + 3) .advance) =
        some t ∧ t.phase = .running ∧ t.committed = s.committed := by
  let booted : System ι α := { crash s with
    log := { start := sb.logstart, size := sb.nlog, outstanding := 0,
             committing := false, lh := s.head },
    phase := .install true 0 }
  have boot : step sb (crash s) .advance = some booted := rfl
  obtain ⟨installed, ran, phase, sameLog, _, sameCommitted⟩ :=
    run_install sb true s.head.length 0 booted rfl (by simp [booted])
  have beyond : installed.log.lh[0 + s.head.length]? = none := by
    rw [sameLog]
    simp [booted]
  have toClear : step sb installed .advance = some { installed with phase := .clear true } := by
    simp only [step, advance, phase, beyond]
  refine ⟨{ installed with
      log := { installed.log with lh := [], committing := false },
      head := [],
      phase := .running }, ?_, rfl, sameCommitted⟩
  have split : List.replicate (s.head.length + 3) (Action.advance : Action ι α) =
      .advance :: (List.replicate s.head.length .advance ++ [.advance, .advance]) := by
    rw [show s.head.length + 3 = 1 + s.head.length + 2 by omega, List.replicate_add,
      List.replicate_add]
    rfl
  have crashed : step sb s .crash = some (crash s) := rfl
  rw [split, Machine.run_cons, crashed, Option.bind_some, Machine.run_cons, boot,
    Option.bind_some, Machine.run_append, ran, Option.bind_some, Machine.run_cons, toClear,
    Option.bind_some]
  rfl

/-- Crash atomicity of the log.  In every reachable state where the machine
runs, every home block holds the committed transactions applied in commit
order to the initial image; a crash at any reachable state is followed by a
recovery that completes and leaves exactly that; no two committed
transactions share an operation, and an operation that is still running has
no write in a committed transaction. -/
theorem crash_recovery_applies_committed (sb : Superblock) (image : Nat → α) :
    (∀ s : System ι α, Reachable sb image s → s.phase = .running →
      ∀ b, sb.Home b → s.disk b = Overwrite.applyAll (s.committed.map Write.pairs) image b) ∧
    (∀ s : System ι α, Reachable sb image s →
      ∃ t, Machine.run (step sb) s (.crash :: List.replicate (s.head.length + 3) .advance) =
          some t ∧ t.phase = .running ∧ t.committed = s.committed ∧
        ∀ b, sb.Home b → t.disk b = Overwrite.applyAll (s.committed.map Write.pairs) image b) ∧
    (∀ s : System ι α, Reachable sb image s →
      s.committed.Pairwise (fun t t' => ∀ w ∈ t, ∀ w' ∈ t', w.op ≠ w'.op) ∧
        ∀ p op, s.procs p = .inOp op → ∀ t ∈ s.committed, ∀ w ∈ t, w.op ≠ op) := by
  refine ⟨?_, ?_, ?_⟩
  · intro s reachable running b home
    exact disk_eq_view (inv_reachable reachable) running home
  · intro s reachable
    obtain ⟨t, ran, running, sameCommitted⟩ := run_recovery sb s
    have recovered : Reachable sb image t := Machine.Reachable.run reachable ran
    refine ⟨t, ran, running, sameCommitted, ?_⟩
    intro b home
    rw [disk_eq_view (inv_reachable recovered) running home, view, sameCommitted]
  · intro s reachable
    have ops := (inv_reachable reachable).ops
    exact ⟨ops.committed_disjoint, ops.active_uncommitted⟩

/-- A log whose header is block 2, with three log blocks after it. -/
def smallLog : Superblock := ⟨2, 4⟩

/-- `initlog` on the fresh image, then one operation that writes 7 to block 9
and ends, and `commit` up to its commit point: `write_log` has copied the
block, `write_head` has not run. -/
def uncommittedRun : List (Action Unit Nat) :=
  [.advance, .advance, .advance, .beginOp (), .logWrite () 9 7, .endOp (), .advance, .advance]

/-- The same run through the `write_head` that commits the transaction. -/
def committedRun : List (Action Unit Nat) := uncommittedRun ++ [.advance]

/-- Crash atomicity along one operation: a crash right after `write_head`
leaves block 9 holding 7 once recovery has run, and a crash one step
earlier leaves it holding the image's 0. -/
theorem crash_recovery_on_commit_point :
    (∃ t, Machine.run (step smallLog) (initial smallLog fun _ => 0)
        (committedRun ++ .crash :: List.replicate 4 .advance) = some t ∧ t.phase = .running ∧ t.disk 9 = 7) ∧
    (∃ t, Machine.run (step smallLog) (initial smallLog fun _ => 0)
        (uncommittedRun ++ .crash :: List.replicate 3 .advance) = some t ∧ t.phase = .running ∧ t.disk 9 = 0) := by
  have home : smallLog.Home 9 := Or.inr (by decide)
  -- the theorem's recovery part, after any run from the image
  have recover : ∀ (actions : List (Action Unit Nat)) (s : System Unit Nat),
      Machine.run (step smallLog) (initial smallLog fun _ => 0) actions = some s →
      ∃ t, Machine.run (step smallLog) (initial smallLog fun _ => 0)
          (actions ++ .crash :: List.replicate (s.head.length + 3) .advance) = some t ∧ t.phase = .running ∧
        t.disk 9 = Overwrite.applyAll (s.committed.map Write.pairs) (fun _ => 0) 9 := by
    intro actions s ran
    obtain ⟨t, recovered, running, -, disk⟩ :=
      (crash_recovery_applies_committed smallLog (fun _ => (0 : Nat))).2.1 s
        (Machine.Reachable.run (Machine.Reachable.initial rfl) ran)
    exact ⟨t, by rw [Machine.run_append, ran, Option.bind_some, recovered], running, disk 9 home⟩
  constructor
  · obtain ⟨s, ran⟩ : ∃ s, Machine.run (step smallLog) (initial smallLog fun _ => 0) committedRun = some s :=
      Option.isSome_iff_exists.mp (by decide +kernel)
    have seen : (Machine.run (step smallLog) (initial smallLog fun _ => 0) committedRun).map
        (fun s : System Unit Nat => (s.head.length, s.committed.map Write.pairs)) = some (1, [[(9, 7)]]) := by
      decide +kernel
    rw [ran, Option.map_some, Option.some.injEq, Prod.mk.injEq] at seen
    obtain ⟨t, recovered, running, disk⟩ := recover committedRun s ran
    rw [seen.1, seen.2] at *
    exact ⟨t, recovered, running, disk⟩
  · obtain ⟨s, ran⟩ : ∃ s, Machine.run (step smallLog) (initial smallLog fun _ => 0) uncommittedRun = some s :=
      Option.isSome_iff_exists.mp (by decide +kernel)
    have seen : (Machine.run (step smallLog) (initial smallLog fun _ => 0) uncommittedRun).map
        (fun s : System Unit Nat => (s.head.length, s.committed.map Write.pairs)) = some (0, []) := by
      decide +kernel
    rw [ran, Option.map_some, Option.some.injEq, Prod.mk.injEq] at seen
    obtain ⟨t, recovered, running, disk⟩ := recover uncommittedRun s ran
    rw [seen.1, seen.2] at *
    exact ⟨t, recovered, running, disk⟩

end Log

end Xv6
