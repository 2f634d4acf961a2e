import Xv6.Log.System
import Xv6.Lib.Count

/-!
# The invariant of the log

Three parts.  `DiskInv` is what the disk promises recovery: outside the
blocks the on-disk header names, every home block already holds the
committed view, and the log blocks hold the committed view of the blocks the
header names.  `MemInv` describes memory at each control point of commit and
recovery.  `OpInv` is about the ghost operation numbers: an operation that
is still running has no write in a committed transaction, and no two
committed transactions share an operation.
-/

namespace Xv6
namespace Log

variable {ι α : Type*} [Fintype ι] [DecidableEq ι]
variable (sb : Superblock) (image : Nat → α)

/-- Every entry of a header has its log block inside the log. -/
def Fits (xs : List Nat) : Prop :=
  ∀ tail, tail < xs.length → tail + 1 < sb.nlog

/-- What the disk promises recovery. -/
structure DiskInv (s : System ι α) : Prop where
  head_nodup : s.head.Nodup
  head_home : ∀ b ∈ s.head, sb.Home b
  head_fits : Fits sb s.head
  head_logged : ∀ tail (h : tail < s.head.length),
    s.disk (sb.logstart + tail + 1) = view image s s.head[tail]
  home_settled : ∀ b, sb.Home b → b ∉ s.head → s.disk b = view image s b

/-- The in-memory record describes the log of `sb` and a header that fits it. -/
structure HeaderInv (s : System ι α) : Prop where
  start_eq : s.log.start = sb.logstart
  size_eq : s.log.size = sb.nlog
  lh_nodup : s.log.lh.Nodup
  lh_home : ∀ b ∈ s.log.lh, sb.Home b
  lh_fits : Fits sb s.log.lh

/-- Memory while a transaction is built or copied to the log, the first
`written` header entries being copied already. -/
structure BuildInv (s : System ι α) (written : Nat) : Prop where
  head_empty : s.head = []
  lh_blocks : ∀ b, b ∈ s.log.lh ↔ b ∈ s.pending.map Write.block
  cache_home : ∀ b, sb.Home b → s.cache b = pendingView image s b
  copied : ∀ tail (h : tail < s.log.lh.length), tail < written →
    s.disk (sb.logstart + tail + 1) = s.cache s.log.lh[tail] ∧
      s.cache (sb.logstart + tail + 1) = s.cache s.log.lh[tail]

/-- Memory while a committed transaction is installed, the first
`installed` header entries being home already. -/
structure InstallInv (s : System ι α) (installed : Nat) : Prop where
  lh_head : s.log.lh = s.head
  pending_empty : s.pending = []
  cache_logged : ∀ tail (h : tail < s.log.lh.length),
    s.cache (sb.logstart + tail + 1) = view image s s.log.lh[tail]
  cache_home : ∀ b, sb.Home b → b ∉ s.log.lh → s.cache b = view image s b
  done : ∀ tail (h : tail < s.log.lh.length), tail < installed →
    s.disk s.log.lh[tail] = view image s s.log.lh[tail] ∧
      s.cache s.log.lh[tail] = view image s s.log.lh[tail]

/-- No process is inside an operation. -/
def Quiet (s : System ι α) : Prop :=
  s.log.outstanding = 0 ∧ ∀ p, s.procs p = .idle

/-- Memory at each control point. -/
def MemInv (s : System ι α) : Prop :=
  match s.phase with
  | .boot => s.cache = s.disk ∧ s.pending = [] ∧ ∀ p, s.procs p = .idle
  | .running =>
      s.log.committing = false ∧
        s.log.outstanding = Count.count s.procs Activity.Active ∧
        HeaderInv sb s ∧ BuildInv sb image s 0
  | .writeLog tail =>
      s.log.committing = true ∧ Quiet s ∧ HeaderInv sb s ∧ BuildInv sb image s tail
  | .writeHead =>
      s.log.committing = true ∧ Quiet s ∧ HeaderInv sb s ∧
        BuildInv sb image s s.log.lh.length
  | .install _ tail => Quiet s ∧ HeaderInv sb s ∧ InstallInv sb image s tail
  | .clear _ => Quiet s ∧ HeaderInv sb s ∧ InstallInv sb image s s.log.lh.length

/-- Operations are numbered freshly, and a committed transaction holds only
operations that ended before it committed. -/
structure OpInv (s : System ι α) : Prop where
  active_fresh : ∀ p op, s.procs p = .inOp op → op < s.nextOp
  pending_fresh : ∀ w ∈ s.pending, w.op < s.nextOp
  committed_fresh : ∀ t ∈ s.committed, ∀ w ∈ t, w.op < s.nextOp
  active_uncommitted : ∀ p op, s.procs p = .inOp op → ∀ t ∈ s.committed, ∀ w ∈ t, w.op ≠ op
  pending_uncommitted : ∀ w ∈ s.pending, ∀ t ∈ s.committed, ∀ w' ∈ t, w.op ≠ w'.op
  committed_disjoint : s.committed.Pairwise fun t t' => ∀ w ∈ t, ∀ w' ∈ t', w.op ≠ w'.op

/-- The whole invariant. -/
structure Inv (s : System ι α) : Prop where
  disk : DiskInv sb image s
  mem : MemInv sb image s
  ops : OpInv s

variable {sb image}

theorem view_eq_of_committed {s t : System ι α} (same : t.committed = s.committed) :
    view image t = view image s := by
  simp [view, same]

theorem pendingView_eq {s t : System ι α} (same : t.committed = s.committed)
    (samePending : t.pending = s.pending) :
    pendingView image t = pendingView image s := by
  simp [pendingView, view_eq_of_committed same, samePending]

/-- A step that leaves the disk, its header and the committed history alone
keeps the disk invariant. -/
theorem DiskInv.frame {s t : System ι α} (invariant : DiskInv sb image s)
    (sameDisk : t.disk = s.disk) (sameHead : t.head = s.head)
    (sameCommitted : t.committed = s.committed) : DiskInv sb image t := by
  have sameView : view image t = view image s := view_eq_of_committed sameCommitted
  refine ⟨?_, ?_, ?_, ?_, ?_⟩
  · rw [sameHead]
    exact invariant.head_nodup
  · rw [sameHead]
    exact invariant.head_home
  · rw [sameHead]
    exact invariant.head_fits
  · intro tail h
    have h' : tail < s.head.length := by rwa [sameHead] at h
    have logged := invariant.head_logged tail h'
    simp only [sameDisk, sameView, sameHead]
    exact logged
  · intro b home notInHead
    rw [sameHead] at notInHead
    rw [sameDisk, sameView]
    exact invariant.home_settled b home notInHead

theorem HeaderInv.congr {s t : System ι α} (header : HeaderInv sb s)
    (sameStart : t.log.start = s.log.start) (sameSize : t.log.size = s.log.size)
    (sameLh : t.log.lh = s.log.lh) : HeaderInv sb t := by
  refine ⟨?_, ?_, ?_, ?_, ?_⟩
  · rw [sameStart]
    exact header.start_eq
  · rw [sameSize]
    exact header.size_eq
  · rw [sameLh]
    exact header.lh_nodup
  · rw [sameLh]
    exact header.lh_home
  · rw [sameLh]
    exact header.lh_fits

theorem BuildInv.congr {s t : System ι α} {written : Nat} (build : BuildInv sb image s written)
    (sameHead : t.head = s.head) (sameLh : t.log.lh = s.log.lh)
    (samePending : t.pending = s.pending) (sameCache : t.cache = s.cache)
    (sameDisk : t.disk = s.disk) (sameCommitted : t.committed = s.committed) :
    BuildInv sb image t written := by
  have sameView : pendingView image t = pendingView image s :=
    pendingView_eq sameCommitted samePending
  refine ⟨?_, ?_, ?_, ?_⟩
  · rw [sameHead]
    exact build.head_empty
  · rw [sameLh, samePending]
    exact build.lh_blocks
  · rw [sameCache, sameView]
    exact build.cache_home
  · intro tail h early
    have h' : tail < s.log.lh.length := by rwa [sameLh] at h
    simp only [sameDisk, sameCache, sameLh]
    exact build.copied tail h' early

theorem inv_initial : Inv sb image (initial sb image : System ι α) := by
  refine ⟨⟨?_, ?_, ?_, ?_, ?_⟩, ?_, ?_⟩
  · exact List.nodup_nil
  · intro b member
    cases member
  · intro tail h
    cases h
  · intro tail h
    cases h
  · intro b _ _
    rfl
  · exact ⟨rfl, rfl, fun _ => rfl⟩
  · refine ⟨?_, ?_, ?_, ?_, ?_, ?_⟩ <;> simp [initial]

/-! ## The processes' steps -/

theorem inv_beginOp {s t : System ι α} {p : ι} (invariant : Inv sb image s)
    (stepped : step sb s (.beginOp p) = some t) : Inv sb image t := by
  obtain ⟨running, idle, notCommitting, _, rfl⟩ := step_beginOp stepped
  have mem := invariant.mem
  simp only [MemInv, running] at mem
  obtain ⟨_, outstanding, header, build⟩ := mem
  have counted : s.log.outstanding + 1 =
      Count.count (Function.update s.procs p (.inOp s.nextOp)) Activity.Active := by
    rw [Count.count_update_of_not_of (by simp [idle, Activity.Active]) trivial, outstanding]
  have ops := invariant.ops
  refine ⟨invariant.disk.frame rfl rfl rfl, ?_, ?_⟩
  · simp only [MemInv, running]
    exact ⟨notCommitting, counted, header.congr rfl rfl rfl,
      build.congr rfl rfl rfl rfl rfl rfl⟩
  · refine ⟨?_, ?_, ?_, ?_, ?_, ?_⟩
    · intro q op active
      dsimp only at active ⊢
      by_cases same : q = p
      · subst same
        simp only [Function.update_self, Activity.inOp.injEq] at active
        omega
      · rw [Function.update_of_ne same] at active
        have := ops.active_fresh q op active
        omega
    · intro w member
      have := ops.pending_fresh w member
      dsimp only
      omega
    · intro u member w written
      have := ops.committed_fresh u member w written
      dsimp only
      omega
    · intro q op active u member w written
      dsimp only at active
      by_cases same : q = p
      · subst same
        simp only [Function.update_self, Activity.inOp.injEq] at active
        have := ops.committed_fresh u member w written
        omega
      · rw [Function.update_of_ne same] at active
        exact ops.active_uncommitted q op active u member w written
    · exact ops.pending_uncommitted
    · exact ops.committed_disjoint

/-- A process inside an operation means the machine is running. -/
theorem running_of_active {s : System ι α} {p : ι} {op : Nat}
    (mem : MemInv sb image s) (active : s.procs p = .inOp op) : s.phase = .running := by
  unfold MemInv at mem
  have notIdle : s.procs p ≠ .idle := by
    rw [active]
    exact fun equal => Activity.noConfusion equal
  split at mem
  · exact absurd (mem.2.2 p) notIdle
  · assumption
  · exact absurd (mem.2.1.2 p) notIdle
  · exact absurd (mem.2.1.2 p) notIdle
  · exact absurd (mem.1.2 p) notIdle
  · exact absurd (mem.1.2 p) notIdle

theorem inv_logWrite {s t : System ι α} {p : ι} {b : Nat} {value : α}
    (invariant : Inv sb image s)
    (stepped : step sb s (.logWrite p b value) = some t) : Inv sb image t := by
  obtain ⟨op, active, home, _, fits, _, rfl⟩ := step_logWrite stepped
  have running : s.phase = .running := running_of_active invariant.mem active
  have mem := invariant.mem
  simp only [MemInv, running] at mem
  obtain ⟨notCommitting, outstanding, header, build⟩ := mem
  have ops := invariant.ops
  refine ⟨invariant.disk.frame rfl rfl rfl, ?_, ?_⟩
  · simp only [MemInv, running]
    refine ⟨notCommitting, outstanding, ⟨header.start_eq, header.size_eq,
      Log.nodup_absorb header.lh_nodup b, ?_, ?_⟩, ⟨build.head_empty, ?_, ?_, ?_⟩⟩
    · intro c member
      rcases Log.mem_absorb.mp member with old | rfl
      · exact header.lh_home c old
      · exact home
    · intro tail h
      have longer := Log.length_absorb_le s.log.lh b
      rw [header.size_eq] at fits
      simp only at h
      omega
    · intro c
      simp only [Log.mem_absorb, build.lh_blocks, List.map_append, List.mem_append,
        List.map_cons, List.map_nil, List.mem_singleton]
    · intro c cHome
      simp only [pendingView, view, Write.pairs_concat, Overwrite.apply_concat]
      by_cases same : c = b
      · subst same
        simp
      · simp only [Function.update_of_ne same]
        exact build.cache_home c cHome
    · intro tail _ early
      cases early
  · refine ⟨ops.active_fresh, ?_, ops.committed_fresh, ops.active_uncommitted, ?_,
      ops.committed_disjoint⟩
    · intro w member
      rcases List.mem_append.mp member with old | fresh
      · exact ops.pending_fresh w old
      · simp only [List.mem_singleton] at fresh
        subst fresh
        exact ops.active_fresh p op active
    · intro w member u committed w' written
      rcases List.mem_append.mp member with old | fresh
      · exact ops.pending_uncommitted w old u committed w' written
      · simp only [List.mem_singleton] at fresh
        subst fresh
        exact fun equal => ops.active_uncommitted p op active u committed w' written equal.symm

/-- Ending or dropping operations, and dropping uncommitted writes, keeps the
ghost invariant. -/
theorem OpInv.shrink {s t : System ι α} (ops : OpInv s)
    (fewer : ∀ q op, t.procs q = .inOp op → s.procs q = .inOp op)
    (fewerWrites : ∀ w ∈ t.pending, w ∈ s.pending)
    (sameCommitted : t.committed = s.committed) (sameNext : t.nextOp = s.nextOp) :
    OpInv t := by
  refine ⟨?_, ?_, ?_, ?_, ?_, ?_⟩
  · intro q op active
    rw [sameNext]
    exact ops.active_fresh q op (fewer q op active)
  · intro w member
    rw [sameNext]
    exact ops.pending_fresh w (fewerWrites w member)
  · intro u member
    rw [sameNext]
    rw [sameCommitted] at member
    exact ops.committed_fresh u member
  · intro q op active u member
    rw [sameCommitted] at member
    exact ops.active_uncommitted q op (fewer q op active) u member
  · intro w member u committed
    rw [sameCommitted] at committed
    exact ops.pending_uncommitted w (fewerWrites w member) u committed
  · rw [sameCommitted]
    exact ops.committed_disjoint

theorem commit_of_pos {s : System ι α} (nonempty : 0 < s.log.lh.length) :
    commit s = { s with phase := .writeLog 0 } := by
  simp [commit, nonempty]

theorem commit_of_eq_zero {s : System ι α} (empty : s.log.lh.length = 0) :
    commit s = { s with log := { s.log with committing := false } } := by
  simp [commit, empty]

/-- `end_op` of the last outstanding operation starts the commit from a quiet
state. -/
theorem inv_commit {u : System ι α} (disk : DiskInv sb image u) (ops : OpInv u)
    (running : u.phase = .running) (committing : u.log.committing = true)
    (quiet : Quiet u) (header : HeaderInv sb u) (build : BuildInv sb image u 0) :
    Inv sb image (commit u) := by
  unfold commit
  split
  · refine ⟨disk.frame rfl rfl rfl, ?_, ops.shrink (fun _ _ h => h) (fun _ h => h) rfl rfl⟩
    simp only [MemInv]
    exact ⟨committing, quiet, header.congr rfl rfl rfl, build.congr rfl rfl rfl rfl rfl rfl⟩
  · refine ⟨disk.frame rfl rfl rfl, ?_, ops.shrink (fun _ _ h => h) (fun _ h => h) rfl rfl⟩
    have counted : u.log.outstanding = Count.count u.procs Activity.Active := by
      rw [quiet.1, eq_comm, Count.count_eq_zero]
      intro q
      simp [quiet.2 q, Activity.Active]
    simp only [MemInv, running]
    exact ⟨by simp, counted, header.congr rfl rfl rfl, build.congr rfl rfl rfl rfl rfl rfl⟩

theorem inv_endOp {s t : System ι α} {p : ι} (invariant : Inv sb image s)
    (stepped : step sb s (.endOp p) = some t) : Inv sb image t := by
  obtain ⟨op, active, _, rfl⟩ := step_endOp stepped
  have running : s.phase = .running := running_of_active invariant.mem active
  have mem := invariant.mem
  simp only [MemInv, running] at mem
  obtain ⟨notCommitting, outstanding, header, build⟩ := mem
  have dropped : Count.count (Function.update s.procs p .idle) Activity.Active + 1 =
      Count.count s.procs Activity.Active :=
    Count.count_update_of_of_not (by simp [active, Activity.Active]) id
  have fewer : ∀ q op', Function.update s.procs p .idle q = .inOp op' →
      s.procs q = .inOp op' := by
    intro q op' activeAfter
    by_cases same : q = p
    · subst same
      simp at activeAfter
    · rwa [Function.update_of_ne same] at activeAfter
  have ops : OpInv { s with
      log := { s.log with outstanding := s.log.outstanding - 1,
                          committing := decide (s.log.outstanding - 1 = 0) },
      procs := Function.update s.procs p .idle } :=
    invariant.ops.shrink fewer (fun _ member => member) rfl rfl
  split_ifs with last
  · have noneLeft : ∀ q, Function.update s.procs p .idle q = .idle := by
      have zero : Count.count (Function.update s.procs p .idle) Activity.Active = 0 := by
        omega
      intro q
      have notActive := Count.count_eq_zero.mp zero q
      cases activity : Function.update s.procs p .idle q with
      | idle => rfl
      | inOp _ => simp [activity, Activity.Active] at notActive
    exact inv_commit (invariant.disk.frame rfl rfl rfl) ops running
      (by simp [last]) ⟨last, noneLeft⟩ (header.congr rfl rfl rfl)
      (build.congr rfl rfl rfl rfl rfl rfl)
  · refine ⟨invariant.disk.frame rfl rfl rfl, ?_, ops⟩
    have counted : s.log.outstanding - 1 =
        Count.count (Function.update s.procs p .idle) Activity.Active := by
      omega
    simp only [MemInv, running]
    exact ⟨by simp [last], counted, header.congr rfl rfl rfl,
      build.congr rfl rfl rfl rfl rfl rfl⟩

theorem inv_crash {s : System ι α} (invariant : Inv sb image s) :
    Inv sb image (crash s) := by
  refine ⟨invariant.disk.frame rfl rfl rfl, ⟨rfl, rfl, fun _ => rfl⟩, ?_⟩
  refine invariant.ops.shrink ?_ ?_ rfl rfl
  · intro q op active
    cases active
  · intro w member
    cases member

end Log

end Xv6
