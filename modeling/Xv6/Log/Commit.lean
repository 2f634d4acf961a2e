import Xv6.Log.Invariant

/-!
# Commit and recovery keep the invariant

One lemma per control point of `advance`.  The two that carry the argument
are `inv_writeHead`, where the transaction becomes part of the committed
history exactly as its log blocks already hold it, and `inv_install`, where
one header entry goes home and stays home, whichever of commit or recovery
installs it.  With the processes' steps of `Xv6.Log.Invariant` they give the
invariant in every reachable state.
-/

namespace Xv6
namespace Log

variable {ι α : Type*} [Fintype ι] [DecidableEq ι]
variable {sb : Superblock} {image : Nat → α}

/-- Log block `tail` is no home location while the header fits the log. -/
theorem logBlock_ne_home {xs : List Nat} {tail b : Nat} (fits : Fits sb xs)
    (inside : tail < xs.length) (home : sb.Home b) : sb.logstart + tail + 1 ≠ b := by
  intro equal
  exact Superblock.not_home_log (fits tail inside) (equal ▸ home)

/-- The committed view after the header write is the pending view before it. -/
theorem view_writeHead (s : System ι α) :
    view image { s with committed := s.committed ++ [s.pending] } = pendingView image s := by
  simp [view, pendingView]

theorem inv_boot {s t : System ι α} (invariant : Inv sb image s) (phase : s.phase = .boot)
    (stepped : advance sb s = some t) : Inv sb image t := by
  simp only [advance, phase, Option.some.injEq] at stepped
  subst stepped
  have mem := invariant.mem
  simp only [MemInv, phase] at mem
  obtain ⟨cacheDisk, noPending, idle⟩ := mem
  have disk := invariant.disk
  refine ⟨disk.frame rfl rfl rfl, ?_, invariant.ops.shrink (fun _ _ h => h) (fun _ h => h) rfl rfl⟩
  simp only [MemInv]
  refine ⟨⟨rfl, idle⟩, ⟨rfl, rfl, disk.head_nodup, disk.head_home, disk.head_fits⟩,
    ⟨rfl, noPending, ?_, ?_, ?_⟩⟩
  · intro tail h
    simp only [cacheDisk]
    exact disk.head_logged tail h
  · intro b home notLogged
    simp only [cacheDisk]
    exact disk.home_settled b home notLogged
  · intro tail _ early
    cases early

theorem inv_writeLog {s t : System ι α} {tail : Nat} (invariant : Inv sb image s)
    (phase : s.phase = .writeLog tail) (stepped : advance sb s = some t) :
    Inv sb image t := by
  have mem := invariant.mem
  simp only [MemInv, phase] at mem
  obtain ⟨committing, quiet, header, build⟩ := mem
  simp only [advance, phase] at stepped
  split at stepped
  · rename_i b entry
    simp only [Option.some.injEq] at stepped
    subst stepped
    obtain ⟨inside, entryEq⟩ := List.getElem?_eq_some_iff.mp entry
    have notHome := fun c (home : sb.Home c) =>
      logBlock_ne_home header.lh_fits inside home
    have bHome : sb.Home b := header.lh_home b (entryEq ▸ List.getElem_mem inside)
    refine ⟨?_, ?_, invariant.ops.shrink (fun _ _ h => h) (fun _ h => h) rfl rfl⟩
    · have disk := invariant.disk
      refine ⟨?_, ?_, ?_, ?_, ?_⟩
      · simp [build.head_empty]
      · simp [build.head_empty]
      · intro tail' h
        simp [build.head_empty] at h
      · intro tail' h
        simp [build.head_empty] at h
      · intro c home notInHead
        have other : c ≠ s.log.start + tail + 1 := by
          rw [header.start_eq]
          exact (notHome c home).symm
        simp only [Function.update_of_ne other]
        exact disk.home_settled c home notInHead
    · simp only [MemInv]
      refine ⟨committing, quiet, header.congr rfl rfl rfl,
        ⟨build.head_empty, build.lh_blocks, ?_, ?_⟩⟩
      · intro c home
        have other : c ≠ s.log.start + tail + 1 := by
          rw [header.start_eq]
          exact (notHome c home).symm
        simp only [Function.update_of_ne other]
        exact build.cache_home c home
      · intro tail' h early
        have entryHome : sb.Home s.log.lh[tail'] := header.lh_home _ (List.getElem_mem h)
        have entryOther : s.log.lh[tail'] ≠ sb.logstart + tail + 1 :=
          (notHome _ entryHome).symm
        simp only [header.start_eq]
        rw [Function.update_of_ne entryOther]
        by_cases same : tail' = tail
        · subst same
          simp [entryEq]
        · have earlier : tail' < tail := by omega
          have otherBlock : sb.logstart + tail' + 1 ≠ sb.logstart + tail + 1 := by omega
          simp only [Function.update_of_ne otherBlock]
          exact build.copied tail' h earlier
  · simp only [Option.some.injEq] at stepped
    subst stepped
    rename_i beyond
    refine ⟨invariant.disk.frame rfl rfl rfl, ?_,
      invariant.ops.shrink (fun _ _ h => h) (fun _ h => h) rfl rfl⟩
    simp only [MemInv]
    refine ⟨committing, quiet, header.congr rfl rfl rfl,
      ⟨build.head_empty, build.lh_blocks, build.cache_home, ?_⟩⟩
    intro tail' h _
    have atLeast : s.log.lh.length ≤ tail := by
      simpa using beyond
    exact build.copied tail' h (by omega)

theorem inv_writeHead {s t : System ι α} (invariant : Inv sb image s)
    (phase : s.phase = .writeHead) (stepped : advance sb s = some t) :
    Inv sb image t := by
  have mem := invariant.mem
  simp only [MemInv, phase] at mem
  obtain ⟨_, quiet, header, build⟩ := mem
  simp only [advance, phase, Option.some.injEq] at stepped
  subst stepped
  have newView : view image ({ s with
      head := s.log.lh,
      phase := .install false 0,
      committed := s.committed ++ [s.pending],
      pending := [] } : System ι α) = pendingView image s :=
    view_writeHead s
  have logged : ∀ tail (h : tail < s.log.lh.length),
      s.disk (sb.logstart + tail + 1) = pendingView image s s.log.lh[tail] := by
    intro tail h
    rw [(build.copied tail h h).1]
    exact build.cache_home _ (header.lh_home _ (List.getElem_mem h))
  have unlogged : ∀ b, b ∉ s.log.lh → pendingView image s b = view image s b := by
    intro b notLogged
    apply Overwrite.apply_of_not_mem
    rw [Write.map_fst_pairs]
    exact fun member => notLogged ((build.lh_blocks b).mpr member)
  refine ⟨⟨header.lh_nodup, header.lh_home, header.lh_fits, ?_, ?_⟩, ?_, ?_⟩
  · intro tail h
    rw [newView]
    exact logged tail h
  · intro b home notLogged
    rw [newView, unlogged b notLogged]
    have settled := invariant.disk.home_settled b home
    rw [build.head_empty] at settled
    exact settled List.not_mem_nil
  · simp only [MemInv]
    refine ⟨quiet, header.congr rfl rfl rfl, ⟨rfl, rfl, ?_, ?_, ?_⟩⟩
    · intro tail h
      rw [newView]
      have copied := (build.copied tail h h).2
      simp only [copied]
      exact build.cache_home _ (header.lh_home _ (List.getElem_mem h))
    · intro b home notLogged
      rw [newView]
      exact build.cache_home b home
    · intro tail _ early
      cases early
  · have ops := invariant.ops
    refine ⟨?_, ?_, ?_, ?_, ?_, ?_⟩
    · intro q op active
      simp [quiet.2 q] at active
    · intro w member
      cases member
    · intro u member w written
      rcases List.mem_append.mp member with old | fresh
      · exact ops.committed_fresh u old w written
      · simp only [List.mem_singleton] at fresh
        subst fresh
        exact ops.pending_fresh w written
    · intro q op active
      simp [quiet.2 q] at active
    · intro w member
      cases member
    · refine List.pairwise_append.mpr ⟨ops.committed_disjoint, List.pairwise_singleton _ _, ?_⟩
      intro u member u' fresh w written w' written'
      simp only [List.mem_singleton] at fresh
      subst fresh
      exact fun equal => ops.pending_uncommitted w' written' u member w written equal.symm

theorem inv_install {s t : System ι α} {recovering : Bool} {tail : Nat}
    (invariant : Inv sb image s) (phase : s.phase = .install recovering tail)
    (stepped : advance sb s = some t) : Inv sb image t := by
  have mem := invariant.mem
  simp only [MemInv, phase] at mem
  obtain ⟨quiet, header, install⟩ := mem
  simp only [advance, phase] at stepped
  split at stepped
  · rename_i b entry
    simp only [Option.some.injEq] at stepped
    subst stepped
    obtain ⟨inside, entryEq⟩ := List.getElem?_eq_some_iff.mp entry
    have bHome : sb.Home b := header.lh_home b (entryEq ▸ List.getElem_mem inside)
    have bLogged : b ∈ s.log.lh := entryEq ▸ List.getElem_mem inside
    have logBlockOther : ∀ tail' (h : tail' < s.log.lh.length), sb.logstart + tail' + 1 ≠ b :=
      fun tail' h => logBlock_ne_home header.lh_fits h bHome
    have source : s.cache (s.log.start + tail + 1) = view image s b := by
      rw [header.start_eq, ← entryEq]
      exact install.cache_logged tail inside
    refine ⟨?_, ?_, invariant.ops.shrink (fun _ _ h => h) (fun _ h => h) rfl rfl⟩
    · have disk := invariant.disk
      refine ⟨disk.head_nodup, disk.head_home, disk.head_fits, ?_, ?_⟩
      · intro tail' h
        have h' : tail' < s.log.lh.length := by rwa [install.lh_head]
        simp only [Function.update_of_ne (logBlockOther tail' h')]
        exact disk.head_logged tail' h
      · intro c home notInHead
        have other : c ≠ b := by
          intro equal
          rw [← install.lh_head] at notInHead
          exact notInHead (equal ▸ bLogged)
        simp only [Function.update_of_ne other]
        exact disk.home_settled c home notInHead
    · simp only [MemInv]
      refine ⟨quiet, header.congr rfl rfl rfl,
        ⟨install.lh_head, install.pending_empty, ?_, ?_, ?_⟩⟩
      · intro tail' h
        simp only [Function.update_of_ne (logBlockOther tail' h)]
        exact install.cache_logged tail' h
      · intro c home notLogged
        have other : c ≠ b := fun equal => notLogged (equal ▸ bLogged)
        simp only [Function.update_of_ne other]
        exact install.cache_home c home notLogged
      · intro tail' h early
        by_cases same : tail' = tail
        · subst same
          simp only [entryEq, Function.update_self]
          exact ⟨source, source⟩
        · have other : s.log.lh[tail'] ≠ b := by
            rw [← entryEq]
            exact fun equal => same ((List.Nodup.getElem_inj_iff header.lh_nodup).mp equal)
          simp only [Function.update_of_ne other]
          exact install.done tail' h (by omega)
  · simp only [Option.some.injEq] at stepped
    subst stepped
    rename_i beyond
    refine ⟨invariant.disk.frame rfl rfl rfl, ?_,
      invariant.ops.shrink (fun _ _ h => h) (fun _ h => h) rfl rfl⟩
    simp only [MemInv]
    refine ⟨quiet, header.congr rfl rfl rfl, ⟨install.lh_head, install.pending_empty,
      install.cache_logged, install.cache_home, ?_⟩⟩
    intro tail' h _
    have atLeast : s.log.lh.length ≤ tail := by
      simpa using beyond
    exact install.done tail' h (by omega)

theorem inv_clear {s t : System ι α} {recovering : Bool} (invariant : Inv sb image s)
    (phase : s.phase = .clear recovering) (stepped : advance sb s = some t) :
    Inv sb image t := by
  have mem := invariant.mem
  simp only [MemInv, phase] at mem
  obtain ⟨quiet, header, install⟩ := mem
  simp only [advance, phase, Option.some.injEq] at stepped
  subst stepped
  have home : ∀ b, sb.Home b → s.disk b = view image s b ∧ s.cache b = view image s b := by
    intro b bHome
    by_cases logged : b ∈ s.log.lh
    · obtain ⟨tail, h, entryEq⟩ := List.mem_iff_getElem.mp logged
      rw [← entryEq]
      exact install.done tail h h
    · refine ⟨?_, install.cache_home b bHome logged⟩
      rw [install.lh_head] at logged
      exact invariant.disk.home_settled b bHome logged
  refine ⟨⟨List.nodup_nil, ?_, ?_, ?_, ?_⟩, ?_,
    invariant.ops.shrink (fun _ _ h => h) (fun _ h => h) rfl rfl⟩
  · intro b member
    cases member
  · intro tail h
    cases h
  · intro tail h
    cases h
  · intro b bHome _
    exact (home b bHome).1
  · have counted : 0 = Count.count s.procs Activity.Active := by
      rw [eq_comm, Count.count_eq_zero]
      intro q
      simp [quiet.2 q, Activity.Active]
    simp only [MemInv]
    refine ⟨by simp, quiet.1.trans counted, ⟨header.start_eq, header.size_eq, List.nodup_nil,
      (fun _ member => by cases member), (fun _ h => by cases h)⟩, ⟨rfl, ?_, ?_, ?_⟩⟩
    · intro b
      simp [install.pending_empty]
    · intro b bHome
      simp only [pendingView, install.pending_empty, Write.pairs_nil, Overwrite.apply_nil]
      exact (home b bHome).2
    · intro tail h
      cases h

/-- Every step of commit or recovery keeps the invariant. -/
theorem inv_advance {s t : System ι α} (invariant : Inv sb image s)
    (stepped : advance sb s = some t) : Inv sb image t := by
  cases phase : s.phase with
  | boot => exact inv_boot invariant phase stepped
  | running => simp [advance, phase] at stepped
  | writeLog tail => exact inv_writeLog invariant phase stepped
  | writeHead => exact inv_writeHead invariant phase stepped
  | install recovering tail => exact inv_install invariant phase stepped
  | clear recovering => exact inv_clear invariant phase stepped

/-- Every step of the system keeps the invariant. -/
theorem inv_step {s t : System ι α} {action : Action ι α} (invariant : Inv sb image s)
    (stepped : step sb s action = some t) : Inv sb image t := by
  cases action with
  | beginOp p => exact inv_beginOp invariant stepped
  | logWrite p b value => exact inv_logWrite invariant stepped
  | endOp p => exact inv_endOp invariant stepped
  | advance => exact inv_advance invariant stepped
  | crash =>
      simp only [step, Option.some.injEq] at stepped
      subst stepped
      exact inv_crash invariant

/-- The invariant holds in every reachable state. -/
theorem inv_reachable {s : System ι α} (reachable : Reachable sb image s) :
    Inv sb image s := by
  refine Machine.Reachable.induction ?_ ?_ reachable
  · intro s initial
    subst initial
    exact inv_initial
  · intro s action t _ invariant stepped
    exact inv_step invariant stepped

end Log

end Xv6
