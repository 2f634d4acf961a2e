import Xv6.Proc.Basic

/-!
# What each critical section does to the table

One lemma per operation of `Xv6.Proc.Basic`, in the terms the invariants
need.  `wakeup1` and `kill` only wake: an entry keeps its pid, pages and
parent, and its state stays or goes from SLEEPING to RUNNABLE.  exit's
adoption loop wakes in the same way and moves exactly the children of the
exiting process to `initproc`.  The scans of `allocproc`, `wait` and the
scheduler find entries that pass their tests.
-/

namespace Xv6

/-- `q` is `p` woken at most: same pid and pages, and the state unchanged or
gone from SLEEPING to RUNNABLE. -/
structure Proc.Woken (p q : Proc) : Prop where
  pid : q.pid = p.pid
  kstack : q.kstack = p.kstack
  pgdir : q.pgdir = p.pgdir
  state : q.state = p.state ∨ p.state = .sleeping ∧ q.state = .runnable

namespace Proc.Woken

theorem refl (p : Proc) : p.Woken p := ⟨rfl, rfl, rfl, .inl rfl⟩

theorem trans {p q r : Proc} (first : p.Woken q) (second : q.Woken r) : p.Woken r := by
  refine ⟨second.pid.trans first.pid, second.kstack.trans first.kstack,
    second.pgdir.trans first.pgdir, ?_⟩
  rcases first.state with same | ⟨sleeping, runnable⟩
  · rw [← same]
    exact second.state
  · rcases second.state with same' | ⟨sleeping', _⟩
    · exact .inr ⟨sleeping, same'.trans runnable⟩
    · rw [runnable] at sleeping'
      cases sleeping'

theorem running_iff {p q : Proc} (woken : p.Woken q) :
    q.state = .running ↔ p.state = .running := by
  rcases woken.state with same | ⟨sleeping, runnable⟩
  · rw [same]
  · rw [sleeping, runnable]
    decide

theorem alive_iff {p q : Proc} (woken : p.Woken q) : q.state.Alive ↔ p.state.Alive := by
  rcases woken.state with same | ⟨sleeping, runnable⟩
  · rw [same]
  · rw [sleeping, runnable]
    simp

end Proc.Woken

theorem wakeup1_woken (chan : Chan) (procs : Fin nProc → Proc) (j : Fin nProc) :
    (procs j).Woken (wakeup1 chan procs j) := by
  unfold wakeup1
  split_ifs with waiting
  · exact ⟨rfl, rfl, rfl, .inr ⟨waiting.1, rfl⟩⟩
  · exact .refl _

@[simp] theorem wakeup1_parent (chan : Chan) (procs : Fin nProc → Proc) (j : Fin nProc) :
    (wakeup1 chan procs j).parent = (procs j).parent := by
  unfold wakeup1
  split_ifs <;> rfl

section Adopt

variable {i : Fin nProc} {initproc : Option (Fin nProc)}

/-- How one adoption step may change an entry's parent. -/
def Reparented (i : Fin nProc) (initproc : Option (Fin nProc)) (before after : Option (Fin nProc)) :
    Prop :=
  after = before ∨ before = some i ∧ after = initproc

theorem Reparented.trans {a b c : Option (Fin nProc)} (notInit : initproc ≠ some i)
    (first : Reparented i initproc a b) (second : Reparented i initproc b c) :
    Reparented i initproc a c := by
  rcases first with same | ⟨child, moved⟩
  · rw [← same]
    exact second
  · rcases second with same' | ⟨child', _⟩
    · exact .inr ⟨child, same'.trans moved⟩
    · exact absurd (moved.symm.trans child') notInit

theorem adopt_woken (procs : Fin nProc → Proc) (x j : Fin nProc) :
    (procs j).Woken (adopt i initproc procs x j) := by
  have updated : (procs j).Woken (Function.update procs x { procs x with parent := initproc } j) := by
    by_cases same : j = x
    · subst same
      rw [Function.update_self]
      exact ⟨rfl, rfl, rfl, .inl rfl⟩
    · rw [Function.update_of_ne same]
      exact .refl _
  unfold adopt
  dsimp only
  split_ifs
  · exact updated.trans (wakeup1_woken _ _ j)
  · exact updated
  · exact .refl _

theorem adopt_parent (procs : Fin nProc → Proc) (x j : Fin nProc) :
    (adopt i initproc procs x j).parent =
      if j = x ∧ (procs j).parent = some i then initproc else (procs j).parent := by
  have updated : (Function.update procs x { procs x with parent := initproc } j).parent =
      if j = x then initproc else (procs j).parent := by
    by_cases same : j = x
    · subst same
      rw [Function.update_self, if_pos rfl]
    · rw [Function.update_of_ne same, if_neg same]
  unfold adopt
  by_cases child : (procs x).parent = some i
  · rw [if_pos child]
    split_ifs with zombie found found
    · rw [wakeup1_parent, updated, if_pos found.1]
    · rw [wakeup1_parent, updated]
      by_cases same : j = x
      · exact absurd ⟨same, same ▸ child⟩ found
      · rw [if_neg same]
    · rw [updated, if_pos found.1]
    · rw [updated]
      by_cases same : j = x
      · exact absurd ⟨same, same ▸ child⟩ found
      · rw [if_neg same]
  · rw [if_neg child, if_neg]
    rintro ⟨rfl, found⟩
    exact child found

/-- Over any list of entries the adoption loop only wakes entries and moves
children of `i` to `initproc`, and no entry it visited is left a child of `i`. -/
theorem foldl_adopt (notInit : initproc ≠ some i) :
    ∀ (l : List (Fin nProc)) (procs : Fin nProc → Proc) (j : Fin nProc),
      (procs j).Woken (l.foldl (adopt i initproc) procs j) ∧
        Reparented i initproc (procs j).parent (l.foldl (adopt i initproc) procs j).parent ∧
        (j ∈ l → (l.foldl (adopt i initproc) procs j).parent ≠ some i)
  | [], procs, j => ⟨.refl _, .inl rfl, fun member => absurd member List.not_mem_nil⟩
  | x :: l, procs, j => by
      obtain ⟨woken, reparented, visited⟩ := foldl_adopt notInit l (adopt i initproc procs x) j
      have stepParent : (adopt i initproc procs x j).parent =
          if j = x ∧ (procs j).parent = some i then initproc else (procs j).parent :=
        adopt_parent procs x j
      have first : Reparented i initproc (procs j).parent (adopt i initproc procs x j).parent := by
        rw [stepParent]
        split_ifs with found
        · exact .inr ⟨found.2, rfl⟩
        · exact .inl rfl
      refine ⟨(adopt_woken procs x j).trans woken, first.trans notInit reparented, ?_⟩
      intro member
      rcases List.mem_cons.mp member with rfl | later
      · have settled : (adopt i initproc procs j j).parent ≠ some i := by
          rw [stepParent]
          split_ifs with found
          · exact notInit
          · exact fun child => found ⟨rfl, child⟩
        rcases reparented with same | ⟨child, _⟩
        · rw [List.foldl_cons, same]
          exact settled
        · exact absurd child settled
      · exact visited later

end Adopt

namespace Kernel

variable {k : Kernel}

/-- exit's critical section: it runs for any process but `initproc`, wakes
entries and moves exactly the children of `i` to `initproc`, and leaves `i` a
ZOMBIE with its pid and pages. -/
theorem exit_spec {i : Fin nProc} {procs : Fin nProc → Proc} (exited : k.exit i = some procs) :
    k.initproc ≠ some i ∧
      ∃ adopted : Fin nProc → Proc,
        (∀ j, (k.proc j).Woken (adopted j) ∧
          (adopted j).parent = if (k.proc j).parent = some i then k.initproc else (k.proc j).parent) ∧
        procs = Function.update adopted i { adopted i with state := .zombie } := by
  unfold exit at exited
  split_ifs at exited with isInit
  cases exited
  refine ⟨isInit, _, fun j => ?_, rfl⟩
  obtain ⟨woken, reparented, visited⟩ :=
    foldl_adopt isInit (List.finRange nProc) (wakeup1 (chanOf (k.proc i).parent) k.proc) j
  rw [wakeup1_parent] at reparented
  refine ⟨(wakeup1_woken _ _ j).trans woken, ?_⟩
  have settled := visited (List.mem_finRange j)
  split_ifs with child
  · rcases reparented with same | ⟨_, moved⟩
    · exact absurd (same.trans child) settled
    · exact moved
  · rcases reparented with same | ⟨found, _⟩
    · exact same
    · exact absurd found child

/-- After exit the children of `i` have `initproc` as parent, and the other
entries keep theirs. -/
theorem exit_parent {i : Fin nProc} {procs : Fin nProc → Proc} (exited : k.exit i = some procs)
    (j : Fin nProc) :
    (procs j).parent = if (k.proc j).parent = some i then k.initproc else (k.proc j).parent := by
  obtain ⟨_, adopted, moved, rfl⟩ := exit_spec exited
  by_cases same : j = i
  · subst same
    rw [Function.update_self]
    exact (moved j).2
  · rw [Function.update_of_ne same]
    exact (moved j).2

theorem exit_zombie {i : Fin nProc} {procs : Fin nProc → Proc} (exited : k.exit i = some procs) :
    (procs i).state = .zombie := by
  obtain ⟨_, adopted, _, rfl⟩ := exit_spec exited
  rw [Function.update_self]

theorem waitScan_reaped {i j : Fin nProc} (scan : k.waitScan i = .reaped j) :
    (k.proc j).parent = some i ∧ (k.proc j).state = .zombie := by
  unfold waitScan at scan
  split at scan
  · rename_i found
    cases scan
    simpa using Scan.first_some found
  · split_ifs at scan

theorem waitScan_failed {i : Fin nProc} (scan : k.waitScan i = .failed) :
    (∀ j, (k.proc j).parent ≠ some i) ∨ (k.proc i).killed = true := by
  unfold waitScan at scan
  split at scan
  · cases scan
  · split_ifs at scan with answer
    exact answer

theorem kill_woken (pid : Nat) (j : Fin nProc) :
    (k.proc j).Woken ((k.kill pid).proc j) ∧ ((k.kill pid).proc j).parent = (k.proc j).parent := by
  unfold kill
  split
  · exact ⟨.refl _, rfl⟩
  · rename_i found _
    dsimp only
    by_cases same : j = found
    · subst same
      rw [Function.update_self]
      refine ⟨⟨rfl, rfl, rfl, ?_⟩, rfl⟩
      split_ifs with sleeping
      · exact .inr ⟨sleeping, rfl⟩
      · exact .inl rfl
    · rw [Function.update_of_ne same]
      exact ⟨.refl _, rfl⟩

/-- The fields `kill` leaves alone. -/
theorem kill_frame (pid : Nat) :
    (k.kill pid).cpus = k.cpus ∧ (k.kill pid).nextpid = k.nextpid ∧
      (k.kill pid).initproc = k.initproc ∧ (k.kill pid).forking = k.forking ∧
      (k.kill pid).nextStack = k.nextStack ∧ (k.kill pid).nextDir = k.nextDir ∧
      (k.kill pid).freedStacks = k.freedStacks ∧ (k.kill pid).freedDirs = k.freedDirs := by
  unfold kill
  split <;> exact ⟨rfl, rfl, rfl, rfl, rfl, rfl, rfl, rfl⟩

/-- A scheduler turn either starts a RUNNABLE entry on the CPU or only resets
the loop variable. -/
theorem scheduler_cases (c : Fin nCpu) :
    (∃ j, (k.proc j).state = .runnable ∧
      k.scheduler c =
        { k with
          proc := Function.update k.proc j { k.proc j with state := .running }
          cpus := Function.update k.cpus c (some j)
          schedPos := Function.update k.schedPos c (j.val + 1) }) ∨
    k.scheduler c = { k with schedPos := Function.update k.schedPos c 0 } := by
  unfold scheduler
  split
  · rename_i j found
    have passes := Scan.first_some found
    simp only [decide_eq_true_eq] at passes
    exact .inl ⟨j, passes.2, rfl⟩
  · exact .inr rfl

/-- allocproc finds no UNUSED entry, or claims an UNUSED entry `j` with the
next pid and either gives it a fresh stack or returns it unused. -/
theorem allocproc_cases (stackOk : Bool) :
    k.allocproc stackOk = (k, none) ∨
    (∃ j, (k.proc j).state = .unused ∧ stackOk = true ∧
      k.allocproc stackOk =
        ({ k with
          proc := Function.update k.proc j
            { k.proc j with state := .embryo, pid := k.nextpid, kstack := some k.nextStack }
          nextpid := k.nextpid + 1
          nextStack := k.nextStack + 1 }, some j)) ∨
    (∃ j, (k.proc j).state = .unused ∧ stackOk = false ∧
      k.allocproc stackOk =
        ({ k with
          proc := Function.update k.proc j
            { k.proc j with state := .unused, pid := k.nextpid, kstack := none }
          nextpid := k.nextpid + 1 }, none)) := by
  unfold allocproc
  split
  · exact .inl rfl
  · rename_i j found
    have unused : (k.proc j).state = .unused := by simpa using Scan.first_some found
    cases stackOk
    · exact .inr (.inr ⟨j, unused, rfl, rfl⟩)
    · exact .inr (.inl ⟨j, unused, rfl, rfl⟩)

/-- userinit claims an UNUSED entry, as allocproc does, and hands it over
RUNNABLE as `initproc` with the first page directory. -/
theorem userinit_spec {k' : Kernel} (init : k.userinit = some k') :
    ∃ p, (k.proc p).state = .unused ∧
      k' = { k with
        proc := Function.update k.proc p
          { k.proc p with
            state := .runnable, pid := k.nextpid, kstack := some k.nextStack,
            pgdir := some k.nextDir }
        nextpid := k.nextpid + 1
        initproc := some p
        nextStack := k.nextStack + 1
        nextDir := k.nextDir + 1 } := by
  unfold userinit at init
  rcases allocproc_cases (k := k) true with full | ⟨p, unused, _, alloc⟩ | ⟨_, _, wrong, _⟩
  · rw [full] at init
    cases init
  · rw [alloc] at init
    cases init
    refine ⟨p, unused, ?_⟩
    simp only [Function.update_self, Function.update_idem]
  · cases wrong

end Kernel

end Xv6
