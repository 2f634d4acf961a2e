import Xv6.Fs.Sysfile
import Xv6.Fs.Path

/-!
# Runs of the namespace calls

Two ways the system calls leave the namespace otherwise than they promise.

sys_unlink removes a directory that is empty but still in use: a process's
working directory keeps its reference, and its ".." entry keeps naming the
parent, which a later unlink may free.  From then on ".." names an inode
with no type, and open("..") panics in ilock.

sys_open with `O_CREATE` calls create, which enters the new file in its
directory, before it looks for a descriptor; when the caller has none left
the call returns -1 and the name stays.
-/

namespace Xv6
namespace Fs

namespace Sys

variable {s : Sys} {q : Proc} {path : List UInt8} {omode : BitVec 32} {v v' : Vol} {ip : Fin nInode}

/-- sys_open with `O_CREATE` by a process with every descriptor in use, when
create makes or finds the file: the call returns -1 with the inodes as
create left them, the file put, and the file table as it was. -/
theorem sysOpen_create_full
    (creating : omode &&& oCreate ≠ 0) (full : ∀ fd, q.ofile fd ≠ none)
    (created : s.vol.create q.cwd path tFile 0 0 = .ok (v, some ip))
    (put : v.iunlockput ip = .ok v')
    (freeEntries : ∀ f, (s.file f).ref = 0 → (s.file f).type = .none) :
    s.sysOpen q path omode = .ok (⟨v', s.file⟩, q, -1) := by
  unfold sysOpen
  rw [if_pos creating, created]
  simp only [Fallible.ok_bind]
  cases got : filealloc { s with vol := v } with
  | none => simp [put]
  | some r =>
      obtain ⟨s₁, f⟩ := r
      obtain ⟨free, rfl⟩ := filealloc_eq_some got
      have plain : (s.file f).type = .none := freeEntries f free
      dsimp only
      rw [Proc.fdalloc_eq_none.mpr full]
      dsimp only
      rw [fileclose_of_last (by simp) (by simp [plain])]
      -- the entry goes back to what it was: no references, type none
      have restored : { (s.file f) with ref := 0, type := .none } = s.file f := by
        rw [← free, ← plain]
      simp [put, restored]

end Sys

namespace World

/-- A fresh image is a reachable state. -/
theorem reachable_boot (files : List (List UInt8 × List UInt8)) {ι : Type} [DecidableEq ι] (init : ι) :
    Reachable (boot files init) :=
  Machine.Reachable.initial ⟨files, init, rfl⟩

/-- The directories "/a" and "/a/b". -/
def dirA : List UInt8 := [slash, 97]

def dirAB : List UInt8 := [slash, 97, slash, 98]

/-- mkdir /a; mkdir /a/b; chdir /a/b; unlink /a/b; unlink /a, all by init. -/
def unlinkCwdRun : List (Unit × Call Unit) :=
  [((), .sysMkdir dirA), ((), .sysMkdir dirAB), ((), .sysChdir dirAB),
    ((), .sysUnlink dirAB), ((), .sysUnlink dirA)]

/-- The failing input: on the image of no files the five calls of
`unlinkCwdRun` all return 0; then init's working directory, the removed
/a/b, has a ".." entry naming the inode of /a, which the last unlink freed,
and open("..") panics. -/
theorem unlinked_cwd_dotDot_freed :
    ∃ w, (boot [] ()).runCalls unlinkCwdRun = some (w, [0, 0, 0, 0, 0]) ∧ Reachable w ∧
      ∃ q, w.proc () = some q ∧
        (∃ de ∈ entries (w.sys.vol.inode q.cwd).data,
          de.inum ≠ 0 ∧ cname dirSiz de.name = dotDot ∧ (w.sys.vol.node de.inum).type = 0) ∧
        w.call () q (.sysOpen dotDot oRdonly) = .error (.panic "ilock: no type") := by
  have summary : ((boot [] ()).runCalls unlinkCwdRun).map (fun (w, rs) => (rs, (w.proc ()).map fun (q : Proc) =>
      (decide (∃ de ∈ entries (w.sys.vol.inode q.cwd).data,
          de.inum ≠ 0 ∧ cname dirSiz de.name = dotDot ∧ (w.sys.vol.node de.inum).type = 0),
        Fallible.errorOf (w.call () q (.sysOpen dotDot oRdonly))))) =
      some ([0, 0, 0, 0, 0], some (true, some (.panic "ilock: no type"))) := by
    decide +kernel
  obtain ⟨⟨w, rs⟩, ran, seen⟩ := Option.map_eq_some_iff.mp summary
  simp only [Prod.mk.injEq] at seen
  obtain ⟨rfl, live⟩ := seen
  obtain ⟨q, alive, facts⟩ := Option.map_eq_some_iff.mp live
  simp only [Prod.mk.injEq, decide_eq_true_iff] at facts
  obtain ⟨freed, panics⟩ := facts
  exact ⟨w, ran, (reachable_boot [] ()).run (run_of_runCalls ran), q, alive, freed,
    Fallible.eq_error_of_errorOf panics⟩

/-- README's path, "/README", and the name "x". -/
def readmePath : List UInt8 := slash :: Vol.readme

def xName : List UInt8 := [120]

/-- init opens /README under each of its descriptors. -/
def openAllRun : List (Unit × Call Unit) := List.replicate nOFile ((), .sysOpen readmePath oRdonly)

/-- In every state where a process with no free descriptor calls open with
`O_CREATE` and create makes the file, the call returns -1 and leaves the
inodes as create changed them; and the failing input: on the image holding
README, init opens it under all 16 descriptors, then open("/x",
`O_CREATE|O_RDWR`) returns -1 with "x" entered in the root as a new file. -/
theorem open_create_full_keeps_link :
    (∀ (s : Sys) (q : Proc) (path : List UInt8) (omode : BitVec 32) (v v' : Vol) (ip : Fin nInode),
      omode &&& oCreate ≠ 0 → (∀ fd, q.ofile fd ≠ none) →
      s.vol.create q.cwd path tFile 0 0 = .ok (v, some ip) → v.iunlockput ip = .ok v' →
      (∀ f, (s.file f).ref = 0 → (s.file f).type = .none) →
      s.sysOpen q path omode = .ok (⟨v', s.file⟩, q, -1)) ∧
    ∃ w, (boot [(Vol.readme, [104, 105])] ()).runCalls openAllRun =
        some (w, (List.range nOFile).map Int.ofNat) ∧ Reachable w ∧
      ∃ q, w.proc () = some q ∧ (∀ fd, q.ofile fd ≠ none) ∧
        lookup xName (entries (w.sys.vol.node rootIno).data) 0 = none ∧
        ∃ w', w.call () q (.sysOpen (slash :: xName) (oCreate ||| oRdwr)) = .ok (w', -1) ∧
          ∃ inum off, lookup xName (entries (w'.sys.vol.node rootIno).data) 0 = some (inum, off) ∧
            (w'.sys.vol.node inum).type = tFile ∧ (w'.sys.vol.node inum).nlink = 1 := by
  refine ⟨fun s q path omode v v' ip creating full created put freeEntries =>
    Sys.sysOpen_create_full creating full created put freeEntries, ?_⟩
  -- what the run returned and what the state it reached holds, read off the
  -- run's value as one test
  have summary : ((boot [(Vol.readme, [104, 105])] ()).runCalls openAllRun).map (fun ((w : World Unit), rs) =>
      decide (rs = (List.range nOFile).map Int.ofNat) && (w.proc ()).any fun (q : Proc) =>
        decide (∀ fd, q.ofile fd ≠ none) && (lookup xName (entries (w.sys.vol.node rootIno).data) 0).isNone &&
          ((w.call () q (.sysOpen (slash :: xName) (oCreate ||| oRdwr))).toOption).any fun ((w' : World Unit), r) =>
            decide (r = -1) && (lookup xName (entries (w'.sys.vol.node rootIno).data) 0).any fun (inum, _) =>
              decide ((w'.sys.vol.node inum).type = tFile ∧ (w'.sys.vol.node inum).nlink = 1)) =
      some true := by
    decide +kernel
  obtain ⟨⟨w, rs⟩, ran, seen⟩ := Option.map_eq_some_iff.mp summary
  simp only [Bool.and_eq_true, decide_eq_true_iff, Option.any_eq_true, Option.isNone_iff_eq_none] at seen
  obtain ⟨rfl, q, alive, ⟨full, absent⟩, ⟨w', r⟩, call_ok, rfl, ⟨inum, off⟩, found, isFile, single⟩ := seen
  exact ⟨w, ran, (reachable_boot _ ()).run (run_of_runCalls ran), q, alive, full, absent, w',
    Fallible.eq_ok_of_toOption call_ok, inum, off, found, isFile, single⟩

end World

end Fs
end Xv6
