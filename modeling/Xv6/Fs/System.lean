import Xv6.Fs.Icache
import Xv6.Lib.Transition

/-!
# Runs of the inode cache

Processes call the functions of the inode cache in any order and
interleaving, one call a step.  A step that needs a sleep-lock held by
another process is blocked, and a panic halts the machine: neither has a
next state.  Callers hold what fs.c asks of them: a reference for `idup` and
`iput`, and the sleep-lock for readi, writei and the changes of sysfile.c.
Which process holds which reference is not recorded; any reference may be
dropped.
-/

namespace Xv6
namespace Fs

inductive Action (ι : Type) where
  | iget (dev inum : Nat)
  | idup (i : Fin nInode)
  | ilock (q : ι) (i : Fin nInode)
  | iunlock (q : ι) (i : Fin nInode)
  | iput (i : Fin nInode)
  | ialloc (dev : Nat) (type : Int)
  | change (q : ι) (i : Fin nInode) (ch : Change)
  | readi (q : ι) (i : Fin nInode) (off n : Nat)
  | writei (q : ι) (i : Fin nInode) (off n : Nat) (src : Nat → Fin nIndirect → Nat)

namespace System

variable {ι : Type} [DecidableEq ι]

def step (c : System ι) : Action ι → Option (System ι)
  | .iget dev inum => (c.iget dev inum).toOption.map Prod.fst
  | .idup i => if 0 < (c.inode i).ref then some (c.idup i) else none
  | .ilock q i => if c.lock i = none then (c.ilock q i).toOption else none
  | .iunlock q i => (c.iunlock q i).toOption
  | .iput i => if c.lock i = none ∧ 0 < (c.inode i).ref then (c.iput i).toOption else none
  | .ialloc dev type => (c.ialloc dev type).toOption.map Prod.fst
  | .change q i ch => if c.lock i = some q then some (c.change i ch) else none
  | .readi q i off n => if c.lock i = some q then (c.readi i off n).toOption else none
  | .writei q i off n src => if c.lock i = some q then (c.writei i off n src).toOption else none

/-- After boot, over the disk `disk`: the icache is zeroed, so every entry is
free. -/
def initial (disk : Disk) : System ι :=
  ⟨fun _ => ⟨0, 0, 0, false, Dinode.zero⟩, fun _ => none, disk⟩

def Reachable (disk : Disk) (c : System ι) : Prop :=
  Machine.Reachable (fun c => c = initial disk) step c

/-! ## What each step does -/

variable {c c' : System ι}

theorem step_iget {dev inum : Nat} (stepped : c.step (.iget dev inum) = some c') :
    ∃ i, c.iget dev inum = .ok (c', i) := by
  obtain ⟨⟨c₁, i⟩, got, rfl⟩ := Option.map_eq_some_iff.mp stepped
  exact ⟨i, Fallible.eq_ok_of_toOption got⟩

theorem step_idup {i : Fin nInode} (stepped : c.step (.idup i) = some c') :
    0 < (c.inode i).ref ∧ c' = c.idup i := by
  simp only [step] at stepped
  split_ifs at stepped with used
  cases stepped
  exact ⟨used, rfl⟩

theorem step_ilock {q : ι} {i : Fin nInode} (stepped : c.step (.ilock q i) = some c') :
    c.lock i = none ∧ c.ilock q i = .ok c' := by
  simp only [step] at stepped
  split_ifs at stepped with free
  exact ⟨free, Fallible.eq_ok_of_toOption stepped⟩

theorem step_iunlock {q : ι} {i : Fin nInode} (stepped : c.step (.iunlock q i) = some c') :
    c.iunlock q i = .ok c' :=
  Fallible.eq_ok_of_toOption stepped

theorem step_iput {i : Fin nInode} (stepped : c.step (.iput i) = some c') :
    c.lock i = none ∧ 0 < (c.inode i).ref ∧ c.iput i = .ok c' := by
  simp only [step] at stepped
  split_ifs at stepped with ready
  exact ⟨ready.1, ready.2, Fallible.eq_ok_of_toOption stepped⟩

theorem step_ialloc {dev : Nat} {type : Int} (stepped : c.step (.ialloc dev type) = some c') :
    ∃ i, c.ialloc dev type = .ok (c', i) := by
  obtain ⟨⟨c₁, i⟩, allocated, rfl⟩ := Option.map_eq_some_iff.mp stepped
  exact ⟨i, Fallible.eq_ok_of_toOption allocated⟩

theorem step_change {q : ι} {i : Fin nInode} {ch : Change} (stepped : c.step (.change q i ch) = some c') :
    c.lock i = some q ∧ c' = c.change i ch := by
  simp only [step] at stepped
  split_ifs at stepped with held
  cases stepped
  exact ⟨held, rfl⟩

theorem step_readi {q : ι} {i : Fin nInode} {off n : Nat} (stepped : c.step (.readi q i off n) = some c') :
    c.lock i = some q ∧ c.readi i off n = .ok c' := by
  simp only [step] at stepped
  split_ifs at stepped with held
  exact ⟨held, Fallible.eq_ok_of_toOption stepped⟩

theorem step_writei {q : ι} {i : Fin nInode} {off n : Nat} {src : Nat → Fin nIndirect → Nat}
    (stepped : c.step (.writei q i off n src) = some c') :
    c.lock i = some q ∧ c.writei i off n src = .ok c' := by
  simp only [step] at stepped
  split_ifs at stepped with held
  exact ⟨held, Fallible.eq_ok_of_toOption stepped⟩

end System

end Fs
end Xv6
