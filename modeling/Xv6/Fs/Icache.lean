import Xv6.Fs.Basic
import Xv6.Lib.Scan

/-!
# The inode cache

fs.c's `icache`: `NINODE` entries, each with the inode it holds, a reference
count, the flag `valid` and the copy of the dinode, over the disk of
`Xv6.Fs.Basic`.  A sleep-lock is modelled by the process holding it.

Each function is one critical section: `iget` and `idup` under
`icache.lock`, the others under the entry's sleep-lock, which the caller
holds (`readi`, `writei` and the field changes of sysfile.c), takes on entry
(`ilock`) or takes and releases (`iput`).  The counts `readi` and `writei`
return and the bytes they move are not modelled; a `T_DEV` inode sends both
to `devsw`, which does not touch the inode.
-/

namespace Xv6
namespace Fs

/-- `T_DEV` of stat.h. -/
def tDev : Int := 3

/-- struct inode, without its sleep-lock. -/
structure Inode where
  dev : Nat
  inum : Nat
  ref : Nat
  valid : Bool
  copy : Dinode

/-- The inode an entry holds. -/
def Inode.key (e : Inode) : Nat × Nat := (e.dev, e.inum)

/-- icache, the holder of each entry's sleep-lock, and the disk. -/
structure System (ι : Type) where
  inode : Fin nInode → Inode
  lock : Fin nInode → Option ι
  disk : Disk

/-- The changes sysfile.c makes to the fields of a locked inode, each
followed by iupdate: `ip->nlink++` (sys_link, and create for the parent of a
new directory), `ip->nlink--` (sys_unlink, and sys_link taking back its
increment), and create's `ip->major = major; ip->minor = minor;
ip->nlink = 1`. -/
inductive Change where
  | nlinkUp
  | nlinkDown
  | create (major minor : Int)

def Change.apply : Change → Dinode → Dinode
  | .nlinkUp, x => { x with nlink := x.nlink + 1 }
  | .nlinkDown, x => { x with nlink := x.nlink - 1 }
  | .create major minor, x => { x with major := major, minor := minor, nlink := 1 }

namespace System

variable {ι : Type}

/-- Entry `i` becomes `e`. -/
def set (c : System ι) (i : Fin nInode) (e : Inode) : System ι :=
  { c with inode := Function.update c.inode i e }

/-- iupdate: copy entry `i`'s dinode to the disk. -/
def iupdate (c : System ι) (i : Fin nInode) : System ι :=
  { c with disk := { c.disk with
      dinode := Function.update c.disk.dinode (c.inode i).key (c.inode i).copy } }

/-- iget: another reference to the entry holding the inode, or else the
first free entry, recycled for it with `valid` cleared. -/
def iget (c : System ι) (dev inum : Nat) : Except String (System ι × Fin nInode) :=
  match Scan.sweep
      (fun i => decide (0 < (c.inode i).ref ∧ (c.inode i).dev = dev ∧ (c.inode i).inum = inum))
      (fun i => decide ((c.inode i).ref = 0)) (List.finRange nInode) none with
  | .inl i => .ok (c.set i { c.inode i with ref := (c.inode i).ref + 1 }, i)
  | .inr (some i) =>
      .ok (c.set i { c.inode i with dev := dev, inum := inum, ref := 1, valid := false }, i)
  | .inr none => .error "iget: no inodes"

/-- idup. -/
def idup (c : System ι) (i : Fin nInode) : System ι :=
  c.set i { c.inode i with ref := (c.inode i).ref + 1 }

/-- ilock by process `q`, once the sleep-lock is free: read the dinode if the
entry is not valid. -/
def ilock (c : System ι) (q : ι) (i : Fin nInode) : Except String (System ι) :=
  if (c.inode i).ref < 1 then .error "ilock"
  else
    let c₁ := { c with lock := Function.update c.lock i (some q) }
    if (c.inode i).valid then .ok c₁
    else
      let x := c.disk.dinode (c.inode i).key
      if x.type = 0 then .error "ilock: no type"
      else .ok (c₁.set i { c.inode i with copy := x, valid := true })

/-- iunlock by process `q`. -/
def iunlock [DecidableEq ι] (c : System ι) (q : ι) (i : Fin nInode) : Except String (System ι) :=
  if c.lock i ≠ some q ∨ (c.inode i).ref < 1 then .error "iunlock"
  else .ok { c with lock := Function.update c.lock i none }

/-- itrunc: free the direct blocks, then the blocks the indirect block lists
and the indirect block itself; the addresses and the size become 0, and
iupdate.  (The direct loop clears each address it frees; the others were
0 already.) -/
def itrunc (c : System ι) (i : Fin nInode) : Except String (System ι) := do
  let e := c.inode i
  let d₁ ← bfreeEach e.dev e.copy.addrs ((List.finRange nDirect).map Fin.castSucc) c.disk
  let d₂ ← bfreeIndirect e.dev (e.copy.addrs (Fin.last nDirect)) d₁
  return ({ c with disk := d₂ }.set i
    { e with copy := { e.copy with addrs := fun _ => 0, size := 0 } }).iupdate i

/-- What iput does to an inode with no links and no other references:
truncate it, clear its type, iupdate, and mark the entry not valid. -/
def iputFree (c : System ι) (i : Fin nInode) : Except String (System ι) := do
  let c' ← c.itrunc i
  let c'' := (c'.set i { c'.inode i with copy := { (c'.inode i).copy with type := 0 } }).iupdate i
  return c''.set i { c''.inode i with valid := false }

/-- iput, once the sleep-lock is free: free the inode when this is the last
reference to an inode with no links, then drop the reference. -/
def iput (c : System ι) (i : Fin nInode) : Except String (System ι) := do
  let e := c.inode i
  let c₁ ← (if e.valid ∧ e.copy.nlink = 0 ∧ e.ref = 1 then c.iputFree i else pure c)
  return c₁.set i { c₁.inode i with ref := (c₁.inode i).ref - 1 }

/-- ialloc: give the first free dinode after inode 0 the type `type`, then
iget it. -/
def ialloc (c : System ι) (dev : Nat) (type : Int) : Except String (System ι × Fin nInode) :=
  match (List.range' 1 (sb.ninodes - 1)).find? (fun inum => (c.disk.dinode (dev, inum)).type = 0) with
  | some inum =>
      -- a free inode: mark it allocated on the disk
      iget { c with disk := { c.disk with
        dinode := Function.update c.disk.dinode (dev, inum) { Dinode.zero with type := type } } }
        dev inum
  | none => .error "ialloc: no inodes"

/-- A change of sysfile.c to the locked entry `i`, and iupdate. -/
def change (c : System ι) (i : Fin nInode) (ch : Change) : System ι :=
  (c.set i { c.inode i with copy := ch.apply (c.inode i).copy }).iupdate i

/-- readi of `n` bytes from `off`, cut at the end of the file. -/
def readi (c : System ι) (i : Fin nInode) (off n : Nat) : Except String (System ι) :=
  let e := c.inode i
  if e.copy.type = tDev then .ok c
  else if e.copy.size < off ∨ 2 ^ 32 ≤ off + n then .ok c
  else do
    let n := if e.copy.size < off + n then e.copy.size - off else n
    let (d, x) ← rwLoop e.dev (fun _ _ d => d) c.disk e.copy off n
    return { c with disk := d }.set i { e with copy := x }

/-- writei of `n` bytes from `off`, storing `src bn` in block `bn` of the
file; the size grows, and iupdate runs, when the write ends past it. -/
def writei (c : System ι) (i : Fin nInode) (off n : Nat) (src : Nat → Fin nIndirect → Nat) :
    Except String (System ι) :=
  let e := c.inode i
  if e.copy.type = tDev then .ok c
  else if e.copy.size < off ∨ 2 ^ 32 ≤ off + n then .ok c
  else if maxFile * bSize < off + n then .ok c
  else do
    let (d, x) ← rwLoop e.dev (store e.dev src) c.disk e.copy off n
    let c₁ := { c with disk := d }.set i { e with copy := x }
    if 0 < n ∧ x.size < off + n then
      return (c₁.set i { e with copy := { x with size := off + n } }).iupdate i
    else return c₁

/-! ## Field lemmas -/

@[simp] theorem set_inode_self (c : System ι) (i : Fin nInode) (e : Inode) :
    (c.set i e).inode i = e := Function.update_self ..

@[simp] theorem set_inode_of_ne (c : System ι) {i j : Fin nInode} (e : Inode) (other : j ≠ i) :
    (c.set i e).inode j = c.inode j := Function.update_of_ne other ..

@[simp] theorem set_lock (c : System ι) (i : Fin nInode) (e : Inode) :
    (c.set i e).lock = c.lock := rfl

@[simp] theorem set_disk (c : System ι) (i : Fin nInode) (e : Inode) :
    (c.set i e).disk = c.disk := rfl

@[simp] theorem iupdate_inode (c : System ι) (i : Fin nInode) :
    (c.iupdate i).inode = c.inode := rfl

@[simp] theorem iupdate_lock (c : System ι) (i : Fin nInode) :
    (c.iupdate i).lock = c.lock := rfl

@[simp] theorem iupdate_dinode (c : System ι) (i : Fin nInode) :
    (c.iupdate i).disk.dinode = Function.update c.disk.dinode (c.inode i).key (c.inode i).copy :=
  rfl

@[simp] theorem iupdate_bitmap (c : System ι) (i : Fin nInode) :
    (c.iupdate i).disk.bitmap = c.disk.bitmap := rfl

@[simp] theorem iupdate_block (c : System ι) (i : Fin nInode) :
    (c.iupdate i).disk.block = c.disk.block := rfl

theorem set_set (c : System ι) (i : Fin nInode) (e e' : Inode) :
    (c.set i e).set i e' = c.set i e' := by
  simp [set]

theorem set_self (c : System ι) (i : Fin nInode) : c.set i (c.inode i) = c := by
  simp [set]

/-! ## Spec lemmas -/

variable {c c' : System ι} {i : Fin nInode}

/-- iget hands out the entry already holding the inode, with one more
reference, or recycles a free entry when no entry holds it. -/
theorem iget_cases {dev inum : Nat} (got : c.iget dev inum = .ok (c', i)) :
    (0 < (c.inode i).ref ∧ (c.inode i).key = (dev, inum) ∧
      c' = c.set i { c.inode i with ref := (c.inode i).ref + 1 }) ∨
    ((c.inode i).ref = 0 ∧ (∀ j, 0 < (c.inode j).ref → (c.inode j).key ≠ (dev, inum)) ∧
      c' = c.set i { c.inode i with dev := dev, inum := inum, ref := 1, valid := false }) := by
  unfold iget at got
  split at got
  · rename_i j swept
    cases got
    have hit := (Scan.sweep_inl swept).2
    simp only [decide_eq_true_eq] at hit
    exact .inl ⟨hit.1, by rw [Inode.key, hit.2.1, hit.2.2], rfl⟩
  · rename_i j swept
    cases got
    obtain ⟨missed, remembered⟩ := Scan.sweep_inr swept
    rw [Option.none_or] at remembered
    have free := List.find?_some remembered.symm
    simp only [decide_eq_true_eq] at free
    refine .inr ⟨free, fun j used same => ?_, rfl⟩
    have miss := missed j (List.mem_finRange j)
    simp only [decide_eq_false_iff_not] at miss
    exact miss ⟨used, congrArg Prod.fst same, congrArg Prod.snd same⟩
  · cases got

theorem ilock_eq {q : ι} (locked : c.ilock q i = .ok c') :
    0 < (c.inode i).ref ∧
      ((c.inode i).valid = true ∧ c' = { c with lock := Function.update c.lock i (some q) } ∨
        (c.inode i).valid = false ∧ (c.disk.dinode (c.inode i).key).type ≠ 0 ∧
          c' = ({ c with lock := Function.update c.lock i (some q) } : System ι).set i
            { c.inode i with copy := c.disk.dinode (c.inode i).key, valid := true }) := by
  unfold ilock at locked
  split at locked
  · cases locked
  · rename_i used
    refine ⟨by omega, ?_⟩
    split at locked
    · rename_i valid
      cases locked
      exact .inl ⟨valid, rfl⟩
    · rename_i invalid
      dsimp only at locked
      split at locked
      · cases locked
      · rename_i typed
        cases locked
        exact .inr ⟨by simpa using invalid, typed, rfl⟩

theorem iunlock_eq [DecidableEq ι] {q : ι} (unlocked : c.iunlock q i = .ok c') :
    c.lock i = some q ∧ 0 < (c.inode i).ref ∧
      c' = { c with lock := Function.update c.lock i none } := by
  unfold iunlock at unlocked
  split at unlocked
  · cases unlocked
  · rename_i held
    cases unlocked
    rw [not_or, not_not] at held
    exact ⟨held.1, by omega, rfl⟩

/-- The dinode iput leaves for an inode it frees. -/
def freed (x : Dinode) : Dinode := { x with addrs := fun _ => 0, size := 0, type := 0 }

/-- itrunc frees blocks of the inode's device, other than block 0, and writes
the emptied copy through. -/
theorem itrunc_eq (truncated : c.itrunc i = .ok c') :
    ∃ d, c.disk.Frees (c.inode i).dev d ∧
      c' = ({ c with disk := d }.set i
        { c.inode i with copy := { (c.inode i).copy with addrs := fun _ => 0, size := 0 } }).iupdate i := by
  unfold itrunc at truncated
  obtain ⟨d₁, direct, rest⟩ := Fallible.bind_ok truncated
  obtain ⟨d₂, indirect, done⟩ := Fallible.bind_ok rest
  exact ⟨d₂, (bfreeEach_frees direct).trans (bfreeIndirect_frees indirect), (Except.ok.inj done).symm⟩

/-- iput either frees the inode, on its last reference with no links, or
only drops the reference. -/
theorem iput_cases (put : c.iput i = .ok c') :
    ((c.inode i).valid = true ∧ (c.inode i).copy.nlink = 0 ∧ (c.inode i).ref = 1 ∧
      ∃ d, c.disk.Frees (c.inode i).dev d ∧
        c' = { c with disk := { d with
            dinode := Function.update d.dinode (c.inode i).key (freed (c.inode i).copy) } }.set i
          { c.inode i with copy := freed (c.inode i).copy, valid := false, ref := 0 }) ∨
    (¬ ((c.inode i).valid = true ∧ (c.inode i).copy.nlink = 0 ∧ (c.inode i).ref = 1) ∧
      c' = c.set i { c.inode i with ref := (c.inode i).ref - 1 }) := by
  unfold iput at put
  obtain ⟨c₁, first, done⟩ := Fallible.bind_ok put
  obtain rfl := Except.ok.inj done
  split at first
  · rename_i last
    unfold iputFree at first
    obtain ⟨c₂, truncated, rest⟩ := Fallible.bind_ok first
    cases rest
    obtain ⟨d, frees, rfl⟩ := itrunc_eq truncated
    refine .inl ⟨last.1, last.2.1, last.2.2, d, frees, ?_⟩
    simp only [set, iupdate, Function.update_self, Function.update_idem, last.2.2, Inode.key]
    rfl
  · rename_i notLast
    cases first
    exact .inr ⟨notLast, rfl⟩

theorem ialloc_cases {dev : Nat} {type : Int} (allocated : c.ialloc dev type = .ok (c', i)) :
    ∃ inum, 1 ≤ inum ∧ inum < sb.ninodes ∧ (c.disk.dinode (dev, inum)).type = 0 ∧
      ({ c with disk := { c.disk with
          dinode := Function.update c.disk.dinode (dev, inum) { Dinode.zero with type := type } } } :
        System ι).iget dev inum = .ok (c', i) := by
  unfold ialloc at allocated
  split at allocated
  · rename_i inum found
    have inside := List.mem_range'_1.mp (List.mem_of_find?_eq_some found)
    have free := List.find?_some found
    simp only [decide_eq_true_eq] at free
    exact ⟨inum, inside.1, by omega, free, allocated⟩
  · cases allocated

/-- readi changes nothing, or runs the loop over bytes that all lie below the
size of the file. -/
theorem readi_cases {off n : Nat} (read : c.readi i off n = .ok c') :
    c' = c ∨ ∃ left, off + left ≤ (c.inode i).copy.size ∧ ∃ d x,
      rwLoop (c.inode i).dev (fun _ _ d => d) c.disk (c.inode i).copy off left = .ok (d, x) ∧
        c' = { c with disk := d }.set i { c.inode i with copy := x } := by
  unfold readi at read
  dsimp only at read
  split at read
  · cases read
    exact .inl rfl
  · split at read
    · cases read
      exact .inl rfl
    · rename_i inside
      obtain ⟨⟨d, x⟩, ran, done⟩ := Fallible.bind_ok read
      dsimp only at done
      refine .inr ⟨_, ?_, d, x, ran, (Except.ok.inj done).symm⟩
      split <;> omega

/-- writei changes nothing, or runs the loop and then, when the write ends
past the end of the file, grows the size and writes the copy through. -/
theorem writei_cases {off n : Nat} {src : Nat → Fin nIndirect → Nat}
    (written : c.writei i off n src = .ok c') :
    c' = c ∨ off ≤ (c.inode i).copy.size ∧ ∃ d x,
      rwLoop (c.inode i).dev (store (c.inode i).dev src) c.disk (c.inode i).copy off n = .ok (d, x) ∧
        (0 < n ∧ x.size < off + n ∧
            c' = ({ c with disk := d }.set i
              { c.inode i with copy := { x with size := off + n } }).iupdate i ∨
          ¬ (0 < n ∧ x.size < off + n) ∧ c' = { c with disk := d }.set i { c.inode i with copy := x }) := by
  unfold writei at written
  dsimp only at written
  split at written
  · cases written
    exact .inl rfl
  · split at written
    · cases written
      exact .inl rfl
    · rename_i inside
      split at written
      · cases written
        exact .inl rfl
      · obtain ⟨⟨d, x⟩, ran, rest⟩ := Fallible.bind_ok written
        refine .inr ⟨by omega, d, x, ran, ?_⟩
        dsimp only at rest
        split at rest
        · rename_i grows
          refine .inl ⟨grows.1, grows.2, ?_⟩
          rw [← Except.ok.inj rest, set_set]
        · rename_i stays
          exact .inr ⟨stays, (Except.ok.inj rest).symm⟩

end System

end Fs
end Xv6
