import Mathlib
import Xv6.Fs.Mkfs
import Xv6.Lib.Fallible

/-!
# Inodes and the namespace

The namespace half of fs.c, over the inodes of the root device as the
system calls see them: each inode's type, device numbers, link count and
bytes, and the icache's entries with their references, `valid` flags and
sleep-locks.

What this layer leaves out, and where that is justified:

* A valid icache entry holds the same dinode as the disk (the inode cache is
  write-through, `icache_unique_write_through`), so an inode has one copy
  here, and `iupdate` is the write to it.
* An inode's bytes are the list `Disk.content` reads off its blocks; readi
  and writei on it are `readBytes` and `writeBytes`, which `readi_eq` and
  `writei_eq` show the block-level readi and writei compute.  A file holds
  the blocks bmap gives its bytes (`blocksFor`), and the volume counts the
  blocks balloc can still hand out: writei panics as balloc does when the
  blocks it adds are more than that, and itrunc gives a file's blocks back.
  mkfs's root directory ending in a hole is counted as the block that the
  first lookup in it allocates.
* A system call runs as one step: a sleep-lock of the icache is only ever
  held by the running call, so taking one that call already holds sleeps for
  good (`Halt.hang`), and a call leaves every lock free.  The log's
  transactions are the calls' boundaries.
* All inodes live on `ROOTDEV`, so sys_link's `dp->dev != ip->dev` is false.

`mkfs` is the image mkfs.c writes, the start of every run of the system
calls.
-/

namespace Xv6
namespace Fs

/-- How a system call ends other than by returning: a panic with its message,
or a sleep that nothing will end. -/
inductive Halt where
  | panic (msg : String)
  | hang
deriving DecidableEq

/-- An inode of the root device: the fields of its dinode that the system
calls read and write, and its bytes. -/
structure Node where
  type : Int
  major : Int
  minor : Int
  nlink : Int
  data : List UInt8
deriving DecidableEq

/-- An icache entry: the inode it holds, its references, `valid`, and whether
the running call holds its sleep-lock. -/
structure Slot where
  inum : Nat
  ref : Nat
  valid : Bool
  locked : Bool
deriving DecidableEq

/-- The inodes of the root device, the icache, and the number of blocks of
the bitmap balloc finds free. -/
structure Vol where
  node : Nat → Node
  slot : Fin nInode → Slot
  free : Nat

/-- The blocks a file of `len` bytes holds as bmap lays it out: one for each
`BSIZE` bytes begun, and the indirect block once there are more than
`NDIRECT` of them. -/
def blocksFor (len : Nat) : Nat :=
  let data := (len + bSize - 1) / bSize
  if nDirect < data then data + 1 else data

namespace Vol

/-- An inode's dinode becomes `x`: a change followed by iupdate. -/
def setNode (v : Vol) (inum : Nat) (x : Node) : Vol :=
  { v with node := Function.update v.node inum x }

/-- Entry `i` becomes `e`. -/
def setSlot (v : Vol) (i : Fin nInode) (e : Slot) : Vol :=
  { v with slot := Function.update v.slot i e }

/-- The inode entry `i` holds. -/
def inode (v : Vol) (i : Fin nInode) : Node := v.node (v.slot i).inum

/-- iget: another reference to the entry holding the inode, or else the
first free entry, recycled for it with `valid` cleared. -/
def iget (v : Vol) (inum : Nat) : Except Halt (Vol × Fin nInode) :=
  match Scan.sweep (fun i => decide (0 < (v.slot i).ref ∧ (v.slot i).inum = inum))
      (fun i => decide ((v.slot i).ref = 0)) (List.finRange nInode) none with
  | .inl i => .ok (v.setSlot i { v.slot i with ref := (v.slot i).ref + 1 }, i)
  | .inr (some i) => .ok (v.setSlot i { v.slot i with inum := inum, ref := 1, valid := false }, i)
  | .inr none => .error (.panic "iget: no inodes")

/-- idup. -/
def idup (v : Vol) (i : Fin nInode) : Vol :=
  v.setSlot i { v.slot i with ref := (v.slot i).ref + 1 }

/-- ilock: take the sleep-lock, and read the dinode when the entry is not
valid. -/
def ilock (v : Vol) (i : Fin nInode) : Except Halt Vol :=
  let e := v.slot i
  if e.ref < 1 then .error (.panic "ilock")
  else if e.locked then .error .hang
  else if e.valid then .ok (v.setSlot i { e with locked := true })
  else if (v.node e.inum).type = 0 then .error (.panic "ilock: no type")
  else .ok (v.setSlot i { e with locked := true, valid := true })

/-- iunlock. -/
def iunlock (v : Vol) (i : Fin nInode) : Except Halt Vol :=
  let e := v.slot i
  if !e.locked ∨ e.ref < 1 then .error (.panic "iunlock")
  else .ok (v.setSlot i { e with locked := false })

/-- iput: take the sleep-lock; on the last reference to a valid inode with
no links, truncate it, clear its type and mark the entry not valid; then
drop the reference. -/
def iput (v : Vol) (i : Fin nInode) : Except Halt Vol :=
  let e := v.slot i
  if e.locked then .error .hang
  else
    let v₁ :=
      if e.valid ∧ (v.node e.inum).nlink = 0 ∧ e.ref = 1 then
        -- itrunc's bfree of every block of the file
        { (v.setNode e.inum { v.node e.inum with type := 0, data := [] }).setSlot i
            { e with valid := false } with
          free := v.free + blocksFor (v.node e.inum).data.length }
      else v
    .ok (v₁.setSlot i { v₁.slot i with ref := (v₁.slot i).ref - 1 })

/-- iunlockput. -/
def iunlockput (v : Vol) (i : Fin nInode) : Except Halt Vol := do
  let v ← v.iunlock i
  v.iput i

/-- ialloc: give the first free inode after inode 0 the type `type`, its
other fields zeroed, then iget it. -/
def ialloc (v : Vol) (type : Int) : Except Halt (Vol × Fin nInode) :=
  match (List.range' 1 (sb.ninodes - 1)).find? (fun inum => (v.node inum).type = 0) with
  | some inum => (v.setNode inum ⟨type, 0, 0, 0, []⟩).iget inum
  | none => .error (.panic "ialloc: no inodes")

/-- readi of `n` bytes from `off`.  A device's reads go to `devsw`, which is
not modelled: they fail, as for a major with no driver. -/
def readi (v : Vol) (i : Fin nInode) (off n : Nat) : Int × List UInt8 :=
  let x := v.inode i
  if x.type = tDev then (-1, []) else readBytes x.data off n

/-- writei of the bytes `src` at `off`, the device case as in readi.  bmap
allocates the blocks the write adds to the file, and balloc panics when the
disk has fewer free blocks than that. -/
def writei (v : Vol) (i : Fin nInode) (src : List UInt8) (off : Nat) : Except Halt (Vol × Int) :=
  let x := v.inode i
  if x.type = tDev then .ok (v, -1)
  else
    let (r, data) := writeBytes x.data src off
    if v.free + blocksFor x.data.length < blocksFor data.length then .error (.panic "balloc: out of blocks")
    else
      .ok ({ v.setNode (v.slot i).inum { x with data := data } with
        free := v.free + blocksFor x.data.length - blocksFor data.length }, r)

/-! ## Directories -/

/-- dirlookup's loop over `count` entries from `off` on: the first in use
whose name matches, or none. -/
def dirScan (v : Vol) (dp : Fin nInode) (name : List UInt8) : Nat → Nat → Except Halt (Option (Nat × Nat))
  | _, 0 => .ok none
  | off, count + 1 =>
      let (r, bytes) := v.readi dp off direntSize
      if r ≠ direntSize then .error (.panic "dirlookup read")
      else
        let de := Dirent.ofBytes bytes
        if de.inum = 0 then dirScan v dp name (off + direntSize) count
        else if namecmp name de.name = 0 then .ok (some (de.inum, off))
        else dirScan v dp name (off + direntSize) count

/-- The number of times `for(off = 0; off < size; off += sizeof(de))` runs. -/
def direntCount (size : Nat) : Nat := (size + direntSize - 1) / direntSize

/-- dirlookup: the entry the loop finds, with another reference to its inode
and the entry's offset. -/
def dirlookup (v : Vol) (dp : Fin nInode) (name : List UInt8) :
    Except Halt (Vol × Option (Fin nInode × Nat)) :=
  if (v.inode dp).type ≠ tDir then .error (.panic "dirlookup not DIR")
  else do
    match ← v.dirScan dp name 0 (direntCount (v.inode dp).data.length) with
    | none => return (v, none)
    | some (inum, off) =>
        let (v, ip) ← v.iget inum
        return (v, some (ip, off))

/-- dirlink's loop for an empty entry over `count` entries from `off` on: the
offset of the first, or the offset where the loop ends. -/
def emptyScan (v : Vol) (dp : Fin nInode) : Nat → Nat → Except Halt Nat
  | off, 0 => .ok off
  | off, count + 1 =>
      let (r, bytes) := v.readi dp off direntSize
      if r ≠ direntSize then .error (.panic "dirlink read")
      else if (Dirent.ofBytes bytes).inum = 0 then .ok off
      else emptyScan v dp (off + direntSize) count

/-- dirlink: -1 when the name is present; else the entry `(name, inum)`
written into the first empty entry or at the end. -/
def dirlink (v : Vol) (dp : Fin nInode) (name : List UInt8) (inum : Nat) : Except Halt (Vol × Int) := do
  match ← v.dirlookup dp name with
  | (v, some (ip, _)) =>
      let v ← v.iput ip
      return (v, -1)
  | (v, none) =>
      let off ← v.emptyScan dp 0 (direntCount (v.inode dp).data.length)
      let (v, r) ← v.writei dp (Dirent.bytes ⟨inum, strncpy name dirSiz⟩) off
      if r ≠ direntSize then throw (.panic "dirlink")
      return (v, 0)

/-! ## Paths -/

/-- namex's loop from the inode `ip`, with the name buffer holding `name`,
for at most `fuel` turns; at the exit `nameiparent` drops its reference and
returns 0, namei returns `ip`.  A path of `fuel` bytes ends the loop
before the fuel does. -/
def namexLoop (parent : Bool) : Nat → Vol → List UInt8 → List UInt8 → Fin nInode →
    Except Halt (Vol × Option (Fin nInode) × List UInt8)
  | fuel, v, path, name, ip =>
      match fuel, skipelem path with
      | fuel + 1, some (name, rest) => do
          let v ← v.ilock ip
          if (v.inode ip).type ≠ tDir then
            let v ← v.iunlockput ip
            return (v, none, name)
          else if parent ∧ rest.headD 0 = 0 then
            -- stop one level early
            let v ← v.iunlock ip
            return (v, some ip, name)
          else
            match ← v.dirlookup ip name with
            | (v, none) =>
                let v ← v.iunlockput ip
                return (v, none, name)
            | (v, some (next, _)) =>
                let v ← v.iunlockput ip
                namexLoop parent fuel v rest name next
      | _, _ =>
          if parent then do
            let v ← v.iput ip
            return (v, none, name)
          else return (v, some ip, name)

/-- namex from the root for a path that starts with '/', else from the
caller's working directory `cwd`. -/
def namex (v : Vol) (cwd : Fin nInode) (path : List UInt8) (parent : Bool) :
    Except Halt (Vol × Option (Fin nInode) × List UInt8) := do
  let (v, ip) ← if path.headD 0 = slash then v.iget rootIno else pure (v.idup cwd, cwd)
  namexLoop parent path.length v path [] ip

/-- namei. -/
def namei (v : Vol) (cwd : Fin nInode) (path : List UInt8) : Except Halt (Vol × Option (Fin nInode)) := do
  let (v, ip, _) ← v.namex cwd path false
  return (v, ip)

/-- nameiparent: the parent's entry and the last element's name. -/
def nameiparent (v : Vol) (cwd : Fin nInode) (path : List UInt8) :
    Except Halt (Vol × Option (Fin nInode) × List UInt8) :=
  v.namex cwd path true

/-! ## Field lemmas -/

variable {v v' w : Vol} {i j : Fin nInode} {inum : Nat}

@[simp] theorem setNode_node (v : Vol) (inum : Nat) (x : Node) :
    (v.setNode inum x).node = Function.update v.node inum x := rfl

@[simp] theorem setNode_slot (v : Vol) (inum : Nat) (x : Node) : (v.setNode inum x).slot = v.slot := rfl

@[simp] theorem setSlot_node (v : Vol) (i : Fin nInode) (e : Slot) : (v.setSlot i e).node = v.node := rfl

@[simp] theorem setNode_free (v : Vol) (inum : Nat) (x : Node) : (v.setNode inum x).free = v.free := rfl

@[simp] theorem setSlot_free (v : Vol) (i : Fin nInode) (e : Slot) : (v.setSlot i e).free = v.free := rfl

@[simp] theorem setSlot_slot_self (v : Vol) (i : Fin nInode) (e : Slot) : (v.setSlot i e).slot i = e :=
  Function.update_self ..

@[simp] theorem setSlot_slot_of_ne (v : Vol) {i j : Fin nInode} (e : Slot) (other : j ≠ i) :
    (v.setSlot i e).slot j = v.slot j :=
  Function.update_of_ne other ..

/-! ## Spec lemmas -/

/-- iget hands out the entry already holding the inode, with one more
reference, or recycles a free entry when no entry holds it. -/
theorem iget_cases (got : v.iget inum = .ok (v', i)) :
    (0 < (v.slot i).ref ∧ (v.slot i).inum = inum ∧
      v' = v.setSlot i { v.slot i with ref := (v.slot i).ref + 1 }) ∨
    ((v.slot i).ref = 0 ∧ (∀ j, 0 < (v.slot j).ref → (v.slot j).inum ≠ inum) ∧
      v' = v.setSlot i { v.slot i with inum := inum, ref := 1, valid := false }) := by
  unfold iget at got
  split at got
  · rename_i j swept
    cases got
    have hit := (Scan.sweep_inl swept).2
    simp only [decide_eq_true_eq] at hit
    exact .inl ⟨hit.1, hit.2, rfl⟩
  · rename_i j swept
    cases got
    obtain ⟨missed, remembered⟩ := Scan.sweep_inr swept
    rw [Option.none_or] at remembered
    have free := List.find?_some remembered.symm
    simp only [decide_eq_true_eq] at free
    refine .inr ⟨free, fun j used same => ?_, rfl⟩
    have miss := missed j (List.mem_finRange j)
    simp only [decide_eq_false_iff_not] at miss
    exact miss ⟨used, same⟩
  · cases got

/-- What iget leaves, in both of its cases: the entry handed out holds the
inode and has one more reference, an entry in use keeps its inode, and
nothing else changes. -/
theorem iget_spec (got : v.iget inum = .ok (v', i)) :
    v'.node = v.node ∧ (v'.slot i).inum = inum ∧ (v'.slot i).ref = (v.slot i).ref + 1 ∧
      (v'.slot i).locked = (v.slot i).locked ∧
      (0 < (v.slot i).ref → (v'.slot i).inum = (v.slot i).inum) ∧ ∀ j ≠ i, v'.slot j = v.slot j := by
  rcases iget_cases got with ⟨used, holds, rfl⟩ | ⟨free, _, rfl⟩
  · refine ⟨rfl, by simp [holds], by simp, by simp, fun _ => by simp, fun j other => ?_⟩
    exact setSlot_slot_of_ne _ _ other
  · refine ⟨rfl, by simp, by simp [free], by simp, fun used => absurd used (by omega),
      fun j other => ?_⟩
    exact setSlot_slot_of_ne _ _ other

/-- iget panics only when every entry is in use. -/
theorem iget_ok_of_free (free : ∃ j, (v.slot j).ref = 0) (inum : Nat) :
    ∃ v' i, v.iget inum = .ok (v', i) := by
  unfold iget
  split
  · exact ⟨_, _, rfl⟩
  · exact ⟨_, _, rfl⟩
  · rename_i swept
    obtain ⟨_, remembered⟩ := Scan.sweep_inr swept
    rw [Option.none_or, eq_comm, List.find?_eq_none] at remembered
    obtain ⟨j, unused⟩ := free
    have missed := remembered j (List.mem_finRange j)
    simp [unused] at missed

/-- Every icache entry in use, entry `j` by inode `j + 1`, over a disk of
free inodes. -/
def busySlots : Vol := ⟨fun _ => ⟨0, 0, 0, 0, []⟩, fun j => ⟨j.val + 1, 1, true, false⟩, 0⟩

theorem ilock_eq (locked : v.ilock i = .ok v') :
    0 < (v.slot i).ref ∧ (v.slot i).locked = false ∧
      ((v.slot i).valid = true ∨ (v.inode i).type ≠ 0) ∧
      v' = v.setSlot i { v.slot i with locked := true, valid := true } := by
  unfold ilock at locked
  dsimp only at locked
  split at locked
  · cases locked
  · rename_i used
    split at locked
    · cases locked
    · rename_i free
      split at locked
      · rename_i valid
        cases locked
        refine ⟨by omega, by simpa using free, .inl valid, ?_⟩
        cases e : v.slot i
        simp_all
      · rename_i invalid
        split at locked
        · cases locked
        · rename_i typed
          cases locked
          exact ⟨by omega, by simpa using free, .inr typed, rfl⟩

/-- ilock of an entry in use, not locked, whose inode has a type. -/
theorem ilock_of_typed (used : 0 < (v.slot i).ref) (free : (v.slot i).locked = false)
    (typed : (v.inode i).type ≠ 0) :
    v.ilock i = .ok (v.setSlot i { v.slot i with locked := true, valid := true }) := by
  unfold ilock
  dsimp only
  rw [if_neg (by omega), if_neg (by simp [free])]
  split
  · rename_i valid
    congr 2
    cases e : v.slot i
    simp_all
  · rw [inode] at typed
    rw [if_neg typed]

theorem iunlock_eq (unlocked : v.iunlock i = .ok v') :
    (v.slot i).locked = true ∧ 0 < (v.slot i).ref ∧
      v' = v.setSlot i { v.slot i with locked := false } := by
  unfold iunlock at unlocked
  dsimp only at unlocked
  split at unlocked
  · cases unlocked
  · rename_i held
    cases unlocked
    simp only [Bool.not_eq_true', not_or, Bool.not_eq_false] at held
    exact ⟨held.1, by omega, rfl⟩

theorem iunlock_of_locked (held : (v.slot i).locked = true) (used : 0 < (v.slot i).ref) :
    v.iunlock i = .ok (v.setSlot i { v.slot i with locked := false }) := by
  unfold iunlock
  dsimp only
  rw [if_neg (by simp [held]; omega)]

/-- iput either frees the inode, on its last reference with no links, or
only drops the reference. -/
theorem iput_cases (put : v.iput i = .ok v') :
    (v.slot i).locked = false ∧
    (((v.slot i).valid = true ∧ (v.inode i).nlink = 0 ∧ (v.slot i).ref = 1 ∧
      v' = { (v.setNode (v.slot i).inum { v.inode i with type := 0, data := [] }).setSlot i
        { v.slot i with valid := false, ref := 0 } with free := v.free + blocksFor (v.inode i).data.length }) ∨
    (¬ ((v.slot i).valid = true ∧ (v.inode i).nlink = 0 ∧ (v.slot i).ref = 1) ∧
      v' = v.setSlot i { v.slot i with ref := (v.slot i).ref - 1 })) := by
  unfold iput at put
  dsimp only at put
  split at put
  · cases put
  · rename_i free
    refine ⟨by simpa using free, ?_⟩
    split at put
    · rename_i last
      cases put
      refine .inl ⟨last.1, last.2.1, last.2.2, ?_⟩
      simp [setSlot, Function.update_idem, last.2.2, inode]
    · rename_i notLast
      cases put
      exact .inr ⟨notLast, rfl⟩

/-- iget of the inode an entry in use holds, when no other entry in use
holds it: another reference to that entry. -/
theorem iget_of_held (used : 0 < (v.slot i).ref)
    (unique : ∀ j, 0 < (v.slot j).ref → (v.slot j).inum = (v.slot i).inum → j = i) :
    v.iget (v.slot i).inum = .ok (v.idup i, i) := by
  cases got : v.iget (v.slot i).inum with
  | error e =>
      unfold iget at got
      split at got
      · cases got
      · cases got
      · rename_i swept
        have missed := (Scan.sweep_inr swept).1 i (List.mem_finRange i)
        simp [used] at missed
  | ok r =>
      obtain ⟨v', j⟩ := r
      rcases iget_cases got with ⟨usedJ, holds, rfl⟩ | ⟨_, others, _⟩
      · obtain rfl := unique j usedJ holds
        rfl
      · exact absurd rfl (others i used)

/-- iput of an entry whose sleep-lock the caller holds sleeps for good. -/
theorem iput_of_locked (held : (v.slot i).locked = true) : v.iput i = .error .hang := by
  unfold iput
  dsimp only
  rw [if_pos held]

/-- iput of a reference that is not the last, or of an inode with links,
only drops the reference. -/
theorem iput_of_kept (free : (v.slot i).locked = false)
    (kept : (v.inode i).nlink ≠ 0 ∨ 2 ≤ (v.slot i).ref) :
    v.iput i = .ok (v.setSlot i { v.slot i with ref := (v.slot i).ref - 1 }) := by
  unfold iput
  rw [if_neg (by simp [free])]
  dsimp only
  rw [if_neg (fun last => by rcases kept with linked | shared <;> simp_all [inode])]


/-- writei on a file, with free blocks for what the write adds: the bytes
`writeBytes` gives, and the blocks the file gains taken off the free ones. -/
theorem writei_of_room {src : List UInt8} {off : Nat} (notDev : (v.inode i).type ≠ tDev)
    (room : blocksFor (writeBytes (v.inode i).data src off).2.length ≤ v.free + blocksFor (v.inode i).data.length) :
    v.writei i src off =
      .ok ({ v.setNode (v.slot i).inum { v.inode i with data := (writeBytes (v.inode i).data src off).2 } with
        free := v.free + blocksFor (v.inode i).data.length - blocksFor (writeBytes (v.inode i).data src off).2.length },
        (writeBytes (v.inode i).data src off).1) := by
  unfold writei
  rw [if_neg notDev]
  dsimp only
  rw [if_neg (by omega)]

/-- writei that has to add more blocks than are free panics in balloc. -/
theorem writei_out_of_blocks {src : List UInt8} {off : Nat} (notDev : (v.inode i).type ≠ tDev)
    (short : v.free + blocksFor (v.inode i).data.length < blocksFor (writeBytes (v.inode i).data src off).2.length) :
    v.writei i src off = .error (.panic "balloc: out of blocks") := by
  unfold writei
  rw [if_neg notDev]
  dsimp only
  rw [if_pos short]

/-- A file grown keeps at least its blocks. -/
theorem blocksFor_mono {len len' : Nat} (le : len ≤ len') : blocksFor len ≤ blocksFor len' := by
  unfold blocksFor
  have data : (len + bSize - 1) / bSize ≤ (len' + bSize - 1) / bSize := Nat.div_le_div_right (by omega)
  dsimp only
  split <;> split <;> omega

/-! ## Spec lemmas of the directory functions -/

variable {dp : Fin nInode}

/-- readi of a whole entry inside a file's bytes. -/
theorem readi_entry (notDev : (v.inode dp).type ≠ tDev) (small : (v.inode dp).data.length < 2 ^ 32)
    (off : Nat) (inside : off + direntSize ≤ (v.inode dp).data.length) :
    v.readi dp off direntSize = ((direntSize : Int), ((v.inode dp).data.drop off).take direntSize) := by
  unfold readi readBytes
  dsimp only
  rw [if_neg notDev, if_neg (by omega), if_neg (by omega)]

/-- dirlookup's loop over whole entries finds what `lookup` finds. -/
theorem dirScan_eq (notDev : (v.inode dp).type ≠ tDev) (small : (v.inode dp).data.length < 2 ^ 32)
    (name : List UInt8) {off count : Nat} (inside : off + direntSize * count ≤ (v.inode dp).data.length) :
    v.dirScan dp name off count = .ok (lookup name (entriesFrom (v.inode dp).data off count) off) := by
  induction count generalizing off with
  | zero => rfl
  | succ count inductionHypothesis =>
      rw [Nat.mul_succ] at inside
      have rest : v.dirScan dp name (off + direntSize) count = _ := inductionHypothesis (by omega)
      rw [dirScan, readi_entry notDev small off (by omega)]
      dsimp only
      rw [if_neg (by simp), entriesFrom, lookup, ← entryAt]
      by_cases empty : (entryAt (v.inode dp).data off).inum = 0
      · rw [if_pos empty, rest, if_neg (fun used => used.1 empty)]
      · rw [if_neg empty]
        by_cases same : cname dirSiz name = cname dirSiz (entryAt (v.inode dp).data off).name
        · rw [if_pos ((namecmp_eq_zero_iff _ _).mpr same), if_pos ⟨empty, same⟩]
        · rw [if_neg (fun zero => same ((namecmp_eq_zero_iff _ _).mp zero)),
            if_neg (fun found => same found.2), rest]

/-- dirlink's loop over whole entries stops where `firstEmpty` says. -/
theorem emptyScan_eq (notDev : (v.inode dp).type ≠ tDev) (small : (v.inode dp).data.length < 2 ^ 32)
    {off count : Nat} (inside : off + direntSize * count ≤ (v.inode dp).data.length) :
    v.emptyScan dp off count = .ok (firstEmpty (entriesFrom (v.inode dp).data off count) off) := by
  induction count generalizing off with
  | zero => rfl
  | succ count inductionHypothesis =>
      rw [Nat.mul_succ] at inside
      have rest : v.emptyScan dp (off + direntSize) count = _ := inductionHypothesis (by omega)
      rw [emptyScan, readi_entry notDev small off (by omega)]
      dsimp only
      rw [if_neg (by simp), entriesFrom, firstEmpty, ← entryAt]
      by_cases empty : (entryAt (v.inode dp).data off).inum = 0
      · rw [if_pos empty, if_pos empty]
      · rw [if_neg empty, if_neg empty, rest]

theorem direntCount_of_aligned {size : Nat} (aligned : size % direntSize = 0) :
    direntCount size = size / direntSize := by
  unfold direntCount
  rw [show direntSize = 16 from rfl] at aligned ⊢
  omega

/-- dirlookup on a directory of whole entries: the entry `lookup` finds,
with another reference to its inode. -/
theorem dirlookup_eq (isDir : (v.inode dp).type = tDir)
    (aligned : (v.inode dp).data.length % direntSize = 0) (small : (v.inode dp).data.length < 2 ^ 32)
    (name : List UInt8) :
    v.dirlookup dp name =
      match lookup name (entries (v.inode dp).data) 0 with
      | none => .ok (v, none)
      | some (inum, off) => v.iget inum >>= fun (v', ip) => .ok (v', some (ip, off)) := by
  have notDev : (v.inode dp).type ≠ tDev := by rw [isDir]; decide
  unfold dirlookup
  rw [if_neg (by rw [isDir]; exact fun differ => differ rfl), direntCount_of_aligned aligned,
    dirScan_eq notDev small name (by rw [Nat.zero_add]; exact Nat.mul_div_le _ _)]
  rfl

/-- dirlink on a directory of whole entries: when `lookup` finds the name,
another reference to its inode taken and dropped, and -1; else the entry
written where `firstEmpty` says, and a panic when that write fails. -/
theorem dirlink_eq (isDir : (v.inode dp).type = tDir)
    (aligned : (v.inode dp).data.length % direntSize = 0) (small : (v.inode dp).data.length < 2 ^ 32)
    (name : List UInt8) (inum : Nat) :
    v.dirlink dp name inum =
      match lookup name (entries (v.inode dp).data) 0 with
      | some (found, _) => v.iget found >>= fun (v', ip) => v'.iput ip >>= fun v'' => .ok (v'', -1)
      | none =>
          v.writei dp (Dirent.bytes ⟨inum, strncpy name dirSiz⟩) (firstEmpty (entries (v.inode dp).data) 0) >>=
            fun (v', r) => if r ≠ direntSize then .error (.panic "dirlink") else .ok (v', 0) := by
  have notDev : (v.inode dp).type ≠ tDev := by rw [isDir]; decide
  unfold dirlink
  rw [dirlookup_eq isDir aligned small]
  cases found : lookup name (entries (v.inode dp).data) 0 with
  | none =>
      dsimp only
      rw [Fallible.ok_bind]
      dsimp only
      rw [direntCount_of_aligned aligned,
        emptyScan_eq notDev small (by rw [Nat.zero_add]; exact Nat.mul_div_le _ _), Fallible.ok_bind]
      rfl
  | some entry =>
      dsimp only
      cases v.iget entry.1 with
      | error e => rfl
      | ok r => rfl

/-! ## The image mkfs writes -/

theorem nInode_pos : 0 < nInode := by decide

/-- Entry 0 of the icache. -/
def slot₀ : Fin nInode := ⟨0, nInode_pos⟩

/-- The dinode of an inode no one has allocated. -/
def Node.free : Node := ⟨0, 0, 0, 0, []⟩

/-- The root directory mkfs writes: ".", "..", and an entry for each file, in
the order of its arguments, the size then rounded up past the next block
boundary, so that the directory ends in a block of zeros. -/
def mkfsRoot (names : List (List UInt8)) : List UInt8 :=
  let bytes := encode (⟨rootIno, strncpy dot dirSiz⟩ :: ⟨rootIno, strncpy dotDot dirSiz⟩ ::
    names.zipIdx.map fun (name, k) => ⟨k + 2, strncpy name dirSiz⟩)
  bytes ++ List.replicate ((bytes.length / bSize + 1) * bSize - bytes.length) 0

/-- The inodes mkfs writes for `files`, each a name as mkfs enters it
(without "user/" and a leading '_') and its bytes, with the icache as the
kernel boots it, every entry free. -/
def mkfs (files : List (List UInt8 × List UInt8)) : Vol where
  node inum :=
    if inum = rootIno then ⟨tDir, 0, 0, 1, mkfsRoot (files.map Prod.fst)⟩
    else if 2 ≤ inum then
      match files[inum - 2]? with
      | some (_, bytes) => ⟨tFile, 0, 0, 1, bytes⟩
      | none => Node.free
    else Node.free
  slot _ := ⟨0, 0, false, false⟩
  -- mkfs's last balloc marks every block it used, the metadata first
  free := fsSize - Mkfs.nMeta - (blocksFor (mkfsRoot (files.map Prod.fst)).length +
    (files.map fun file => blocksFor file.2.length).sum)


/-- The only directory of a fresh image is its root. -/
theorem mkfs_dir {files : List (List UInt8 × List UInt8)} {inum : Nat}
    (isDir : ((mkfs files).node inum).type = tDir) : inum = rootIno := by
  unfold mkfs at isDir
  dsimp only at isDir
  split at isDir
  · assumption
  · split at isDir
    · split at isDir
      · cases isDir
      · cases isDir
    · cases isDir

end Vol

end Fs
end Xv6
