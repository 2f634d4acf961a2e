import Xv6.Fs.Dir
import Mathlib.Data.List.Defs

/-!
# mkfs

`fs/mkfs.c` writes the image the kernel boots from: zeroed blocks, the root
directory as inode 1 with ".", ".." and one entry per input file, each
input's bytes appended through mkfs's own `iappend`, and the bitmap of the
blocks it used.  The image is the kernel's `Disk` for the root device.
mkfs's `xint` and `xshort` only fix the byte order, the identity on x86, and
are left out; so is the superblock, which the kernel model reads as the
constant `sb`.

After the last entry mkfs rounds the root directory's size up to the end of
the next block.  When the entries end exactly on a block boundary, as they do
for 30 input files, the size then covers a block that was never allocated,
so the root is not laid out as the kernel's readi expects (`Layout`).
-/

namespace Xv6
namespace Fs
namespace Mkfs

/-- `ROOTDEV`, the device the image is for. -/
def rootDev : Nat := 1

/-- `nbitmap`: the blocks of the bitmap. -/
def nBitmap : Nat := fsSize / (bSize * 8) + 1

/-- `NINODES`. -/
def nInodes : Nat := 200

/-- `IPB`: dinodes per block, a dinode being 64 bytes. -/
def ipb : Nat := bSize / 64

/-- `ninodeblocks`. -/
def nInodeBlocks : Nat := nInodes / ipb + 1

/-- `nmeta`: boot block, superblock, log, inode blocks and bitmap. -/
def nMeta : Nat := 2 + logSize + nInodeBlocks + nBitmap

/-- The image and mkfs's counters `freeinode` and `freeblock`. -/
structure State where
  disk : Disk
  freeinode : Nat
  freeblock : Nat

/-- The image once `wsect(i, zeroes)` has run for every block. -/
def zeroDisk : Disk := ⟨fun _ => Dinode.zero, fun _ => false, fun _ _ => 0⟩

/-- winode. -/
def State.winode (s : State) (inum : Nat) (din : Dinode) : State :=
  { s with disk := { s.disk with dinode := Function.update s.disk.dinode (rootDev, inum) din } }

/-- rsect: a block past the `FSSIZE` blocks of the image file reads short,
and mkfs exits. -/
def rsect (s : State) (b : Nat) : Except String (Fin nIndirect → Nat) :=
  if b < fsSize then .ok (s.disk.block (rootDev, b)) else .error "read"

/-- `rsect(x, buf); bcopy(p, buf + o, n1); wsect(x, buf);`: bytes copied
into block `x` from byte `o`. -/
def State.copyIn (s : State) (x o : Nat) (p : List UInt8) : State :=
  { s with disk := s.disk.put (rootDev, x) o p }

/-- ialloc: the next inode number, with a dinode of `type`, one link and no bytes. -/
def ialloc (s : State) (type : Int) : State × Nat :=
  ({ s.winode s.freeinode { Dinode.zero with type := type, nlink := 1 } with
      freeinode := s.freeinode + 1 }, s.freeinode)

/-- `x = xint(din.addrs[k])`, taking `freeblock++` first when it is 0. -/
def takeAddr (s : State) (din : Dinode) (k : Fin (nDirect + 1)) : State × Dinode :=
  if din.addrs k = 0 then ({ s with freeblock := s.freeblock + 1 }, din.setAddr k s.freeblock)
  else (s, din)

/-- The block that holds block `fbn` of the file `din`, from `freeblock` when
it, or the indirect block, is missing. -/
def blockFor (s : State) (din : Dinode) (fbn : Nat) (inRange : fbn < maxFile) :
    Except String (State × Dinode × Nat) :=
  if fbn < nDirect then
    let taken := takeAddr s din (slot fbn)
    .ok (taken.1, taken.2, taken.2.addrs (slot fbn))
  else do
    let taken := takeAddr s din (Fin.last nDirect)
    let ind := taken.2.addrs (Fin.last nDirect)
    let indirect ← rsect taken.1 ind
    let j : Fin nIndirect := ⟨fbn - nDirect, by
      have : 0 < nIndirect := by decide
      unfold maxFile at inRange
      omega⟩
    if indirect j = 0 then
      -- indirect[fbn - NDIRECT] = xint(freeblock++); wsect(...)
      let block := Function.update taken.1.disk.block (rootDev, ind) (Function.update indirect j taken.1.freeblock)
      .ok ({ taken.1 with disk := { taken.1.disk with block := block }, freeblock := taken.1.freeblock + 1 },
        taken.2, taken.1.freeblock)
    else .ok (taken.1, taken.2, indirect j)

/-- iappend's `while(n > 0)` loop from byte `off` of the file, `p` the bytes
left: each turn copies up to the end of the block `fbn`. -/
def appendLoop (s : State) (din : Dinode) (off : Nat) (p : List UInt8) :
    Except String (State × Dinode × Nat) :=
  if p = [] then .ok (s, din, off)
  else if inRange : off / bSize < maxFile then do
    let fbn := off / bSize
    let (s, din, x) ← blockFor s din fbn inRange
    let _ ← rsect s x
    let n1 := min p.length ((fbn + 1) * bSize - off)
    appendLoop (s.copyIn x (off - fbn * bSize) (p.take n1)) din (off + n1) (p.drop n1)
  else .error "assertion failed: fbn < MAXFILE"
termination_by p.length
decreasing_by
  -- the block `fbn` ends after `off`, so each turn copies at least one byte
  have nonempty : 0 < p.length := List.length_pos_iff.mpr ‹¬p = []›
  have ends : off < (off / bSize + 1) * bSize := by unfold bSize; omega
  simp only [List.length_drop]
  omega

/-- iappend: `n` bytes at the end of inode `inum`, and its new size. -/
def iappend (s : State) (inum : Nat) (bytes : List UInt8) : Except String State := do
  let din := s.disk.dinode (rootDev, inum)
  let (s, din, off) ← appendLoop s din din.size bytes
  return s.winode inum { din with size := off }

/-- "user/". -/
def userDir : List UInt8 := [117, 115, 101, 114, 47]

/-- The name mkfs enters for an argument: without a leading "user/", failing
the assertion when a '/' is left, then without a leading '_'. -/
def shortname (arg : List UInt8) : Except String (List UInt8) :=
  let name := if strncmp arg userDir 5 = 0 then arg.drop 5 else arg
  if slash ∈ name then .error "assertion failed: index(shortname, '/') == 0"
  else .ok (if name.headD 0 = 95 then name.tail else name)

/-- One input file, its name and bytes: a new inode, its entry in the root
directory, then its bytes in the chunks of up to `BSIZE` that read returns. -/
def addFile (s : State) (file : List UInt8 × List UInt8) : Except String State := do
  let name ← shortname file.1
  let (s, inum) := ialloc s tFile
  let s ← iappend s rootIno (Dirent.bytes ⟨inum, strncpy name dirSiz⟩)
  (file.2.toChunks bSize).foldlM (fun s chunk => iappend s inum chunk) s

/-- mkfs's main over its input files. -/
def main (files : List (List UInt8 × List UInt8)) : Except String State := do
  let (s, rootino) := ialloc ⟨zeroDisk, 1, nMeta⟩ tDir
  if rootino ≠ rootIno then throw "assertion failed: rootino == ROOTINO"
  let s ← iappend s rootino (Dirent.bytes ⟨rootino, strncpy dot dirSiz⟩)
  let s ← iappend s rootino (Dirent.bytes ⟨rootino, strncpy dotDot dirSiz⟩)
  let s ← files.foldlM addFile s
  -- fix size of root inode dir
  let din := s.disk.dinode (rootDev, rootino)
  let s := s.winode rootino { din with size := (din.size / bSize + 1) * bSize }
  -- balloc(freeblock): the bitmap marks blocks [0, freeblock)
  if s.freeblock < bSize * 8 then
    let bitmap := fun k => if k.1 = rootDev then decide (k.2 < s.freeblock) else s.disk.bitmap k
    return { s with disk := { s.disk with bitmap := bitmap } }
  else throw "assertion failed: used < BSIZE*8"

/-! ## What iappend leaves alone -/

variable {s s' : State} {din din' : Dinode}

theorem takeAddr_frame (s : State) (din : Dinode) (k : Fin (nDirect + 1)) :
    (takeAddr s din k).1.disk = s.disk ∧ (takeAddr s din k).1.freeinode = s.freeinode := by
  unfold takeAddr
  split <;> exact ⟨rfl, rfl⟩

/-- Finding a block writes no dinode and takes no inode number. -/
theorem blockFor_frame {fbn x : Nat} {inRange : fbn < maxFile}
    (found : blockFor s din fbn inRange = .ok (s', din', x)) :
    s'.disk.dinode = s.disk.dinode ∧ s'.freeinode = s.freeinode := by
  obtain ⟨disk, next⟩ := takeAddr_frame s din (slot fbn)
  obtain ⟨disk', next'⟩ := takeAddr_frame s din (Fin.last nDirect)
  unfold blockFor at found
  split at found
  · cases found
    exact ⟨congrArg Disk.dinode disk, next⟩
  · obtain ⟨indirect, -, rest⟩ := Fallible.bind_ok found
    dsimp only at rest
    split at rest <;> cases rest
    · exact ⟨by rw [← disk'], next'⟩
    · exact ⟨congrArg Disk.dinode disk', next'⟩

/-- The loop writes blocks and no dinode, and takes no inode number; the
induction follows the loop's turns. -/
theorem appendLoop_frame {off off' : Nat} {p : List UInt8}
    (ran : appendLoop s din off p = .ok (s', din', off')) :
    s'.disk.dinode = s.disk.dinode ∧ s'.freeinode = s.freeinode := by
  induction s, din, off, p using appendLoop.induct generalizing s' din' off' with
  | case1 s din off =>
    rw [appendLoop, if_pos rfl] at ran
    cases ran
    exact ⟨rfl, rfl⟩
  | case2 s din off p nonempty inRange fbn =>
    rename_i ih
    rw [appendLoop, if_neg nonempty, dif_pos inRange] at ran
    obtain ⟨⟨s₁, din₁, x⟩, found, rest⟩ := Fallible.bind_ok ran
    obtain ⟨_, -, rest⟩ := Fallible.bind_ok rest
    obtain ⟨disk, next⟩ := blockFor_frame found
    obtain ⟨disk', next'⟩ := ih s₁ din₁ x rest
    exact ⟨disk'.trans disk, next'.trans next⟩
  | case3 s din off p nonempty outOfRange =>
    rw [appendLoop, if_neg nonempty, dif_neg outOfRange] at ran
    cases ran

/-- iappend writes only the dinode it appends to. -/
theorem iappend_frame {inum : Nat} {bytes : List UInt8} (ran : iappend s inum bytes = .ok s') :
    (∀ j, j ≠ inum → s'.disk.dinode (rootDev, j) = s.disk.dinode (rootDev, j)) ∧
      s'.freeinode = s.freeinode := by
  obtain ⟨⟨s₁, din₁, off⟩, looped, done⟩ := Fallible.bind_ok ran
  cases done
  obtain ⟨disk, next⟩ := appendLoop_frame looped
  refine ⟨fun j other => ?_, next⟩
  simp only [State.winode]
  rw [Function.update_of_ne (by simpa using other), disk]

/-! ## Appending inside one direct block -/

theorem rsect_of_lt {b : Nat} (readable : b < fsSize) : rsect s b = .ok (s.disk.block (rootDev, b)) := by
  rw [rsect, if_pos readable]

theorem rsect_of_le {b : Nat} (past : fsSize ≤ b) : rsect s b = .error "read" := by
  rw [rsect, if_neg (Nat.not_lt.mpr past)]

theorem takeAddr_of_ne {k : Fin (nDirect + 1)} (present : din.addrs k ≠ 0) : takeAddr s din k = (s, din) := by
  rw [takeAddr, if_neg present]

theorem takeAddr_of_eq {k : Fin (nDirect + 1)} (absent : din.addrs k = 0) :
    takeAddr s din k = ({ s with freeblock := s.freeblock + 1 }, din.setAddr k s.freeblock) := by
  rw [takeAddr, if_pos absent]

/-- Bytes that fit in the rest of direct block `b` take one turn of the loop:
the block is found, or taken from `freeblock`, read, and the bytes copied
into it. -/
theorem appendLoop_within {off b : Nat} {p : List UInt8} (direct : b < nDirect) (inBlock : off / bSize = b)
    (fits : off + p.length ≤ (b + 1) * bSize) (nonempty : p ≠ []) :
    appendLoop s din off p =
      (rsect (takeAddr s din (slot b)).1 ((takeAddr s din (slot b)).2.addrs (slot b))).map fun _ =>
        ((takeAddr s din (slot b)).1.copyIn ((takeAddr s din (slot b)).2.addrs (slot b)) (off - b * bSize) p,
          (takeAddr s din (slot b)).2, off + p.length) := by
  have inRange : off / bSize < maxFile := by
    unfold maxFile
    omega
  have found : blockFor s din (off / bSize) inRange =
      .ok ((takeAddr s din (slot b)).1, (takeAddr s din (slot b)).2, (takeAddr s din (slot b)).2.addrs (slot b)) := by
    rw [blockFor, if_pos (inBlock ▸ direct), inBlock]
  have whole : min p.length ((b + 1) * bSize - off) = p.length := by
    omega
  rw [appendLoop, if_neg nonempty, dif_pos inRange]
  dsimp only
  rw [found, Fallible.ok_bind]
  dsimp only
  rw [inBlock, whole, List.take_length, List.drop_length]
  cases rsect (takeAddr s din (slot b)).1 ((takeAddr s din (slot b)).2.addrs (slot b)) with
  | error e => rfl
  | ok block =>
    rw [Fallible.ok_bind, appendLoop, if_pos rfl]
    rfl

section Within

variable {inum b : Nat} {bytes : List UInt8} (direct : b < nDirect)
  (inBlock : (s.disk.dinode (rootDev, inum)).size / bSize = b)
  (fits : (s.disk.dinode (rootDev, inum)).size + bytes.length ≤ (b + 1) * bSize) (nonempty : bytes ≠ [])
include direct inBlock fits nonempty

/-- Appending bytes that fit in the rest of direct block `b` of inode `inum`,
that block being readable: the inode gets the block if it had none, the
bytes are copied in, and the inode grows by their length. -/
theorem iappend_within_ok
    (readable : (takeAddr s (s.disk.dinode (rootDev, inum)) (slot b)).2.addrs (slot b) < fsSize) :
    iappend s inum bytes =
      .ok (((takeAddr s (s.disk.dinode (rootDev, inum)) (slot b)).1.copyIn
          ((takeAddr s (s.disk.dinode (rootDev, inum)) (slot b)).2.addrs (slot b))
          ((s.disk.dinode (rootDev, inum)).size - b * bSize) bytes).winode inum
        { (takeAddr s (s.disk.dinode (rootDev, inum)) (slot b)).2 with
          size := (s.disk.dinode (rootDev, inum)).size + bytes.length }) := by
  rw [iappend, appendLoop_within direct inBlock fits nonempty, rsect_of_lt readable]
  rfl

/-- The same append when the block lies past the image: mkfs exits. -/
theorem iappend_within_unreadable
    (past : fsSize ≤ (takeAddr s (s.disk.dinode (rootDev, inum)) (slot b)).2.addrs (slot b)) :
    iappend s inum bytes = .error "read" := by
  rw [iappend, appendLoop_within direct inBlock fits nonempty, rsect_of_le past]
  rfl

/-- What an append inside one direct block leaves in the inode, when mkfs goes on. -/
theorem iappend_within (ran : iappend s inum bytes = .ok s') :
    s'.disk.dinode (rootDev, inum) =
      { (takeAddr s (s.disk.dinode (rootDev, inum)) (slot b)).2 with
        size := (s.disk.dinode (rootDev, inum)).size + bytes.length } := by
  by_cases readable : (takeAddr s (s.disk.dinode (rootDev, inum)) (slot b)).2.addrs (slot b) < fsSize
  · rw [iappend_within_ok direct inBlock fits nonempty readable] at ran
    cases ran
    simp [State.winode]
  · rw [iappend_within_unreadable direct inBlock fits nonempty (Nat.not_lt.mp readable)] at ran
    cases ran

end Within

/-! ## The root directory while mkfs fills it -/

/-- The root directory's dinode. -/
def State.root (s : State) : Dinode := s.disk.dinode (rootDev, rootIno)

/-- The root directory holding `k` entries, all in its first block: 16 bytes
each, block 0 present and no other, and `k` the next inode number. -/
structure RootShape (s : State) (k : Nat) : Prop where
  size : s.root.size = direntSize * k
  first : s.root.addrs (slot 0) ≠ 0
  others : ∀ j, j ≠ slot 0 → s.root.addrs j = 0
  next : s.freeinode = k
  two : 2 ≤ k

/-- The next inode number is not the root's. -/
theorem RootShape.next_ne_root {k : Nat} (shape : RootShape s k) : s.freeinode ≠ rootIno := by
  rw [shape.next]
  unfold rootIno
  have := shape.two
  omega

theorem ialloc_other {type : Int} {inum : Nat} (notRoot : s.freeinode ≠ rootIno)
    (allocated : ialloc s type = (s', inum)) :
    s'.root = s.root ∧ s'.freeinode = s.freeinode + 1 ∧ s'.freeblock = s.freeblock ∧ inum = s.freeinode := by
  cases allocated
  refine ⟨?_, rfl, rfl, rfl⟩
  simp only [State.root, State.winode]
  rw [Function.update_of_ne (by simpa using notRoot.symm)]

/-- A 16-byte entry after `k < 32` others lies in the first block. -/
theorem entry_fits {k : Nat} (din : Dinode) (de : Dirent) (named : de.name.length = dirSiz) (room : k < 32)
    (size : din.size = direntSize * k) :
    din.size / bSize = 0 ∧ din.size + de.bytes.length ≤ (0 + 1) * bSize ∧ de.bytes ≠ [] := by
  have len := length_bytes named
  refine ⟨?_, ?_, List.ne_nil_of_length_pos (by rw [len]; decide)⟩
  · rw [size]
    unfold direntSize dirSiz bSize
    omega
  · rw [size, len]
    unfold direntSize dirSiz bSize
    omega

/-- One more entry in the first block of the root directory. -/
theorem iappend_entry {k : Nat} {de : Dirent} (named : de.name.length = dirSiz) (room : k < 32)
    (size : s.root.size = direntSize * k) (others : ∀ j, j ≠ slot 0 → s.root.addrs j = 0)
    (first : s.root.addrs (slot 0) ≠ 0 ∨ s.freeblock ≠ 0) (ran : iappend s rootIno de.bytes = .ok s') :
    s'.root.size = direntSize * (k + 1) ∧ s'.root.addrs (slot 0) ≠ 0 ∧
      ∀ j, j ≠ slot 0 → s'.root.addrs j = 0 := by
  have len := length_bytes named
  obtain ⟨inBlock, fits, nonempty⟩ := entry_fits s.root de named room size
  have grown : s'.root = { (takeAddr s s.root (slot 0)).2 with size := s.root.size + de.bytes.length } :=
    iappend_within (by decide) inBlock fits nonempty ran
  rw [grown, size, len]
  refine ⟨(Nat.mul_succ _ _).symm, ?_, fun j other => ?_⟩
  · by_cases present : s.root.addrs (slot 0) = 0
    · rw [takeAddr_of_eq present]
      simpa [Dinode.setAddr] using first.resolve_left (not_not.mpr present)
    · rwa [takeAddr_of_ne present]
  · by_cases present : s.root.addrs (slot 0) = 0
    · rw [takeAddr_of_eq present]
      simp only [Dinode.setAddr, Function.update_of_ne other]
      exact others j other
    · rw [takeAddr_of_ne present]
      exact others j other

/-- A file's chunks, appended to its own inode, leave the root and the inode counter alone. -/
theorem appendAll_frame {inum : Nat} (notRoot : inum ≠ rootIno) :
    ∀ (chunks : List (List UInt8)) {s s' : State},
      chunks.foldlM (fun s chunk => iappend s inum chunk) s = .ok s' →
        s'.root = s.root ∧ s'.freeinode = s.freeinode
  | [], s, s', ran => by
    cases ran
    exact ⟨rfl, rfl⟩
  | chunk :: chunks, s, s', ran => by
    rw [List.foldlM_cons] at ran
    obtain ⟨s₁, appended, rest⟩ := Fallible.bind_ok ran
    obtain ⟨others, next⟩ := iappend_frame appended
    obtain ⟨root, next'⟩ := appendAll_frame notRoot chunks rest
    exact ⟨root.trans (others rootIno (Ne.symm notRoot)), next'.trans next⟩

/-- Adding a file puts one entry in the root directory and nothing else in it. -/
theorem addFile_shape {k : Nat} {file : List UInt8 × List UInt8} (shape : RootShape s k) (room : k < 32)
    (ran : addFile s file = .ok s') : RootShape s' (k + 1) := by
  obtain ⟨name, -, rest⟩ := Fallible.bind_ok ran
  generalize allocated : ialloc s tFile = pair at rest
  obtain ⟨s₁, inum⟩ := pair
  obtain ⟨root₁, next₁, -, rfl⟩ := ialloc_other shape.next_ne_root allocated
  obtain ⟨s₂, entry, chunks⟩ := Fallible.bind_ok rest
  obtain ⟨size₂, first₂, others₂⟩ := iappend_entry (length_strncpy name dirSiz) room
    (root₁ ▸ shape.size) (root₁ ▸ shape.others) (.inl (root₁ ▸ shape.first)) entry
  obtain ⟨-, next₂⟩ := iappend_frame entry
  obtain ⟨root', next'⟩ := appendAll_frame shape.next_ne_root _ chunks
  refine ⟨?_, ?_, ?_, ?_, by have := shape.two; omega⟩
  · rw [root']
    exact size₂
  · rw [root']
    exact first₂
  · rw [root']
    exact others₂
  · rw [next', next₂, next₁, shape.next]

/-- The input files, one after another, each add one entry to the root. -/
theorem addFiles_shape : ∀ (files : List (List UInt8 × List UInt8)) {s s' : State} {k : Nat},
    RootShape s k → k + files.length ≤ 32 → files.foldlM addFile s = .ok s' →
      RootShape s' (k + files.length)
  | [], s, s', k, shape, _, ran => by
    cases ran
    exact shape
  | file :: files, s, s', k, shape, room, ran => by
    rw [List.foldlM_cons] at ran
    obtain ⟨s₁, added, rest⟩ := Fallible.bind_ok ran
    have shape₁ := addFile_shape shape (by simp only [List.length_cons] at room; omega) added
    have done := addFiles_shape files shape₁ (by simp only [List.length_cons] at room; omega) rest
    have count : k + (files.length + 1) = k + 1 + files.length := by omega
    rw [List.length_cons, count]
    exact done

/-- The image once the root directory is allocated, before its entries. -/
def start : State := (ialloc ⟨zeroDisk, 1, nMeta⟩ tDir).1

theorem ialloc_start : ialloc ⟨zeroDisk, 1, nMeta⟩ tDir = (start, rootIno) := rfl

theorem start_root : start.root = { Dinode.zero with type := tDir, nlink := 1 } := by
  simp [start, ialloc, State.root, State.winode, rootIno]

/-- "." and ".." take the first block of the root directory. -/
theorem dots_shape {s₁ s₂ : State}
    (dotted : iappend start rootIno (Dirent.bytes ⟨rootIno, strncpy dot dirSiz⟩) = .ok s₁)
    (dotDotted : iappend s₁ rootIno (Dirent.bytes ⟨rootIno, strncpy dotDot dirSiz⟩) = .ok s₂) :
    RootShape s₂ 2 := by
  obtain ⟨size₁, first₁, others₁⟩ := iappend_entry (k := 0) (length_strncpy dot dirSiz) (by decide)
    (by rw [start_root]; rfl) (fun _ _ => by rw [start_root]; rfl) (.inr (by decide)) dotted
  obtain ⟨size₂, first₂, others₂⟩ := iappend_entry (length_strncpy dotDot dirSiz) (by decide)
    size₁ others₁ (.inl first₁) dotDotted
  obtain ⟨-, next₁⟩ := iappend_frame dotted
  obtain ⟨-, next₂⟩ := iappend_frame dotDotted
  exact ⟨size₂, first₂, others₂, next₂.trans (next₁.trans rfl), Nat.le_refl 2⟩

/-- With 30 input files the root directory's 32 entries end exactly at the end
of its first block, and mkfs's rounding `((off/BSIZE) + 1) * BSIZE` makes it
1024 bytes long.  Its second block was never allocated: the root is not laid
out as readi needs, and reading it past 512 bytes takes bmap's allocation
path. -/
theorem main_root_size_past_its_blocks {files : List (List UInt8 × List UInt8)}
    (thirty : files.length = 30) {s : State} (ran : main files = .ok s) :
    s.root.size = 2 * bSize ∧ s.disk.addrOf rootDev s.root 1 = 0 ∧ ¬ Layout s.disk rootDev s.root := by
  rw [main, ialloc_start] at ran
  simp only [ne_eq, not_true_eq_false, ↓reduceIte] at ran
  obtain ⟨s₁, dotted, rest⟩ := Fallible.bind_ok ran
  obtain ⟨s₂, dotDotted, rest⟩ := Fallible.bind_ok rest
  obtain ⟨s₃, filled, rest⟩ := Fallible.bind_ok rest
  have shape : RootShape s₃ (2 + files.length) :=
    addFiles_shape files (dots_shape dotted dotDotted) (by omega) filled
  rw [thirty] at shape
  -- the size fix and the bitmap write leave the root's blocks as they were
  have root : s.root = { s₃.root with size := (s₃.root.size / bSize + 1) * bSize } := by
    split at rest
    · cases rest
      simp [State.root, State.winode]
    · cases rest
  have size : s.root.size = 2 * bSize := by
    rw [root, shape.size]
    rfl
  have second : s.disk.addrOf rootDev s.root 1 = 0 := by
    rw [addrOf_of_lt (by decide), root]
    exact shape.others (slot 1) (by decide)
  refine ⟨size, second, fun layout => ?_⟩
  exact layout.mapped 1 (by rw [size]; decide) second

/-! ## mkfs runs on files with no bytes -/

/-- The root's first block is the first data block, and nothing else has
been taken from `freeblock`. -/
structure Ready (s : State) (k : Nat) : Prop where
  shape : RootShape s k
  first : s.root.addrs (slot 0) = nMeta
  free : s.freeblock = nMeta + 1

/-- An entry appended to a root whose first block is the first data block
goes in there: mkfs goes on, and takes no block. -/
theorem iappend_entry_ok {k : Nat} (de : Dirent) (named : de.name.length = dirSiz) (room : k < 32)
    (size : s.root.size = direntSize * k) (first : s.root.addrs (slot 0) = nMeta) :
    ∃ s', iappend s rootIno de.bytes = .ok s' ∧ s'.root.addrs (slot 0) = nMeta ∧ s'.freeblock = s.freeblock := by
  obtain ⟨inBlock, fits, nonempty⟩ := entry_fits s.root de named room size
  have present : (s.disk.dinode (rootDev, rootIno)).addrs (slot 0) ≠ 0 := by
    show s.root.addrs (slot 0) ≠ 0
    rw [first]
    decide
  have readable : (takeAddr s (s.disk.dinode (rootDev, rootIno)) (slot 0)).2.addrs (slot 0) < fsSize := by
    rw [takeAddr_of_ne present]
    show s.root.addrs (slot 0) < fsSize
    rw [first]
    decide
  refine ⟨_, iappend_within_ok (by decide) inBlock fits nonempty readable, ?_, ?_⟩
  · simp only [State.root, State.winode, Function.update_self, takeAddr_of_ne present]
    exact first
  · simp only [State.winode, State.copyIn, takeAddr_of_ne present]

/-- An input with a name mkfs accepts and no bytes adds its entry. -/
theorem addFile_empty {k : Nat} {name short : List UInt8} (ready : Ready s k) (room : k < 32)
    (named : shortname name = .ok short) : ∃ s', addFile s (name, []) = .ok s' ∧ Ready s' (k + 1) := by
  have allocated : ialloc s tFile = ((ialloc s tFile).1, s.freeinode) := rfl
  obtain ⟨root₁, -, free₁, -⟩ := ialloc_other ready.shape.next_ne_root allocated
  obtain ⟨s₂, entry, first₂, free₂⟩ := iappend_entry_ok ⟨s.freeinode, strncpy short dirSiz⟩
    (length_strncpy short dirSiz) room (root₁ ▸ ready.shape.size) (root₁ ▸ ready.first)
  have noChunks : ([] : List UInt8).toChunks bSize = [] := by
    simp [List.toChunks]
  have ran : addFile s (name, []) = .ok s₂ := by
    rw [addFile, named, Fallible.ok_bind, allocated]
    dsimp only
    rw [entry, Fallible.ok_bind, noChunks]
    rfl
  exact ⟨s₂, ran, addFile_shape ready.shape room ran, first₂, free₂.trans (free₁.trans ready.free)⟩

/-- Inputs with accepted names and no bytes each add their entry. -/
theorem addFiles_empty : ∀ (names : List (List UInt8)) {s : State} {k : Nat}, Ready s k →
    k + names.length ≤ 32 → (∀ name ∈ names, ∃ short, shortname name = .ok short) →
      ∃ s', (names.map fun name => (name, [])).foldlM addFile s = .ok s' ∧ Ready s' (k + names.length)
  | [], s, _, ready, _, _ => ⟨s, rfl, ready⟩
  | name :: names, s, k, ready, room, valid => by
    obtain ⟨short, named⟩ := valid name List.mem_cons_self
    obtain ⟨s₁, added, ready₁⟩ := addFile_empty ready (by simp only [List.length_cons] at room; omega) named
    obtain ⟨s', rest, ready'⟩ := addFiles_empty names ready₁ (by simp only [List.length_cons] at room; omega)
      fun other member => valid other (List.mem_cons_of_mem name member)
    refine ⟨s', ?_, ?_⟩
    · rw [List.map_cons, List.foldlM_cons, added, Fallible.ok_bind, rest]
    · have count : k + (names.length + 1) = k + 1 + names.length := by omega
      rw [List.length_cons, count]
      exact ready'

/-- "." takes the first data block for the root. -/
theorem dot_ok : ∃ s₁, iappend start rootIno (Dirent.bytes ⟨rootIno, strncpy dot dirSiz⟩) = .ok s₁ ∧
    s₁.root.size = direntSize * 1 ∧ s₁.root.addrs (slot 0) = nMeta ∧ s₁.freeblock = nMeta + 1 := by
  obtain ⟨inBlock, fits, nonempty⟩ := entry_fits (k := 0) start.root
    ⟨rootIno, strncpy dot dirSiz⟩ (length_strncpy dot dirSiz) (by decide) (by rw [start_root]; rfl)
  have absent : (start.disk.dinode (rootDev, rootIno)).addrs (slot 0) = 0 := by
    show start.root.addrs (slot 0) = 0
    rw [start_root]
    rfl
  have readable : (takeAddr start (start.disk.dinode (rootDev, rootIno)) (slot 0)).2.addrs (slot 0) < fsSize := by
    rw [takeAddr_of_eq absent]
    simp only [Dinode.setAddr, Function.update_self]
    decide
  refine ⟨_, iappend_within_ok (by decide) inBlock fits nonempty readable, ?_, ?_, ?_⟩
  · simp only [State.root, State.winode, Function.update_self]
    rw [length_bytes (length_strncpy dot dirSiz)]
    show start.root.size + direntSize = direntSize * 1
    rw [start_root]
    rfl
  · simp only [State.root, State.winode, Function.update_self, takeAddr_of_eq absent, Dinode.setAddr]
    rfl
  · simp only [State.winode, State.copyIn, takeAddr_of_eq absent]
    rfl

/-- mkfs runs to completion on up to 30 inputs with names it accepts and no bytes. -/
theorem main_empty_ok (names : List (List UInt8)) (few : names.length ≤ 30)
    (valid : ∀ name ∈ names, ∃ short, shortname name = .ok short) :
    ∃ s, main (names.map fun name => (name, [])) = .ok s := by
  obtain ⟨s₁, dotted, size₁, first₁, free₁⟩ := dot_ok
  obtain ⟨s₂, dotDotted, first₂, free₂⟩ := iappend_entry_ok (k := 1) ⟨rootIno, strncpy dotDot dirSiz⟩ (length_strncpy dotDot dirSiz)
    (by decide) size₁ first₁
  have ready₂ : Ready s₂ 2 := ⟨dots_shape dotted dotDotted, first₂, free₂.trans free₁⟩
  obtain ⟨s₃, filled, ready₃⟩ := addFiles_empty names ready₂ (by omega) valid
  rw [main, ialloc_start]
  simp only [ne_eq, not_true_eq_false, ↓reduceIte]
  rw [dotted, Fallible.ok_bind, dotDotted, Fallible.ok_bind, filled, Fallible.ok_bind]
  have fits : s₃.freeblock < bSize * 8 := by
    rw [ready₃.free]
    decide
  exact ⟨_, if_pos fits⟩

/-- Thirty programs named "_cat", with no bytes. -/
def thirtyFiles : List (List UInt8 × List UInt8) :=
  (List.replicate 30 [95, 99, 97, 116]).map fun name => (name, [])

theorem thirty_files_root_past_its_blocks :
    thirtyFiles.length = 30 ∧ ∃ s, main thirtyFiles = .ok s ∧ s.root.size = 2 * bSize ∧
      s.disk.addrOf rootDev s.root 1 = 0 ∧ ¬ Layout s.disk rootDev s.root := by
  have thirty : thirtyFiles.length = 30 := by
    simp [thirtyFiles]
  obtain ⟨s, ran⟩ := main_empty_ok (List.replicate 30 [95, 99, 97, 116]) (by simp)
    fun name member => ⟨[99, 97, 116], by rw [List.eq_of_mem_replicate member]; rfl⟩
  exact ⟨thirty, s, ran, main_root_size_past_its_blocks thirty ran⟩

end Mkfs
end Fs
end Xv6
