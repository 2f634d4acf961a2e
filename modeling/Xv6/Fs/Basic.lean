import Xv6.Param
import Xv6.Lib.Fallible
import Mathlib.Logic.Function.Basic

/-!
# The disk below the inode cache

fs.c's block layer as the inode layer uses it: the free map with `balloc`,
`bzero` and `bfree`, `bmap`, which finds or allocates the block that holds a
given block of a file, and the loops of `readi`, `writei` and `itrunc` over
a file's blocks.

The disk is what the log presents to a transaction, in three views: the
dinodes, the bit of each block in the free map, and the contents of each
block read as `NINDIRECT` block numbers, which is how `bmap` and `itrunc`
read an indirect block.  Every write goes to this view through `log_write`.
Each view is by `(dev, number)`; the superblock is the one mkfs writes.

A dinode's `short` fields are integers.  A panic is `.error` with its
message.
-/

namespace Xv6
namespace Fs

/-- The superblock fields the kernel reads. -/
structure Superblock where
  size : Nat
  ninodes : Nat

/-- The superblock mkfs writes: `FSSIZE` blocks and `NINODES` = 200 inodes. -/
def sb : Superblock := ⟨fsSize, 200⟩

/-- struct dinode. -/
structure Dinode where
  type : Int
  major : Int
  minor : Int
  nlink : Int
  size : Nat
  addrs : Fin (nDirect + 1) → Nat

/-- A dinode of zeroes, as `memset` leaves it. -/
def Dinode.zero : Dinode := ⟨0, 0, 0, 0, 0, fun _ => 0⟩

/-- `ip->addrs[k] = addr`. -/
def Dinode.setAddr (x : Dinode) (k : Fin (nDirect + 1)) (addr : Nat) : Dinode :=
  { x with addrs := Function.update x.addrs k addr }

/-- The entry of `addrs` that bmap reads first for block `bn` of a file:
`addrs[bn]` for one of the first `NDIRECT` blocks, the indirect block
`addrs[NDIRECT]` for the others. -/
def slot (bn : Nat) : Fin (nDirect + 1) :=
  if h : bn < nDirect then ⟨bn, by omega⟩ else Fin.last nDirect

structure Disk where
  dinode : Nat × Nat → Dinode
  bitmap : Nat × Nat → Bool
  block : Nat × Nat → Fin nIndirect → Nat

/-- bzero. -/
def bzero (d : Disk) (dev b : Nat) : Disk :=
  { d with block := Function.update d.block (dev, b) fun _ => 0 }

/-- balloc: mark the first free block in use, zero it and return it; panic
when every block is in use.  Its two loops visit the blocks below `sb.size`
in increasing order. -/
def balloc (d : Disk) (dev : Nat) : Except String (Disk × Nat) :=
  match (List.range sb.size).find? fun b => !d.bitmap (dev, b) with
  | some b => .ok (bzero { d with bitmap := Function.update d.bitmap (dev, b) true } dev b, b)
  | none => .error "balloc: out of blocks"

/-- bfree. -/
def bfree (d : Disk) (dev b : Nat) : Except String Disk :=
  if d.bitmap (dev, b) then .ok { d with bitmap := Function.update d.bitmap (dev, b) false }
  else .error "freeing free block"

/-- What bmap does with entry `k` of `addrs`, for a direct block and for the
indirect block alike: `if((addr = ip->addrs[k]) == 0) ip->addrs[k] = addr =
balloc(ip->dev);`. -/
def ensureAddr (d : Disk) (dev : Nat) (x : Dinode) (k : Fin (nDirect + 1)) :
    Except String (Disk × Dinode × Nat) :=
  if x.addrs k = 0 then do
    let (d', addr) ← balloc d dev
    return (d', x.setAddr k addr, addr)
  else .ok (d, x, x.addrs k)

/-- bmap on the in-memory copy `x` of an inode of device `dev`: the address
of block `bn` of the file, allocating the blocks that are missing. -/
def bmap (d : Disk) (dev : Nat) (x : Dinode) (bn : Nat) : Except String (Disk × Dinode × Nat) :=
  if bn < nDirect then ensureAddr d dev x (slot bn)
  else if h : bn - nDirect < nIndirect then do
    -- Load indirect block, allocating if necessary.
    let (d₁, x₁, ind) ← ensureAddr d dev x (slot bn)
    let a := d₁.block (dev, ind)
    let j : Fin nIndirect := ⟨bn - nDirect, h⟩
    if a j = 0 then do
      let (d₂, addr) ← balloc d₁ dev
      return ({ d₂ with block := Function.update d₂.block (dev, ind) (Function.update a j addr) },
        x₁, addr)
    else return (d₁, x₁, a j)
  else .error "bmap: out of range"

/-- The loop of readi and writei: from byte `off`, for `left` more bytes, bmap
each block and `put` the data of the block it maps, up to the end of that
block each time. -/
def rwLoop (dev : Nat) (put : Nat → Nat → Disk → Disk) (d : Disk) (x : Dinode) (off left : Nat) :
    Except String (Disk × Dinode) :=
  if 0 < left then do
    let (d₁, x₁, addr) ← bmap d dev x (off / bSize)
    let m := min left (bSize - off % bSize)
    rwLoop dev put (put (off / bSize) addr d₁) x₁ (off + m) (left - m)
  else .ok (d, x)
termination_by left
decreasing_by
  have within : off % bSize < bSize := Nat.mod_lt _ (by decide)
  omega

/-- writei's `memmove` and `log_write` of the data of block `bn` of the file,
`src bn`, into block `addr`. -/
def store (dev : Nat) (src : Nat → Fin nIndirect → Nat) (bn addr : Nat) (d : Disk) : Disk :=
  { d with block := Function.update d.block (dev, addr) (src bn) }

/-- itrunc's loops: free each allocated block of `addrs` among the indices
`ks`. -/
def bfreeEach {κ : Type} (dev : Nat) (addrs : κ → Nat) : List κ → Disk → Except String Disk
  | [], d => .ok d
  | k :: rest, d =>
      if addrs k ≠ 0 then do
        let d' ← bfree d dev (addrs k)
        bfreeEach dev addrs rest d'
      else bfreeEach dev addrs rest d

/-- itrunc's second part: free the blocks the indirect block `ind` lists, then
`ind` itself, if the inode has one. -/
def bfreeIndirect (dev ind : Nat) (d : Disk) : Except String Disk :=
  if ind ≠ 0 then do
    let d' ← bfreeEach dev (d.block (dev, ind)) (List.finRange nIndirect) d
    bfree d' dev ind
  else .ok d

/-! ## Spec lemmas -/

@[simp] theorem bzero_dinode (d : Disk) (dev b : Nat) : (bzero d dev b).dinode = d.dinode := rfl

@[simp] theorem bzero_bitmap (d : Disk) (dev b : Nat) : (bzero d dev b).bitmap = d.bitmap := rfl

variable {d d' : Disk} {dev : Nat}

/-- balloc takes a free block below `sb.size`, marks it in use and zeroes it. -/
theorem balloc_eq {b : Nat} (allocated : balloc d dev = .ok (d', b)) :
    d.bitmap (dev, b) = false ∧ b < sb.size ∧
      d' = bzero { d with bitmap := Function.update d.bitmap (dev, b) true } dev b := by
  unfold balloc at allocated
  split at allocated
  · rename_i found
    cases allocated
    have free := List.find?_some found
    refine ⟨by simpa using free, List.mem_range.mp (List.mem_of_find?_eq_some found), rfl⟩
  · cases allocated

/-- Block 0 is never allocated while its bit is set. -/
theorem balloc_ne_zero {b : Nat} (allocated : balloc d dev = .ok (d', b))
    (boot : d.bitmap (dev, 0) = true) : b ≠ 0 := by
  rintro rfl
  rw [(balloc_eq allocated).1] at boot
  cases boot

theorem ensureAddr_eq {x x' : Dinode} {k : Fin (nDirect + 1)} {addr : Nat}
    (ensured : ensureAddr d dev x k = .ok (d', x', addr)) :
    x.addrs k ≠ 0 ∧ d' = d ∧ x' = x ∧ addr = x.addrs k ∨
      x.addrs k = 0 ∧ balloc d dev = .ok (d', addr) ∧ x' = x.setAddr k addr := by
  unfold ensureAddr at ensured
  split at ensured
  · rename_i missing
    obtain ⟨⟨d₁, b⟩, allocated, rest⟩ := Fallible.bind_ok ensured
    cases rest
    exact .inr ⟨missing, allocated, rfl⟩
  · rename_i present
    cases ensured
    exact .inl ⟨present, rfl, rfl, rfl⟩

/-! ## What bmap and the loops of readi and writei change

They change no dinode on the disk and clear no bit of the free map; in the
in-memory copy they only fill entries of `addrs` that were 0. -/

/-- `d'` keeps the dinodes of `d` and every bit set in `d`. -/
structure Disk.Grows (d d' : Disk) : Prop where
  dinode : d'.dinode = d.dinode
  bitmap : ∀ k, d.bitmap k = true → d'.bitmap k = true

theorem Disk.Grows.refl (d : Disk) : d.Grows d := ⟨rfl, fun _ set => set⟩

theorem Disk.Grows.trans {d₁ d₂ d₃ : Disk} (first : d₁.Grows d₂) (second : d₂.Grows d₃) :
    d₁.Grows d₃ :=
  ⟨second.dinode.trans first.dinode, fun k set => second.bitmap k (first.bitmap k set)⟩

/-- Writing the contents of a block grows the disk. -/
theorem Disk.grows_block (d : Disk) (b : Nat × Nat) (a : Fin nIndirect → Nat) :
    d.Grows { d with block := Function.update d.block b a } :=
  ⟨rfl, fun _ set => set⟩

theorem balloc_grows {b : Nat} (allocated : balloc d dev = .ok (d', b)) : d.Grows d' := by
  obtain ⟨free, -, rfl⟩ := balloc_eq allocated
  refine ⟨rfl, fun k set => ?_⟩
  by_cases same : k = (dev, b)
  · simp [same]
  · simpa [Function.update_of_ne same] using set

/-- `x'` is `x` with more blocks: it differs only in entries of `addrs` that
were 0. -/
structure Dinode.Extends (x x' : Dinode) : Prop where
  fields : x' = { x with addrs := x'.addrs }
  addrs : ∀ k, x.addrs k ≠ 0 → x'.addrs k = x.addrs k

theorem Dinode.Extends.refl (x : Dinode) : x.Extends x := ⟨rfl, fun _ _ => rfl⟩

theorem Dinode.Extends.trans {x₁ x₂ x₃ : Dinode} (first : x₁.Extends x₂)
    (second : x₂.Extends x₃) : x₁.Extends x₃ := by
  refine ⟨?_, fun k present => ?_⟩
  · rw [second.fields, first.fields]
  · rw [second.addrs k (by rw [first.addrs k present]; exact present), first.addrs k present]

/-- Filling an empty entry of `addrs` extends the copy. -/
theorem Dinode.extends_setAddr (x : Dinode) (k : Fin (nDirect + 1)) (addr : Nat)
    (missing : x.addrs k = 0) : x.Extends (x.setAddr k addr) := by
  refine ⟨rfl, fun j present => ?_⟩
  have other : j ≠ k := fun same => present (same ▸ missing)
  simp [Dinode.setAddr, Function.update_of_ne other]

/-- What `ensureAddr` leaves: entry `k` filled with a block other than 0, the
copy extended, and nothing changed when the entry was filled already. -/
theorem ensureAddr_spec {x x' : Dinode} {k : Fin (nDirect + 1)} {addr : Nat}
    (ensured : ensureAddr d dev x k = .ok (d', x', addr)) (boot : d.bitmap (dev, 0) = true) :
    d.Grows d' ∧ x.Extends x' ∧ x'.addrs k ≠ 0 ∧ addr = x'.addrs k ∧
      (x.addrs k ≠ 0 → d' = d ∧ x' = x) := by
  rcases ensureAddr_eq ensured with ⟨present, rfl, rfl, rfl⟩ | ⟨missing, allocated, rfl⟩
  · exact ⟨Disk.Grows.refl _, Dinode.Extends.refl _, present, rfl, fun _ => ⟨rfl, rfl⟩⟩
  · refine ⟨balloc_grows allocated, Dinode.extends_setAddr x k addr missing, ?_, ?_,
      fun present => absurd missing present⟩
    · simpa [Dinode.setAddr] using balloc_ne_zero allocated boot
    · simp [Dinode.setAddr]

/-- What bmap leaves: the entry of `addrs` it reads first for block `bn` is
filled, and the copy changes only when that entry was 0. -/
theorem bmap_spec {x x' : Dinode} {bn addr : Nat} (mapped : bmap d dev x bn = .ok (d', x', addr))
    (boot : d.bitmap (dev, 0) = true) :
    d.Grows d' ∧ x.Extends x' ∧ x'.addrs (slot bn) ≠ 0 ∧ (x.addrs (slot bn) ≠ 0 → x' = x) := by
  unfold bmap at mapped
  split at mapped
  · obtain ⟨grows, extended, filled, -, unchanged⟩ := ensureAddr_spec mapped boot
    exact ⟨grows, extended, filled, fun present => (unchanged present).2⟩
  · split at mapped
    · obtain ⟨⟨d₁, x₁, ind⟩, ensured, rest⟩ := Fallible.bind_ok mapped
      obtain ⟨grows, extended, filled, -, unchanged⟩ := ensureAddr_spec ensured boot
      -- the rest of bmap writes only the indirect block and the free map
      have rest_grows : d₁.Grows d' ∧ x' = x₁ := by
        dsimp only at rest
        split at rest
        · obtain ⟨⟨d₂, b⟩, allocated, stored⟩ := Fallible.bind_ok rest
          cases stored
          exact ⟨(balloc_grows allocated).trans (Disk.grows_block _ _ _), rfl⟩
        · cases rest
          exact ⟨Disk.Grows.refl _, rfl⟩
      obtain ⟨grows₁, rfl⟩ := rest_grows
      exact ⟨grows.trans grows₁, extended, filled, fun present => (unchanged present).2⟩
    · cases mapped

/-- Block `bn` of a file is one that a loop from byte `off` over `left` bytes
maps. -/
def Touches (off left bn : Nat) : Prop := 0 < left ∧ off / bSize ≤ bn ∧ bn * bSize < off + left

/-- A loop that maps the block of byte `off` and then goes on at the next
block boundary, or stops, maps each block of the range once. -/
theorem touches_next {off left bn : Nat} (touched : Touches off left bn) :
    bn = off / bSize ∨
      Touches (off + min left (bSize - off % bSize)) (left - min left (bSize - off % bSize)) bn := by
  unfold Touches at touched ⊢
  simp only [bSize] at touched ⊢
  omega

theorem touches_first {off left : Nat} (positive : 0 < left) : Touches off left (off / bSize) := by
  unfold Touches
  simp only [bSize]
  omega

theorem touches_of_next {off left bn : Nat}
    (touched : Touches (off + min left (bSize - off % bSize)) (left - min left (bSize - off % bSize)) bn) :
    Touches off left bn := by
  unfold Touches at touched ⊢
  simp only [bSize] at touched ⊢
  omega

/-- The loop of readi and writei, when its `put` grows the disk: the copy is
extended with every block the loop maps, and stays as it was when every one
of them was there already. -/
theorem rwLoop_spec {put : Nat → Nat → Disk → Disk} (puts : ∀ bn addr (d : Disk), d.Grows (put bn addr d))
    {x x' : Dinode} {off left : Nat} (ran : rwLoop dev put d x off left = .ok (d', x'))
    (boot : d.bitmap (dev, 0) = true) :
    d.Grows d' ∧ x.Extends x' ∧ (∀ bn, Touches off left bn → x'.addrs (slot bn) ≠ 0) ∧
      ((∀ bn, Touches off left bn → x.addrs (slot bn) ≠ 0) → x' = x) := by
  induction left using Nat.strongRecOn generalizing d x off with
  | _ left inductionHypothesis =>
  rw [rwLoop] at ran
  split at ran
  · rename_i positive
    obtain ⟨⟨d₁, x₁, addr⟩, mapped, rest⟩ := Fallible.bind_ok ran
    obtain ⟨grows₁, extended₁, filled₁, unchanged₁⟩ := bmap_spec mapped boot
    have grows₂ := puts (off / bSize) addr d₁
    have shorter : left - min left (bSize - off % bSize) < left := by
      simp only [bSize]
      omega
    obtain ⟨grows, extended, filled, stable⟩ := inductionHypothesis _ shorter rest
      ((grows₁.trans grows₂).bitmap _ boot)
    refine ⟨(grows₁.trans grows₂).trans grows, extended₁.trans extended, fun bn touched => ?_,
      fun present => ?_⟩
    · rcases touches_next touched with rfl | later
      · rw [extended.addrs _ filled₁]
        exact filled₁
      · exact filled bn later
    · rw [unchanged₁ (present _ (touches_first positive))] at stable
      exact stable fun bn later => present bn (touches_of_next later)
  · cases ran
    refine ⟨Disk.Grows.refl _, Dinode.Extends.refl _, fun bn touched => ?_, fun _ => rfl⟩
    exact absurd touched.1 ‹¬0 < left›

/-! ## What itrunc's loops change

They clear bits of the free map, of blocks other than block 0 of the device
they free on, and change nothing else. -/

/-- `d'` is `d` with bits of blocks of `dev` other than block 0 cleared. -/
structure Disk.Frees (dev : Nat) (d d' : Disk) : Prop where
  dinode : d'.dinode = d.dinode
  block : d'.block = d.block
  bitmap : ∀ k, d'.bitmap k ≠ d.bitmap k → d'.bitmap k = false ∧ k.1 = dev ∧ k.2 ≠ 0

theorem Disk.Frees.refl (dev : Nat) (d : Disk) : d.Frees dev d :=
  ⟨rfl, rfl, fun _ same => absurd rfl same⟩

theorem Disk.Frees.trans {d₁ d₂ d₃ : Disk} (first : d₁.Frees dev d₂) (second : d₂.Frees dev d₃) :
    d₁.Frees dev d₃ := by
  refine ⟨second.dinode.trans first.dinode, second.block.trans first.block, fun k changed => ?_⟩
  by_cases same : d₃.bitmap k = d₂.bitmap k
  · rw [same] at changed ⊢
    exact first.bitmap k changed
  · exact second.bitmap k same

/-- Block 0 keeps its bit. -/
theorem Disk.Frees.boot {d₁ d₂ : Disk} (freed : d₁.Frees dev d₂) (dev' : Nat) :
    d₂.bitmap (dev', 0) = d₁.bitmap (dev', 0) :=
  Classical.byContradiction fun changed => (freed.bitmap _ changed).2.2 rfl

theorem bfree_frees {b : Nat} (freed : bfree d dev b = .ok d') (nonzero : b ≠ 0) :
    d.Frees dev d' := by
  unfold bfree at freed
  split at freed
  · cases freed
    refine ⟨rfl, rfl, fun k changed => ?_⟩
    by_cases same : k = (dev, b)
    · subst same
      simp [nonzero]
    · simp [Function.update_of_ne same] at changed
  · cases freed

theorem bfreeEach_frees {κ : Type} {addrs : κ → Nat} {ks : List κ}
    (freed : bfreeEach dev addrs ks d = .ok d') : d.Frees dev d' := by
  induction ks generalizing d with
  | nil =>
      cases freed
      exact Disk.Frees.refl dev _
  | cons k rest inductionHypothesis =>
      rw [bfreeEach] at freed
      split at freed
      · rename_i nonzero
        obtain ⟨d₁, first, others⟩ := Fallible.bind_ok freed
        exact (bfree_frees first nonzero).trans (inductionHypothesis others)
      · exact inductionHypothesis freed

theorem bfreeIndirect_frees {ind : Nat} (freed : bfreeIndirect dev ind d = .ok d') :
    d.Frees dev d' := by
  unfold bfreeIndirect at freed
  split at freed
  · rename_i nonzero
    obtain ⟨d₁, entries, last⟩ := Fallible.bind_ok freed
    exact (bfreeEach_frees entries).trans (bfree_frees last nonzero)
  · cases freed
    exact Disk.Frees.refl _ _

end Fs
end Xv6
