import Xv6.Fs.Icache
import Xv6.Lib.Fallible

/-!
# The bytes of a file

readi and writei down to the bytes they copy.  The disk's blocks are the
`uint` words bmap and itrunc read; a byte of a block is a byte of one of
those words, least significant first, as x86 stores them, and memmove into
a block stores each word it touches again.  The loops of readi and writei
call bmap for each block and copy at most up to the end of the block each
time.

Over them stands what the two functions are for: a file is its bytes, a list
as long as its size, and readi and writei read and replace a range of it
(`readBytes`, `writeBytes`).  The link is `Layout`, the shape bmap gives a
file: every block below the size is there, no block serves twice or is also
the indirect block, and every one is in use.  Over a file with that layout
readi never allocates and returns the file's bytes, and writei changes the
bytes it was asked to and keeps the layout; the one way either can fail is
balloc finding the disk full.

The device branch of readi and writei, which calls into `devsw`, is not
modelled: the functions here are those of files and directories.
-/

namespace Xv6
namespace Fs


/-! ## The bytes of a block -/

/-- The word of a block that holds byte `j`. -/
def wordOf (j : Nat) : Fin nIndirect := ⟨j / 4 % nIndirect, Nat.mod_lt _ (by decide)⟩

/-- Byte `j` of block `b`: byte `j % 4` of word `j / 4`, least significant
first, as x86 stores a `uint`. -/
def Disk.byte (d : Disk) (b : Nat × Nat) (j : Nat) : UInt8 :=
  UInt8.ofNat (d.block b (wordOf j) / 256 ^ (j % 4))

/-- The `uint` whose bytes, least significant first, are `c 0` to `c 3`. -/
def word (c : Nat → UInt8) : Nat :=
  (c 0).toNat + 256 * (c 1).toNat + 65536 * (c 2).toNat + 16777216 * (c 3).toNat

/-- The `m` bytes of block `b` from byte `o`, as memmove copies them out of
`bp->data + o`. -/
def Disk.bytes (d : Disk) (b : Nat × Nat) (o m : Nat) : List UInt8 :=
  (List.range m).map fun k => d.byte b (o + k)

/-- memmove of `src` into block `b` from byte `o`, and log_write: every word
of the block is stored again, with the bytes in the range replaced. -/
def Disk.put (d : Disk) (b : Nat × Nat) (o : Nat) (src : List UInt8) : Disk :=
  { d with block := Function.update d.block b fun w => word fun k =>
      if o ≤ 4 * w.val + k ∧ 4 * w.val + k < o + src.length then src.getD (4 * w.val + k - o) 0
      else d.byte b (4 * w.val + k) }

theorem ofNat_word_div (c : Nat → UInt8) {k : Nat} (lane : k < 4) :
    UInt8.ofNat (word c / 256 ^ k) = c k := by
  have h0 := (c 0).toNat_lt
  have h1 := (c 1).toNat_lt
  have h2 := (c 2).toNat_lt
  have h3 := (c 3).toNat_lt
  apply UInt8.toNat.inj
  rw [UInt8.toNat_ofNat']
  obtain rfl | rfl | rfl | rfl : k = 0 ∨ k = 1 ∨ k = 2 ∨ k = 3 := by omega
  all_goals simp only [word, Nat.reducePow]
  all_goals omega

@[simp] theorem put_dinode (d : Disk) (b : Nat × Nat) (o : Nat) (src : List UInt8) :
    (d.put b o src).dinode = d.dinode := rfl

@[simp] theorem put_bitmap (d : Disk) (b : Nat × Nat) (o : Nat) (src : List UInt8) :
    (d.put b o src).bitmap = d.bitmap := rfl

/-- memmove into a block grows the disk. -/
theorem put_grows (d : Disk) (b : Nat × Nat) (o : Nat) (src : List UInt8) : d.Grows (d.put b o src) :=
  Disk.grows_block _ _ _

theorem put_block_self (d : Disk) (b : Nat × Nat) (o : Nat) (src : List UInt8) :
    (d.put b o src).block b = fun w => word fun k =>
      if o ≤ 4 * w.val + k ∧ 4 * w.val + k < o + src.length then src.getD (4 * w.val + k - o) 0
      else d.byte b (4 * w.val + k) :=
  Function.update_self ..

theorem put_block_of_ne (d : Disk) {b b' : Nat × Nat} (o : Nat) (src : List UInt8) (other : b' ≠ b) :
    (d.put b o src).block b' = d.block b' :=
  Function.update_of_ne other ..

/-- A byte of the block memmove wrote is the source's inside the range and
what it was outside. -/
theorem byte_put (d : Disk) (b : Nat × Nat) (o : Nat) (src : List UInt8) {j : Nat} (inBlock : j < bSize) :
    (d.put b o src).byte b j = if o ≤ j ∧ j < o + src.length then src.getD (j - o) 0 else d.byte b j := by
  have lane : j % 4 < 4 := Nat.mod_lt _ (by decide)
  have split : 4 * (wordOf j).val + j % 4 = j := by
    simp only [wordOf, nIndirect, bSize] at inBlock ⊢
    omega
  show UInt8.ofNat ((d.put b o src).block b (wordOf j) / 256 ^ (j % 4)) = _
  rw [put_block_self, ofNat_word_div _ lane, split]

theorem byte_put_of_ne (d : Disk) {b b' : Nat × Nat} (o : Nat) (src : List UInt8) (other : b' ≠ b) (j : Nat) :
    (d.put b o src).byte b' j = d.byte b' j := by
  unfold Disk.byte
  rw [put_block_of_ne d o src other]

/-! ## The blocks of a file -/

/-- The block numbers the indirect block of a file holds: all 0 when the file
has none. -/
def Disk.indirect (d : Disk) (dev : Nat) (x : Dinode) : Fin nIndirect → Nat :=
  if x.addrs (Fin.last nDirect) = 0 then fun _ => 0 else d.block (dev, x.addrs (Fin.last nDirect))

/-- The block that holds block `bn` of a file, as bmap finds it when it
allocates nothing: 0 when there is none. -/
def Disk.addrOf (d : Disk) (dev : Nat) (x : Dinode) (bn : Nat) : Nat :=
  if h : bn < nDirect then x.addrs ⟨bn, Nat.lt_succ_of_lt h⟩
  else if h' : bn - nDirect < nIndirect then d.indirect dev x ⟨bn - nDirect, h'⟩
  else 0

variable {d d' : Disk} {dev : Nat} {x x' : Dinode}

theorem addrOf_of_lt {bn : Nat} (direct : bn < nDirect) :
    d.addrOf dev x bn = x.addrs (slot bn) := by
  simp [Disk.addrOf, slot, direct]

theorem slot_of_le {bn : Nat} (indirect : nDirect ≤ bn) : slot bn = Fin.last nDirect := by
  simp [slot, Nat.not_lt.mpr indirect]

theorem slot_ne_last {bn : Nat} (direct : bn < nDirect) : slot bn ≠ Fin.last nDirect := by
  simp [slot, direct, Fin.ext_iff]
  omega

/-- Two files with the same direct entries and the same indirect entries map
every block alike. -/
theorem addrOf_congr (direct : ∀ k : Fin nDirect, x'.addrs k.castSucc = x.addrs k.castSucc)
    (indirect : d'.indirect dev x' = d.indirect dev x) : d'.addrOf dev x' = d.addrOf dev x := by
  funext bn
  unfold Disk.addrOf
  split
  · exact direct ⟨bn, ‹_›⟩
  · rw [indirect]

theorem addrOf_update_direct {bn a : Nat} (direct : bn < nDirect)
    (indirect : d'.indirect dev x' = d.indirect dev x) (filled : x' = x.setAddr (slot bn) a) :
    d'.addrOf dev x' = Function.update (d.addrOf dev x) bn a := by
  funext bn'
  by_cases same : bn' = bn
  · subst same
    rw [Function.update_self, addrOf_of_lt direct, filled]
    simp [Dinode.setAddr]
  · rw [Function.update_of_ne same]
    unfold Disk.addrOf
    split
    · rename_i below
      have other : (⟨bn', by omega⟩ : Fin (nDirect + 1)) ≠ slot bn := by
        simp [slot, direct, Fin.ext_iff, same]
      rw [filled]
      simp [Dinode.setAddr, Function.update_of_ne other]
    · rw [indirect]

theorem addrOf_update_indirect {bn a : Nat} (indirect : nDirect ≤ bn) (inRange : bn - nDirect < nIndirect)
    (direct : ∀ k : Fin nDirect, x'.addrs k.castSucc = x.addrs k.castSucc)
    (entries : d'.indirect dev x' = Function.update (d.indirect dev x) ⟨bn - nDirect, inRange⟩ a) :
    d'.addrOf dev x' = Function.update (d.addrOf dev x) bn a := by
  funext bn'
  by_cases same : bn' = bn
  · subst same
    simp [Disk.addrOf, Nat.not_lt.mpr indirect, inRange, entries]
  · rw [Function.update_of_ne same]
    unfold Disk.addrOf
    split
    · exact direct ⟨bn', ‹_›⟩
    · split
      · rename_i above inside
        have other : (⟨bn' - nDirect, inside⟩ : Fin nIndirect) ≠ ⟨bn - nDirect, inRange⟩ := by
          simp only [ne_eq, Fin.mk.injEq]
          omega
        rw [entries, Function.update_of_ne other]
      · rfl

/-- balloc leaves every block in use as it was. -/
theorem block_of_balloc {b : Nat} (allocated : balloc d dev = .ok (d', b)) {k : Nat × Nat}
    (used : d.bitmap k = true) : d'.block k = d.block k := by
  obtain ⟨free, -, rfl⟩ := balloc_eq allocated
  have other : k ≠ (dev, b) := by
    rintro rfl
    rw [free] at used
    cases used
  simp [bzero, Function.update_of_ne other]

theorem block_balloc_self {b : Nat} (allocated : balloc d dev = .ok (d', b)) :
    d'.block (dev, b) = fun _ => 0 := by
  obtain ⟨-, -, rfl⟩ := balloc_eq allocated
  simp [bzero]

theorem balloc_bitmap_self {b : Nat} (allocated : balloc d dev = .ok (d', b)) :
    d'.bitmap (dev, b) = true := by
  obtain ⟨-, -, rfl⟩ := balloc_eq allocated
  simp

theorem ensureAddr_block {k : Fin (nDirect + 1)} {a : Nat}
    (ensured : ensureAddr d dev x k = .ok (d', x', a)) {b : Nat × Nat} (used : d.bitmap b = true) :
    d'.block b = d.block b := by
  rcases ensureAddr_eq ensured with ⟨-, rfl, -, -⟩ | ⟨-, allocated, -⟩
  · rfl
  · exact block_of_balloc allocated used

/-! ## What bmap does -/

/-- The two ways bmap maps a block: through `addrs` for a direct block, or
through the indirect block, whose entry is allocated when it is 0. -/
theorem bmap_cases {bn addr : Nat} (mapped : bmap d dev x bn = .ok (d', x', addr)) :
    bn < nDirect ∧ ensureAddr d dev x (slot bn) = .ok (d', x', addr) ∨
      ∃ (inRange : bn - nDirect < nIndirect) (d₁ : Disk) (ind : Nat), nDirect ≤ bn ∧
        ensureAddr d dev x (Fin.last nDirect) = .ok (d₁, x', ind) ∧
        (d₁.block (dev, ind) ⟨bn - nDirect, inRange⟩ ≠ 0 ∧ d' = d₁ ∧
            addr = d₁.block (dev, ind) ⟨bn - nDirect, inRange⟩ ∨
          d₁.block (dev, ind) ⟨bn - nDirect, inRange⟩ = 0 ∧ ∃ d₂, balloc d₁ dev = .ok (d₂, addr) ∧
            d' = { d₂ with block := (Function.update d₂.block (dev, ind)
              (Function.update (d₁.block (dev, ind)) ⟨bn - nDirect, inRange⟩ addr)) }) := by
  unfold bmap at mapped
  split at mapped
  · exact .inl ⟨‹_›, mapped⟩
  · split at mapped
    · rename_i indirect inRange
      obtain ⟨⟨d₁, x₁, ind⟩, ensured, rest⟩ := Fallible.bind_ok mapped
      rw [slot_of_le (Nat.not_lt.mp indirect)] at ensured
      dsimp only at rest
      split at rest
      · rename_i empty
        obtain ⟨⟨d₂, b⟩, allocated, stored⟩ := Fallible.bind_ok rest
        cases stored
        refine .inr ⟨inRange, d₁, ind, Nat.not_lt.mp indirect, ensured, .inr ⟨empty, d₂, allocated, ?_⟩⟩
        rfl
      · rename_i filled
        cases rest
        exact .inr ⟨inRange, _, ind, Nat.not_lt.mp indirect, ensured, .inl ⟨filled, rfl, rfl⟩⟩
    · cases mapped

/-- A block the file has is found without allocating. -/
theorem bmap_present {bn : Nat} (present : d.addrOf dev x bn ≠ 0) :
    bmap d dev x bn = .ok (d, x, d.addrOf dev x bn) := by
  unfold bmap
  split
  · rename_i direct
    rw [addrOf_of_lt direct] at present ⊢
    simp [ensureAddr, present]
  · rename_i indirect
    have inRange : bn - nDirect < nIndirect := by
      by_contra outside
      simp [Disk.addrOf, indirect, outside] at present
    have listed : x.addrs (Fin.last nDirect) ≠ 0 ∧
        d.addrOf dev x bn = d.block (dev, x.addrs (Fin.last nDirect)) ⟨bn - nDirect, inRange⟩ := by
      by_cases missing : x.addrs (Fin.last nDirect) = 0
      · simp [Disk.addrOf, Disk.indirect, indirect, inRange, missing] at present
      · simp [Disk.addrOf, Disk.indirect, indirect, inRange, missing]
    obtain ⟨nonzero, entry⟩ := listed
    rw [entry] at present ⊢
    simp [inRange, slot_of_le (Nat.not_lt.mp indirect), ensureAddr, nonzero, present, bind,
      Except.bind, pure, Except.pure]

/-- What bmap does to the map of the file's blocks: block `bn` is mapped to
the block it returns, and every other block keeps its block. -/
theorem bmap_addrOf {bn addr : Nat} (mapped : bmap d dev x bn = .ok (d', x', addr))
    (boot : d.bitmap (dev, 0) = true)
    (indirectUsed : x.addrs (Fin.last nDirect) ≠ 0 → d.bitmap (dev, x.addrs (Fin.last nDirect)) = true) :
    d'.addrOf dev x' = Function.update (d.addrOf dev x) bn addr := by
  rcases bmap_cases mapped with ⟨direct, ensured⟩ | ⟨inRange, d₁, ind, indirect, ensured, entry⟩
  · rcases ensureAddr_eq ensured with ⟨-, rfl, rfl, rfl⟩ | ⟨-, allocated, rfl⟩
    · rw [← addrOf_of_lt direct, Function.update_eq_self]
    · apply addrOf_update_direct direct _ rfl
      -- the indirect block is in use, so balloc did not take it
      have kept : (x.setAddr (slot bn) addr).addrs (Fin.last nDirect) = x.addrs (Fin.last nDirect) := by
        simp [Dinode.setAddr, Function.update_of_ne (slot_ne_last direct).symm]
      unfold Disk.indirect
      rw [kept]
      split
      · rfl
      · rw [block_of_balloc allocated (indirectUsed ‹_›)]
  · have direct : ∀ k : Fin nDirect, x'.addrs k.castSucc = x.addrs k.castSucc := by
      intro k
      rcases ensureAddr_eq ensured with ⟨-, -, rfl, -⟩ | ⟨-, -, rfl⟩
      · rfl
      · simp [Dinode.setAddr]
    -- the file's indirect entries are the entries of `ind`: those of the old
    -- indirect block, or the zeroes of a new one
    obtain ⟨-, -, filled, held, -⟩ := ensureAddr_spec ensured boot
    have after : ∀ d'' : Disk, d''.indirect dev x' = d''.block (dev, ind) := by
      intro d''
      simp [Disk.indirect, filled, held]
    have before : d.indirect dev x = d₁.block (dev, ind) := by
      rcases ensureAddr_eq ensured with ⟨present, rfl, -, rfl⟩ | ⟨missing, allocated₁, -⟩
      · simp [Disk.indirect, present]
      · simp [Disk.indirect, missing, block_balloc_self allocated₁]
    refine addrOf_update_indirect indirect inRange direct ?_
    rcases entry with ⟨-, rfl, rfl⟩ | ⟨-, d₂, -, rfl⟩
    · rw [after, before, Function.update_eq_self]
    · rw [after, before]
      exact Function.update_self ..

/-- bmap writes no block in use but the file's indirect block. -/
theorem bmap_block {bn addr : Nat} (mapped : bmap d dev x bn = .ok (d', x', addr))
    (boot : d.bitmap (dev, 0) = true) {b : Nat × Nat} (used : d.bitmap b = true)
    (notIndirect : b ≠ (dev, x.addrs (Fin.last nDirect))) : d'.block b = d.block b := by
  rcases bmap_cases mapped with ⟨-, ensured⟩ | ⟨inRange, d₁, ind, -, ensured, entry⟩
  · exact ensureAddr_block ensured used
  have kept₁ := ensureAddr_block ensured used
  rcases entry with ⟨-, rfl, -⟩ | ⟨-, d₂, allocated, rfl⟩
  · exact kept₁
  -- the indirect block is the file's, or one balloc just took
  have other : b ≠ (dev, ind) := by
    rcases ensureAddr_eq ensured with ⟨-, -, -, rfl⟩ | ⟨-, allocated₁, -⟩
    · exact notIndirect
    · rintro rfl
      rw [(balloc_eq allocated₁).1] at used
      cases used
  have used₁ : d₁.bitmap b = true := (ensureAddr_spec ensured boot).1.bitmap b used
  show Function.update d₂.block (dev, ind) _ b = _
  rw [Function.update_of_ne other, block_of_balloc allocated used₁, kept₁]

/-- A block bmap allocates is one that was free; so is a new indirect block,
which is another one. -/
theorem bmap_fresh {bn addr : Nat} (mapped : bmap d dev x bn = .ok (d', x', addr))
    (boot : d.bitmap (dev, 0) = true) (missing : d.addrOf dev x bn = 0) :
    d.bitmap (dev, addr) = false ∧ d'.bitmap (dev, addr) = true ∧
      (x'.addrs (Fin.last nDirect) = x.addrs (Fin.last nDirect) ∨
        d.bitmap (dev, x'.addrs (Fin.last nDirect)) = false ∧
          d'.bitmap (dev, x'.addrs (Fin.last nDirect)) = true ∧ x'.addrs (Fin.last nDirect) ≠ addr) := by
  rcases bmap_cases mapped with ⟨direct, ensured⟩ | ⟨inRange, d₁, ind, indirect, ensured, entry⟩
  · rw [addrOf_of_lt direct] at missing
    rcases ensureAddr_eq ensured with ⟨present, -, -, -⟩ | ⟨-, allocated, rfl⟩
    · exact absurd missing present
    · refine ⟨(balloc_eq allocated).1, balloc_bitmap_self allocated, .inl ?_⟩
      simp [Dinode.setAddr, Function.update_of_ne (slot_ne_last direct).symm]
  · have grows₁ := (ensureAddr_spec ensured boot).1
    -- the entry bmap reads is the one `addrOf` reads, 0 by assumption
    have empty : d₁.block (dev, ind) ⟨bn - nDirect, inRange⟩ = 0 := by
      simp only [Disk.addrOf, Nat.not_lt.mpr indirect, inRange, dif_pos, dif_neg, not_false_eq_true,
        Disk.indirect] at missing
      rcases ensureAddr_eq ensured with ⟨present, rfl, -, rfl⟩ | ⟨-, allocated₁, -⟩
      · simpa [present] using missing
      · rw [block_balloc_self allocated₁]
    rcases entry with ⟨filled, -, -⟩ | ⟨-, d₂, allocated, rfl⟩
    · exact absurd empty filled
    have free₁ := (balloc_eq allocated).1
    have free : d.bitmap (dev, addr) = false := by
      cases used : d.bitmap (dev, addr)
      · rfl
      · rw [grows₁.bitmap _ used] at free₁
        cases free₁
    have taken₂ : d₂.bitmap (dev, addr) = true := balloc_bitmap_self allocated
    refine ⟨free, taken₂, ?_⟩
    rcases ensureAddr_eq ensured with ⟨-, -, rfl, -⟩ | ⟨-, allocated₁, rfl⟩
    · exact .inl rfl
    · have taken := balloc_bitmap_self allocated₁
      refine .inr ⟨?_, ?_, ?_⟩
      · simpa [Dinode.setAddr] using (balloc_eq allocated₁).1
      · show d₂.bitmap _ = true
        simpa [Dinode.setAddr] using (balloc_grows allocated).bitmap _ taken
      · simp only [Dinode.setAddr, Function.update_self]
        rintro rfl
        rw [taken] at free₁
        cases free₁

theorem bmap_ne_zero {bn addr : Nat} (mapped : bmap d dev x bn = .ok (d', x', addr))
    (boot : d.bitmap (dev, 0) = true) : addr ≠ 0 := by
  by_cases present : d.addrOf dev x bn ≠ 0
  · rw [bmap_present present] at mapped
    cases mapped
    exact present
  · rintro rfl
    rw [(bmap_fresh mapped boot (not_not.mp present)).1] at boot
    cases boot

/-- bmap keeps every block the file has where it is. -/
theorem bmap_keeps {bn addr : Nat} (mapped : bmap d dev x bn = .ok (d', x', addr))
    (boot : d.bitmap (dev, 0) = true)
    (indirectUsed : x.addrs (Fin.last nDirect) ≠ 0 → d.bitmap (dev, x.addrs (Fin.last nDirect)) = true)
    {bn' : Nat} (has : d.addrOf dev x bn' ≠ 0) : d'.addrOf dev x' bn' = d.addrOf dev x bn' := by
  by_cases same : bn' = bn
  · subst same
    rw [bmap_present has] at mapped
    cases mapped
    rfl
  · rw [bmap_addrOf mapped boot indirectUsed, Function.update_of_ne same]

/-! ## Files laid out as bmap lays them out -/

/-- The blocks of a file as bmap lays them out: every block below the size is
there, each block is the file's at most once and is not its indirect block,
and all of them are in use, as is block 0. -/
structure Layout (d : Disk) (dev : Nat) (x : Dinode) : Prop where
  size : x.size ≤ maxFile * bSize
  mapped : ∀ bn, bn * bSize < x.size → d.addrOf dev x bn ≠ 0
  used : ∀ bn, d.addrOf dev x bn ≠ 0 → d.bitmap (dev, d.addrOf dev x bn) = true
  indirect : x.addrs (Fin.last nDirect) ≠ 0 → d.bitmap (dev, x.addrs (Fin.last nDirect)) = true
  distinct : ∀ bn bn', d.addrOf dev x bn ≠ 0 → d.addrOf dev x bn = d.addrOf dev x bn' → bn = bn'
  apart : ∀ bn, d.addrOf dev x bn ≠ 0 → d.addrOf dev x bn ≠ x.addrs (Fin.last nDirect)
  boot : d.bitmap (dev, 0) = true

/-- bmap keeps the layout: the block it maps is new to the file and free
before, and so is a new indirect block. -/
theorem bmap_layout (layout : Layout d dev x) {bn addr : Nat}
    (mapped : bmap d dev x bn = .ok (d', x', addr)) : Layout d' dev x' := by
  by_cases present : d.addrOf dev x bn ≠ 0
  · rw [bmap_present present] at mapped
    cases mapped
    exact layout
  rw [not_not] at present
  obtain ⟨free, taken, indirect⟩ := bmap_fresh mapped layout.boot present
  obtain ⟨grows, extended, -, -⟩ := bmap_spec mapped layout.boot
  have map := bmap_addrOf mapped layout.boot layout.indirect
  have sameSize : x'.size = x.size := by
    rw [extended.fields]
  have nonzero : addr ≠ 0 := by
    rintro rfl
    rw [layout.boot] at free
    cases free
  -- a block the file had is in use, so bmap did not take it
  have notFresh : ∀ bn', d.addrOf dev x bn' ≠ 0 → d.addrOf dev x bn' ≠ addr := by
    intro bn' had same
    have used := layout.used bn' had
    rw [same, free] at used
    cases used
  refine ⟨sameSize ▸ layout.size, fun bn' below => ?_, fun bn' has => ?_, fun nonzero' => ?_,
    fun bn₁ bn₂ has same => ?_, fun bn' has => ?_, grows.bitmap _ layout.boot⟩
  · rw [map]
    by_cases same : bn' = bn
    · rw [same, Function.update_self]
      exact nonzero
    · rw [Function.update_of_ne same]
      exact layout.mapped bn' (sameSize ▸ below)
  · rw [map] at has ⊢
    by_cases same : bn' = bn
    · rw [same, Function.update_self]
      exact taken
    · rw [Function.update_of_ne same] at has ⊢
      exact grows.bitmap _ (layout.used bn' has)
  · rcases indirect with same | ⟨-, taken', -⟩
    · rw [same] at nonzero' ⊢
      exact grows.bitmap _ (layout.indirect nonzero')
    · exact taken'
  · rw [map] at has same
    by_cases first : bn₁ = bn <;> by_cases second : bn₂ = bn
    · rw [first, second]
    · rw [first, Function.update_self, Function.update_of_ne second] at same
      by_cases had : d.addrOf dev x bn₂ = 0
      · exact absurd (same.trans had) nonzero
      · exact absurd same.symm (notFresh bn₂ had)
    · rw [second, Function.update_self, Function.update_of_ne first] at same
      rw [Function.update_of_ne first] at has
      exact absurd same (notFresh bn₁ has)
    · rw [Function.update_of_ne first, Function.update_of_ne second] at same
      rw [Function.update_of_ne first] at has
      exact layout.distinct bn₁ bn₂ has same
  · rw [map] at has ⊢
    by_cases same : bn' = bn
    · rw [same, Function.update_self]
      rcases indirect with kept | ⟨-, -, other⟩
      · rw [kept]
        intro equal
        by_cases none : x.addrs (Fin.last nDirect) = 0
        · exact nonzero (equal.trans none)
        · have used := layout.indirect none
          rw [← equal, free] at used
          cases used
      · exact other.symm
    · rw [Function.update_of_ne same] at has ⊢
      rcases indirect with kept | ⟨fresh, -, -⟩
      · rw [kept]
        exact layout.apart bn' has
      · intro equal
        have used := layout.used bn' has
        rw [equal, fresh] at used
        cases used

/-- The indirect block of a file is not where its data goes, so writing data
changes no block of the file's map. -/
theorem addrOf_put {b : Nat × Nat} (o : Nat) (src : List UInt8)
    (notIndirect : b ≠ (dev, x.addrs (Fin.last nDirect))) :
    (d.put b o src).addrOf dev x = d.addrOf dev x := by
  apply addrOf_congr (fun _ => rfl)
  unfold Disk.indirect
  split
  · rfl
  · exact put_block_of_ne d o src (Ne.symm notIndirect)

theorem put_layout (layout : Layout d dev x) {b : Nat × Nat} (o : Nat) (src : List UInt8)
    (notIndirect : b ≠ (dev, x.addrs (Fin.last nDirect))) : Layout (d.put b o src) dev x := by
  have map := addrOf_put (d := d) o src notIndirect
  exact ⟨layout.size, map ▸ layout.mapped, map ▸ layout.used, layout.indirect, map ▸ layout.distinct,
    map ▸ layout.apart, layout.boot⟩

/-- iupdate writes only the dinodes, which the layout does not read. -/
theorem Layout.iupdate (layout : Layout d dev x) (dinode : Nat × Nat → Dinode) :
    Layout { d with dinode := dinode } dev x :=
  ⟨layout.size, layout.mapped, layout.used, layout.indirect, layout.distinct, layout.apart, layout.boot⟩

/-- A file grown to `s` bytes over blocks it has keeps its layout. -/
theorem Layout.grow (layout : Layout d dev x) {s : Nat} (fits : s ≤ maxFile * bSize)
    (mapped : ∀ bn, bn * bSize < s → d.addrOf dev x bn ≠ 0) : Layout d dev { x with size := s } :=
  ⟨fits, mapped, layout.used, layout.indirect, layout.distinct, layout.apart, layout.boot⟩

theorem Layout.has (layout : Layout d dev x) {i : Nat} (inside : i < x.size) :
    d.addrOf dev x (i / bSize) ≠ 0 :=
  layout.mapped _ (by
    have := Nat.div_mul_le_self i bSize
    omega)

/-- A file with no blocks is laid out on any disk with block 0 in use. -/
theorem layout_of_empty (boot : d.bitmap (dev, 0) = true) (empty : x.size = 0)
    (none : ∀ k, x.addrs k = 0) : Layout d dev x := by
  have unmapped : ∀ bn, d.addrOf dev x bn = 0 := by
    intro bn
    unfold Disk.addrOf Disk.indirect
    split
    · exact none _
    · split
      · simp [none]
      · rfl
  refine ⟨by simp [empty], fun bn below => by omega, fun bn has => absurd (unmapped bn) has,
    fun has => absurd (none _) has, fun bn _ has => absurd (unmapped bn) has,
    fun bn has => absurd (unmapped bn) has, boot⟩

/-! ## The bytes of a file -/

/-- Byte `i` of a file. -/
def Disk.fileByte (d : Disk) (dev : Nat) (x : Dinode) (i : Nat) : UInt8 :=
  d.byte (dev, d.addrOf dev x (i / bSize)) (i % bSize)

/-- The bytes of a file, as many as its size. -/
def Disk.content (d : Disk) (dev : Nat) (x : Dinode) : List UInt8 :=
  (List.range x.size).map (d.fileByte dev x)

@[simp] theorem length_content (d : Disk) (dev : Nat) (x : Dinode) :
    (d.content dev x).length = x.size := by
  simp [Disk.content]

/-- bmap changes no byte of a block the file has. -/
theorem fileByte_bmap (layout : Layout d dev x) {bn addr : Nat}
    (mapped : bmap d dev x bn = .ok (d', x', addr)) {i : Nat} (has : d.addrOf dev x (i / bSize) ≠ 0) :
    d'.fileByte dev x' i = d.fileByte dev x i := by
  by_cases present : d.addrOf dev x bn ≠ 0
  · rw [bmap_present present] at mapped
    cases mapped
    rfl
  have other : i / bSize ≠ bn := by
    rintro rfl
    exact present has
  have block := bmap_block mapped layout.boot (layout.used _ has)
    (fun same => layout.apart _ has (Prod.mk.inj same).2)
  unfold Disk.fileByte Disk.byte
  rw [bmap_addrOf mapped layout.boot layout.indirect, Function.update_of_ne other, block]

/-- Writing bytes `o` to `o + src.length` of block `bn` of the file changes
those bytes of the file and no other byte of a block it has. -/
theorem fileByte_put (layout : Layout d dev x) {bn : Nat} (has : d.addrOf dev x bn ≠ 0)
    (o : Nat) (src : List UInt8) {i : Nat} (hasByte : d.addrOf dev x (i / bSize) ≠ 0) :
    (d.put (dev, d.addrOf dev x bn) o src).fileByte dev x i =
      if i / bSize = bn ∧ o ≤ i % bSize ∧ i % bSize < o + src.length then src.getD (i % bSize - o) 0
      else d.fileByte dev x i := by
  have notIndirect : (dev, d.addrOf dev x bn) ≠ (dev, x.addrs (Fin.last nDirect)) :=
    fun same => layout.apart bn has (Prod.mk.inj same).2
  unfold Disk.fileByte
  rw [addrOf_put o src notIndirect]
  by_cases same : i / bSize = bn
  · rw [same, byte_put _ _ _ _ (Nat.mod_lt _ (by decide))]
    simp only [true_and]
  · have other : (dev, d.addrOf dev x (i / bSize)) ≠ (dev, d.addrOf dev x bn) :=
      fun equal => same (layout.distinct _ _ hasByte (Prod.mk.inj equal).2)
    rw [byte_put_of_ne _ _ _ other, if_neg (fun inside => same inside.1)]

/-- `n` bytes of a file from `off`, inside it. -/
theorem content_slice {off m : Nat} (inside : off + m ≤ x.size) :
    ((d.content dev x).drop off).take m = (List.range m).map fun k => d.fileByte dev x (off + k) := by
  apply List.ext_getElem
  · simp
    omega
  · intro k _ _
    simp [Disk.content]

/-- The bytes of a file after a write at `off` that starts inside it: the old
bytes before `off`, the source, and the old bytes after it. -/
theorem range_map_write {f g : Nat → UInt8} {size off : Nat} {src : List UInt8} (inside : off ≤ size)
    (before : ∀ i, i < off → g i = f i)
    (written : ∀ i, off ≤ i → i < off + src.length → g i = src.getD (i - off) 0)
    (after : ∀ i, off + src.length ≤ i → i < size → g i = f i) :
    (List.range (max size (off + src.length))).map g =
      ((List.range size).map f).take off ++ src ++ ((List.range size).map f).drop (off + src.length) := by
  apply List.ext_getElem
  · simp
    omega
  · intro i below _
    simp only [List.length_map, List.length_range] at below
    rw [List.getElem_map, List.getElem_range]
    by_cases early : i < off
    · rw [List.getElem_append_left (by simp; omega), List.getElem_append_left (by simp; omega)]
      simp [before i early]
    · by_cases middle : i < off + src.length
      · rw [List.getElem_append_left (by simp; omega), List.getElem_append_right (by simp; omega)]
        simp only [List.length_take, List.length_map, List.length_range]
        rw [written i (by omega) middle]
        have offset : i - min off size = i - off := by omega
        simp [List.getD_eq_getElem?_getD, offset, List.getElem?_eq_getElem (show i - off < src.length by omega)]
      · rw [List.getElem_append_right (by simp; omega)]
        simp only [List.length_append, List.length_take, List.length_map, List.length_range]
        rw [after i (by omega) (by omega)]
        simp
        congr 1
        omega

/-! ## The loops of readi and writei -/

/-- The loop of writei: from byte `off`, for `left` more bytes, bmap each block
and write the source's bytes into it, up to the end of the block each time. -/
def writeLoop (dev : Nat) (d : Disk) (x : Dinode) (src : List UInt8) (off left : Nat) :
    Except String (Disk × Dinode) :=
  if 0 < left then do
    let (d₁, x₁, addr) ← bmap d dev x (off / bSize)
    let m := min left (bSize - off % bSize)
    writeLoop dev (d₁.put (dev, addr) (off % bSize) (src.take m)) x₁ (src.drop m) (off + m) (left - m)
  else .ok (d, x)
termination_by left
decreasing_by
  have within : off % bSize < bSize := Nat.mod_lt _ (by decide)
  omega

/-- Where the first chunk of a loop from byte `off` lies: in the block of
`off`, from `off % BSIZE`, `m` bytes long. -/
theorem chunk_iff {off left m i : Nat} (chunk : min left (bSize - off % bSize) = m) :
    (off ≤ i ∧ i < off + m) ↔
      i / bSize = off / bSize ∧ off % bSize ≤ i % bSize ∧ i % bSize < off % bSize + m := by
  subst chunk
  simp only [bSize]
  omega

theorem writeLoop_spec {src : List UInt8} {off left : Nat} (layout : Layout d dev x)
    (ran : writeLoop dev d x src off left = .ok (d', x')) (length : src.length = left) :
    Layout d' dev x' ∧ d.Grows d' ∧ x.Extends x' ∧
      (∀ bn, d.addrOf dev x bn ≠ 0 → d'.addrOf dev x' bn = d.addrOf dev x bn) ∧
      (∀ bn, Touches off left bn → d'.addrOf dev x' bn ≠ 0) ∧
      (∀ i, off ≤ i → i < off + left → d'.fileByte dev x' i = src.getD (i - off) 0) ∧
      (∀ i, i < off ∨ off + left ≤ i → d.addrOf dev x (i / bSize) ≠ 0 →
        d'.fileByte dev x' i = d.fileByte dev x i) := by
  induction left using Nat.strongRecOn generalizing d x src off with
  | _ left inductionHypothesis =>
  rw [writeLoop] at ran
  split at ran
  · rename_i positive
    obtain ⟨⟨d₁, x₁, addr⟩, mapped, rest⟩ := Fallible.bind_ok ran
    dsimp only at rest
    generalize chunk : min left (bSize - off % bSize) = m at rest
    generalize written : d₁.put (dev, addr) (off % bSize) (src.take m) = d₂ at rest
    have layout₁ := bmap_layout layout mapped
    have addrIs : d₁.addrOf dev x₁ (off / bSize) = addr := by
      rw [bmap_addrOf mapped layout.boot layout.indirect, Function.update_self]
    have nonzero : addr ≠ 0 := bmap_ne_zero mapped layout.boot
    have notIndirect : (dev, addr) ≠ (dev, x₁.addrs (Fin.last nDirect)) := by
      intro same
      exact layout₁.apart _ (addrIs ▸ nonzero) (addrIs.trans (Prod.mk.inj same).2)
    have layout₂ : Layout d₂ dev x₁ := written ▸ put_layout layout₁ _ _ notIndirect
    have map₂ : d₂.addrOf dev x₁ = d₁.addrOf dev x₁ := written ▸ addrOf_put _ _ notIndirect
    have shorter : left - m < left := by
      subst chunk
      simp only [bSize]
      omega
    have restLength : (src.drop m).length = left - m := by
      simp [length]
    obtain ⟨layout', grows', extended', kept', touched', written', frame'⟩ :=
      inductionHypothesis _ shorter layout₂ rest restLength
    have grows₂ : d.Grows d₂ := written ▸ (bmap_spec mapped layout.boot).1.trans (put_grows _ _ _ _)
    -- a block the file had keeps its place through bmap and the write
    have kept₂ : ∀ bn, d.addrOf dev x bn ≠ 0 → d₂.addrOf dev x₁ bn = d.addrOf dev x bn :=
      fun bn has => (congrFun map₂ bn).trans (bmap_keeps mapped layout.boot layout.indirect has)
    have has₁ : d₁.addrOf dev x₁ (off / bSize) ≠ 0 := by
      rw [addrIs]
      exact nonzero
    have has₂ : d₂.addrOf dev x₁ (off / bSize) ≠ 0 := by
      rw [map₂]
      exact has₁
    have takeLength : (src.take m).length = m := by
      simp only [List.length_take, length]
      omega
    refine ⟨layout', grows₂.trans grows', (bmap_spec mapped layout.boot).2.1.trans extended', fun bn has => ?_,
      fun bn touched => ?_,
      fun i start below => ?_, fun i outside has => ?_⟩
    · rw [kept' bn (by rw [kept₂ bn has]; exact has), kept₂ bn has]
    · rcases touches_next touched with rfl | later
      · rw [kept' _ has₂]
        exact has₂
      · exact touched' bn (chunk ▸ later)
    · by_cases first : i < off + m
      · -- the byte is in the chunk this step wrote
        obtain ⟨sameBlock, lower, upper⟩ := (chunk_iff chunk).mp ⟨start, first⟩
        have put₁ := fileByte_put layout₁ has₁ (off % bSize) (src.take m) (i := i) (sameBlock ▸ has₁)
        rw [addrIs, written, takeLength, if_pos ⟨sameBlock, lower, upper⟩] at put₁
        have offset : i % bSize - off % bSize = i - off := by
          simp only [bSize] at sameBlock lower ⊢
          omega
        rw [frame' i (.inl first) (by rw [sameBlock]; exact has₂), put₁, offset]
        simp [List.getD_eq_getElem?_getD, show i - off < m by omega]
      · -- the byte is in a later chunk
        rw [written' i (by omega) (by omega)]
        have offset : m + (i - (off + m)) = i - off := by omega
        simp [List.getD_eq_getElem?_getD, List.getElem?_drop, offset]
    · have hasByte₁ : d₁.addrOf dev x₁ (i / bSize) ≠ 0 := by
        rw [bmap_keeps mapped layout.boot layout.indirect has]
        exact has
      have notChunk : ¬(i / bSize = off / bSize ∧ off % bSize ≤ i % bSize ∧
          i % bSize < off % bSize + m) := by
        intro inside
        have := (chunk_iff chunk).mpr inside
        omega
      have put₁ := fileByte_put layout₁ has₁ (off % bSize) (src.take m) hasByte₁
      rw [addrIs, written, takeLength, if_neg notChunk] at put₁
      rw [frame' i (by omega) (by rw [kept₂ _ has]; exact has), put₁, fileByte_bmap layout mapped has]
  · cases ran
    refine ⟨layout, Disk.Grows.refl _, Dinode.Extends.refl _, fun _ _ => rfl, fun bn touched => absurd touched.1 ‹_›,
      fun i start below => by omega, fun _ _ _ => rfl⟩

/-- The loop of readi: from byte `off`, for `left` more bytes, bmap each block
and copy out its bytes, up to the end of the block each time. -/
def readLoop (dev : Nat) (d : Disk) (x : Dinode) (off left : Nat) :
    Except String (Disk × Dinode × List UInt8) :=
  if 0 < left then do
    let (d₁, x₁, addr) ← bmap d dev x (off / bSize)
    let m := min left (bSize - off % bSize)
    let (d₂, x₂, rest) ← readLoop dev d₁ x₁ (off + m) (left - m)
    return (d₂, x₂, d₁.bytes (dev, addr) (off % bSize) m ++ rest)
  else .ok (d, x, [])
termination_by left
decreasing_by
  have within : off % bSize < bSize := Nat.mod_lt _ (by decide)
  omega

/-- Over blocks the file has, the loop of readi allocates nothing and copies
out the file's bytes. -/
theorem readLoop_eq {off left : Nat} (mapped : ∀ bn, Touches off left bn → d.addrOf dev x bn ≠ 0) :
    readLoop dev d x off left = .ok (d, x, (List.range left).map fun k => d.fileByte dev x (off + k)) := by
  induction left using Nat.strongRecOn generalizing off with
  | _ left inductionHypothesis =>
  rw [readLoop]
  split
  · rename_i positive
    generalize chunk : min left (bSize - off % bSize) = m
    have shorter : left - m < left := by
      subst chunk
      simp only [bSize]
      omega
    have rest : readLoop dev d x (off + m) (left - m) =
        .ok (d, x, (List.range (left - m)).map fun k => d.fileByte dev x (off + m + k)) :=
      inductionHypothesis _ shorter fun bn later => mapped bn (touches_of_next (chunk ▸ later))
    rw [bmap_present (mapped _ (touches_first positive)), Fallible.ok_bind]
    dsimp only
    rw [rest, Fallible.ok_bind]
    -- the chunk of this step, then the bytes after it
    have firstChunk : d.bytes (dev, d.addrOf dev x (off / bSize)) (off % bSize) m =
        (List.range m).map fun k => d.fileByte dev x (off + k) := by
      apply List.map_congr_left
      intro k inRange
      obtain ⟨sameBlock, -, -⟩ := (chunk_iff chunk).mp ⟨Nat.le_add_right off k,
        by have := List.mem_range.mp inRange; omega⟩
      have offset : (off + k) % bSize = off % bSize + k := by
        have := List.mem_range.mp inRange
        simp only [bSize] at sameBlock chunk ⊢
        omega
      rw [Disk.fileByte, sameBlock, offset]
    have whole : left = m + (left - m) := by omega
    rw [firstChunk]
    conv => rhs; rw [whole, List.range_add, List.map_append, List.map_map]
    simp only [Function.comp_def, Nat.add_assoc]
    rfl
  · rename_i empty
    simp only [Nat.not_lt, Nat.le_zero] at empty
    simp [empty]

/-! ## Where the loops can panic -/

/-- Every block of device `dev` is in use, so balloc has none to give. -/
def Disk.Full (d : Disk) (dev : Nat) : Prop := ∀ b < sb.size, d.bitmap (dev, b) = true

/-- balloc panics only on a full device. -/
theorem balloc_error {msg : String} (failed : balloc d dev = .error msg) :
    msg = "balloc: out of blocks" ∧ d.Full dev := by
  unfold balloc at failed
  split at failed
  · cases failed
  · rename_i none
    cases failed
    refine ⟨rfl, fun b below => ?_⟩
    simpa using List.find?_eq_none.mp none b (List.mem_range.mpr below)

theorem ensureAddr_error {k : Fin (nDirect + 1)} {msg : String}
    (failed : ensureAddr d dev x k = .error msg) : msg = "balloc: out of blocks" ∧ d.Full dev := by
  unfold ensureAddr at failed
  split at failed
  · rcases Fallible.bind_error failed with allocation | ⟨_, -, stored⟩
    · exact balloc_error allocation
    · cases stored
  · cases failed

theorem ensureAddr_grows {k : Fin (nDirect + 1)} {a : Nat} (ensured : ensureAddr d dev x k = .ok (d', x', a)) :
    d.Grows d' := by
  rcases ensureAddr_eq ensured with ⟨-, rfl, -, -⟩ | ⟨-, allocated, -⟩
  · exact Disk.Grows.refl _
  · exact balloc_grows allocated

/-- Below `MAXFILE` blocks bmap panics only when it needs a block and the
device, with the blocks bmap took first, has none free. -/
theorem bmap_error {bn : Nat} {msg : String} (failed : bmap d dev x bn = .error msg)
    (inRange : bn < maxFile) : msg = "balloc: out of blocks" ∧ ∃ d₁, d.Grows d₁ ∧ d₁.Full dev := by
  unfold bmap at failed
  split at failed
  · exact (ensureAddr_error failed).imp_right fun full => ⟨d, Disk.Grows.refl d, full⟩
  · split at failed
    · rcases Fallible.bind_error failed with ensured | ⟨⟨d₁, x₁, ind⟩, ensuredOk, rest⟩
      · exact (ensureAddr_error ensured).imp_right fun full => ⟨d, Disk.Grows.refl d, full⟩
      · dsimp only at rest
        split at rest
        · rcases Fallible.bind_error rest with allocation | ⟨_, -, stored⟩
          · exact (balloc_error allocation).imp_right fun full => ⟨d₁, ensureAddr_grows ensuredOk, full⟩
          · cases stored
        · cases rest
    · simp only [maxFile] at inRange
      omega

/-- writei's loop panics only when the device, with the blocks the loop took
first, has no free block. -/
theorem writeLoop_error {src : List UInt8} {off left : Nat} {msg : String}
    (failed : writeLoop dev d x src off left = .error msg) (fits : off + left ≤ maxFile * bSize)
    (boot : d.bitmap (dev, 0) = true) :
    msg = "balloc: out of blocks" ∧ ∃ d₁, d.Grows d₁ ∧ d₁.Full dev := by
  induction left using Nat.strongRecOn generalizing d x src off with
  | _ left inductionHypothesis =>
  rw [writeLoop] at failed
  split at failed
  · rename_i positive
    have shorter : left - min left (bSize - off % bSize) < left := by
      simp only [bSize]
      omega
    rcases Fallible.bind_error failed with mapped | ⟨⟨d₁, x₁, addr⟩, mappedOk, rest⟩
    · refine bmap_error mapped ?_
      simp only [maxFile, bSize] at fits ⊢
      omega
    · -- the disk the rest of the loop starts from keeps every block in use
      have grows : d.Grows (d₁.put (dev, addr) (off % bSize) (src.take (min left (bSize - off % bSize)))) :=
        (bmap_spec mappedOk boot).1.trans (put_grows _ _ _ _)
      obtain ⟨same, d₂, grows₂, full⟩ := inductionHypothesis _ shorter rest
        (by simp only [bSize] at fits ⊢; omega) (grows.bitmap _ boot)
      exact ⟨same, d₂, grows.trans grows₂, full⟩
  · cases failed

/-! ## readi and writei -/

/-- readi on a file whose bytes are `data`: -1 when `off` is past the end or
`off + n` overflows a `uint`, else the bytes from `off`, at most `n` of them. -/
def readBytes (data : List UInt8) (off n : Nat) : Int × List UInt8 :=
  if data.length < off ∨ 2 ^ 32 ≤ off + n then (-1, [])
  else
    let n := if data.length < off + n then data.length - off else n
    (n, (data.drop off).take n)

/-- writei of the bytes `src` at `off` on a file whose bytes are `data`: -1
and no change when `off` is past the end or the write overflows a `uint` or
passes `MAXFILE` blocks, else the bytes from `off` replaced. -/
def writeBytes (data src : List UInt8) (off : Nat) : Int × List UInt8 :=
  if data.length < off ∨ 2 ^ 32 ≤ off + src.length then (-1, data)
  else if maxFile * bSize < off + src.length then (-1, data)
  else (src.length, data.take off ++ src ++ data.drop (off + src.length))

/-- readi of `n` bytes from `off` on an inode that is not a device: -1 when
`off` is past the end or `off + n` overflows, else the loop over the bytes up
to the end of the file. -/
def Inode.readi (e : Inode) (d : Disk) (off n : Nat) : Except String (Disk × Inode × Int × List UInt8) :=
  if e.copy.size < off ∨ 2 ^ 32 ≤ off + n then .ok (d, e, -1, [])
  else
    let n := if e.copy.size < off + n then e.copy.size - off else n
    do
      let (d', x, bytes) ← readLoop e.dev d e.copy off n
      return (d', { e with copy := x }, n, bytes)

/-- writei of the `n` bytes of `src` at `off` on an inode that is not a
device: -1 when `off` is past the end, or `off + n` overflows or passes
`MAXFILE` blocks; else the loop, then the new size and iupdate when the write
ends past the end. -/
def Inode.writei (e : Inode) (d : Disk) (src : List UInt8) (off : Nat) :
    Except String (Disk × Inode × Int) :=
  if e.copy.size < off ∨ 2 ^ 32 ≤ off + src.length then .ok (d, e, -1)
  else if maxFile * bSize < off + src.length then .ok (d, e, -1)
  else do
    let (d₁, x) ← writeLoop e.dev d e.copy src off src.length
    if 0 < src.length ∧ x.size < off + src.length then
      let e' := { e with copy := { x with size := off + src.length } }
      return ({ d₁ with dinode := Function.update d₁.dinode e'.key e'.copy }, e', src.length)
    else return (d₁, { e with copy := x }, src.length)

variable {e : Inode}

/-- Over a file laid out as bmap lays it out, readi allocates nothing, never
panics, and returns what `readBytes` returns of the file's bytes. -/
theorem readi_eq (layout : Layout d e.dev e.copy) (off n : Nat) :
    e.readi d off n = .ok (d, e, readBytes (d.content e.dev e.copy) off n) := by
  unfold Inode.readi readBytes
  rw [length_content]
  split
  · rfl
  · rename_i inside
    dsimp only
    generalize cut : (if e.copy.size < off + n then e.copy.size - off else n) = m
    have fits : off + m ≤ e.copy.size := by
      split at cut <;> omega
    rw [readLoop_eq fun bn touched => layout.mapped bn (by have := touched.2.2; omega),
      Fallible.ok_bind, content_slice fits]
    rfl

/-- writei over a file laid out as bmap lays it out: it does to the file's
bytes what `writeBytes` does and keeps the layout, changing no field of the
copy but the addresses and the size and clearing no bit of the free map; or
it panics in balloc, at a point where every block of the device is in use,
those in use before the call among them. -/
theorem writei_eq (layout : Layout d e.dev e.copy) (src : List UInt8) (off : Nat) :
    (∃ d' x', e.writei d src off =
        .ok (d', { e with copy := x' }, (writeBytes (d.content e.dev e.copy) src off).1) ∧
      Layout d' e.dev x' ∧ d'.content e.dev x' = (writeBytes (d.content e.dev e.copy) src off).2 ∧
      x' = { e.copy with addrs := x'.addrs, size := x'.size } ∧ ∀ k, d.bitmap k = true → d'.bitmap k = true) ∨
    e.writei d src off = .error "balloc: out of blocks" ∧ ∃ d₁, d.Grows d₁ ∧ d₁.Full e.dev := by
  unfold Inode.writei writeBytes
  rw [length_content]
  split
  · exact .inl ⟨d, e.copy, rfl, layout, rfl, rfl, fun _ set => set⟩
  split
  · exact .inl ⟨d, e.copy, rfl, layout, rfl, rfl, fun _ set => set⟩
  rename_i inside fits
  rw [not_or, Nat.not_lt, Nat.not_le] at inside
  rw [Nat.not_lt] at fits
  cases ran : writeLoop e.dev d e.copy src off src.length with
  | error msg =>
      obtain ⟨same, full⟩ := writeLoop_error ran fits layout.boot
      refine .inr ⟨?_, full⟩
      rw [Fallible.error_bind, same]
  | ok result =>
      obtain ⟨d₁, x₁⟩ := result
      obtain ⟨layout₁, grows₁, extended, -, touched, written, frame⟩ := writeLoop_spec layout ran rfl
      have sameSize : x₁.size = e.copy.size := by
        rw [extended.fields]
      -- the bytes of the file after the loop, up to the old size or the write's end
      have bytes : (List.range (max e.copy.size (off + src.length))).map (d₁.fileByte e.dev x₁) =
          (d.content e.dev e.copy).take off ++ src ++ (d.content e.dev e.copy).drop (off + src.length) :=
        range_map_write inside.1 (fun i early => frame i (.inl early) (layout.has (by omega)))
          written (fun i late below => frame i (.inr late) (layout.has below))
      refine .inl ?_
      rw [Fallible.ok_bind]
      dsimp only
      split
      · rename_i grows
        refine ⟨_, { x₁ with size := off + src.length }, rfl, ?_, ?_, ?_, grows₁.bitmap⟩
        · refine (layout₁.grow fits fun bn below => ?_).iupdate _
          by_cases old : bn * bSize < x₁.size
          · exact layout₁.mapped bn old
          · refine touched bn ⟨grows.1, ?_, below⟩
            simp only [bSize] at old ⊢
            omega
        · show (List.range (off + src.length)).map (d₁.fileByte e.dev x₁) = _
          rw [← bytes, Nat.max_eq_right (by omega)]
        · conv_lhs => rw [extended.fields]
      · rename_i stays
        refine ⟨_, x₁, rfl, layout₁, ?_, ?_, grows₁.bitmap⟩
        · show (List.range x₁.size).map (d₁.fileByte e.dev x₁) = _
          rw [← bytes, sameSize, Nat.max_eq_left (by omega)]
        · conv_lhs => rw [extended.fields]
          rw [sameSize]

/-! ## Runs of reads and writes -/

/-- A call of readi or writei on a file. -/
inductive Io where
  | read (off n : Nat)
  | write (src : List UInt8) (off : Nat)

/-- Calls of readi and writei on the inode `e`, one after the other: the
disk, the inode and what each call returned, or the first panic. -/
def runIo (d : Disk) (e : Inode) : List Io → Except String (Disk × Inode × List (Int × List UInt8))
  | [] => .ok (d, e, [])
  | .read off n :: rest => do
      let (d₁, e₁, r, bytes) ← e.readi d off n
      let (d₂, e₂, results) ← runIo d₁ e₁ rest
      return (d₂, e₂, (r, bytes) :: results)
  | .write src off :: rest => do
      let (d₁, e₁, r) ← e.writei d src off
      let (d₂, e₂, results) ← runIo d₁ e₁ rest
      return (d₂, e₂, (r, []) :: results)

/-- The same calls on the bytes of the file: its bytes at the end, and what
each call returned. -/
def runBytes (data : List UInt8) : List Io → List UInt8 × List (Int × List UInt8)
  | [] => (data, [])
  | .read off n :: rest => ((runBytes data rest).1, readBytes data off n :: (runBytes data rest).2)
  | .write src off :: rest =>
      ((runBytes (writeBytes data src off).2 rest).1,
        ((writeBytes data src off).1, []) :: (runBytes (writeBytes data src off).2 rest).2)

/-- A disk with block 0 in use and every other block free. -/
def freeDisk : Disk := ⟨fun _ => Dinode.zero, fun k => k.2 == 0, fun _ _ => 0⟩

/-- A disk with every block in use. -/
def fullDisk : Disk := ⟨fun _ => Dinode.zero, fun _ => true, fun _ _ => 0⟩

/-- A file of type `T_FILE` with no bytes, inode 2 of the root device. -/
def emptyFile : Inode := ⟨1, 2, 1, true, { Dinode.zero with type := 2 }⟩

end Fs
end Xv6
