import Mathlib.Logic.Function.Basic
import Mathlib.Data.UInt
import Xv6.Param

/-!
# The user heap allocator

`malloc`, `free` and `morecore` of `user/umalloc.c`, the allocator of
Kernighan and Ritchie: a circular free list of blocks, each starting with a
header of a pointer and a size in header units, kept in address order through
the static header `base`.  Memory is a map from byte addresses to headers, and
`sbrk` moves the program break as growproc does, in whole pages, so a store to
a header faults unless the header lies below the break rounded up to a page
(loads are not checked); `none` is that fault or a loop out of fuel.  The unit
count `(nbytes + sizeof(Header) - 1)/sizeof(Header) + 1` is computed in uint:
from `2^32 - 7` bytes up it wraps to one unit, and malloc hands out a block
that is all header; from `2^32 - 15` to `2^32 - 8` bytes it is `2^29`,
morecore's `nu * sizeof(Header)` wraps to 0, and the header morecore stores at
the break that sbrk(0) left faults.
-/

namespace Xv6
namespace Umalloc

/-- `sizeof(Header)`: a pointer and a uint. -/
def headerSize : Nat := 8

/-- A block header: `s.ptr`, the next free block (0 for null), and `s.size`,
the block's length in header units, its header included. -/
structure Header where
  ptr : Nat
  size : UInt32

/-- The allocator's world: memory read as headers at byte addresses, `freep`
(0 until the list is set up), and the program break with the highest value
sbrk may move it to. -/
structure Heap where
  mem : Nat → Header
  freep : Nat
  brk : Nat
  limit : Nat

/-- The end of the pages growproc mapped: the break rounded up to a page. -/
def Heap.top (h : Heap) : Nat := (h.brk + pgSize - 1) / pgSize * pgSize

/-- Memory with the header `x` at `a`. -/
def Heap.update (h : Heap) (a : Nat) (x : Header) : Heap :=
  { h with mem := Function.update h.mem a x }

/-- The store `*a = x`: a page fault (none) unless the header lies below `top`. -/
def Heap.store (h : Heap) (a : Nat) (x : Header) : Option Heap :=
  if a + headerSize ≤ h.top then some (h.update a x) else none

/-- `a->s.ptr = ptr`. -/
def Heap.setPtr (h : Heap) (a ptr : Nat) : Option Heap := h.store a { h.mem a with ptr := ptr }

/-- `a->s.size = size`. -/
def Heap.setSize (h : Heap) (a : Nat) (size : UInt32) : Option Heap := h.store a { h.mem a with size := size }

/-- `a + a->s.size`: the address just past the block at `a`. -/
def Heap.past (h : Heap) (a : Nat) : Nat := a + headerSize * (h.mem a).size.toNat

@[simp] theorem update_mem_self (h : Heap) (a : Nat) (x : Header) : (h.update a x).mem a = x := by
  simp [Heap.update]

@[simp] theorem update_mem_of_ne (h : Heap) {a b : Nat} (ne : b ≠ a) (x : Header) :
    (h.update a x).mem b = h.mem b := by
  simp [Heap.update, ne]

@[simp] theorem update_update_self (h : Heap) (a : Nat) (x y : Header) :
    (h.update a x).update a y = h.update a y := by
  simp [Heap.update]

@[simp] theorem update_freep (h : Heap) (a : Nat) (x : Header) : (h.update a x).freep = h.freep := rfl
@[simp] theorem update_brk (h : Heap) (a : Nat) (x : Header) : (h.update a x).brk = h.brk := rfl
@[simp] theorem update_limit (h : Heap) (a : Nat) (x : Header) : (h.update a x).limit = h.limit := rfl
@[simp] theorem update_top (h : Heap) (a : Nat) (x : Header) : (h.update a x).top = h.top := rfl
@[simp] theorem top_with_freep (h : Heap) (p : Nat) : ({ h with freep := p } : Heap).top = h.top := rfl

theorem store_of_below {h : Heap} {a : Nat} (below : a + headerSize ≤ h.top) (x : Header) :
    h.store a x = some (h.update a x) := by
  rw [Heap.store, if_pos below]

theorem store_of_above {h : Heap} {a : Nat} (above : h.top < a + headerSize) (x : Header) :
    h.store a x = none := by
  rw [Heap.store, if_neg (Nat.not_le.mpr above)]

/-- A page-aligned break is its own rounding. -/
theorem top_of_aligned {h : Heap} (aligned : h.brk % pgSize = 0) : h.top = h.brk := by
  unfold Heap.top pgSize at *
  omega

theorem brk_le_top (h : Heap) : h.brk ≤ h.top := by
  unfold Heap.top pgSize
  omega

/-- The bytes a block handed out at `r` holds after its header. -/
def Heap.usable (h : Heap) (r : Nat) : Nat := headerSize * ((h.mem (r - headerSize)).size.toNat - 1)

/-- sbrk(n), as growproc computes it on a uint size: the old break, the break
moved by `n` bytes.  Growing fails (-1, none) past `limit`, where allocuvm
finds no memory or reaches KERNBASE.  Shrinking below 0 wraps, and deallocuvm
then keeps the break, which fails only at 0; shrinking to 0 reads as failure
(the pages deallocuvm frees before it does are not kept apart). -/
def sbrk (h : Heap) (n : Int32) : Option (Heap × Nat) :=
  let new := (h.brk : Int) + n.toInt
  if 0 < n.toInt then
    if h.limit < new then none else some ({ h with brk := new.toNat }, h.brk)
  else if n.toInt < 0 then
    if new < 0 then (if h.brk = 0 then none else some (h, h.brk))
    else if new = 0 then none
    else some ({ h with brk := new.toNat }, h.brk)
  else some (h, h.brk)

/-- free's search `for(p = freep; !(bp > p && bp < p->s.ptr); p = p->s.ptr)
if(p >= p->s.ptr && (bp > p || bp < p->s.ptr)) break;`: the free block after
which `bp` belongs, also at the list's wrap point. -/
def findSpot (mem : Nat → Header) (bp : Nat) : Nat → Nat → Option Nat
  | 0, _ => none
  | fuel + 1, p =>
    if bp > p ∧ bp < (mem p).ptr then some p
    else if p ≥ (mem p).ptr ∧ (bp > p ∨ bp < (mem p).ptr) then some p
    else findSpot mem bp fuel (mem p).ptr

/-- `if(bp + bp->s.size == p->s.ptr) {...} else bp->s.ptr = p->s.ptr;`: join
`bp` to the free block after it when they touch. -/
def joinUpper (h : Heap) (bp p : Nat) : Option Heap :=
  if h.past bp = (h.mem p).ptr then do
    let h ← h.setSize bp ((h.mem bp).size + (h.mem (h.mem p).ptr).size)
    h.setPtr bp (h.mem (h.mem p).ptr).ptr
  else h.setPtr bp (h.mem p).ptr

/-- `if(p + p->s.size == bp) {...} else p->s.ptr = bp;`: join `bp` to the free
block before it when they touch. -/
def joinLower (h : Heap) (bp p : Nat) : Option Heap :=
  if h.past p = bp then do
    let h ← h.setSize p ((h.mem p).size + (h.mem bp).size)
    h.setPtr p (h.mem bp).ptr
  else h.setPtr p bp

/-- free(ap): the block whose header stands before `ap` goes back on the list,
joined to its neighbours, and `freep` is left at the block before it. -/
def free (h : Heap) (ap fuel : Nat) : Option Heap := do
  let bp := ap - headerSize
  let p ← findSpot h.mem bp fuel h.freep
  let h ← joinUpper h bp p
  let h ← joinLower h bp p
  return { h with freep := p }

/-- morecore(nu): at least 4096 units more from sbrk, handed to free; `freep`,
or 0 when sbrk fails.  `nu * sizeof(Header)` is a uint product passed as
sbrk's int. -/
def morecore (h : Heap) (nu : UInt32) (fuel : Nat) : Option (Heap × Nat) :=
  let nu := if nu < 4096 then 4096 else nu
  match sbrk h (nu * 8).toInt32 with
  | none => some (h, 0)
  | some (h, p) => do
    let h ← h.setSize p nu
    let h ← free h (p + headerSize) fuel
    return (h, h.freep)

/-- `(nbytes + sizeof(Header) - 1)/sizeof(Header) + 1`, in uint. -/
def nunits (nbytes : UInt32) : UInt32 := (nbytes + 8 - 1) / 8 + 1

/-- malloc's loop `for(p = prevp->s.ptr; ; prevp = p, p = p->s.ptr)`: the
first block of at least `nunits` units is taken whole or split from its tail;
after a lap back to `freep` the list is grown by morecore.  Returns the
pointer past the header, or 0. -/
def mallocLoop (nunits : UInt32) : Nat → Heap → Nat → Nat → Option (Heap × Nat)
  | 0, _, _, _ => none
  | fuel + 1, h, prevp, p =>
    if (h.mem p).size ≥ nunits then
      if (h.mem p).size = nunits then do
        let h ← h.setPtr prevp (h.mem p).ptr
        return ({ h with freep := prevp }, p + headerSize)
      else do
        let h ← h.setSize p ((h.mem p).size - nunits)
        let p := h.past p
        let h ← h.setSize p nunits
        return ({ h with freep := prevp }, p + headerSize)
    else if p = h.freep then
      match morecore h nunits fuel with
      | none => none
      | some (h, 0) => some (h, 0)
      | some (h, p) => mallocLoop nunits fuel h p (h.mem p).ptr
    else mallocLoop nunits fuel h p (h.mem p).ptr

/-- malloc(nbytes), `base` being the address of the static header: on the
first call the list is set up as `base` alone, of size 0; the search starts
after `freep`. -/
def malloc (base : Nat) (h : Heap) (nbytes : UInt32) (fuel : Nat) : Option (Heap × Nat) := do
  let h ← if h.freep = 0 then do
      let h ← h.setPtr base base
      let h ← h.setSize base 0
      pure { h with freep := base }
    else pure h
  mallocLoop (nunits nbytes) fuel h h.freep (h.mem h.freep).ptr

/-! ### One lemma per branch -/

theorem sbrk_of_grows {h : Heap} {n : Int32} (grows : 0 < n.toInt)
    (fits : (h.brk : Int) + n.toInt ≤ h.limit) :
    sbrk h n = some ({ h with brk := ((h.brk : Int) + n.toInt).toNat }, h.brk) := by
  rw [sbrk, if_pos grows, if_neg (Int.not_lt.mpr fits)]

/-- sbrk(0) leaves the break where it is. -/
theorem sbrk_zero (h : Heap) : sbrk h 0 = some (h, h.brk) := by
  simp [sbrk]

/-- free's search stops at once at the list's wrap point when `bp` lies past it. -/
theorem findSpot_wrap {mem : Nat → Header} {bp p : Nat} (wraps : (mem p).ptr ≤ p) (past : p < bp)
    (fuel : Nat) : findSpot mem bp (fuel + 1) p = some p := by
  rw [findSpot, if_neg (by omega), if_pos ⟨wraps, .inl past⟩]

theorem joinUpper_apart {h : Heap} {bp p : Nat} (apart : h.past bp ≠ (h.mem p).ptr) :
    joinUpper h bp p = h.setPtr bp (h.mem p).ptr := by
  rw [joinUpper, if_neg apart]

theorem joinLower_apart {h : Heap} {bp p : Nat} (apart : h.past p ≠ bp) :
    joinLower h bp p = h.setPtr p bp := by
  rw [joinLower, if_neg apart]

/-- free into the list that holds `base` alone, of size 0, of a mapped block
above `base` that does not reach round to it: the list becomes `base`, `bp`,
`base`. -/
theorem free_into_empty {h : Heap} {base bp : Nat} (alone : h.mem base = ⟨base, 0⟩)
    (start : h.freep = base) (above : base < bp) (short : h.past bp ≠ base)
    (mapped : bp + headerSize ≤ h.top) (fuel : Nat) :
    free h (bp + headerSize) (fuel + 1) =
      some { (h.update bp { h.mem bp with ptr := base }).update base ⟨bp, 0⟩ with freep := base } := by
  have spot : findSpot h.mem bp (fuel + 1) base = some base :=
    findSpot_wrap (by rw [alone]) above fuel
  have upper : h.past bp ≠ (h.mem base).ptr := by
    rwa [alone]
  let h₁ := h.update bp { h.mem bp with ptr := base }
  have joined₁ : joinUpper h bp base = some h₁ := by
    rw [joinUpper_apart upper, Heap.setPtr, alone, store_of_below mapped]
  have base₁ : h₁.mem base = ⟨base, 0⟩ := by
    rw [update_mem_of_ne _ (Nat.ne_of_lt above), alone]
  have lower : h₁.past base ≠ bp := by
    simp only [Heap.past, base₁, UInt32.toNat_zero]
    omega
  have joined₂ : joinLower h₁ bp base = some (h₁.update base ⟨bp, 0⟩) := by
    rw [joinLower_apart lower, Heap.setPtr, base₁, store_of_below (by rw [update_top]; omega)]
  simp only [free, Nat.add_sub_cancel, start, spot, Option.bind_eq_bind, Option.bind_some, joined₁, joined₂]
  rfl

/-- The first malloc sets the list up as `base` alone, of size 0, and starts
its search there. -/
theorem malloc_first {h : Heap} {base : Nat} (unset : h.freep = 0) (below : base + headerSize ≤ h.top)
    (nbytes : UInt32) (fuel : Nat) :
    malloc base h nbytes fuel =
      mallocLoop (nunits nbytes) fuel { h.update base ⟨base, 0⟩ with freep := base } base base := by
  simp only [malloc, unset, ↓reduceIte, Option.bind_eq_bind]
  rw [Heap.setPtr, store_of_below below, Option.bind_some, Heap.setSize,
    store_of_below (by rw [update_top]; exact below), Option.bind_some]
  simp

/-- A block bigger than the request is split: its tail of `nunits` units is handed out. -/
theorem mallocLoop_split {nunits : UInt32} {h : Heap} {prevp p : Nat} (bigger : nunits < (h.mem p).size)
    (fuel : Nat) :
    mallocLoop nunits (fuel + 1) h prevp p = do
      let h ← h.setSize p ((h.mem p).size - nunits)
      let h' ← h.setSize (h.past p) nunits
      return ({ h' with freep := prevp }, h.past p + headerSize) := by
  rw [mallocLoop, if_pos (UInt32.le_of_lt bigger), if_neg (UInt32.ne_of_lt bigger).symm]

/-- Back at `freep` with no block big enough, malloc grows the heap and goes on
from the block morecore returns. -/
theorem mallocLoop_grow {nunits : UInt32} {h h' : Heap} {prevp p q : Nat} (small : (h.mem p).size < nunits)
    (lap : p = h.freep) {fuel : Nat} (grown : morecore h nunits fuel = some (h', q)) (nonnull : q ≠ 0) :
    mallocLoop nunits (fuel + 1) h prevp p = mallocLoop nunits fuel h' q (h'.mem q).ptr := by
  rw [mallocLoop, if_neg (Std.not_le.mpr small), if_pos lap, grown]
  cases q with
  | zero => exact absurd rfl nonnull
  | succ q => rfl

/-- For a request of `2^32 - 7` bytes or more, `nbytes + sizeof(Header) - 1` wraps. -/
theorem nunits_of_huge {nbytes : UInt32} (huge : 2 ^ 32 - 7 ≤ nbytes.toNat) : nunits nbytes = 1 := by
  apply UInt32.toNat_inj.mp
  have := nbytes.toNat_lt
  simp only [nunits, UInt32.toNat_add, UInt32.toNat_div, UInt32.toNat_sub, UInt32.toNat_ofNat,
    Nat.reducePow, Nat.reduceMod] at *
  omega

/-- From `2^32 - 15` to `2^32 - 8` bytes the count is `2^29` units, which
`sizeof(Header)` times is `2^32`. -/
theorem nunits_of_wrapping {nbytes : UInt32} (low : 2 ^ 32 - 15 ≤ nbytes.toNat)
    (high : nbytes.toNat ≤ 2 ^ 32 - 8) : nunits nbytes = 536870912 := by
  apply UInt32.toNat_inj.mp
  simp only [nunits, UInt32.toNat_add, UInt32.toNat_div, UInt32.toNat_sub, UInt32.toNat_ofNat,
    Nat.reducePow, Nat.reduceMod] at *
  omega

/-! ### A huge request -/

/-- The first malloc of `2^32 - 7` bytes or more, on a fresh heap whose break
lies above `base` and has room for one morecore of 4096 units, succeeds with a
block of one unit, all header: no byte of it can be used, and it starts at the
new break, past the end of the arena. -/
theorem malloc_huge_request_returns_empty_block (mem : Nat → Header) {base brk limit : Nat}
    (nonnull : 0 < base) (above : base + headerSize ≤ brk) (room : brk + 32768 ≤ limit)
    {nbytes : UInt32} (huge : 2 ^ 32 - 7 ≤ nbytes.toNat) (fuel : Nat) :
    ∃ h r, malloc base ⟨mem, 0, brk, limit⟩ nbytes (fuel + 2) = some (h, r) ∧ r ≠ 0 ∧
      h.usable r = 0 ∧ r = h.brk := by
  have apart : brk ≠ base := by unfold headerSize at above; omega
  -- the first call sets the list up as `base` alone, of size 0
  let h₀ : Heap := { (⟨mem, 0, brk, limit⟩ : Heap).update base ⟨base, 0⟩ with freep := base }
  have base₀ : h₀.mem base = ⟨base, 0⟩ := by simp [h₀]
  rw [malloc_first rfl (Nat.le_trans above (brk_le_top ⟨mem, 0, brk, limit⟩)), nunits_of_huge huge]
  -- morecore asks sbrk for 4096 units at the break and frees them into the list
  have cast : ((4096 : UInt32) * 8).toInt32.toInt = 32768 := by decide
  let h₁ : Heap := { h₀ with brk := brk + 32768 }
  have grew : sbrk h₀ ((4096 : UInt32) * 8).toInt32 = some (h₁, brk) := by
    rw [sbrk_of_grows (by rw [cast]; decide) (by rw [cast]; simp [h₀]; omega), cast]
    rfl
  have top₁ : brk + 32768 ≤ h₁.top := brk_le_top h₁
  let h₂ : Heap := h₁.update brk ⟨(mem brk).ptr, 4096⟩
  have sized : h₁.setSize brk 4096 = some h₂ := by
    rw [Heap.setSize, store_of_below (by unfold headerSize; omega)]
    simp [h₂, h₁, h₀, apart]
  have brk₂ : h₂.mem brk = ⟨(mem brk).ptr, 4096⟩ := update_mem_self _ _ _
  have base₂ : h₂.mem base = ⟨base, 0⟩ := by simp [h₂, h₁, apart.symm, base₀]
  let h₅ : Heap := { (h₂.update brk { h₂.mem brk with ptr := base }).update base ⟨brk, 0⟩ with freep := base }
  have freed : free h₂ (brk + headerSize) (fuel + 1) = some h₅ :=
    free_into_empty base₂ rfl (by unfold headerSize at above; omega)
      (by simp only [Heap.past, brk₂, headerSize]; omega) (by rw [update_top, headerSize]; omega) fuel
  have more : morecore h₀ 1 (fuel + 1) = some (h₅, base) := by
    rw [morecore, if_pos (by decide), grew]
    simp only [sized, freed, Option.bind_eq_bind, Option.bind_some]
    rfl
  have lap : mallocLoop 1 (fuel + 2) h₀ base base = mallocLoop 1 (fuel + 1) h₅ base brk := by
    rw [mallocLoop_grow (by rw [base₀]; exact (by decide : (0 : UInt32) < 1)) rfl more (Nat.pos_iff_ne_zero.mp nonnull)]
    simp [h₅]
  -- the block of 4096 units gives its last unit, the one below the new break
  have size₅ : (h₅.mem brk).size = 4096 := by
    simp [h₅, apart, brk₂]
  have top₅ : h₅.top = h₁.top := by simp only [h₅, h₂, top_with_freep, update_top]
  let h₆ : Heap := h₅.update brk { h₅.mem brk with size := 4096 - 1 }
  have split : h₅.setSize brk ((h₅.mem brk).size - 1) = some h₆ := by
    rw [Heap.setSize, store_of_below (by rw [top₅, headerSize]; omega), size₅]
  have tail : h₆.past brk = brk + 32760 := by
    rw [Heap.past, update_mem_self, show ((4096 : UInt32) - 1).toNat = 4095 by decide]
    rfl
  have last : h₆.setSize (brk + 32760) 1 =
      some (h₆.update (brk + 32760) { h₆.mem (brk + 32760) with size := 1 }) :=
    store_of_below (by rw [update_top, top₅, headerSize]; omega) _
  rw [lap, mallocLoop_split (by rw [size₅]; decide) fuel]
  rw [split, Option.bind_eq_bind, Option.bind_some, tail, last, Option.bind_some]
  refine ⟨_, _, rfl, by unfold headerSize; omega, ?_, ?_⟩
  · simp [Heap.usable, headerSize]
  · show brk + 32760 + headerSize = brk + 32768
    rw [headerSize]

/-- malloc(0xffffffff) as a program's first call, with `base` at 0x1000 and
the break at 0x2000. -/
theorem malloc_max_uint_at_start :
    0 < 0x1000 ∧ 0x1000 + headerSize ≤ 0x2000 ∧ 0x2000 + 32768 ≤ 0x80000000 ∧
      2 ^ 32 - 7 ≤ (0xffffffff : UInt32).toNat ∧
      ∃ h r, malloc 0x1000 ⟨fun _ => ⟨0, 0⟩, 0, 0x2000, 0x80000000⟩ 0xffffffff 2 = some (h, r) ∧
        r ≠ 0 ∧ h.usable r = 0 ∧ r = h.brk :=
  ⟨by decide, by decide, by decide, by decide,
    malloc_huge_request_returns_empty_block (fun _ => ⟨0, 0⟩) (by decide) (by decide) (by decide)
      (by decide) 0⟩

/-! ### A request that sbrk's argument wraps to 0 -/

/-- The first malloc of `2^32 - 15` to `2^32 - 8` bytes, on a fresh heap whose
break is page aligned and lies above `base`, faults whatever the fuel:
morecore asks sbrk for `2^29 * sizeof(Header)` bytes, which is 0 in uint, so
the break stays where it was and the store of the new block's size at the
break hits the page above it. -/
theorem malloc_wrapping_request_faults (mem : Nat → Header) {base brk limit : Nat}
    (above : base + headerSize ≤ brk) (aligned : brk % pgSize = 0) {nbytes : UInt32}
    (low : 2 ^ 32 - 15 ≤ nbytes.toNat) (high : nbytes.toNat ≤ 2 ^ 32 - 8) (fuel : Nat) :
    malloc base ⟨mem, 0, brk, limit⟩ nbytes fuel = none := by
  have top : (⟨mem, 0, brk, limit⟩ : Heap).top = brk := top_of_aligned aligned
  rw [malloc_first rfl (by rw [top]; exact above), nunits_of_wrapping low high]
  let h₀ : Heap := { (⟨mem, 0, brk, limit⟩ : Heap).update base ⟨base, 0⟩ with freep := base }
  have base₀ : h₀.mem base = ⟨base, 0⟩ := by simp [h₀]
  -- sbrk(0) leaves the break, and the block's header would lie above it
  have unmoved : sbrk h₀ ((536870912 : UInt32) * 8).toInt32 = some (h₀, brk) := by
    rw [show ((536870912 : UInt32) * 8).toInt32 = 0 by decide, sbrk_zero]
    rfl
  have faults : h₀.setSize brk 536870912 = none := by
    apply store_of_above
    show (⟨mem, 0, brk, limit⟩ : Heap).top < brk + headerSize
    rw [top]
    unfold headerSize
    omega
  cases fuel with
  | zero => rfl
  | succ fuel =>
    have more : morecore h₀ 536870912 fuel = none := by
      rw [morecore, if_neg (by decide), unmoved]
      simp only [faults, Option.bind_eq_bind, Option.bind_none]
    rw [mallocLoop, if_neg (by rw [base₀]; exact (by decide : ¬ (0 : UInt32) ≥ 536870912)), if_pos rfl, more]

/-- malloc(0xfffffff8) as a program's first call, with `base` at 0x1000 and
the break at 0x2000. -/
theorem malloc_wrapping_request_at_start :
    0x1000 + headerSize ≤ 0x2000 ∧ (0x2000 : Nat) % pgSize = 0 ∧ 2 ^ 32 - 15 ≤ (0xfffffff8 : UInt32).toNat ∧
      (0xfffffff8 : UInt32).toNat ≤ 2 ^ 32 - 8 ∧
      malloc 0x1000 ⟨fun _ => ⟨0, 0⟩, 0, 0x2000, 0x80000000⟩ 0xfffffff8 8 = none :=
  ⟨by decide, by decide, by decide, by decide,
    malloc_wrapping_request_faults (fun _ => ⟨0, 0⟩) (by decide) (by decide) (by decide) (by decide) 8⟩

end Umalloc
end Xv6
