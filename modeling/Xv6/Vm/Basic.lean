import Xv6.Param
import Xv6.Lib.Fallible
import Mathlib.Logic.Function.Basic
import Mathlib.Tactic.SplitIfs

/-!
# The page allocator and the user half of a page directory

kalloc.c's free list, and vm.c's functions on the user half of one page
directory as growproc and sys_sbrk run them, each in `Phys` with the bytes it
writes: kfree fills a freed page with junk, walkpgdir zeroes a new page table
and allocuvm zeroes each page before it maps it.  A page directory is two maps,
`tables` for the page table a directory entry holds when `PTE_P` is set and
`entries` for the PTE of each user page by virtual page number.  Most of the
development does not look at the bytes: each function of `Vm` is its `Phys`
counterpart run on memory of zeros with the bytes dropped, and the bytes it
starts from never change the rest (the `map_fst` theorems).  Sizes and
addresses are `uint`s, `sz + n` taken modulo 2^32, and a panic is `.error`
with its message.
-/

namespace Xv6
namespace Vm

/-- `PGROUNDUP` on a `uint`. -/
def pgroundup (sz : Nat) : Nat := (sz + pgSize - 1) % 2 ^ 32 / pgSize * pgSize

/-- `PGROUNDDOWN`. -/
def pgrounddown (a : Nat) : Nat := a / pgSize * pgSize

/-- `PDX` of an address below 2^32, where the mask `0x3FF` keeps every bit. -/
def pdx (va : Nat) : Nat := va / (pgSize * nPtEntries)

/-- `PGADDR(d, t, o)`: the three fields do not overlap, so `|` adds them. -/
def pgaddr (d t o : Nat) : Nat := d * (pgSize * nPtEntries) + t * pgSize + o

/-- `V2P`. -/
def v2p (a : Nat) : Nat := a - kernBase

/-- `P2V`. -/
def p2v (a : Nat) : Nat := a + kernBase

/-- `sz + n` on a `uint`. -/
def uadd (sz : Nat) (n : Int) : Nat := ((sz + n) % 2 ^ 32).toNat

/-- A present PTE: the physical address of its page and its `PTE_W` and
`PTE_U` bits. -/
structure Pte where
  addr : Nat
  writable : Bool
  user : Bool
  deriving DecidableEq, Repr

/-- The user half of a page directory. -/
structure Pgdir where
  tables : Nat → Option Nat
  entries : Nat → Option Pte

/-- setupkvm's directory: no user mappings. -/
def Pgdir.empty : Pgdir := ⟨fun _ => none, fun _ => none⟩

/-- `*pte = x` for the PTE of virtual page `u`. -/
def Pgdir.set (d : Pgdir) (u : Nat) (x : Option Pte) : Pgdir :=
  { d with entries := Function.update d.entries u x }

/-- `*pde = V2P(pgtab) | PTE_P | PTE_W | PTE_U` for directory entry `i`,
after the new page table `pgtab` was zeroed. -/
def Pgdir.addTable (d : Pgdir) (i t : Nat) : Pgdir where
  tables := Function.update d.tables i (some t)
  entries := fun u => if u / nPtEntries = i then none else d.entries u

/-- kmem, with `end`, the first address after the kernel, which the linker
places above `KERNBASE`. -/
structure Kmem where
  kend : Nat
  above : kernBase < kend
  freelist : List Nat

/-- kalloc: the first page of the free list, or 0 when it is empty. -/
def kalloc (m : Kmem) : Option Nat × Kmem :=
  match m.freelist with
  | [] => (none, m)
  | r :: rest => (some r, { m with freelist := rest })

/-- `memset(v, c, n)`. -/
def memset (mem : Nat → UInt8) (v : Nat) (c : UInt8) (n : Nat) : Nat → UInt8 :=
  fun a => if v ≤ a ∧ a < v + n then c else mem a

/-- Memory of zero bytes, on which the functions of `Vm` run their `Phys`
counterparts. -/
def zeros : Nat → UInt8 := fun _ => 0

namespace Phys

/-- kfree: panic unless `v` is a page of the memory kinit handed out, then
`memset(v, 1, PGSIZE)` and the push on the free list. -/
def kfree (m : Kmem) (mem : Nat → UInt8) (v : Nat) : Except String (Kmem × (Nat → UInt8)) :=
  if v % pgSize ≠ 0 ∨ v < m.kend ∨ phyStop ≤ v2p v then .error "kfree"
  else .ok ({ m with freelist := v :: m.freelist }, memset mem v 1 pgSize)

/-- walkpgdir: whether the PTE of `va` exists, making its page table first,
zeroed with `memset(pgtab, 0, PGSIZE)`, when `alloc` is set and kalloc has a
page. -/
def walkpgdir (m : Kmem) (mem : Nat → UInt8) (d : Pgdir) (va : Nat) (alloc : Bool) :
    Option ((Kmem × Pgdir) × (Nat → UInt8)) :=
  match d.tables (pdx va) with
  | some _ => some ((m, d), mem)
  | none =>
      if !alloc then none
      else
        match kalloc m with
        | (none, _) => none
        | (some pgtab, m') =>
            some ((m', d.addTable (pdx va) (v2p pgtab)), memset mem pgtab 0 pgSize)

end Phys

/-- kfree without the bytes. -/
def kfree (m : Kmem) (v : Nat) : Except String Kmem := (Phys.kfree m zeros v).map Prod.fst

/-- walkpgdir without the bytes. -/
def walkpgdir (m : Kmem) (d : Pgdir) (va : Nat) (alloc : Bool) : Option (Kmem × Pgdir) :=
  (Phys.walkpgdir m zeros d va alloc).map Prod.fst

namespace Phys

/-- mappages' `for(;;)` from the page at `a` to the page at `last`, mapping
physical pages from `pa` on; `n` bounds the pages left.  Returns whether it
succeeded (0) or walkpgdir had no page for a page table (-1). -/
def mappagesLoop (writable user : Bool) (last : Nat) (m : Kmem) (mem : Nat → UInt8) (d : Pgdir)
    (a pa : Nat) : Nat → Except String ((Bool × Kmem × Pgdir) × (Nat → UInt8))
  | 0 => .ok ((true, m, d), mem)
  | n + 1 =>
      match walkpgdir m mem d a true with
      | none => .ok ((false, m, d), mem)
      | some ((m', d'), mem') =>
          match d'.entries (a / pgSize) with
          | some _ => .error "remap"
          | none =>
              let d'' := d'.set (a / pgSize) (some ⟨pa, writable, user⟩)
              if a = last then .ok ((true, m', d''), mem')
              else mappagesLoop writable user last m' mem' d'' (a + pgSize) (pa + pgSize) n

/-- mappages with permission `PTE_W` and `PTE_U` as given. -/
def mappages (m : Kmem) (mem : Nat → UInt8) (d : Pgdir) (va size pa : Nat) (writable user : Bool) :
    Except String ((Bool × Kmem × Pgdir) × (Nat → UInt8)) :=
  let a := pgrounddown va
  let last := pgrounddown (va + size - 1)
  mappagesLoop writable user last m mem d a pa ((last - a) / pgSize + 1)

/-- deallocuvm's loop over the pages from `a` below `oldsz`: free each
present page and clear its PTE; where a directory entry has no page table,
go on at the next directory entry. -/
def deallocLoop (m : Kmem) (mem : Nat → UInt8) (d : Pgdir) (oldsz a : Nat) :
    Except String ((Kmem × Pgdir) × (Nat → UInt8)) :=
  if a < oldsz then
    match Vm.walkpgdir m d a false with
    | none => deallocLoop m mem d oldsz (pgaddr (pdx a + 1) 0 0 - pgSize + pgSize)
    | some _ =>
        match d.entries (a / pgSize) with
        | none => deallocLoop m mem d oldsz (a + pgSize)
        | some pte =>
            if pte.addr = 0 then .error "kfree"
            else do
              let (m', mem') ← kfree m mem (p2v pte.addr)
              deallocLoop m' mem' (d.set (a / pgSize) none) oldsz (a + pgSize)
  else .ok ((m, d), mem)
termination_by oldsz - a
decreasing_by
  all_goals simp only [pgaddr, pdx, pgSize, nPtEntries]
  all_goals omega

/-- deallocuvm: shrink from `oldsz` to `newsz`, returning the new size. -/
def deallocuvm (m : Kmem) (mem : Nat → UInt8) (d : Pgdir) (oldsz newsz : Nat) :
    Except String ((Nat × Kmem × Pgdir) × (Nat → UInt8)) :=
  if newsz ≥ oldsz then .ok ((oldsz, m, d), mem)
  else do
    let (r, mem') ← deallocLoop m mem d oldsz (pgroundup newsz)
    return ((newsz, r), mem')

/-- allocuvm's loop over the pages from `a` below `newsz`: kalloc a page,
`memset(mem, 0, PGSIZE)` and map it, undoing the whole growth when memory
runs out. -/
def allocLoop (m : Kmem) (mem : Nat → UInt8) (d : Pgdir) (oldsz newsz a : Nat) :
    Except String ((Nat × Kmem × Pgdir) × (Nat → UInt8)) :=
  if a < newsz then
    match kalloc m with
    | (none, _) => do
        -- "allocuvm out of memory"
        let ((_, m', d'), bytes) ← deallocuvm m mem d newsz oldsz
        return ((0, m', d'), bytes)
    | (some page, m₁) => do
        let bytes₁ := memset mem page 0 pgSize
        let ((ok, m₂, d₂), bytes₂) ← mappages m₁ bytes₁ d a pgSize (v2p page) true true
        if ok then allocLoop m₂ bytes₂ d₂ oldsz newsz (a + pgSize)
        else
          -- "allocuvm out of memory (2)"
          let ((_, m₃, d₃), bytes₃) ← deallocuvm m₂ bytes₂ d₂ newsz oldsz
          let (m₄, bytes₄) ← kfree m₃ bytes₃ page
          return ((0, m₄, d₃), bytes₄)
  else .ok ((newsz, m, d), mem)
termination_by newsz - a
decreasing_by
  simp only [pgSize]
  omega

/-- allocuvm: grow from `oldsz` to `newsz`, returning the new size, or 0. -/
def allocuvm (m : Kmem) (mem : Nat → UInt8) (d : Pgdir) (oldsz newsz : Nat) :
    Except String ((Nat × Kmem × Pgdir) × (Nat → UInt8)) :=
  if newsz ≥ kernBase then .ok ((0, m, d), mem)
  else if newsz < oldsz then .ok ((oldsz, m, d), mem)
  else allocLoop m mem d oldsz newsz (pgroundup oldsz)

end Phys

/-- mappages' loop without the bytes. -/
def mappagesLoop (writable user : Bool) (last : Nat) (m : Kmem) (d : Pgdir) (a pa n : Nat) :
    Except String (Bool × Kmem × Pgdir) :=
  (Phys.mappagesLoop writable user last m zeros d a pa n).map Prod.fst

/-- mappages without the bytes. -/
def mappages (m : Kmem) (d : Pgdir) (va size pa : Nat) (writable user : Bool) :
    Except String (Bool × Kmem × Pgdir) :=
  (Phys.mappages m zeros d va size pa writable user).map Prod.fst

/-- deallocuvm's loop without the bytes. -/
def deallocLoop (m : Kmem) (d : Pgdir) (oldsz a : Nat) : Except String (Kmem × Pgdir) :=
  (Phys.deallocLoop m zeros d oldsz a).map Prod.fst

/-- deallocuvm without the bytes. -/
def deallocuvm (m : Kmem) (d : Pgdir) (oldsz newsz : Nat) : Except String (Nat × Kmem × Pgdir) :=
  (Phys.deallocuvm m zeros d oldsz newsz).map Prod.fst

/-- allocuvm's loop without the bytes. -/
def allocLoop (m : Kmem) (d : Pgdir) (oldsz newsz a : Nat) : Except String (Nat × Kmem × Pgdir) :=
  (Phys.allocLoop m zeros d oldsz newsz a).map Prod.fst

/-- allocuvm without the bytes. -/
def allocuvm (m : Kmem) (d : Pgdir) (oldsz newsz : Nat) : Except String (Nat × Kmem × Pgdir) :=
  (Phys.allocuvm m zeros d oldsz newsz).map Prod.fst

/-- growproc for the current process, of size `sz` with page directory `d`:
the return value, then kmem, the page directory and the new `sz`.
(switchuvm only reloads the hardware's view.) -/
def growproc (m : Kmem) (d : Pgdir) (sz : Nat) (n : Int) : Except String (Int × Kmem × Pgdir × Nat) :=
  if n > 0 then do
    let (r, m', d') ← allocuvm m d sz (uadd sz n)
    return if r = 0 then (-1, m', d', sz) else (0, m', d', r)
  else if n < 0 then do
    let (r, m', d') ← deallocuvm m d sz (uadd sz n)
    return if r = 0 then (-1, m', d', sz) else (0, m', d', r)
  else .ok (0, m, d, sz)

/-- sys_sbrk: the old size, or -1 when growproc fails. -/
def sysSbrk (m : Kmem) (d : Pgdir) (sz : Nat) (n : Int) : Except String (Int × Kmem × Pgdir × Nat) := do
  let (r, m', d', sz') ← growproc m d sz n
  return (if r < 0 then -1 else sz, m', d', sz')

/-! ## Dropping the bytes -/

namespace Phys

/-- kfree with the bytes dropped, from any bytes. -/
theorem kfree_drop (m : Kmem) (mem : Nat → UInt8) (v : Nat) :
    (kfree m mem v).map Prod.fst =
      if v % pgSize ≠ 0 ∨ v < m.kend ∨ phyStop ≤ v2p v then .error "kfree"
      else .ok { m with freelist := v :: m.freelist } := by
  unfold kfree
  split_ifs <;> rfl

/-- walkpgdir with the bytes dropped, from any bytes. -/
theorem walkpgdir_drop (m : Kmem) (mem : Nat → UInt8) (d : Pgdir) (va : Nat) (alloc : Bool) :
    (walkpgdir m mem d va alloc).map Prod.fst =
      match d.tables (pdx va) with
      | some _ => some (m, d)
      | none =>
          if !alloc then none
          else
            match kalloc m with
            | (none, _) => none
            | (some pgtab, m') => some (m', d.addTable (pdx va) (v2p pgtab)) := by
  unfold walkpgdir
  cases d.tables (pdx va) with
  | some _ => rfl
  | none =>
      cases alloc with
      | false => rfl
      | true =>
          dsimp only [Bool.not_true, Bool.false_eq_true, if_false]
          cases kalloc m with
          | mk page m' => cases page <;> rfl

theorem kfree_map_fst (m : Kmem) (mem : Nat → UInt8) (v : Nat) :
    (kfree m mem v).map Prod.fst = Vm.kfree m v :=
  (kfree_drop ..).trans (kfree_drop ..).symm

theorem walkpgdir_map_fst (m : Kmem) (mem : Nat → UInt8) (d : Pgdir) (va : Nat) (alloc : Bool) :
    (walkpgdir m mem d va alloc).map Prod.fst = Vm.walkpgdir m d va alloc :=
  (walkpgdir_drop ..).trans (walkpgdir_drop ..).symm

/-- Two walks from different bytes stop, or go on with the same kmem and
directory, together. -/
theorem walkpgdir_agree (m : Kmem) (mem mem' : Nat → UInt8) (d : Pgdir) (va : Nat) (alloc : Bool) :
    (walkpgdir m mem d va alloc).map Prod.fst = (walkpgdir m mem' d va alloc).map Prod.fst :=
  (walkpgdir_map_fst ..).trans (walkpgdir_map_fst ..).symm

theorem mappagesLoop_map_fst (writable user : Bool) (last : Nat) (m : Kmem) (mem : Nat → UInt8)
    (d : Pgdir) (a pa n : Nat) :
    (mappagesLoop writable user last m mem d a pa n).map Prod.fst =
      Vm.mappagesLoop writable user last m d a pa n := by
  unfold Vm.mappagesLoop
  induction n generalizing m mem d a pa with
  | zero => rfl
  | succ n inductionHypothesis =>
      have agree := walkpgdir_agree m mem zeros d a true
      rw [mappagesLoop, mappagesLoop]
      -- the two walks end alike, so both loops take the same branch
      cases walk : walkpgdir m mem d a true with
      | none =>
          cases walk' : walkpgdir m zeros d a true with
          | none => rfl
          | some _ => rw [walk, walk'] at agree; cases agree
      | some walked =>
          obtain ⟨⟨m', d'⟩, mem'⟩ := walked
          cases walk' : walkpgdir m zeros d a true with
          | none => rw [walk, walk'] at agree; cases agree
          | some walked' =>
              obtain ⟨⟨m'', d''⟩, mem''⟩ := walked'
              rw [walk, walk'] at agree
              obtain ⟨rfl, rfl⟩ := Prod.mk.inj (Option.some.inj agree)
              dsimp only
              cases d'.entries (a / pgSize) with
              | some _ => rfl
              | none =>
                  dsimp only
                  split_ifs
                  · rfl
                  · exact (inductionHypothesis ..).trans (inductionHypothesis ..).symm

theorem mappages_map_fst (m : Kmem) (mem : Nat → UInt8) (d : Pgdir) (va size pa : Nat)
    (writable user : Bool) :
    (mappages m mem d va size pa writable user).map Prod.fst =
      Vm.mappages m d va size pa writable user :=
  (mappagesLoop_map_fst ..).trans (mappagesLoop_map_fst ..).symm

/-- Two runs of deallocuvm's loop from different bytes end alike but for the
bytes. -/
theorem deallocLoop_agree (m : Kmem) (mem : Nat → UInt8) (d : Pgdir) (oldsz a : Nat) :
    ∀ mem' : Nat → UInt8,
      (deallocLoop m mem d oldsz a).map Prod.fst = (deallocLoop m mem' d oldsz a).map Prod.fst := by
  induction m, mem, d, a using deallocLoop.induct oldsz with
  | case1 m mem d a below walk next =>
      intro mem'
      rw [deallocLoop.eq_1 m mem, deallocLoop.eq_1 m mem', if_pos below, if_pos below, walk]
      exact next mem'
  | case2 m mem d a below walked walk absent next =>
      intro mem'
      rw [deallocLoop.eq_1 m mem, deallocLoop.eq_1 m mem', if_pos below, if_pos below, walk]
      dsimp only
      rw [absent]
      exact next mem'
  | case3 m mem d a below walked walk pte present null =>
      intro mem'
      rw [deallocLoop.eq_1 m mem, deallocLoop.eq_1 m mem', if_pos below, if_pos below, walk]
      dsimp only
      rw [present]
      dsimp only
      rw [if_pos null, if_pos null]
  | case4 m mem d a below walked walk pte present live next =>
      intro mem'
      rw [deallocLoop.eq_1 m mem, deallocLoop.eq_1 m mem', if_pos below, if_pos below, walk]
      dsimp only
      rw [present]
      dsimp only
      rw [if_neg live, if_neg live]
      -- kfree fails for both, or frees the same page for both
      exact Fallible.map_fst_bind_congr ((kfree_map_fst ..).trans (kfree_map_fst ..).symm)
        fun m' c c' => next m' c c'
  | case5 m mem d a above =>
      intro mem'
      rw [deallocLoop.eq_1 m mem, deallocLoop.eq_1 m mem', if_neg above, if_neg above]
      rfl

theorem deallocLoop_map_fst (m : Kmem) (mem : Nat → UInt8) (d : Pgdir) (oldsz a : Nat) :
    (deallocLoop m mem d oldsz a).map Prod.fst = Vm.deallocLoop m d oldsz a :=
  deallocLoop_agree m mem d oldsz a zeros

/-- deallocuvm with the bytes dropped, from any bytes. -/
theorem deallocuvm_drop (m : Kmem) (mem : Nat → UInt8) (d : Pgdir) (oldsz newsz : Nat) :
    (deallocuvm m mem d oldsz newsz).map Prod.fst =
      if newsz ≥ oldsz then .ok (oldsz, m, d)
      else (do
        let r ← Vm.deallocLoop m d oldsz (pgroundup newsz)
        return (newsz, r)) := by
  unfold deallocuvm
  split_ifs
  · rfl
  · exact Fallible.map_fst_bind (deallocLoop_map_fst ..) fun _ _ => rfl

theorem deallocuvm_map_fst (m : Kmem) (mem : Nat → UInt8) (d : Pgdir) (oldsz newsz : Nat) :
    (deallocuvm m mem d oldsz newsz).map Prod.fst = Vm.deallocuvm m d oldsz newsz :=
  (deallocuvm_drop ..).trans (deallocuvm_drop ..).symm

/-- Two runs of allocuvm's loop from different bytes end alike but for the
bytes. -/
theorem allocLoop_agree (m : Kmem) (mem : Nat → UInt8) (d : Pgdir) (oldsz newsz a : Nat) :
    ∀ mem' : Nat → UInt8,
      (allocLoop m mem d oldsz newsz a).map Prod.fst = (allocLoop m mem' d oldsz newsz a).map Prod.fst := by
  induction m, mem, d, a using allocLoop.induct newsz with
  | case1 m mem d a below rest none =>
      intro mem'
      rw [allocLoop.eq_1 m mem, allocLoop.eq_1 m mem', if_pos below, if_pos below, none]
      exact Fallible.map_fst_bind_congr ((deallocuvm_map_fst ..).trans (deallocuvm_map_fst ..).symm)
        fun _ _ _ => rfl
  | case2 m mem d a below page m₁ got next =>
      intro mem'
      rw [allocLoop.eq_1 m mem, allocLoop.eq_1 m mem', if_pos below, if_pos below, got]
      dsimp only
      -- mappages maps the page alike from both bytes, and so on to the end
      refine Fallible.map_fst_bind_congr ((mappages_map_fst ..).trans (mappages_map_fst ..).symm) ?_
      rintro ⟨ok, m₂, d₂⟩ bytes₂ bytes₂'
      dsimp only
      cases ok with
      | true =>
          rw [if_pos rfl, if_pos rfl]
          exact next m₂ d₂ bytes₂ bytes₂'
      | false =>
          simp only [Bool.false_eq_true, if_false]
          refine Fallible.map_fst_bind_congr ((deallocuvm_map_fst ..).trans (deallocuvm_map_fst ..).symm) ?_
          rintro ⟨_, m₃, d₃⟩ bytes₃ bytes₃'
          exact Fallible.map_fst_bind_congr ((kfree_map_fst ..).trans (kfree_map_fst ..).symm)
            fun _ _ _ => rfl
  | case3 m mem d a above =>
      intro mem'
      rw [allocLoop.eq_1 m mem, allocLoop.eq_1 m mem', if_neg above, if_neg above]
      rfl

theorem allocLoop_map_fst (m : Kmem) (mem : Nat → UInt8) (d : Pgdir) (oldsz newsz a : Nat) :
    (allocLoop m mem d oldsz newsz a).map Prod.fst = Vm.allocLoop m d oldsz newsz a :=
  allocLoop_agree m mem d oldsz newsz a zeros

/-- allocuvm with the bytes dropped, from any bytes. -/
theorem allocuvm_drop (m : Kmem) (mem : Nat → UInt8) (d : Pgdir) (oldsz newsz : Nat) :
    (allocuvm m mem d oldsz newsz).map Prod.fst =
      if newsz ≥ kernBase then .ok (0, m, d)
      else if newsz < oldsz then .ok (oldsz, m, d)
      else Vm.allocLoop m d oldsz newsz (pgroundup oldsz) := by
  unfold allocuvm
  split_ifs
  · rfl
  · rfl
  · exact allocLoop_map_fst ..

theorem allocuvm_map_fst (m : Kmem) (mem : Nat → UInt8) (d : Pgdir) (oldsz newsz : Nat) :
    (allocuvm m mem d oldsz newsz).map Prod.fst = Vm.allocuvm m d oldsz newsz :=
  (allocuvm_drop ..).trans (allocuvm_drop ..).symm

end Phys

/-! ## The functions without the bytes, as vm.c writes them -/

theorem kfree_def (m : Kmem) (v : Nat) :
    kfree m v =
      if v % pgSize ≠ 0 ∨ v < m.kend ∨ phyStop ≤ v2p v then .error "kfree"
      else .ok { m with freelist := v :: m.freelist } :=
  Phys.kfree_drop m zeros v

theorem walkpgdir_eq (m : Kmem) (d : Pgdir) (va : Nat) (alloc : Bool) :
    walkpgdir m d va alloc =
      match d.tables (pdx va) with
      | some _ => some (m, d)
      | none =>
          if !alloc then none
          else
            match kalloc m with
            | (none, _) => none
            | (some pgtab, m') => some (m', d.addTable (pdx va) (v2p pgtab)) :=
  Phys.walkpgdir_drop m zeros d va alloc

theorem mappagesLoop_succ (writable user : Bool) (last : Nat) (m : Kmem) (d : Pgdir) (a pa n : Nat) :
    mappagesLoop writable user last m d a pa (n + 1) =
      match walkpgdir m d a true with
      | none => .ok (false, m, d)
      | some (m', d') =>
          match d'.entries (a / pgSize) with
          | some _ => .error "remap"
          | none =>
              let d'' := d'.set (a / pgSize) (some ⟨pa, writable, user⟩)
              if a = last then .ok (true, m', d'')
              else mappagesLoop writable user last m' d'' (a + pgSize) (pa + pgSize) n := by
  unfold mappagesLoop
  rw [Phys.mappagesLoop, ← Phys.walkpgdir_map_fst m zeros d a true]
  cases Phys.walkpgdir m zeros d a true with
  | none => rfl
  | some walked =>
      obtain ⟨⟨m', d'⟩, mem'⟩ := walked
      dsimp only [Option.map_some]
      cases d'.entries (a / pgSize) with
      | some _ => rfl
      | none =>
          dsimp only
          split_ifs
          · rfl
          · exact Phys.mappagesLoop_map_fst ..

theorem mappages_eq (m : Kmem) (d : Pgdir) (va size pa : Nat) (writable user : Bool) :
    mappages m d va size pa writable user =
      mappagesLoop writable user (pgrounddown (va + size - 1)) m d (pgrounddown va) pa
        ((pgrounddown (va + size - 1) - pgrounddown va) / pgSize + 1) := rfl

theorem deallocLoop_eq (m : Kmem) (d : Pgdir) (oldsz a : Nat) :
    deallocLoop m d oldsz a =
      if a < oldsz then
        match walkpgdir m d a false with
        | none => deallocLoop m d oldsz (pgaddr (pdx a + 1) 0 0 - pgSize + pgSize)
        | some _ =>
            match d.entries (a / pgSize) with
            | none => deallocLoop m d oldsz (a + pgSize)
            | some pte =>
                if pte.addr = 0 then .error "kfree"
                else do
                  let m' ← kfree m (p2v pte.addr)
                  deallocLoop m' (d.set (a / pgSize) none) oldsz (a + pgSize)
      else .ok (m, d) := by
  show (Phys.deallocLoop m zeros d oldsz a).map Prod.fst = _
  rw [Phys.deallocLoop.eq_1]
  by_cases below : a < oldsz
  · rw [if_pos below, if_pos below]
    cases walkpgdir m d a false with
    | none => rfl
    | some _ =>
        dsimp only
        cases d.entries (a / pgSize) with
        | none => rfl
        | some pte =>
            dsimp only
            split_ifs
            · rfl
            · exact Fallible.map_fst_bind (Phys.kfree_map_fst ..) fun m' mem' => Phys.deallocLoop_map_fst ..
  · rw [if_neg below, if_neg below]
    rfl

/-- Induction along deallocuvm's loop, one case for each way a turn ends. -/
theorem deallocLoop_induct (oldsz : Nat) (motive : Kmem → Pgdir → Nat → Prop)
    (case1 : ∀ m d a, a < oldsz → walkpgdir m d a false = none →
      motive m d (pgaddr (pdx a + 1) 0 0 - pgSize + pgSize) → motive m d a)
    (case2 : ∀ m d a, a < oldsz → ∀ val, walkpgdir m d a false = some val →
      d.entries (a / pgSize) = none → motive m d (a + pgSize) → motive m d a)
    (case3 : ∀ m d a, a < oldsz → ∀ val, walkpgdir m d a false = some val →
      ∀ pte : Pte, d.entries (a / pgSize) = some pte → pte.addr = 0 → motive m d a)
    (case4 : ∀ m d a, a < oldsz → ∀ val, walkpgdir m d a false = some val →
      ∀ pte : Pte, d.entries (a / pgSize) = some pte → ¬pte.addr = 0 →
        (∀ m', motive m' (d.set (a / pgSize) none) (a + pgSize)) → motive m d a)
    (case5 : ∀ m d a, ¬a < oldsz → motive m d a) :
    ∀ m d a, motive m d a := by
  intro m d a
  -- by induction on the distance `oldsz - a`, which every turn shortens
  induction distance : oldsz - a using Nat.strongRecOn generalizing m d a with
  | ind k shorter =>
      by_cases below : a < oldsz
      · have nextTable : oldsz - (pgaddr (pdx a + 1) 0 0 - pgSize + pgSize) < k := by
          simp only [pgaddr, pdx, pgSize, nPtEntries]
          omega
        have nextPage : oldsz - (a + pgSize) < k := by
          simp only [pgSize]
          omega
        cases walk : walkpgdir m d a false with
        | none => exact case1 m d a below walk (shorter _ nextTable m d _ rfl)
        | some val =>
            cases entry : d.entries (a / pgSize) with
            | none => exact case2 m d a below val walk entry (shorter _ nextPage m d _ rfl)
            | some pte =>
                by_cases null : pte.addr = 0
                · exact case3 m d a below val walk pte entry null
                · exact case4 m d a below val walk pte entry null fun m' => shorter _ nextPage m' _ _ rfl
      · exact case5 m d a below

theorem deallocuvm_eq (m : Kmem) (d : Pgdir) (oldsz newsz : Nat) :
    deallocuvm m d oldsz newsz =
      if newsz ≥ oldsz then .ok (oldsz, m, d)
      else do
        let r ← deallocLoop m d oldsz (pgroundup newsz)
        return (newsz, r) :=
  Phys.deallocuvm_drop m zeros d oldsz newsz

theorem allocLoop_eq (m : Kmem) (d : Pgdir) (oldsz newsz a : Nat) :
    allocLoop m d oldsz newsz a =
      if a < newsz then
        match kalloc m with
        | (none, _) => do
            let (_, m', d') ← deallocuvm m d newsz oldsz
            return (0, m', d')
        | (some mem, m₁) => do
            let (ok, m₂, d₂) ← mappages m₁ d a pgSize (v2p mem) true true
            if ok then allocLoop m₂ d₂ oldsz newsz (a + pgSize)
            else
              let (_, m₃, d₃) ← deallocuvm m₂ d₂ newsz oldsz
              let m₄ ← kfree m₃ mem
              return (0, m₄, d₃)
      else .ok (newsz, m, d) := by
  show (Phys.allocLoop m zeros d oldsz newsz a).map Prod.fst = _
  rw [Phys.allocLoop.eq_1]
  by_cases below : a < newsz
  · rw [if_pos below, if_pos below]
    cases kalloc m with
    | mk page m₁ =>
        cases page with
        | none => exact Fallible.map_fst_bind (Phys.deallocuvm_map_fst ..) fun _ _ => rfl
        | some page =>
            dsimp only
            refine Fallible.map_fst_bind (Phys.mappages_map_fst ..) ?_
            rintro ⟨ok, m₂, d₂⟩ bytes₂
            dsimp only
            cases ok with
            | true =>
                rw [if_pos rfl, if_pos rfl]
                exact Phys.allocLoop_map_fst ..
            | false =>
                simp only [Bool.false_eq_true, if_false]
                refine Fallible.map_fst_bind (Phys.deallocuvm_map_fst ..) ?_
                rintro ⟨_, m₃, d₃⟩ bytes₃
                exact Fallible.map_fst_bind (Phys.kfree_map_fst ..) fun _ _ => rfl
  · rw [if_neg below, if_neg below]
    rfl

theorem allocuvm_eq (m : Kmem) (d : Pgdir) (oldsz newsz : Nat) :
    allocuvm m d oldsz newsz =
      if newsz ≥ kernBase then .ok (0, m, d)
      else if newsz < oldsz then .ok (oldsz, m, d)
      else allocLoop m d oldsz newsz (pgroundup oldsz) :=
  Phys.allocuvm_drop m zeros d oldsz newsz

end Vm
end Xv6
