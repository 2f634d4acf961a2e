import Xv6.Vm.Uvm

/-!
# growproc and sys_sbrk

A process of size `sz` should have exactly the user pages below
`PGROUNDUP(sz)` mapped, each with `PTE_U` (`Shaped`).  allocuvm keeps that
whether it succeeds or runs out of memory, and so does deallocuvm, so
growproc keeps it for every `n` but one: shrinking to nothing.  Then
deallocuvm frees every page and returns the new size, 0, which growproc
takes for its failure value: it returns -1 and leaves `p->sz` as it was,
with no page mapped below it.  Whatever growproc does, it panics never and
loses no page.
-/

namespace Xv6
namespace Vm

/-- The address space of a process of size `sz` as the kernel relies on it:
`sz` below `KERNBASE`, and exactly the pages below `PGROUNDUP(sz)` mapped,
with `PTE_U`. -/
structure Shaped (d : Pgdir) (sz : Nat) : Prop where
  below : sz < kernBase
  shape : d.Shape (pgroundup sz)

variable {m : Kmem} {d : Pgdir}

theorem pgroundup_mono {a b : Nat} (le : a ≤ b) (small : b < kernBase) : pgroundup a ≤ pgroundup b := by
  rw [pgroundup_of_lt small, pgroundup_of_lt (Nat.lt_of_le_of_lt le small)]
  omega

/-- allocuvm from a process of size `oldsz`: it grows the process to `newsz`,
or returns 0 with the pages below `PGROUNDUP(oldsz)` mapped as before. -/
theorem Owns.allocuvm (owns : Owns m d []) (tabled : d.Tabled) {oldsz newsz : Nat}
    (shaped : Shaped d oldsz) (grows : oldsz ≤ newsz) :
    ∃ r m' d', allocuvm m d oldsz newsz = .ok (r, m', d') ∧ Owns m' d' [] ∧ d'.Tabled ∧
      Pool m' d' [] = Pool m d [] ∧ (r = newsz ∧ Shaped d' newsz ∨ r = 0 ∧ Shaped d' oldsz) := by
  rw [allocuvm_eq]
  by_cases fits : newsz < kernBase
  · rw [if_neg (by omega), if_neg (by omega)]
    obtain ⟨r, m', d', loop, owns', tabled', pool, result⟩ :=
      owns.allocLoop tabled shaped.shape (pgroundup_aligned oldsz) (Nat.le_refl _) (pgroundup_mono grows fits)
        fits grows
    refine ⟨r, m', d', loop, owns', tabled', pool, ?_⟩
    rcases result with ⟨grown, shape⟩ | ⟨failed, shape⟩
    · exact .inl ⟨grown, fits, shape⟩
    · exact .inr ⟨failed, shaped.below, shape⟩
  · rw [if_pos (by omega)]
    exact ⟨0, m, d, rfl, owns, tabled, rfl, .inr ⟨rfl, shaped⟩⟩

/-- deallocuvm down to `newsz`: the pages from `PGROUNDUP(newsz)` on are gone. -/
theorem Shaped.clear {oldsz newsz : Nat} (shaped : Shaped d oldsz) (shrink : newsz < oldsz) :
    Shaped (d.clear (pgroundup newsz) oldsz) newsz := by
  have small := shaped.below
  refine ⟨by omega, fun u => ?_, fun u e entry => ?_⟩
  · rw [Pgdir.clear_entries]
    have roundNew := pgroundup_of_lt (Nat.lt_trans shrink small)
    have roundOld := pgroundup_of_lt small
    by_cases inside : pgroundup newsz ≤ u * pgSize ∧ u * pgSize < oldsz
    · rw [if_pos inside]
      simp only [Option.isSome_none, Bool.false_eq_true, false_iff]
      omega
    · rw [if_neg inside, shaped.shape.present u]
      rw [roundNew, roundOld] at *
      unfold pgSize at *
      omega
  · rw [Pgdir.clear_entries] at entry
    split_ifs at entry
    exact shaped.shape.user u e entry

theorem uadd_of_nonneg {sz : Nat} {n : Int} (small : sz < kernBase) (range : n < 2 ^ 31)
    (nonneg : 0 ≤ (sz : Int) + n) : (uadd sz n : Int) = sz + n := by
  unfold uadd
  unfold kernBase at small
  rw [Int.toNat_of_nonneg (Int.emod_nonneg _ (by decide)), Int.emod_eq_of_lt nonneg (by omega)]

theorem uadd_of_neg {sz : Nat} {n : Int} (range : -2 ^ 31 ≤ n) (neg : (sz : Int) + n < 0) :
    (uadd sz n : Int) = sz + n + 2 ^ 32 := by
  unfold uadd
  rw [Int.toNat_of_nonneg (Int.emod_nonneg _ (by decide))]
  have power : (2 : Int) ^ 32 = 4294967296 := rfl
  rw [power]
  omega

/-- growproc by any `n` argint can return, other than `-sz` for a process
that has pages: it succeeds or fails, keeps the process `Shaped` with the
size it records, never panics and loses no page. -/
theorem growproc_keeps (owns : Owns m d []) (tabled : d.Tabled) {sz : Nat} (shaped : Shaped d sz)
    {n : Int} (range : -2 ^ 31 ≤ n ∧ n < 2 ^ 31) (notAll : n ≠ -(sz : Int) ∨ sz = 0) :
    ∃ r m' d' sz', growproc m d sz n = .ok (r, m', d', sz') ∧ Owns m' d' [] ∧ d'.Tabled ∧
      Pool m' d' [] = Pool m d [] ∧ Shaped d' sz' := by
  have small := shaped.below
  unfold growproc
  rcases Int.lt_trichotomy n 0 with neg | rfl | pos
  · rw [if_neg (by omega), if_pos neg]
    by_cases shrinks : 0 ≤ (sz : Int) + n
    · -- a real shrink, to a size that is not 0
      have size := uadd_of_nonneg small range.2 shrinks
      have shrink : uadd sz n < sz := by omega
      have notZero : uadd sz n ≠ 0 := by
        rcases notAll with other | empty
        · omega
        · omega
      obtain ⟨m', dealloc, owns', pool⟩ := owns.deallocuvm tabled shrink
      refine ⟨0, m', _, uadd sz n, ?_, owns', tabled.clear _ _, pool, shaped.clear shrink⟩
      rw [dealloc, Fallible.ok_bind]
      simp only [notZero, ↓reduceIte]
      rfl
    · -- `sz + n` wraps past 2^32 and deallocuvm does nothing
      have size : (uadd sz n : Int) = sz + n + 2 ^ 32 := uadd_of_neg range.1 (by omega)
      have stays : sz ≤ uadd sz n := by
        unfold kernBase at small
        omega
      refine ⟨if sz = 0 then -1 else 0, m, d, sz, ?_, owns, tabled, rfl, shaped⟩
      rw [deallocuvm_of_le stays, Fallible.ok_bind]
      by_cases empty : sz = 0
      · simp only [empty, ↓reduceIte]
        rfl
      · simp only [empty, ↓reduceIte]
        rfl
  · exact ⟨0, m, d, sz, rfl, owns, tabled, rfl, shaped⟩
  · rw [if_pos pos]
    have size := uadd_of_nonneg small range.2 (by omega)
    obtain ⟨r, m', d', alloc, owns', tabled', pool, result⟩ := owns.allocuvm tabled shaped (show sz ≤ uadd sz n by omega)
    rw [alloc, Fallible.ok_bind]
    rcases result with ⟨rfl, grown⟩ | ⟨rfl, failed⟩
    · have notZero : uadd sz n ≠ 0 := by omega
      refine ⟨0, m', d', uadd sz n, ?_, owns', tabled', pool, grown⟩
      simp only [notZero, ↓reduceIte]
      rfl
    · exact ⟨-1, m', d', sz, rfl, owns', tabled', pool, failed⟩

/-- `sbrk(-sz)` by a process that has pages: deallocuvm unmaps and frees all
of them, yet sys_sbrk returns -1 and `p->sz` stays `sz`, so the process is no
longer `Shaped`. -/
theorem sbrk_all_unmaps_but_keeps_sz (owns : Owns m d []) (tabled : d.Tabled) {sz : Nat}
    (shaped : Shaped d sz) (hasPages : 0 < sz) :
    ∃ m' d', sysSbrk m d sz (-(sz : Int)) = .ok (-1, m', d', sz) ∧ Owns m' d' [] ∧
      Pool m' d' [] = Pool m d [] ∧ (∀ u, d'.entries u = none) ∧ ¬ Shaped d' sz := by
  have small := shaped.below
  have inside : 0 * pgSize < pgroundup sz := by
    rw [pgroundup_of_lt small, Nat.zero_mul]
    omega
  have size : uadd sz (-(sz : Int)) = 0 := by
    have zero : (sz : Int) + -(sz : Int) = 0 := by omega
    unfold uadd
    rw [zero]
    rfl
  obtain ⟨m', dealloc, owns', pool⟩ := owns.deallocuvm tabled (show 0 < sz from hasPages)
  have bottom : pgroundup 0 = 0 := by decide
  -- every page below `sz` is cleared, and none above it was mapped
  have cleared : ∀ u, (d.clear (pgroundup 0) sz).entries u = none := by
    intro u
    rw [Pgdir.clear_entries, bottom]
    by_cases below : u * pgSize < sz
    · rw [if_pos ⟨Nat.zero_le _, below⟩]
    · rw [if_neg (fun inside => below inside.2)]
      cases entry : d.entries u with
      | none => rfl
      | some e =>
          have present := (shaped.shape.present u).mp (by rw [entry]; rfl)
          rw [pgroundup_of_lt small] at present
          unfold pgSize at below present
          omega
  refine ⟨m', _, ?_, owns', pool, cleared, fun broken => ?_⟩
  · unfold sysSbrk growproc
    rw [if_neg (by omega), if_pos (by omega), size, dealloc, Fallible.ok_bind]
    rfl
  · have first := (broken.shape.present 0).mpr inside
    rw [cleared 0] at first
    simp at first

/-- kmem once userinit has run on a free list of three pages: inituvm took
the first for the code of the first process and walkpgdir the second for its
page table. -/
def initKmem : Kmem := ⟨0x80200000, by decide, [0x80203000]⟩

/-- The first process's page directory: its code page at virtual address 0. -/
def initPgdir : Pgdir where
  tables i := if i = 0 then some 0x201000 else none
  entries u := if u = 0 then some ⟨0x202000, true, true⟩ else none

theorem initPgdir_entry {u : Nat} {e : Pte} (found : initPgdir.entries u = some e) :
    u = 0 ∧ e = ⟨0x202000, true, true⟩ := by
  by_cases zero : u = 0
  · subst zero
    exact ⟨rfl, (Option.some.inj found).symm⟩
  · simp [initPgdir, zero] at found

theorem initPgdir_table {i t : Nat} (found : initPgdir.tables i = some t) :
    i = 0 ∧ t = 0x201000 := by
  by_cases zero : i = 0
  · subst zero
    exact ⟨rfl, (Option.some.inj found).symm⟩
  · simp [initPgdir, zero] at found

theorem owns_init : Owns initKmem initPgdir [] := by
  refine ⟨by decide, by decide, fun u e found => ?_, fun i t found => ?_,
    fun u w e f found found' _ => ?_, fun i j t t' found found' _ => ?_,
    fun i t u e found found' => ?_⟩
  · rw [(initPgdir_entry found).2]
    decide
  · rw [(initPgdir_table found).2]
    decide
  · rw [(initPgdir_entry found).1, (initPgdir_entry found').1]
  · rw [(initPgdir_table found).1, (initPgdir_table found').1]
  · rw [(initPgdir_table found).2, (initPgdir_entry found').2]
    decide

theorem tabled_init : initPgdir.Tabled := by
  intro u e found
  rw [(initPgdir_entry found).1]
  exact ⟨0x201000, rfl⟩

theorem shaped_init : Shaped initPgdir pgSize := by
  refine ⟨by decide, fun u => ?_, fun u e found => by rw [(initPgdir_entry found).2]⟩
  have top : pgroundup pgSize = 4096 := by decide
  rw [top]
  by_cases zero : u = 0
  · subst zero
    decide
  · simp only [initPgdir, zero, ↓reduceIte, Option.isSome_none, Bool.false_eq_true, false_iff]
    unfold pgSize
    omega

/-- The first process, of size `PGSIZE`, grows by a page: allocuvm takes the
one free page, whose page table is already there. -/
theorem growproc_keeps_first_process :
    Owns initKmem initPgdir [] ∧ initPgdir.Tabled ∧ Shaped initPgdir pgSize ∧
      (-2 ^ 31 ≤ (4096 : Int) ∧ (4096 : Int) < 2 ^ 31) ∧ ((4096 : Int) ≠ -(pgSize : Int) ∨ pgSize = 0) ∧
      ∃ r m' d' sz', growproc initKmem initPgdir pgSize 4096 = .ok (r, m', d', sz') ∧ Owns m' d' [] ∧
        d'.Tabled ∧ Pool m' d' [] = Pool initKmem initPgdir [] ∧ Shaped d' sz' :=
  ⟨owns_init, tabled_init, shaped_init, by decide, .inl (by decide),
    growproc_keeps owns_init tabled_init shaped_init (by decide) (.inl (by decide))⟩

/-- The first process, of size `PGSIZE`, calls `sbrk(-4096)`. -/
theorem sbrk_all_unmaps_first_process :
    Owns initKmem initPgdir [] ∧ initPgdir.Tabled ∧ Shaped initPgdir pgSize ∧ 0 < pgSize ∧
      ∃ m' d', sysSbrk initKmem initPgdir pgSize (-(pgSize : Int)) = .ok (-1, m', d', pgSize) ∧
        Owns m' d' [] ∧ Pool m' d' [] = Pool initKmem initPgdir [] ∧ (∀ u, d'.entries u = none) ∧
        ¬ Shaped d' pgSize :=
  ⟨owns_init, tabled_init, shaped_init, by decide,
    sbrk_all_unmaps_but_keeps_sz owns_init tabled_init shaped_init (by decide)⟩

/-- sbrk by an `n` that takes the break below 0: `sz + n` wraps to a size
past `sz`, so deallocuvm returns `sz` and changes nothing, and growproc reads
that nonzero size as success.  sys_sbrk returns the old break although the
break did not move. -/
theorem sbrk_past_zero_reports_success (m : Kmem) (d : Pgdir) {sz : Nat} (hasPages : 0 < sz)
    {n : Int} (range : -2 ^ 31 ≤ n) (past : (sz : Int) + n < 0) :
    sysSbrk m d sz n = .ok (sz, m, d, sz) := by
  have wrapped := uadd_of_neg range past
  have shrinks : n < 0 := by omega
  have grows : sz ≤ uadd sz n := by omega
  have grown : growproc m d sz n = .ok (0, m, d, sz) := by
    unfold growproc
    rw [if_neg (by omega), if_pos shrinks, deallocuvm_of_le grows, Fallible.ok_bind]
    simp only [Nat.pos_iff_ne_zero.mp hasPages, ↓reduceIte]
    rfl
  unfold sysSbrk
  rw [grown, Fallible.ok_bind]
  rfl

/-- The first process, of size `PGSIZE`, calls `sbrk(-8192)`: sys_sbrk
returns 4096, the old break, and the size stays 4096. -/
theorem sbrk_past_zero_first_process :
    0 < pgSize ∧ -2 ^ 31 ≤ (-8192 : Int) ∧ (pgSize : Int) + -8192 < 0 ∧
      sysSbrk initKmem initPgdir pgSize (-8192) = .ok (pgSize, initKmem, initPgdir, pgSize) :=
  ⟨by decide, by decide, by decide,
    sbrk_past_zero_reports_success initKmem initPgdir (by decide) (by decide) (by decide)⟩

end Vm
end Xv6
