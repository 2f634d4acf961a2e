import Xv6.Vm.Own

/-!
# The loops of allocuvm and deallocuvm

deallocuvm's loop clears the PTEs of the pages in its range and frees their
pages; allocuvm's loop maps a fresh page at each page boundary below the new
size, and when kalloc runs out undoes the growth with deallocuvm and frees
the page it holds.  Each is proved by induction on the distance the loop has
left, one iteration at a time, with `Owns` carried along: under it no kfree
panics and mappages never finds a PTE to remap.
-/

namespace Xv6
namespace Vm

/-- The user pages present are exactly those below `top`, all with `PTE_U`. -/
structure Pgdir.Shape (d : Pgdir) (top : Nat) : Prop where
  present : ∀ u, (d.entries u).isSome ↔ u * pgSize < top
  user : ∀ u e, d.entries u = some e → e.user = true

/-- `d` without the PTEs of the pages from `lo` below `hi`. -/
def Pgdir.clear (d : Pgdir) (lo hi : Nat) : Pgdir :=
  { d with entries := fun u => if lo ≤ u * pgSize ∧ u * pgSize < hi then none else d.entries u }

variable {m : Kmem} {d : Pgdir} {held : List Nat}

/-! ## One iteration -/

theorem Pgdir.eq_of_entries {d' : Pgdir} (tables : d'.tables = d.tables)
    (entries : ∀ u, d'.entries u = d.entries u) : d' = d := by
  cases d
  cases d'
  simp only [Pgdir.mk.injEq]
  exact ⟨tables, funext entries⟩

theorem Pgdir.addTable_self (i t : Nat) : (d.addTable i t).tables i = some t :=
  Function.update_self ..

theorem Pgdir.clear_entries (lo hi u : Nat) :
    (d.clear lo hi).entries u = if lo ≤ u * pgSize ∧ u * pgSize < hi then none else d.entries u :=
  rfl

theorem Pgdir.clear_of_le {lo hi : Nat} (empty : hi ≤ lo) : d.clear lo hi = d := by
  refine eq_of_entries rfl fun u => ?_
  rw [clear_entries, if_neg (by omega)]

theorem Pgdir.set_none_of_none {u : Nat} (absent : d.entries u = none) : d.set u none = d := by
  refine eq_of_entries rfl fun w => ?_
  rw [set_entries]
  by_cases here : w = u
  · rw [here, Function.update_self, absent]
  · rw [Function.update_of_ne here]

/-- One step of deallocuvm's loop: clear the PTE of the page at `a`. -/
theorem Pgdir.clear_set {a hi : Nat} (aligned : a % pgSize = 0) (below : a < hi) :
    (d.set (a / pgSize) none).clear (a + pgSize) hi = d.clear a hi := by
  refine eq_of_entries rfl fun u => ?_
  rw [clear_entries, clear_entries, set_entries]
  unfold pgSize at *
  by_cases here : u = a / 4096
  · rw [here, Function.update_self, ite_self, if_pos (by omega)]
  · rw [Function.update_of_ne here]
    by_cases inside : a + 4096 ≤ u * 4096 ∧ u * 4096 < hi
    · rw [if_pos inside, if_pos (by omega)]
    · rw [if_neg inside, if_neg (by omega)]

theorem Pgdir.Tabled.clear (tabled : d.Tabled) (lo hi : Nat) : (d.clear lo hi).Tabled := by
  intro u e entry
  rw [Pgdir.clear_entries] at entry
  split_ifs at entry
  exact tabled u e entry

/-- Where deallocuvm's loop goes on when `PDX(a)` has no page table. -/
theorem next_table (a : Nat) :
    a < pgaddr (pdx a + 1) 0 0 - pgSize + pgSize ∧ (pgaddr (pdx a + 1) 0 0 - pgSize + pgSize) % pgSize = 0 := by
  simp only [pgaddr, pdx, pgSize, nPtEntries]
  omega

/-- Skipping the rest of a directory entry with no page table clears no PTE. -/
theorem Pgdir.Tabled.clear_skip (tabled : d.Tabled) {a hi : Nat} (absent : d.tables (pdx a) = none) :
    d.clear (pgaddr (pdx a + 1) 0 0 - pgSize + pgSize) hi = d.clear a hi := by
  refine Pgdir.eq_of_entries rfl fun u => ?_
  rw [Pgdir.clear_entries, Pgdir.clear_entries]
  by_cases skipped : a ≤ u * pgSize ∧ u * pgSize < pgaddr (pdx a + 1) 0 0 - pgSize + pgSize
  · cases entry : d.entries u with
    | none => split_ifs <;> rfl
    | some e =>
        obtain ⟨t, found⟩ := tabled u e entry
        have sameTable : u / nPtEntries = pdx a := by
          simp only [pgaddr, pdx, pgSize, nPtEntries] at skipped ⊢
          omega
        rw [sameTable, absent] at found
        cases found
  · have later := (next_table a).1
    by_cases inside : a ≤ u * pgSize ∧ u * pgSize < hi
    · rw [if_pos inside, if_pos (by omega)]
    · rw [if_neg inside, if_neg (by omega)]

theorem walkpgdir_absent {va : Nat} (walk : walkpgdir m d va false = none) : d.tables (pdx va) = none := by
  rw [walkpgdir_eq] at walk
  cases found : d.tables (pdx va) with
  | none => rfl
  | some t =>
      rw [found] at walk
      cases walk

/-- walkpgdir with `alloc` set: afterwards the page table of `va` exists, or
it did not and kalloc had no page for it.  A new table comes off the free
list and changes no PTE. -/
theorem Owns.walkpgdir (owns : Owns m d held) (tabled : d.Tabled) (va : Nat) :
    walkpgdir m d va true = none ∧ m.freelist = [] ∨
      ∃ m' d', walkpgdir m d va true = some (m', d') ∧ Owns m' d' held ∧ d'.Tabled ∧
        d'.entries = d.entries ∧ (∃ t, d'.tables (pdx va) = some t) ∧ Pool m' d' held = Pool m d held := by
  rw [walkpgdir_eq]
  cases found : d.tables (pdx va) with
  | some t => exact .inr ⟨m, d, rfl, owns, tabled, rfl, ⟨t, found⟩, rfl⟩
  | none =>
      rcases kalloc_cases m with ⟨empty, got⟩ | ⟨r, rest, _, got⟩
      · refine .inl ⟨?_, empty⟩
        simp only [got, Bool.not_true, Bool.false_eq_true, ↓reduceIte]
      · obtain ⟨owns', pool⟩ := owns.kalloc got
        obtain ⟨owns'', pool'⟩ := owns'.addTable tabled found
        refine .inr ⟨_, _, ?_, owns'', tabled.addTable found, tabled.addTable_entries found,
          ⟨v2p r, Pgdir.addTable_self ..⟩, pool'.trans pool⟩
        simp only [got, Bool.not_true, Bool.false_eq_true, ↓reduceIte]

/-- mappages of one page at an aligned address: one round of its loop. -/
theorem mappages_page {a : Nat} (aligned : a % pgSize = 0) (m : Kmem) (d : Pgdir) (pa : Nat)
    (writable user : Bool) :
    mappages m d a pgSize pa writable user =
      match walkpgdir m d a true with
      | none => .ok (false, m, d)
      | some (m', d') =>
          match d'.entries (a / pgSize) with
          | some _ => .error "remap"
          | none => .ok (true, m', d'.set (a / pgSize) (some ⟨pa, writable, user⟩)) := by
  have first : pgrounddown a = a := by
    unfold pgrounddown
    exact Nat.div_mul_cancel (Nat.dvd_of_mod_eq_zero aligned)
  have last : pgrounddown (a + pgSize - 1) = a := by
    simp only [pgrounddown, pgSize] at aligned ⊢
    omega
  simp only [mappages_eq, first, last, Nat.sub_self, Nat.zero_div, Nat.zero_add]
  rw [mappagesLoop_succ]
  rcases walkpgdir m d a true with _ | ⟨m', d'⟩
  · rfl
  · dsimp only
    cases d'.entries (a / pgSize) with
    | some _ => rfl
    | none => simp

/-- allocuvm's mappages of a page it holds, where no PTE is: the page is
mapped, or no page table could be had and nothing changed. -/
theorem Owns.mapPage {r a : Nat} (owns : Owns m d (r :: held)) (tabled : d.Tabled)
    (aligned : a % pgSize = 0) (empty : d.entries (a / pgSize) = none) (writable user : Bool) :
    mappages m d a pgSize (v2p r) writable user = .ok (false, m, d) ∧ m.freelist = [] ∨
      ∃ m' d', mappages m d a pgSize (v2p r) writable user = .ok (true, m', d') ∧ Owns m' d' held ∧
        d'.Tabled ∧ d'.entries = Function.update d.entries (a / pgSize) (some ⟨v2p r, writable, user⟩) ∧
        Pool m' d' held = Pool m d (r :: held) := by
  rw [mappages_page aligned]
  rcases owns.walkpgdir tabled a with ⟨walk, noPage⟩ | ⟨m₁, d₁, walk, owns₁, tabled₁, entries, ⟨t, table⟩, pool⟩
  · rw [walk]
    exact .inl ⟨rfl, noPage⟩
  · have empty₁ : d₁.entries (a / pgSize) = none := by rw [entries, empty]
    obtain ⟨owns₂, pool₂⟩ := owns₁.map empty₁ writable user
    have inTable : ∃ t, d₁.tables (a / pgSize / nPtEntries) = some t := by
      rw [Nat.div_div_eq_div_mul]
      exact ⟨t, table⟩
    refine .inr ⟨_, _, ?_, owns₂, tabled₁.set_some inTable, by rw [Pgdir.set_entries, entries],
      pool₂.trans pool⟩
    rw [walk]
    dsimp only
    rw [empty₁]

/-! ## The loops -/

/-- deallocuvm's loop from an aligned `a`: it clears the PTEs of the pages
from `a` below `oldsz` and frees their pages, without a panic. -/
theorem Owns.deallocLoop (owns : Owns m d held) (tabled : d.Tabled) (oldsz : Nat) {a : Nat}
    (aligned : a % pgSize = 0) :
    ∃ m', deallocLoop m d oldsz a = .ok (m', d.clear a oldsz) ∧ Owns m' (d.clear a oldsz) held ∧
      Pool m' (d.clear a oldsz) held = Pool m d held := by
  -- induction on the distance left to `oldsz`, which each iteration shortens
  induction left : oldsz - a using Nat.strongRecOn generalizing m d a with
  | _ n ih =>
  rw [deallocLoop_eq]
  split_ifs with below
  · rcases walk : Vm.walkpgdir m d a false with _ | ⟨m₁, d₁⟩
    · -- no page table for `PDX(a)`: on to the next directory entry
      dsimp only
      have absent := walkpgdir_absent walk
      obtain ⟨later, aligned'⟩ := next_table a
      rw [← tabled.clear_skip absent]
      exact ih _ (by omega) owns tabled (a := pgaddr (pdx a + 1) 0 0 - pgSize + pgSize) aligned' rfl
    · dsimp only
      rcases entry : d.entries (a / pgSize) with _ | pte
      · dsimp only
        have step := ih (oldsz - (a + pgSize)) (by unfold pgSize; omega) owns tabled (a := a + pgSize)
          (by unfold pgSize at *; omega) rfl
        rwa [← Pgdir.set_none_of_none entry, Pgdir.clear_set aligned below, Pgdir.set_none_of_none entry]
          at step
      · dsimp only
        obtain ⟨owns₁, pool₁⟩ := owns.unmap entry
        obtain ⟨freed, owns₂, pool₂⟩ := owns₁.kfree
        rw [if_neg (owns.user _ _ entry).1.ne_zero, freed, Fallible.ok_bind]
        obtain ⟨m', loop, owns', pool'⟩ := ih (oldsz - (a + pgSize)) (by unfold pgSize; omega) owns₂
          (tabled.set_none _) (a := a + pgSize) (by unfold pgSize at *; omega) rfl
        rw [Pgdir.clear_set aligned below] at loop owns' pool'
        exact ⟨m', loop, owns', pool'.trans (pool₂.trans pool₁)⟩
  · rw [Pgdir.clear_of_le (by omega)]
    exact ⟨m, rfl, owns, rfl⟩

theorem pgroundup_aligned (sz : Nat) : pgroundup sz % pgSize = 0 := by
  unfold pgroundup
  exact Nat.mul_mod_left _ _

/-- deallocuvm shrinking: the PTEs of the pages from `PGROUNDUP(newsz)` below
`oldsz` are cleared and their pages freed. -/
theorem Owns.deallocuvm (owns : Owns m d held) (tabled : d.Tabled) {oldsz newsz : Nat}
    (shrink : newsz < oldsz) :
    ∃ m', deallocuvm m d oldsz newsz = .ok (newsz, m', d.clear (pgroundup newsz) oldsz) ∧
      Owns m' (d.clear (pgroundup newsz) oldsz) held ∧
      Pool m' (d.clear (pgroundup newsz) oldsz) held = Pool m d held := by
  obtain ⟨m', loop, owns', pool⟩ := owns.deallocLoop tabled oldsz (pgroundup_aligned newsz)
  refine ⟨m', ?_, owns', pool⟩
  rw [deallocuvm_eq]
  rw [if_neg (by omega), loop]
  rfl

theorem pgroundup_of_lt {sz : Nat} (small : sz < kernBase) : pgroundup sz = (sz + 4095) / 4096 * 4096 := by
  unfold pgroundup pgSize
  unfold kernBase at small
  rw [Nat.mod_eq_of_lt (by omega)]
  omega

/-- allocuvm's rollback: clearing the pages allocuvm mapped leaves those
below `PGROUNDUP(oldsz)`. -/
theorem Pgdir.Shape.rollback {oldsz newsz a : Nat} (shape : d.Shape a) (start : pgroundup oldsz ≤ a)
    (below : a < newsz) : (d.clear (pgroundup oldsz) newsz).Shape (pgroundup oldsz) := by
  refine ⟨fun u => ?_, fun u e entry => ?_⟩
  · rw [clear_entries]
    by_cases inside : pgroundup oldsz ≤ u * pgSize ∧ u * pgSize < newsz
    · rw [if_pos inside]
      simp only [Option.isSome_none, Bool.false_eq_true, false_iff]
      omega
    · rw [if_neg inside, shape.present u]
      omega
  · rw [clear_entries] at entry
    split_ifs at entry
    exact shape.user u e entry

/-- allocuvm's step: one more page mapped, with `PTE_U`. -/
theorem Pgdir.Shape.extend {a : Nat} {d' : Pgdir} {pa : Nat} {writable : Bool} (shape : d.Shape a)
    (aligned : a % pgSize = 0)
    (entries : d'.entries = Function.update d.entries (a / pgSize) (some ⟨pa, writable, true⟩)) :
    d'.Shape (a + pgSize) := by
  refine ⟨fun u => ?_, fun u e entry => ?_⟩
  · rw [entries]
    by_cases here : u = a / pgSize
    · rw [here, Function.update_self]
      simp only [Option.isSome_some, true_iff]
      unfold pgSize at *
      omega
    · rw [Function.update_of_ne here, shape.present u]
      unfold pgSize at *
      omega
  · rw [entries] at entry
    by_cases here : u = a / pgSize
    · rw [here, Function.update_self] at entry
      obtain rfl := Option.some.inj entry
      rfl
    · rw [Function.update_of_ne here] at entry
      exact shape.user u e entry

/-- allocuvm's loop from an aligned `a` at or past `PGROUNDUP(oldsz)`, with
the pages below `a` mapped: it maps every page below `newsz` and returns
`newsz`, or runs out of memory, unmaps what it mapped and returns 0.  It
never panics, and no page is lost. -/
theorem Owns.allocLoop (owns : Owns m d []) (tabled : d.Tabled) {oldsz newsz a : Nat}
    (shape : d.Shape a) (aligned : a % pgSize = 0) (start : pgroundup oldsz ≤ a)
    (reach : a ≤ pgroundup newsz) (fits : newsz < kernBase) (grows : oldsz ≤ newsz) :
    ∃ r m' d', allocLoop m d oldsz newsz a = .ok (r, m', d') ∧ Owns m' d' [] ∧ d'.Tabled ∧
      Pool m' d' [] = Pool m d [] ∧
      (r = newsz ∧ d'.Shape (pgroundup newsz) ∨ r = 0 ∧ d'.Shape (pgroundup oldsz)) := by
  have roundNew := pgroundup_of_lt fits
  have roundOld := pgroundup_of_lt (Nat.lt_of_le_of_lt grows fits)
  -- induction on the distance left to `newsz`, which each mapped page shortens
  induction left : newsz - a using Nat.strongRecOn generalizing m d a with
  | _ n ih =>
  rw [allocLoop_eq]
  split_ifs with below
  · have shrink : oldsz < newsz := by
      rw [roundOld] at start
      omega
    rcases kalloc_cases m with ⟨_, got⟩ | ⟨mem, rest, _, got⟩
    · -- "allocuvm out of memory"
      obtain ⟨m', dealloc, owns', pool⟩ := owns.deallocuvm tabled shrink
      refine ⟨0, m', _, ?_, owns', tabled.clear _ _, pool, .inr ⟨rfl, shape.rollback start below⟩⟩
      rw [got]
      dsimp only
      rw [dealloc, Fallible.ok_bind]
      rfl
    · obtain ⟨owns₁, pool₁⟩ := owns.kalloc got
      have empty : d.entries (a / pgSize) = none := by
        have absent := (shape.present (a / pgSize)).not.mpr (by unfold pgSize at *; omega)
        simpa using absent
      rcases owns₁.mapPage tabled aligned empty true true with
        ⟨mapped, _⟩ | ⟨m₂, d₂, mapped, owns₂, tabled₂, entries₂, pool₂⟩
      · -- "allocuvm out of memory (2)"
        obtain ⟨m₃, dealloc, owns₃, pool₃⟩ := owns₁.deallocuvm tabled shrink
        obtain ⟨freed, owns₄, pool₄⟩ := owns₃.kfree
        refine ⟨0, _, _, ?_, owns₄, tabled.clear _ _, pool₄.trans (pool₃.trans pool₁),
          .inr ⟨rfl, shape.rollback start below⟩⟩
        rw [got]
        dsimp only
        rw [mapped, Fallible.ok_bind]
        dsimp only
        rw [dealloc, Fallible.ok_bind]
        dsimp only
        rw [freed, Fallible.ok_bind]
        rfl
      · have next := ih (newsz - (a + pgSize)) (by unfold pgSize; omega) owns₂ tabled₂ (a := a + pgSize)
          (shape.extend aligned entries₂) (by unfold pgSize at *; omega) (by unfold pgSize at *; omega)
          (by rw [roundNew]; unfold pgSize at *; omega) rfl
        obtain ⟨r, m', d', loop, owns', tabled', pool', result⟩ := next
        refine ⟨r, m', d', ?_, owns', tabled', pool'.trans (pool₂.trans pool₁), result⟩
        rw [got]
        dsimp only
        rw [mapped, Fallible.ok_bind]
        simp only [↓reduceIte]
        exact loop
  · have top : a = pgroundup newsz := by
      rw [roundNew] at reach ⊢
      unfold pgSize at aligned
      omega
    rw [← top]
    exact ⟨newsz, m, d, rfl, owns, tabled, rfl, .inl ⟨rfl, shape⟩⟩

theorem deallocuvm_of_le {oldsz newsz : Nat} (grow : oldsz ≤ newsz) (m : Kmem) (d : Pgdir) :
    deallocuvm m d oldsz newsz = .ok (oldsz, m, d) := by
  rw [deallocuvm_eq]
  rw [if_pos grow]

end Vm
end Xv6
