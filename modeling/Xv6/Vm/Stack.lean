import Mathlib
import Xv6.Vm.Load

/-!
# exec's user stack, with its bytes

When the argument strings and the `ustack` words fit in the two pages exec
adds, every page copyout writes is a page of the image below its size, so
exec's stack phase never reaches the null read of `Vm.Exec`: it ends in
`bad:`, freeing the new directory, or with the image exec commits to, whose
pages below its size are exactly those the image holds, each with `PTE_U`
but the guard page.
-/

namespace Xv6
namespace Vm

/-- The room exec's stack phase may take below the top of the stack: each
argument string with its NUL and up to three bytes of rounding, then the
`ustack` words. -/
def argSpace (argv : List (List UInt8)) : Nat :=
  (argv.map fun s => s.length + 4).sum + (3 + argv.length + 1) * 4

/-! ## The stack phase -/

variable {m : Kmem} {mem : Nat → UInt8} {d : Pgdir} {held : List Nat}

/-- exec's new image once its stack is mapped, of size `sz`: the accounting
of `Holds`, setupkvm's kernel mappings, and the pages below `sz` exactly,
each with `PTE_U` but the guard page two pages below `sz`. -/
structure Stacked (data : Nat) (m₀ : Kmem) (mem₀ : Nat → UInt8) (pgdir : Nat) (m : Kmem) (mem : Nat → UInt8)
    (d : Pgdir) (sz : Nat) : Prop extends Phys.Holds m₀ mem₀ pgdir m mem d where
  kernel : ∀ v, kernBase ≤ v → d.pte v = kernelPte data v
  present : ∀ u, (d.owned.entries u).isSome ↔ u * pgSize < sz
  user : ∀ u e, d.owned.entries u = some e → (e.user = true ↔ u * pgSize + 2 * pgSize ≠ sz)
  aligned : sz % pgSize = 0
  below : sz < kernBase

/-- What `bad:` leaves once the new directory is freed: the free list holds
exactly the pages free when exec began, and only their bytes changed. -/
structure Freed (m₀ : Kmem) (mem₀ : Nat → UInt8) (m : Kmem) (mem : Nat → UInt8) : Prop where
  owns : Owns m Pgdir.empty []
  pool : Pool m Pgdir.empty [] = Pool m₀ Pgdir.empty []
  within : Within (· ∈ m₀.freelist) mem₀ mem
  kend : m.kend = m₀.kend

/-- uva2ka at a page whose PTE is present. -/
theorem uva2ka_of_pte {va : Nat} {e : Pte} (present : d.pte va = some e)
    (entry : d.entries (va / pgSize) = some e) :
    uva2ka m d va = if e.user then .ok (some (p2v e.addr)) else .ok none := by
  unfold uva2ka
  rw [walkpgdir_of_pte (by rw [present]; rfl) false]
  dsimp only
  rw [entry]

/-- `sp = (sp - (strlen(s) + 1)) & ~3` where the string fits below `sp`:
the string with its NUL lies below `sp`, at most three bytes further down. -/
theorem pushSp_bounds {sp : Nat} {s : List UInt8} (fits : s.length + 1 ≤ sp) (small : sp < 2 ^ 32) :
    pushSp sp s + (s.length + 1) ≤ sp ∧ sp ≤ pushSp sp s + (s.length + 4) := by
  unfold pushSp
  omega

theorem v2p_p2v (a : Nat) : v2p (p2v a) = a :=
  Nat.add_sub_cancel a kernBase

/-- New flags on a present PTE: the same pages held. -/
theorem Owns.reflag {u : Nat} {e : Pte} (owns : Owns m d held) (present : d.entries u = some e)
    (writable user : Bool) :
    Owns m (d.set u (some ⟨e.addr, writable, user⟩)) held ∧
      Pool m (d.set u (some ⟨e.addr, writable, user⟩)) held = Pool m d held := by
  obtain ⟨owns₁, pool₁⟩ := owns.unmap present
  have empty : (d.set u none).entries u = none := by
    rw [Pgdir.set_entries, Function.update_self]
  obtain ⟨owns₂, pool₂⟩ := owns₁.map empty writable user
  -- unmapping the page and mapping it back with the new flags
  have same : (d.set u none).set u (some ⟨v2p (p2v e.addr), writable, user⟩) =
      d.set u (some ⟨e.addr, writable, user⟩) := by
    rw [v2p_p2v]
    refine Pgdir.eq_of_entries rfl fun w => ?_
    rw [Pgdir.set_entries, Pgdir.set_entries, Pgdir.set_entries]
    by_cases here : w = u
    · rw [here, Function.update_self, Function.update_self]
    · rw [Function.update_of_ne here, Function.update_of_ne here, Function.update_of_ne here]
  rw [same] at owns₂ pool₂
  exact ⟨owns₂, pool₂.trans pool₁⟩

theorem pgroundup_of_aligned {a : Nat} (aligned : a % pgSize = 0) (low : a ≤ kernBase) : pgroundup a = a := by
  unfold pgroundup
  unfold pgSize kernBase at *
  omega

section Stack

variable {data : Nat} {m₀ : Kmem} {mem₀ : Nat → UInt8} {pgdir sz : Nat}

/-- exec's `bad:` once the program is loaded: freevm gives back every page
the new directory held, and never panics. -/
theorem Phys.Holds.execBad (holds : Phys.Holds m₀ mem₀ pgdir m mem d) :
    ∃ m' mem', Phys.execBad pgdir m mem d = .ok ((none, m'), mem') ∧ Freed m₀ mem₀ m' mem' := by
  obtain ⟨m', freed, owns', pool'⟩ := holds.owns.freevm holds.tabled holds.bounded
  obtain ⟨mem', phys⟩ := Fallible.exists_ok_of_map_fst ((Phys.freevm_map_fst ..).trans freed)
  have cleared := Phys.freevm_within [] phys
  rw [holds.pool, pool_empty] at cleared
  unfold Phys.execBad
  rw [phys, Fallible.ok_mapError, Fallible.ok_bind]
  exact ⟨m', mem', rfl, owns', pool'.trans holds.pool, holds.within.trans cleared,
    (freevm_kend freed).trans holds.kend⟩

/-- copyout into the image below its size: it never panics, and writes only
pages of the image, which were free when exec began; within the top page,
above the guard page, it returns 0. -/
theorem Stacked.copyout {mem : Nat → UInt8} (inv : Stacked data m₀ mem₀ pgdir m mem d sz) (va : Nat)
    (buf : List UInt8) (inside : va + buf.length ≤ sz) :
    ∃ r mem', Phys.copyout m d va buf mem = .ok (r, mem') ∧ Stacked data m₀ mem₀ pgdir m mem' d sz ∧
      (sz ≤ va + pgSize → r = 0) := by
  rw [Phys.copyout]
  by_cases nonempty : 0 < buf.length
  · rw [if_pos nonempty]
    dsimp only
    -- the page of `va` is one of the image's, and the next page is within it too
    have low := pgrounddown_le va
    have offset : va - pgrounddown va < pgSize := by
      unfold pgrounddown pgSize
      omega
    have next : pgrounddown va + pgSize ≤ sz := by
      have aligned := inv.aligned
      have start := pgrounddown_aligned va
      unfold pgSize at *
      omega
    have top : sz < 2 ^ 32 := Nat.lt_trans inv.below (by decide)
    have page : pgrounddown va / pgSize * pgSize < sz := by
      rw [Nat.div_mul_cancel (Nat.dvd_of_mod_eq_zero (pgrounddown_aligned va))]
      omega
    obtain ⟨e, entry⟩ := Option.isSome_iff_exists.mp ((inv.present _).mpr page)
    have user : pgrounddown va < kernBase := by
      have := inv.below
      omega
    obtain ⟨pte, whole⟩ := inv.pte_of_entry user entry
    obtain ⟨-, -, wasFree⟩ := inv.frame user pte
    rw [uva2ka_of_pte pte whole]
    cases userBit : e.user with
    | false =>
        -- only the guard page, two pages below the top, lacks `PTE_U`
        refine ⟨-1, mem, rfl, inv, fun top => absurd ((inv.user _ e entry).not.mp (by simp [userBit])) ?_⟩
        rw [Nat.div_mul_cancel (Nat.dvd_of_mod_eq_zero (pgrounddown_aligned va))]
        unfold pgSize at *
        omega
    | true =>
        rw [if_pos rfl, Fallible.ok_bind]
        dsimp only
        have written : Stacked data m₀ mem₀ pgdir m
            (store mem (p2v e.addr + (va - pgrounddown va))
              (buf.take (min (pgSize - (va - pgrounddown va)) buf.length))) d sz :=
          { inv with
            within := inv.within.trans (within_store wasFree (Nat.le_add_right _ _)
              (by rw [List.length_take]; omega) mem) }
        obtain ⟨r, mem', copied, stacked, topPage⟩ := written.copyout ((pgrounddown va + pgSize) % 2 ^ 32)
          (buf.drop (min (pgSize - (va - pgrounddown va)) buf.length)) (by
            rw [List.length_drop, Nat.mod_eq_of_lt (by omega)]
            omega)
        refine ⟨r, mem', copied, stacked, fun top => topPage ?_⟩
        rw [Nat.mod_eq_of_lt (by omega)]
        omega
  · rw [if_neg nonempty]
    exact ⟨0, mem, rfl, inv, fun _ => rfl⟩
termination_by buf.length
decreasing_by
  simp only [List.length_drop, pgrounddown, pgSize] at *
  omega

/-- exec's argument loop within the image, from a `sp` at or below its size
with room below for the strings left: it never panics, writes only pages of
the image, and pushes every string, each below the one before; when the
strings fit in the top page and there are no more than `MAXARG`, it pushes
all of them. -/
theorem Stacked.pushArgs : ∀ (argv : List (List UInt8)) (sp argc : Nat) {mem : Nat → UInt8},
    Stacked data m₀ mem₀ pgdir m mem d sz → sp ≤ sz → (argv.map fun s => s.length + 4).sum ≤ sp →
    ∃ r mem', Phys.pushArgs m d sp argc argv mem = .ok (r, mem') ∧ Stacked data m₀ mem₀ pgdir m mem' d sz ∧
      (∀ sp' addrs, r = some (sp', addrs) →
        sp' ≤ sp ∧ sp ≤ sp' + (argv.map fun s => s.length + 4).sum ∧ addrs.length = argv.length) ∧
      (sz + (argv.map fun s => s.length + 4).sum ≤ sp + pgSize → argc + argv.length ≤ maxArg → r.isSome)
  | [], sp, _, mem, inv, _, _ => ⟨some (sp, []), mem, rfl, inv, fun _ _ same => by cases same; simp, fun _ _ => rfl⟩
  | s :: rest, sp, argc, mem, inv, top, room => by
      rw [Phys.pushArgs]
      by_cases full : maxArg ≤ argc
      · rw [if_pos full]
        refine ⟨none, mem, rfl, inv, (fun _ _ none => by cases none), fun _ many => ?_⟩
        rw [List.length_cons] at many
        omega
      rw [if_neg full]
      dsimp only
      rw [List.map_cons, List.sum_cons] at room ⊢
      have small : sp < 2 ^ 32 := Nat.lt_of_le_of_lt top (Nat.lt_trans inv.below (by decide))
      obtain ⟨below, above⟩ := pushSp_bounds (s := s) (by omega) small
      obtain ⟨r, mem₁, copied, inv₁, topPage⟩ := inv.copyout (pushSp sp s) (s ++ [0])
        (by rw [List.length_append, List.length_singleton]; omega)
      rw [copied, Fallible.ok_bind]
      dsimp only
      by_cases failed : r < 0
      · -- a string in the top page is copied out
        rw [if_pos failed]
        refine ⟨none, mem₁, rfl, inv₁, (fun _ _ none => by cases none), fun inTop _ => ?_⟩
        rw [topPage (by omega)] at failed
        exact absurd failed (by decide)
      rw [if_neg failed]
      obtain ⟨pushed, mem₂, push, inv₂, result, all⟩ :=
        Stacked.pushArgs rest (pushSp sp s) (argc + 1) inv₁ (by omega) (by omega)
      rw [push, Fallible.ok_bind]
      rcases pushed with _ | ⟨sp', addrs⟩
      · refine ⟨none, mem₂, rfl, inv₂, (fun _ _ none => by cases none), fun inTop many => ?_⟩
        rw [List.length_cons] at many
        exact absurd (all (by omega) (by omega)) (by simp)
      obtain ⟨lower, upper, count⟩ := result sp' addrs rfl
      refine ⟨_, mem₂, rfl, inv₂, fun _ _ same => ?_, fun _ _ => rfl⟩
      cases same
      rw [List.length_cons, List.length_cons, count]
      exact ⟨by omega, by omega, rfl⟩

/-- clearpteu of the page two pages below the top of the image grown to `sz`:
the image with its guard page, and its stack above. -/
theorem Building.clearpteu (inv : Building data m₀ mem₀ pgdir m mem d sz) (aligned : sz % pgSize = 0)
    (room : 2 * pgSize ≤ sz) (below : sz < kernBase) :
    ∃ d', Vm.clearpteu m d (sz - 2 * pgSize) = .ok d' ∧ Stacked data m₀ mem₀ pgdir m mem d' sz := by
  have guard : sz - 2 * pgSize < sz := by
    unfold pgSize at *
    omega
  obtain ⟨e, pte, entry⟩ := inv.pte_of_lt (Nat.le_of_lt below) guard
  have page : (sz - 2 * pgSize) / pgSize * pgSize = sz - 2 * pgSize := by
    unfold pgSize at *
    omega
  have userPage : (sz - 2 * pgSize) / pgSize * pgSize < kernBase := by
    omega
  have viewEntry : d.owned.entries ((sz - 2 * pgSize) / pgSize) = some e := by
    rw [Pgdir.owned_entries, if_pos userPage]
    exact entry
  obtain ⟨owns', pool'⟩ := inv.owns.reflag viewEntry e.writable false
  rw [← Pgdir.owned_set_user userPage] at owns' pool'
  obtain ⟨t, table⟩ := inv.tabled _ e viewEntry
  unfold Vm.clearpteu
  rw [walkpgdir_of_pte (by rw [pte]; rfl) false]
  dsimp only
  rw [entry, Option.map_some]
  refine ⟨_, rfl, ⟨owns', ?_, inv.bounded, pool'.trans inv.pool, inv.within, inv.kend⟩, ?_, ?_, ?_,
    aligned, below⟩
  · rw [Pgdir.owned_set_user userPage]
    exact inv.tabled.set_some ⟨t, table⟩
  · intro v above
    rw [Pgdir.pte_set (Pgdir.table_of_pte (by rw [pte]; rfl)), if_neg (by unfold pgSize kernBase at *; omega),
      inv.kernel v above]
  · intro w
    rw [Pgdir.owned_set_user userPage, Pgdir.set_entries]
    by_cases here : w = (sz - 2 * pgSize) / pgSize
    · rw [here, Function.update_self, page]
      simp only [Option.isSome_some, true_iff]
      exact guard
    · rw [Function.update_of_ne here]
      exact inv.shape.present w
  · intro w f found
    rw [Pgdir.owned_set_user userPage, Pgdir.set_entries] at found
    by_cases here : w = (sz - 2 * pgSize) / pgSize
    · rw [here, Function.update_self, Option.some.injEq] at found
      subst found
      rw [here, page]
      simp only [Bool.false_eq_true, false_iff, not_not]
      omega
    · rw [Function.update_of_ne here] at found
      have other : w * pgSize ≠ sz - 2 * pgSize := by
        intro same
        apply here
        unfold pgSize at *
        omega
      rw [inv.shape.user w f found]
      exact iff_of_true rfl (by omega)

/-- exec's stack phase, from the loaded image of size `sz`, when the
arguments and `ustack` fit in the two pages it adds: it never panics, and it
ends in `bad:` with every page the new directory held freed, or with the
image exec commits to.  It reaches the image when the two pages fit below
`KERNBASE`, kalloc has four pages for them and their page tables, and the
arguments, at most `MAXARG` of them, and `ustack` fit in the top page. -/
theorem Building.execStack {sz : Nat} (inv : Building data m₀ mem₀ pgdir m mem d (pgroundup sz))
    (small : sz < kernBase) {argv : List (List UInt8)} (fits : argSpace argv ≤ 2 * pgSize) :
    ∃ r m' mem', Phys.execStack pgdir m mem d sz argv = .ok ((r, m'), mem') ∧
      (r = none ∧ Freed m₀ mem₀ m' mem' ∨
        ∃ sz' sp ustack d', r = some (sz', sp, ustack, d') ∧ Stacked data m₀ mem₀ pgdir m' mem' d' sz') ∧
      (pgroundup sz + 2 * pgSize < kernBase → 4 ≤ m.freelist.length → argSpace argv ≤ pgSize →
        argv.length ≤ maxArg → r.isSome) := by
  unfold Phys.execStack
  dsimp only
  have rounded := pgroundup_le_kernBase small
  have aligned := pgroundup_aligned sz
  by_cases roomy : pgroundup sz < kernBase
  · have inv' : Building data m₀ mem₀ pgdir m mem d (pgroundup (pgroundup sz)) := by
      rwa [pgroundup_of_aligned aligned rounded]
    obtain ⟨r, m₁, d₁, mem₁, alloc, grown⟩ := inv'.allocuvm roomy ((pgroundup sz + 2 * pgSize) % 2 ^ 32)
    rw [alloc, Fallible.ok_mapError, Fallible.ok_bind]
    dsimp only
    rcases grown with ⟨rfl, built⟩ | ⟨positive, size, below, built⟩
    · rw [if_pos rfl]
      obtain ⟨m₂, mem₂, bad, freed⟩ := built.execBad
      refine ⟨none, m₂, mem₂, bad, .inl ⟨rfl, freed⟩, fun low enough _ _ => ?_⟩
      -- with four pages allocuvm maps the two pages, and does not return 0
      have empty : ∀ u, pgroundup (pgroundup sz) ≤ u * pgSize → u * pgSize < pgroundup sz + 2 * pgSize →
          d.entries u = none := by
        intro u high _
        have absent := (inv'.shape.present u).not.mpr (by omega)
        rw [Pgdir.owned_entries, if_pos (by omega)] at absent
        simpa using absent
      obtain ⟨m', d', grownVm, -⟩ := allocuvm_ok (m := m) (d := d) (k := 2) (pgroundup sz)
        (pgroundup sz + 2 * pgSize) (by omega) low empty
        (by rw [pgroundup_of_aligned aligned rounded]) enough
      have dropped := Phys.allocuvm_map_fst m mem d (pgroundup sz) ((pgroundup sz + 2 * pgSize) % 2 ^ 32)
      rw [alloc, Nat.mod_eq_of_lt (by unfold kernBase at low; omega), grownVm] at dropped
      simp only [Except.map, Except.ok.injEq, Prod.mk.injEq] at dropped
      unfold pgSize at dropped
      omega
    rw [if_neg (Nat.pos_iff_ne_zero.mp positive)]
    -- the image grew by exactly the two pages
    have top : r = pgroundup sz + 2 * pgSize := by
      rw [size, Nat.mod_eq_of_lt (by unfold pgSize kernBase at *; omega)]
      exact Nat.max_eq_right (Nat.le_add_right _ _)
    have alignedTop : r % pgSize = 0 := by
      rw [top]
      unfold pgSize at *
      omega
    rw [pgroundup_of_aligned alignedTop (Nat.le_of_lt below)] at built
    obtain ⟨d₂, cleared, stacked⟩ := built.clearpteu alignedTop (by omega) below
    rw [cleared, Fallible.ok_bind]
    unfold argSpace at fits
    obtain ⟨pushed, mem₂, push, stacked₂, result, all⟩ :=
      Stacked.pushArgs argv r 0 stacked (Nat.le_refl r) (by omega)
    rw [push, Fallible.ok_bind]
    rcases pushed with _ | ⟨sp, addrs⟩
    · obtain ⟨m₃, mem₃, bad, freed⟩ := stacked₂.execBad
      refine ⟨none, m₃, mem₃, bad, .inl ⟨rfl, freed⟩, fun _ _ inTop few => ?_⟩
      -- arguments that fit in the top page are all pushed
      exact absurd (all (by unfold argSpace at inTop; omega) (by omega)) (by simp)
    obtain ⟨lower, upper, count⟩ := result sp addrs rfl
    dsimp only
    -- the `ustack` words fit below the strings
    have words : (3 + addrs.length + 1) * 4 ≤ sp := by
      rw [count]
      omega
    have spot : (sp + 2 ^ 32 - (3 + addrs.length + 1) * 4) % 2 ^ 32 = sp - (3 + addrs.length + 1) * 4 := by
      have : sp < 2 ^ 32 := Nat.lt_of_le_of_lt lower (Nat.lt_trans below (by decide))
      omega
    obtain ⟨c, mem₃, copied, stacked₃, topPage⟩ := stacked₂.copyout
      ((sp + 2 ^ 32 - (3 + addrs.length + 1) * 4) % 2 ^ 32)
      (([0xffffffff, addrs.length, (sp + 2 ^ 32 - (addrs.length + 1) * 4) % 2 ^ 32] ++ addrs ++ [0]).flatMap word)
      (by
        rw [length_flatMap_word, List.length_append, List.length_append, spot]
        simp only [List.length_cons, List.length_nil]
        omega)
    rw [copied, Fallible.ok_bind]
    dsimp only
    by_cases failed : c < 0
    · rw [if_pos failed]
      obtain ⟨m₄, mem₄, bad, freed⟩ := stacked₃.execBad
      refine ⟨none, m₄, mem₄, bad, .inl ⟨rfl, freed⟩, fun _ _ inTop _ => ?_⟩
      -- `ustack`, below the strings, is in the top page too
      rw [topPage (by unfold argSpace at inTop; rw [spot, count]; omega)] at failed
      exact absurd failed (by decide)
    · rw [if_neg failed]
      exact ⟨_, m₁, mem₃, rfl, .inr ⟨r, _, _, d₂, rfl, stacked₃⟩, fun _ _ _ _ => rfl⟩
  · -- `PGROUNDUP(sz)` is `KERNBASE`: allocuvm refuses the two pages
    have refused : Phys.allocuvm m mem d (pgroundup sz) ((pgroundup sz + 2 * pgSize) % 2 ^ 32) =
        .ok ((0, m, d), mem) := by
      unfold Phys.allocuvm
      rw [if_pos (by unfold pgSize kernBase at *; omega)]
    rw [refused, Fallible.ok_mapError, Fallible.ok_bind]
    dsimp only
    rw [if_pos rfl]
    obtain ⟨m₂, mem₂, bad, freed⟩ := inv.execBad
    exact ⟨none, m₂, mem₂, bad, .inl ⟨rfl, freed⟩, fun low => absurd low (by omega)⟩

end Stack

end Vm
end Xv6
