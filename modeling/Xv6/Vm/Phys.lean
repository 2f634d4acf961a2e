import Xv6.Vm.Grow

/-!
# Page contents

Which bytes the functions of `Vm.Basic` write when they are run with them:
kfree fills a freed page with junk, walkpgdir zeroes the page table it takes,
and mapping one page writes at most that page table.  Memory is one byte per
kernel virtual address; the PTEs themselves stay in `Pgdir`, so the bytes of
a page-table page are never read.
-/
namespace Xv6
namespace Vm

/-- The page at `v` holds `PGSIZE` zero bytes. -/
def Zeroed (mem : Nat → UInt8) (v : Nat) : Prop := ∀ k < pgSize, mem (v + k) = 0

theorem memset_of_mem {mem : Nat → UInt8} {v n a : Nat} (c : UInt8) (inside : v ≤ a ∧ a < v + n) :
    memset mem v c n a = c :=
  if_pos inside

theorem memset_of_not_mem {mem : Nat → UInt8} {v n a : Nat} (c : UInt8)
    (outside : ¬(v ≤ a ∧ a < v + n)) : memset mem v c n a = mem a :=
  if_neg outside

/-- Two different pages do not share a byte. -/
theorem not_mem_page {v w : Nat} (alignedV : v % pgSize = 0) (alignedW : w % pgSize = 0)
    (apart : v ≠ w) {k : Nat} (below : k < pgSize) : ¬(w ≤ v + k ∧ v + k < w + pgSize) := by
  unfold pgSize at *
  omega

theorem zeroed_memset (mem : Nat → UInt8) (v : Nat) : Zeroed (memset mem v 0 pgSize) v :=
  fun _ below => memset_of_mem 0 ⟨Nat.le_add_right _ _, Nat.add_lt_add_left below _⟩

/-- Writing one page leaves a zeroed page elsewhere zeroed. -/
theorem Zeroed.memset {mem : Nat → UInt8} {v w : Nat} (zeroed : Zeroed mem v)
    (alignedV : v % pgSize = 0) (alignedW : w % pgSize = 0) (apart : v ≠ w) (c : UInt8) :
    Zeroed (Vm.memset mem w c pgSize) v := fun k below => by
  rw [memset_of_not_mem c (not_mem_page alignedV alignedW apart below)]
  exact zeroed k below

namespace Phys

variable {m : Kmem} {mem : Nat → UInt8} {d : Pgdir}

theorem kfree_eq (m : Kmem) (mem : Nat → UInt8) (v : Nat) :
    kfree m mem v =
      if m.Page v then .ok ({ m with freelist := v :: m.freelist }, memset mem v 1 pgSize)
      else .error "kfree" := by
  unfold kfree
  by_cases page : m.Page v
  · rw [if_pos page]
    obtain ⟨aligned, above, below⟩ := page
    rw [if_neg (by omega)]
  · rw [if_neg page]
    unfold Kmem.Page at page
    rw [if_pos (by omega)]

/-! ## Which bytes change -/

/-- walkpgdir writes only the page table it takes, which was at the head of
the free list. -/
theorem walkpgdir_bytes {va : Nat} {alloc : Bool} {walked : (Kmem × Pgdir) × (Nat → UInt8)}
    (walk : walkpgdir m mem d va alloc = some walked) :
    walked.2 = mem ∨ ∃ t, m.freelist.head? = some t ∧ walked.2 = memset mem t 0 pgSize := by
  unfold walkpgdir at walk
  split at walk
  · cases walk
    exact .inl rfl
  · split_ifs at walk
    rcases kalloc_cases m with ⟨_, got⟩ | ⟨t, rest, list, got⟩
    · rw [got] at walk
      cases walk
    · rw [got] at walk
      cases walk
      exact .inr ⟨t, by rw [list, List.head?_cons], rfl⟩

/-- mappages of one page at an aligned address: one round of its loop. -/
theorem mappages_page {a : Nat} (aligned : a % pgSize = 0) (m : Kmem) (mem : Nat → UInt8)
    (d : Pgdir) (pa : Nat) (writable user : Bool) :
    mappages m mem d a pgSize pa writable user =
      match walkpgdir m mem d a true with
      | none => .ok ((false, m, d), mem)
      | some ((m', d'), mem') =>
          match d'.entries (a / pgSize) with
          | some _ => .error "remap"
          | none => .ok ((true, m', d'.set (a / pgSize) (some ⟨pa, writable, user⟩)), mem') := by
  have first : pgrounddown a = a := by
    unfold pgrounddown
    exact Nat.div_mul_cancel (Nat.dvd_of_mod_eq_zero aligned)
  have last : pgrounddown (a + pgSize - 1) = a := by
    simp only [pgrounddown, pgSize] at aligned ⊢
    omega
  simp only [mappages, first, last, Nat.sub_self, Nat.zero_div, Nat.zero_add]
  rw [mappagesLoop]
  rcases walkpgdir m mem d a true with _ | ⟨⟨m', d'⟩, mem'⟩
  · rfl
  · dsimp only
    cases d'.entries (a / pgSize) with
    | some _ => rfl
    | none => simp

/-- Mapping one page writes at most the page table walkpgdir takes. -/
theorem mappages_page_bytes {a pa : Nat} (aligned : a % pgSize = 0) {writable user : Bool}
    {result : (Bool × Kmem × Pgdir) × (Nat → UInt8)}
    (mapped : mappages m mem d a pgSize pa writable user = .ok result) :
    result.2 = mem ∨ ∃ t, m.freelist.head? = some t ∧ result.2 = memset mem t 0 pgSize := by
  rw [mappages_page aligned] at mapped
  rcases walk : walkpgdir m mem d a true with _ | ⟨⟨m', d'⟩, mem'⟩
  · rw [walk] at mapped
    cases mapped
    exact .inl rfl
  · rw [walk] at mapped
    dsimp only at mapped
    have written := walkpgdir_bytes walk
    split at mapped
    · cases mapped
    · cases mapped
      exact written

end Phys

end Vm
end Xv6
