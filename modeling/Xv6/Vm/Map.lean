import Xv6.Vm.Kvm
import Xv6.Vm.Phys

/-!
# What mappages maps

`walkpgdir(pgdir, va, 0)` finds the PTE of `va` when the page table of its
directory entry exists; the PTE it finds with `PTE_P` set is `d.pte va` here.
walkpgdir with `alloc` set changes none of these: a page table it takes is
zeroed before its PDE is installed, so the PTEs it brings into view are all
clear.  mappages' loop then sets the PTEs of its range one page at a time and
stops at the first page whose page table kalloc cannot supply (-1) or whose
PTE is present (the "remap" panic).  `Outcome` says what each of the three
ends means for the PTEs, and the four calls of setupkvm give every kernel
page directory the PTEs of `kernelPte`.

A present PTE in the range does not always reach the panic: when an earlier
page of the range wants a page table and the free list is empty, mappages
returns -1 first.
-/

namespace Xv6
namespace Vm

/-- What `walkpgdir(pgdir, va, 0)` finds with `PTE_P` set: the PTE of `va`,
when its page table exists. -/
def Pgdir.pte (d : Pgdir) (va : Nat) : Option Pte :=
  match d.tables (pdx va) with
  | some _ => d.entries (va / pgSize)
  | none => none

/-- The PTEs `pte` with the pages from `a` to `last` mapped to the physical
pages from `pa` on, with `PTE_W` and `PTE_U` as given. -/
def mapRange (pte : Nat → Option Pte) (a last pa : Nat) (writable user : Bool) (v : Nat) : Option Pte :=
  if a ≤ v ∧ v < last + pgSize then some ⟨pa + (pgrounddown v - a), writable, user⟩ else pte v

variable {m m' : Kmem} {d d' : Pgdir}

/-! ## The PTE of an address -/

theorem pdx_eq_div (va : Nat) : pdx va = va / pgSize / nPtEntries :=
  (Nat.div_div_eq_div_mul ..).symm

/-- An address shares its PTE with every address of its page. -/
theorem Pgdir.pte_of_same_page {v w : Nat} (same : v / pgSize = w / pgSize) : d.pte v = d.pte w := by
  have sameTable : pdx v = pdx w := by rw [pdx_eq_div, pdx_eq_div, same]
  unfold Pgdir.pte
  rw [sameTable, same]

theorem Pgdir.pte_of_table {va t : Nat} (table : d.tables (pdx va) = some t) :
    d.pte va = d.entries (va / pgSize) := by
  unfold Pgdir.pte
  rw [table]

theorem Pgdir.table_of_pte {va : Nat} (present : (d.pte va).isSome) : (d.tables (pdx va)).isSome := by
  unfold Pgdir.pte at present
  split at present
  case h_1 found => rw [found]; rfl
  case h_2 => cases present

/-- Setting the PTE of a page whose page table exists. -/
theorem Pgdir.pte_set {a : Nat} (table : (d.tables (pdx a)).isSome) (x : Option Pte) (v : Nat) :
    (d.set (a / pgSize) x).pte v = if v / pgSize = a / pgSize then x else d.pte v := by
  obtain ⟨t, found⟩ := Option.isSome_iff_exists.mp table
  split
  case isTrue same =>
    rw [pte_of_same_page same, pte_of_table (t := t) (by rw [set_tables]; exact found), set_entries,
      Function.update_self]
  case isFalse other =>
    unfold Pgdir.pte
    rw [set_tables, set_entries, Function.update_of_ne other]

/-- A page table added where a directory entry had none shows no PTE, as
none showed before. -/
theorem Pgdir.pte_addTable {i : Nat} (absent : d.tables i = none) (t v : Nat) :
    (d.addTable i t).pte v = d.pte v := by
  unfold Pgdir.pte Pgdir.addTable
  dsimp only
  by_cases here : pdx v = i
  · rw [here, absent, Function.update_self]
    dsimp only
    rw [if_pos (by rw [← here, pdx_eq_div])]
  · rw [Function.update_of_ne here, if_neg (by rw [← pdx_eq_div]; exact here)]

/-! ## walkpgdir -/

theorem pgrounddown_aligned (a : Nat) : pgrounddown a % pgSize = 0 :=
  Nat.mul_mod_left ..

/-- `walkpgdir(pgdir, va, alloc)` is non-null where a PTE is present. -/
theorem walkpgdir_of_pte {va : Nat} (present : (d.pte va).isSome) (alloc : Bool) :
    walkpgdir m d va alloc = some (m, d) := by
  obtain ⟨t, found⟩ := Option.isSome_iff_exists.mp (Pgdir.table_of_pte present)
  rw [walkpgdir_eq]
  rw [found]

/-- walkpgdir with `alloc` set fails only for want of a page for the page
table of `va`. -/
theorem walkpgdir_none {va : Nat} (walk : walkpgdir m d va true = none) :
    d.tables (pdx va) = none ∧ m.freelist = [] := by
  rw [walkpgdir_eq] at walk
  split at walk
  case h_1 => cases walk
  case h_2 absent =>
    rcases kalloc_cases m with ⟨empty, _⟩ | ⟨r, rest, _, got⟩
    · exact ⟨absent, empty⟩
    · simp only [got, Bool.not_true, Bool.false_eq_true, ↓reduceIte, reduceCtorEq] at walk

/-- walkpgdir with `alloc` set changes no PTE, and leaves the page table of
`va` in place. -/
theorem walkpgdir_pte {va : Nat} (walk : walkpgdir m d va true = some (m', d')) :
    d'.pte = d.pte ∧ (d'.tables (pdx va)).isSome := by
  rw [walkpgdir_eq] at walk
  split at walk
  case h_1 found =>
    cases walk
    rw [found]
    exact ⟨rfl, rfl⟩
  case h_2 absent =>
    rcases kalloc_cases m with ⟨_, got⟩ | ⟨r, rest, _, got⟩
    · simp only [got, Bool.not_true, Bool.false_eq_true, ↓reduceIte, reduceCtorEq] at walk
    · simp only [got, Bool.not_true, Bool.false_eq_true, ↓reduceIte, Option.some.injEq,
        Prod.mk.injEq] at walk
      obtain ⟨-, rfl⟩ := walk
      exact ⟨funext (Pgdir.pte_addTable absent _), by rw [Pgdir.addTable_self]; rfl⟩

/-! ## mappages' loop -/

/-- What mappages' loop over the pages from `a` to `last`, started on `d`,
may end with: 0, with exactly the range mapped, where no PTE was present;
-1, with the free list empty and a page of the range without a page table;
or the "remap" panic, at a page of the range whose PTE was present. -/
def Outcome (d : Pgdir) (a last pa : Nat) (writable user : Bool) :
    Except String (Bool × Kmem × Pgdir) → Prop
  | .ok (true, _, d') =>
      (∀ v, a ≤ v → v < last + pgSize → d.pte v = none) ∧ d'.pte = mapRange d.pte a last pa writable user
  | .ok (false, m', d') => m'.freelist = [] ∧ ∃ v, a ≤ v ∧ v < last + pgSize ∧ d'.tables (pdx v) = none
  | .error e => e = "remap" ∧ ∃ v, a ≤ v ∧ v < last + pgSize ∧ (d.pte v).isSome

section Turn

variable {a last pa : Nat} {writable user : Bool} {d₂ : Pgdir}

/-- The page at `a` mapped where its PTE was clear, over a directory whose
other PTEs are those of `d`. -/
def MappedAt (d d₂ : Pgdir) (a pa : Nat) (writable user : Bool) : Prop :=
  ∀ v, d₂.pte v = if v / pgSize = a / pgSize then some ⟨pa, writable, user⟩ else d.pte v

theorem mappedAt_of_same_page (mapped : MappedAt d d₂ a pa writable user) {v : Nat} (aligned : a % pgSize = 0)
    (low : a ≤ v) (high : v < a + pgSize) : d₂.pte v = some ⟨pa, writable, user⟩ := by
  rw [mapped v, if_pos (by simp only [pgSize] at aligned high ⊢; omega)]

theorem mappedAt_of_later_page (mapped : MappedAt d d₂ a pa writable user) {v : Nat} (aligned : a % pgSize = 0)
    (later : a + pgSize ≤ v ∨ v < a) : d₂.pte v = d.pte v := by
  rw [mapped v, if_neg (by simp only [pgSize] at aligned later ⊢; omega)]

/-- The loop's last page: mapped where no PTE was present, it ends with 0. -/
theorem Outcome.of_last (aligned : a % pgSize = 0) (fresh : d.pte a = none)
    (mapped : MappedAt d d₂ a pa writable user) (m' : Kmem) :
    Outcome d a a pa writable user (.ok (true, m', d₂)) := by
  refine ⟨fun v low high => ?_, funext fun v => ?_⟩
  · rw [Pgdir.pte_of_same_page (w := a) (by simp only [pgSize] at aligned high ⊢; omega), fresh]
  · unfold mapRange
    split
    case isTrue inside =>
      rw [mappedAt_of_same_page mapped aligned inside.1 inside.2]
      have first : pgrounddown v = a := by
        simp only [pgrounddown, pgSize] at aligned inside ⊢
        omega
      rw [first, Nat.sub_self, Nat.add_zero]
    case isFalse outside =>
      exact mappedAt_of_later_page mapped aligned (by omega)

/-- One turn of the loop: the page at `a` mapped where no PTE was present,
what the rest of the loop ends with from `a + PGSIZE` is what the loop ends
with from `a`. -/
theorem Outcome.prepend (aligned : a % pgSize = 0) (below : a ≤ last) (fresh : d.pte a = none)
    (mapped : MappedAt d d₂ a pa writable user) {r : Except String (Bool × Kmem × Pgdir)}
    (rest : Outcome d₂ (a + pgSize) last (pa + pgSize) writable user r) :
    Outcome d a last pa writable user r := by
  match r, rest with
  | .ok (true, m', d'), ⟨clear, ran⟩ =>
      refine ⟨fun v low high => ?_, ?_⟩
      · by_cases first : v < a + pgSize
        · rw [Pgdir.pte_of_same_page (w := a) (by simp only [pgSize] at aligned low first ⊢; omega), fresh]
        · rw [← mappedAt_of_later_page mapped aligned (by omega)]
          exact clear v (by omega) high
      · rw [ran]
        funext v
        unfold mapRange
        by_cases first : a ≤ v ∧ v < a + pgSize
        · rw [if_neg (by omega), if_pos (by omega), mappedAt_of_same_page mapped aligned first.1 first.2]
          have start : pgrounddown v = a := by
            simp only [pgrounddown, pgSize] at aligned first ⊢
            omega
          rw [start, Nat.sub_self, Nat.add_zero]
        · by_cases others : a + pgSize ≤ v ∧ v < last + pgSize
          · rw [if_pos others, if_pos (by omega)]
            have after : a + pgSize ≤ pgrounddown v := by
              simp only [pgrounddown, pgSize] at aligned others ⊢
              omega
            rw [show pa + pgSize + (pgrounddown v - (a + pgSize)) = pa + (pgrounddown v - a) by omega]
          · rw [if_neg others, if_neg (by omega)]
            exact mappedAt_of_later_page mapped aligned (by omega)
  | .ok (false, _, _), ⟨empty, v, low, high, absent⟩ => exact ⟨empty, v, by omega, high, absent⟩
  | .error _, ⟨remap, v, low, high, present⟩ =>
      refine ⟨remap, v, by omega, high, ?_⟩
      rw [← mappedAt_of_later_page mapped aligned (.inl low)]
      exact present

end Turn

/-- mappages' loop from an aligned `a` to an aligned `last`, with the turns
the pages between them take: it ends as `Outcome` says. -/
theorem mappagesLoop_outcome (writable user : Bool) {last : Nat} (lastAligned : last % pgSize = 0) :
    ∀ n (m : Kmem) (d : Pgdir) (a pa : Nat), a % pgSize = 0 → a ≤ last → n = (last - a) / pgSize + 1 →
      Outcome d a last pa writable user (mappagesLoop writable user last m d a pa n) := by
  intro n
  induction n with
  | zero =>
      intro m d a pa _ _ count
      exact absurd count.symm (Nat.succ_ne_zero _)
  | succ n inductionHypothesis =>
      intro m d a pa aligned below count
      have inRange : a < last + pgSize := by
        simp only [pgSize]
        omega
      rw [mappagesLoop_succ]
      rcases walk : walkpgdir m d a true with _ | ⟨m₁, d₁⟩
      · -- no page for the page table of `a`: -1
        obtain ⟨absent, empty⟩ := walkpgdir_none walk
        exact ⟨empty, a, Nat.le_refl a, inRange, absent⟩
      · obtain ⟨same, table⟩ := walkpgdir_pte walk
        obtain ⟨t, found⟩ := Option.isSome_iff_exists.mp table
        have entry : d₁.entries (a / pgSize) = d.pte a := by
          rw [← Pgdir.pte_of_table found, same]
        dsimp only
        rw [entry]
        cases present : d.pte a with
        | some _ => exact ⟨rfl, a, Nat.le_refl a, inRange, by rw [present]; rfl⟩
        | none =>
            have mapped : MappedAt d (d₁.set (a / pgSize) (some ⟨pa, writable, user⟩)) a pa writable user := by
              intro v
              rw [Pgdir.pte_set table, same]
            dsimp only
            split
            case isTrue atLast =>
              subst atLast
              exact Outcome.of_last aligned present mapped m₁
            case isFalse notLast =>
              have next : a + pgSize ≤ last := by
                simp only [pgSize] at aligned lastAligned ⊢
                omega
              exact Outcome.prepend aligned below present mapped
                (inductionHypothesis m₁ _ (a + pgSize) (pa + pgSize)
                  (by simp only [pgSize] at aligned ⊢; omega) next
                  (by simp only [pgSize] at count next ⊢; omega))

/-- mappages of a nonempty range ends as `Outcome` says, for the pages from
`PGROUNDDOWN(va)` to `PGROUNDDOWN(va + size - 1)`. -/
theorem mappages_outcome (m : Kmem) (d : Pgdir) (va size pa : Nat) (writable user : Bool)
    (nonempty : 0 < size) :
    Outcome d (pgrounddown va) (pgrounddown (va + size - 1)) pa writable user
      (mappages m d va size pa writable user) :=
  mappagesLoop_outcome writable user (by simp only [pgrounddown, pgSize]; omega) _ m d _ pa
    (by simp only [pgrounddown, pgSize]; omega) (by simp only [pgrounddown, pgSize]; omega) rfl

/-- The PTE `mapRange` gives the `k`-th page of its range. -/
theorem mapRange_page (pte : Nat → Option Pte) {a last : Nat} (aligned : a % pgSize = 0) (pa : Nat)
    (writable user : Bool) {k : Nat} (inRange : a + k * pgSize ≤ last) :
    mapRange pte a last pa writable user (a + k * pgSize) = some ⟨pa + k * pgSize, writable, user⟩ := by
  have start : pgrounddown (a + k * pgSize) = a + k * pgSize := by
    simp only [pgrounddown, pgSize] at aligned ⊢
    omega
  unfold mapRange
  rw [if_pos ⟨Nat.le_add_right a _, by simp only [pgSize] at inRange ⊢; omega⟩, start, Nat.add_sub_cancel_left]

theorem mapRange_of_mem {pte : Nat → Option Pte} {a last pa : Nat} {writable user : Bool} {v : Nat}
    (low : a ≤ v) (high : v < last + pgSize) :
    mapRange pte a last pa writable user v = some ⟨pa + (pgrounddown v - a), writable, user⟩ :=
  if_pos ⟨low, high⟩

theorem mapRange_of_not_mem {pte : Nat → Option Pte} {a last pa : Nat} {writable user : Bool} {v : Nat}
    (outside : ¬(a ≤ v ∧ v < last + pgSize)) : mapRange pte a last pa writable user v = pte v :=
  if_neg outside

/-- Inside its range, `mapRange` maps the page of `v` at its offset from `a`. -/
theorem mapRange_of_mem_page {pte : Nat → Option Pte} {a last pa : Nat} {writable user : Bool} {v : Nat}
    (aligned : a % pgSize = 0) (low : a ≤ v) (high : v < last + pgSize) :
    mapRange pte a last pa writable user v = some ⟨pa + pgrounddown v - a, writable, user⟩ := by
  have page : a ≤ pgrounddown v := by
    simp only [pgrounddown, pgSize] at aligned low ⊢
    omega
  rw [mapRange_of_mem low high, Nat.add_sub_assoc page]

/-- A range of the kernel's half mapped from `V2P` of its start maps every
page to its `V2P`. -/
theorem mapRange_of_mem_v2p {pte : Nat → Option Pte} {a last : Nat} {writable user : Bool} {v : Nat}
    (aligned : a % pgSize = 0) (above : kernBase ≤ a) (low : a ≤ v) (high : v < last + pgSize) :
    mapRange pte a last (v2p a) writable user v = some ⟨v2p (pgrounddown v), writable, user⟩ := by
  have page : a ≤ pgrounddown v := by
    simp only [pgrounddown, pgSize] at aligned low ⊢
    omega
  rw [mapRange_of_mem_page aligned low high, show v2p a + pgrounddown v - a = v2p (pgrounddown v) by
    unfold v2p
    omega]

/-! ## mappages, page by page -/

section Mappages

variable {va size pa : Nat} {writable user : Bool}

/-- mappages returning 0: every page of the range, none of whose PTEs was
present, has the PTE `(pa + k*PGSIZE) | perm | PTE_P` where `walkpgdir`
finds it, and no other PTE changed. -/
theorem mappages_mapped (nonempty : 0 < size) (ran : mappages m d va size pa writable user = .ok (true, m', d')) :
    (∀ k, pgrounddown va + k * pgSize ≤ pgrounddown (va + size - 1) →
      d.pte (pgrounddown va + k * pgSize) = none ∧
      walkpgdir m' d' (pgrounddown va + k * pgSize) false = some (m', d') ∧
      d'.pte (pgrounddown va + k * pgSize) = some ⟨pa + k * pgSize, writable, user⟩) ∧
    ∀ v, v < pgrounddown va ∨ pgrounddown (va + size - 1) + pgSize ≤ v → d'.pte v = d.pte v := by
  have outcome := mappages_outcome m d va size pa writable user nonempty
  rw [ran] at outcome
  obtain ⟨clear, mapped⟩ := outcome
  refine ⟨fun k inRange => ?_, fun v outside => ?_⟩
  · have pte : d'.pte (pgrounddown va + k * pgSize) = some ⟨pa + k * pgSize, writable, user⟩ := by
      rw [mapped, mapRange_page _ (pgrounddown_aligned va) pa writable user inRange]
    refine ⟨clear _ (Nat.le_add_right _ _) (by simp only [pgSize] at inRange ⊢; omega),
      walkpgdir_of_pte (by rw [pte]; rfl) false, pte⟩
  · rw [mapped, mapRange_of_not_mem (by omega)]

/-- The page of the range that `v` lies in, as the `k`-th. -/
theorem page_index {a last v : Nat} (aligned : a % pgSize = 0) (lastAligned : last % pgSize = 0) (low : a ≤ v)
    (high : v < last + pgSize) :
    a + (v - a) / pgSize * pgSize ≤ last ∧ (a + (v - a) / pgSize * pgSize) / pgSize = v / pgSize := by
  simp only [pgSize] at aligned lastAligned high ⊢
  omega

/-- mappages panics only with "remap", and only at a page of the range whose
PTE was present. -/
theorem mappages_remap (nonempty : 0 < size) {e : String}
    (ran : mappages m d va size pa writable user = .error e) :
    e = "remap" ∧ ∃ k, pgrounddown va + k * pgSize ≤ pgrounddown (va + size - 1) ∧
      (d.pte (pgrounddown va + k * pgSize)).isSome := by
  have outcome := mappages_outcome m d va size pa writable user nonempty
  rw [ran] at outcome
  obtain ⟨remap, v, low, high, present⟩ := outcome
  obtain ⟨inRange, samePage⟩ := page_index (pgrounddown_aligned va) (pgrounddown_aligned _) low high
  exact ⟨remap, _, inRange, by rw [Pgdir.pte_of_same_page samePage]; exact present⟩

/-- Where a PTE of the range is present, mappages panics with "remap" or
returns -1 with the free list empty; it never returns 0. -/
theorem mappages_of_present (nonempty : 0 < size)
    (present : ∃ k, pgrounddown va + k * pgSize ≤ pgrounddown (va + size - 1) ∧
      (d.pte (pgrounddown va + k * pgSize)).isSome) :
    mappages m d va size pa writable user = .error "remap" ∨
      ∃ m' d', mappages m d va size pa writable user = .ok (false, m', d') ∧ m'.freelist = [] := by
  have outcome := mappages_outcome m d va size pa writable user nonempty
  obtain ⟨k, inRange, found⟩ := present
  match ran : mappages m d va size pa writable user, outcome with
  | .ok (true, m', d'), _ =>
      have clear := ((mappages_mapped nonempty ran).1 k inRange).1
      rw [clear] at found
      cases found
  | .ok (false, m', d'), ⟨empty, _⟩ => exact .inr ⟨m', d', rfl, empty⟩
  | .error _, ⟨remap, _⟩ => exact .inl (by rw [remap])

end Mappages

/-! ## A new page table is zeroed -/

/-- A page table walkpgdir takes is zeroed by the time its PDE is installed:
the directory entry holds the page that was at the head of the free list,
whose bytes are all zero, and shows no PTE. -/
theorem Phys.walkpgdir_zeroed {mem mem' : Nat → UInt8} {va : Nat}
    (walk : Phys.walkpgdir m mem d va true = some ((m', d'), mem')) (absent : d.tables (pdx va) = none) :
    ∃ t, m.freelist.head? = some t ∧ d'.tables (pdx va) = some (v2p t) ∧ Zeroed mem' t ∧
      ∀ v, pdx v = pdx va → d'.pte v = none := by
  unfold Phys.walkpgdir at walk
  rw [absent] at walk
  rcases kalloc_cases m with ⟨_, got⟩ | ⟨t, rest, list, got⟩
  · simp only [got, Bool.not_true, Bool.false_eq_true, ↓reduceIte, reduceCtorEq] at walk
  · simp only [got, Bool.not_true, Bool.false_eq_true, ↓reduceIte, Option.some.injEq,
      Prod.mk.injEq] at walk
    obtain ⟨⟨-, rfl⟩, rfl⟩ := walk
    refine ⟨t, by rw [list, List.head?_cons], Pgdir.addTable_self .., zeroed_memset mem t, fun v same => ?_⟩
    rw [Pgdir.pte_addTable absent]
    unfold Pgdir.pte
    rw [same, absent]

/-! ## setupkvm -/

/-- The PTE kmap[] gives the address `v`: from `KERNBASE` below
`KERNBASE + PHYSTOP` the physical page `v - KERNBASE`, read-only from
`KERNLINK` below `data`; from `DEVSPACE` to the top of the address space the
page of `v` itself; none elsewhere; never `PTE_U`. -/
def kernelPte (data v : Nat) : Option Pte :=
  if kernBase ≤ v ∧ v < p2v phyStop then
    some ⟨v2p (pgrounddown v), !decide (kernLink ≤ v ∧ v < data), false⟩
  else if devSpace ≤ v ∧ v < 2 ^ 32 then some ⟨pgrounddown v, true, false⟩
  else none

/-- The PTEs of a list of kmap[] entries, each mapped over the ones before. -/
def kmapPtes (pte : Nat → Option Pte) (ks : List Kmap) : Nat → Option Pte :=
  ks.foldl (fun pte k =>
    mapRange pte (pgrounddown k.virt) (pgrounddown (k.virt + k.size - 1)) k.physStart k.writable false) pte

theorem kmapPtes_cons (pte : Nat → Option Pte) (k : Kmap) (rest : List Kmap) :
    kmapPtes pte (k :: rest) =
      kmapPtes (mapRange pte (pgrounddown k.virt) (pgrounddown (k.virt + k.size - 1)) k.physStart k.writable false)
        rest :=
  rfl

/-- setupkvm's loop, when it maps every entry: the PTEs of the entries. -/
theorem mapKmap_pte : ∀ (ks : List Kmap) (m : Kmem) (d : Pgdir) {m' : Kmem} {d' : Pgdir},
    (∀ k ∈ ks, 0 < k.size) → mapKmap m d ks = .ok (true, m', d') → d'.pte = kmapPtes d.pte ks
  | [], _, _, _, _, _, ran => by
      cases ran
      rfl
  | k :: rest, m, d, m', d', sized, ran => by
      have outcome := mappages_outcome m d k.virt k.size k.physStart k.writable false (sized k List.mem_cons_self)
      match mapped : mappages m d k.virt k.size k.physStart k.writable false, outcome with
      | .ok (true, m₁, d₁), ⟨_, first⟩ =>
          rw [mapKmap_cons rest rfl mapped] at ran
          rw [kmapPtes_cons, ← first]
          exact mapKmap_pte rest m₁ d₁ (fun k member => sized k (List.mem_cons_of_mem _ member)) ran
      | .ok (false, _, _), _ =>
          rw [mapKmap_cons_eq, mapped] at ran
          cases ran
      | .error _, _ =>
          rw [mapKmap_cons_eq, mapped] at ran
          cases ran

/-- Every entry of kmap[] maps a nonempty range. -/
theorem kmap_size_pos {data : Nat} (linked : kernLink < data) (inMemory : data < p2v phyStop) :
    ∀ k ∈ kmap data, 0 < k.size := by
  intro k member
  simp only [kmap, List.mem_cons, List.not_mem_nil, or_false] at member
  rcases member with rfl | rfl | rfl | rfl
  · decide
  · rw [size_text linked inMemory]
    omega
  · rw [size_data linked inMemory]
    omega
  · decide

/-- The four mappings of kmap[], over a directory with none: the PTEs of
`kernelPte`. -/
theorem kmapPtes_kmap {data : Nat} (aligned : data % pgSize = 0) (linked : kernLink < data)
    (inMemory : data < p2v phyStop) (v : Nat) : kmapPtes Pgdir.empty.pte (kmap data) v = kernelPte data v := by
  -- the first and last page of each range
  have io : pgrounddown (kernBase + Kmap.size ⟨kernBase, 0, extMem, true⟩ - 1) = kernLink - pgSize := by decide
  have text : pgrounddown (kernLink + (data - kernLink) - 1) = data - pgSize := by
    simp only [pgrounddown, pgSize, kernLink, kernBase, extMem] at aligned linked ⊢
    omega
  have rest : pgrounddown (data + (p2v phyStop - data) - 1) = p2v phyStop - pgSize := by
    simp only [pgrounddown, pgSize, p2v, phyStop, kernBase] at aligned inMemory ⊢
    omega
  have devices : pgrounddown (devSpace + Kmap.size ⟨devSpace, devSpace, 0, true⟩ - 1) = 2 ^ 32 - pgSize := by
    decide
  have dataPage : pgrounddown data = data := by
    simp only [pgrounddown, pgSize] at aligned ⊢
    omega
  have firstPages : pgrounddown kernBase = kernBase ∧ pgrounddown kernLink = kernLink ∧
      pgrounddown devSpace = devSpace := by
    decide
  obtain ⟨kb, kl, top, ds, pg, word⟩ : kernBase = 2147483648 ∧ kernLink = 2148532224 ∧
      p2v phyStop = 2382364672 ∧ devSpace = 4261412864 ∧ pgSize = 4096 ∧ (2 : Nat) ^ 32 = 4294967296 := by
    decide
  have aligns : kernBase % pgSize = 0 ∧ kernLink % pgSize = 0 ∧ devSpace % pgSize = 0 := by decide
  simp only [kmapPtes, kmap, List.foldl_cons, List.foldl_nil]
  rw [io, size_text linked inMemory, text, size_data linked inMemory, rest, devices, dataPage, firstPages.1,
    firstPages.2.1, firstPages.2.2]
  unfold kernelPte
  -- which of the four ranges `v` lies in, the last one mapped first
  by_cases inDevices : devSpace ≤ v ∧ v < 2 ^ 32
  · rw [mapRange_of_mem_page aligns.2.2 inDevices.1 (by omega), Nat.add_sub_cancel_left, if_neg (by omega),
      if_pos inDevices]
  · rw [mapRange_of_not_mem (by omega)]
    by_cases inData : data ≤ v ∧ v < p2v phyStop
    · rw [mapRange_of_mem_v2p aligned (by omega) inData.1 (by omega), if_pos (by omega),
        decide_eq_false (by omega)]
      rfl
    · rw [mapRange_of_not_mem (by omega)]
      by_cases inText : kernLink ≤ v ∧ v < data
      · rw [mapRange_of_mem_v2p aligns.2.1 (by omega) inText.1 (by omega), if_pos (by omega),
          decide_eq_true inText]
        rfl
      · rw [mapRange_of_not_mem (by omega)]
        by_cases inIo : kernBase ≤ v ∧ v < kernLink
        · rw [mapRange_of_mem_page aligns.1 inIo.1 (by omega), Nat.zero_add, if_pos (by omega),
            decide_eq_false (by omega)]
          rfl
        · rw [mapRange_of_not_mem (by omega), if_neg (by omega), if_neg inDevices]
          rfl

/-- Every page directory setupkvm returns has the kernel's mappings of
`kernelPte`, and nothing else. -/
theorem setupkvm_pte {data : Nat} (aligned : data % pgSize = 0) (linked : kernLink < data)
    (inMemory : data < p2v phyStop) {m m' : Kmem} {pgdir : Nat} {d : Pgdir}
    (made : setupkvm data m = .ok (some (pgdir, d), m')) (v : Nat) : d.pte v = kernelPte data v := by
  rw [← kmapPtes_kmap aligned linked inMemory v]
  rw [setupkvm_eq] at made
  rcases kalloc_cases m with ⟨_, got⟩ | ⟨r, rest, _, got⟩
  · rw [got] at made
    cases made
  · rw [got] at made
    dsimp only at made
    rw [if_neg (by decide)] at made
    match mapped : mapKmap { m with freelist := rest } Pgdir.empty (kmap data) with
    | .ok (true, m₁, d₁) =>
        rw [mapped] at made
        cases made
        rw [mapKmap_pte _ _ _ (kmap_size_pos linked inMemory) mapped]
    | .ok (false, m₁, d₁) =>
        rw [mapped] at made
        dsimp only [bind, Except.bind] at made
        rcases freed : freevm m₁ r d₁ with _ | m₂
        all_goals
          rw [freed] at made
          cases made
    | .error _ =>
        rw [mapped] at made
        cases made

theorem kernelPte_user {data v : Nat} {e : Pte} (found : kernelPte data v = some e) : e.user = false := by
  unfold kernelPte at found
  by_cases kernel : kernBase ≤ v ∧ v < p2v phyStop
  · rw [if_pos kernel, Option.some.injEq] at found
    rw [← found]
  · rw [if_neg kernel] at found
    by_cases devices : devSpace ≤ v ∧ v < 2 ^ 32
    · rw [if_pos devices, Option.some.injEq] at found
      rw [← found]
    · rw [if_neg devices] at found
      cases found

/-! ## The range mappages maps -/

/-- mappages maps exactly the pages from `PGROUNDDOWN(va)` to
`PGROUNDDOWN(va + size - 1)`: returning 0, each of them has the PTE
`(pa + k*PGSIZE) | perm | PTE_P` where walkpgdir finds it, none was present
before, and no other PTE changed; its only panic is "remap", at a present
PTE of the range, and a present PTE of the range leads to that panic or to
-1 with the free list empty.  A page table walkpgdir takes is zeroed when
its PDE is installed, and setupkvm gives every page directory the PTEs of
`kernelPte`, none with `PTE_U`. -/
theorem mappages_maps_requested_range (m : Kmem) (d : Pgdir) (va size pa : Nat) (writable user : Bool)
    (nonempty : 0 < size) :
    (∀ m' d', mappages m d va size pa writable user = .ok (true, m', d') →
      (∀ k, pgrounddown va + k * pgSize ≤ pgrounddown (va + size - 1) →
        d.pte (pgrounddown va + k * pgSize) = none ∧
        walkpgdir m' d' (pgrounddown va + k * pgSize) false = some (m', d') ∧
        d'.pte (pgrounddown va + k * pgSize) = some ⟨pa + k * pgSize, writable, user⟩) ∧
      ∀ v, v < pgrounddown va ∨ pgrounddown (va + size - 1) + pgSize ≤ v → d'.pte v = d.pte v) ∧
    (∀ e, mappages m d va size pa writable user = .error e →
      e = "remap" ∧ ∃ k, pgrounddown va + k * pgSize ≤ pgrounddown (va + size - 1) ∧
        (d.pte (pgrounddown va + k * pgSize)).isSome) ∧
    ((∃ k, pgrounddown va + k * pgSize ≤ pgrounddown (va + size - 1) ∧
        (d.pte (pgrounddown va + k * pgSize)).isSome) →
      mappages m d va size pa writable user = .error "remap" ∨
        ∃ m' d', mappages m d va size pa writable user = .ok (false, m', d') ∧ m'.freelist = []) ∧
    (∀ (mem mem' : Nat → UInt8) (va' : Nat) (m' : Kmem) (d' : Pgdir),
      Phys.walkpgdir m mem d va' true = some ((m', d'), mem') → d.tables (pdx va') = none →
      ∃ t, m.freelist.head? = some t ∧ d'.tables (pdx va') = some (v2p t) ∧ Zeroed mem' t ∧
        ∀ v, pdx v = pdx va' → d'.pte v = none) ∧
    (∀ data, data % pgSize = 0 → kernLink < data → data < p2v phyStop →
      ∀ (m₀ m₀' : Kmem) (pgdir : Nat) (d₀ : Pgdir), setupkvm data m₀ = .ok (some (pgdir, d₀), m₀') →
        (∀ v, d₀.pte v = kernelPte data v) ∧ ∀ v e, d₀.pte v = some e → e.user = false) := by
  refine ⟨fun _ _ ran => mappages_mapped nonempty ran, fun _ ran => mappages_remap nonempty ran,
    mappages_of_present nonempty, fun _ _ _ _ _ walk absent => Phys.walkpgdir_zeroed walk absent, ?_⟩
  intro data aligned linked inMemory m₀ m₀' pgdir d₀ made
  have kernel := setupkvm_pte aligned linked inMemory made
  refine ⟨kernel, fun v e found => @kernelPte_user data v e ?_⟩
  rw [← kernel v]
  exact found

/-- The end of the kernel's memory in the runs below, 4 MiB above `KERNBASE`. -/
theorem kernBase_lt_add_four_mib : kernBase < kernBase + 0x400000 := by decide

/-- kmem with one free page, enough for one page table. -/
def oneFreePage : Kmem := ⟨kernBase + 0x400000, kernBase_lt_add_four_mib, [kernBase + 0x400000]⟩

theorem two_pages_mapped :
    0 < 2 * pgSize ∧ ∃ m' d', mappages oneFreePage Pgdir.empty 0 (2 * pgSize) 0x7000 true true = .ok (true, m', d') ∧
      d'.pte (pgrounddown 0 + 1 * pgSize) = some ⟨0x7000 + 1 * pgSize, true, true⟩ := by
  obtain ⟨m', d', ran, -⟩ := mappages_ok (m := oneFreePage) (d := Pgdir.empty) true true 0 (2 * pgSize) 0x7000
    (by decide) (by decide) (by decide) (fun _ _ _ => rfl) (by decide)
  have mapped := (mappages_maps_requested_range oneFreePage Pgdir.empty 0 (2 * pgSize) 0x7000 true true
    (by decide)).1 m' d' ran
  exact ⟨by decide, m', d', ran, (mapped.1 1 (by decide)).2.2⟩

/-! ## A present PTE that mappages does not reach -/

/-- A page directory with a page table for its second directory entry only,
where the PTE of `0x400000` is present. -/
def upperTableOnly : Pgdir where
  tables := fun i => if i = 1 then some 0x3000 else none
  entries := fun u => if u = 0x400 then some ⟨0x5000, true, true⟩ else none

/-- kmem with an empty free list. -/
def noFreePage : Kmem := ⟨kernBase + 0x400000, kernBase_lt_add_four_mib, []⟩

/-- Mapping the two pages `0x3FF000` and `0x400000`, the second of which has
a present PTE, with no page left for the first one's page table: mappages
returns -1 and never reaches the "remap" panic. -/
theorem mappages_out_of_memory_before_remap :
    pgrounddown 0x3FF000 + 1 * pgSize ≤ pgrounddown (0x3FF000 + 0x2000 - 1) ∧
      (upperTableOnly.pte (pgrounddown 0x3FF000 + 1 * pgSize)).isSome ∧
      mappages noFreePage upperTableOnly 0x3FF000 0x2000 0x7000 true true = .ok (false, noFreePage, upperTableOnly) :=
  ⟨by decide, rfl, rfl⟩

end Vm
end Xv6
