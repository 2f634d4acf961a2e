import Xv6.Vm.Own

/-!
# The kernel half of a page directory

setupkvm gives every new page directory the kernel's mappings of `kmap[]`:
the I/O space and the kernel at `KERNBASE`, the rest of physical memory up to
`KERNBASE + PHYSTOP`, and the devices from `DEVSPACE` to the top of the
address space.  Each is one mappages call, which makes a page table for each
directory entry of its range that has none.  The directory entries between
`KERNBASE + PHYSTOP` and `DEVSPACE` are left without a page table, and so are
those below `KERNBASE` until the user half is grown.

`data` is the linker's `data` symbol, the page-aligned start of the kernel's
data, somewhere between `KERNLINK` and `KERNBASE + PHYSTOP`.
-/

namespace Xv6
namespace Vm

/-- struct kmap: map `[virt, virt + physEnd - physStart)` to the physical
pages from `physStart` on, with `PTE_W` as given and never `PTE_U`. -/
structure Kmap where
  virt : Nat
  physStart : Nat
  physEnd : Nat
  writable : Bool

/-- kmap[]. -/
def kmap (data : Nat) : List Kmap :=
  [⟨kernBase, 0, extMem, true⟩, ⟨kernLink, v2p kernLink, v2p data, false⟩,
    ⟨data, v2p data, phyStop, true⟩, ⟨devSpace, devSpace, 0, true⟩]

/-- `k->phys_end - k->phys_start` as a `uint`: the device entry's wraps to
`2^32 - DEVSPACE`. -/
def Kmap.size (k : Kmap) : Nat := (k.physEnd + 2 ^ 32 - k.physStart) % 2 ^ 32

namespace Phys

/-- setupkvm's loop over kmap[]: mappages each entry; `false` as soon as one
finds no page for a page table. -/
def mapKmap (m : Kmem) (mem : Nat → UInt8) (d : Pgdir) :
    List Kmap → Except String ((Bool × Kmem × Pgdir) × (Nat → UInt8))
  | [] => .ok ((true, m, d), mem)
  | k :: rest => do
      let ((ok, m', d'), mem') ← mappages m mem d k.virt k.size k.physStart k.writable false
      if ok then mapKmap m' mem' d' rest else .ok ((false, m', d'), mem')

/-- freevm of the directory held in page `pgdir`: the user pages, then every
page table, then the directory's own page, each filled with junk by kfree. -/
def freevm (m : Kmem) (mem : Nat → UInt8) (pgdir : Nat) (d : Pgdir) :
    Except String (Kmem × (Nat → UInt8)) :=
  if pgdir = 0 then .error "freevm: no pgdir"
  else do
    let ((_, m, d), mem) ← deallocuvm m mem d kernBase 0
    let (m, mem) ← (List.range nPdEntries).foldlM (fun (m, mem) i =>
      match d.tables i with
      | some t => kfree m mem (p2v t)
      | none => .ok (m, mem)) (m, mem)
    kfree m mem pgdir

/-- setupkvm: a directory page from kalloc, zeroed with
`memset(pgdir, 0, PGSIZE)`, with the mappings of kmap[], or `none` for 0,
with kmem afterwards. -/
def setupkvm (data : Nat) (m : Kmem) (mem : Nat → UInt8) :
    Except String ((Option (Nat × Pgdir) × Kmem) × (Nat → UInt8)) :=
  match kalloc m with
  | (none, m) => .ok ((none, m), mem)
  | (some pgdir, m) =>
      let mem := memset mem pgdir 0 pgSize
      if p2v phyStop > devSpace then .error "PHYSTOP too high"
      else do
        let ((ok, m, d), mem) ← mapKmap m mem Pgdir.empty (kmap data)
        if ok then return ((some (pgdir, d), m), mem)
        else
          let (m, mem) ← freevm m mem pgdir d
          return ((none, m), mem)

end Phys

/-- setupkvm's loop over kmap[] without the bytes. -/
def mapKmap (m : Kmem) (d : Pgdir) (ks : List Kmap) : Except String (Bool × Kmem × Pgdir) :=
  (Phys.mapKmap m zeros d ks).map Prod.fst

/-- freevm without the bytes. -/
def freevm (m : Kmem) (pgdir : Nat) (d : Pgdir) : Except String Kmem :=
  (Phys.freevm m zeros pgdir d).map Prod.fst

/-- setupkvm without the bytes. -/
def setupkvm (data : Nat) (m : Kmem) : Except String (Option (Nat × Pgdir) × Kmem) :=
  (Phys.setupkvm data m zeros).map Prod.fst

/-! ## Dropping the bytes -/

namespace Phys

/-- Two runs of setupkvm's loop from different bytes end alike but for the
bytes. -/
theorem mapKmap_agree : ∀ (ks : List Kmap) (m : Kmem) (mem mem' : Nat → UInt8) (d : Pgdir),
    (mapKmap m mem d ks).map Prod.fst = (mapKmap m mem' d ks).map Prod.fst
  | [], _, _, _, _ => rfl
  | k :: rest, m, mem, mem', d => by
      rw [mapKmap, mapKmap]
      refine Fallible.map_fst_bind_congr ((mappages_map_fst ..).trans (mappages_map_fst ..).symm) ?_
      rintro ⟨ok, m', d'⟩ c c'
      cases ok with
      | true => exact mapKmap_agree rest m' c c' d'
      | false => rfl

theorem mapKmap_map_fst (ks : List Kmap) (m : Kmem) (mem : Nat → UInt8) (d : Pgdir) :
    (mapKmap m mem d ks).map Prod.fst = Vm.mapKmap m d ks :=
  mapKmap_agree ks m mem zeros d

/-- freevm with the bytes dropped, from any bytes. -/
theorem freevm_drop (m : Kmem) (mem : Nat → UInt8) (pgdir : Nat) (d : Pgdir) :
    (freevm m mem pgdir d).map Prod.fst =
      if pgdir = 0 then .error "freevm: no pgdir"
      else (do
        let (_, m, d) ← Vm.deallocuvm m d kernBase 0
        let m ← (List.range nPdEntries).foldlM (fun m i =>
          match d.tables i with
          | some t => Vm.kfree m (p2v t)
          | none => .ok m) m
        Vm.kfree m pgdir) := by
  unfold freevm
  split_ifs
  · rfl
  · refine Fallible.map_fst_bind (deallocuvm_map_fst ..) ?_
    rintro ⟨_, m₁, d₁⟩ mem₁
    refine Fallible.map_fst_bind (Fallible.foldlM_map_fst ?_ _ m₁ mem₁) fun _ _ => kfree_map_fst ..
    intro m₂ mem₂ i
    cases d₁.tables i with
    | some t => exact kfree_map_fst ..
    | none => rfl

/-- setupkvm with the bytes dropped, from any bytes. -/
theorem setupkvm_drop (data : Nat) (m : Kmem) (mem : Nat → UInt8) :
    (setupkvm data m mem).map Prod.fst =
      match kalloc m with
      | (none, m) => .ok (none, m)
      | (some pgdir, m) =>
          if p2v phyStop > devSpace then .error "PHYSTOP too high"
          else (do
            let (ok, m, d) ← Vm.mapKmap m Pgdir.empty (kmap data)
            if ok then return (some (pgdir, d), m)
            else
              let m ← Vm.freevm m pgdir d
              return (none, m)) := by
  unfold setupkvm
  rcases kalloc m with ⟨_ | pgdir, m'⟩
  · rfl
  · dsimp only
    split_ifs
    · rfl
    · refine Fallible.map_fst_bind (mapKmap_map_fst ..) ?_
      rintro ⟨ok, m₁, d₁⟩ mem₁
      cases ok with
      | true => rfl
      | false => exact Fallible.map_fst_bind ((freevm_drop ..).trans (freevm_drop ..).symm) fun _ _ => rfl

end Phys

theorem mapKmap_cons_eq (m : Kmem) (d : Pgdir) (k : Kmap) (rest : List Kmap) :
    mapKmap m d (k :: rest) = (do
      let (ok, m', d') ← mappages m d k.virt k.size k.physStart k.writable false
      if ok then mapKmap m' d' rest else .ok (false, m', d')) := by
  unfold mapKmap
  rw [Phys.mapKmap]
  refine Fallible.map_fst_bind (Phys.mappages_map_fst ..) ?_
  rintro ⟨ok, m', d'⟩ mem'
  cases ok with
  | true => exact Phys.mapKmap_map_fst ..
  | false => rfl

theorem freevm_eq (m : Kmem) (pgdir : Nat) (d : Pgdir) :
    freevm m pgdir d =
      if pgdir = 0 then .error "freevm: no pgdir"
      else (do
        let (_, m, d) ← deallocuvm m d kernBase 0
        let m ← (List.range nPdEntries).foldlM (fun m i =>
          match d.tables i with
          | some t => kfree m (p2v t)
          | none => .ok m) m
        kfree m pgdir) :=
  Phys.freevm_drop m zeros pgdir d

theorem setupkvm_eq (data : Nat) (m : Kmem) :
    setupkvm data m =
      match kalloc m with
      | (none, m) => .ok (none, m)
      | (some pgdir, m) =>
          if p2v phyStop > devSpace then .error "PHYSTOP too high"
          else (do
            let (ok, m, d) ← mapKmap m Pgdir.empty (kmap data)
            if ok then return (some (pgdir, d), m)
            else
              let m ← freevm m pgdir d
              return (none, m)) :=
  Phys.setupkvm_drop data m zeros

theorem Phys.freevm_map_fst (m : Kmem) (mem : Nat → UInt8) (pgdir : Nat) (d : Pgdir) :
    (Phys.freevm m mem pgdir d).map Prod.fst = Vm.freevm m pgdir d :=
  (Phys.freevm_drop ..).trans (freevm_eq ..).symm

theorem Phys.setupkvm_map_fst (data : Nat) (m : Kmem) (mem : Nat → UInt8) :
    (Phys.setupkvm data m mem).map Prod.fst = Vm.setupkvm data m :=
  (Phys.setupkvm_drop ..).trans (setupkvm_eq ..).symm

/-! ## mappages, when kalloc has the page tables it needs -/

variable {m : Kmem} {d : Pgdir}

/-- The page tables mappages from `a` to `last` may have to take from the free
list: one for each directory entry of the range, but the first when it has
one already. -/
def tablesWanted (d : Pgdir) (a last : Nat) : Nat :=
  pdx last + 1 - pdx a - if (d.tables (pdx a)).isSome then 1 else 0

/-- walkpgdir with `alloc` set, when the table exists or kalloc has a page:
it yields a directory with the table, taking at most one page and changing
no other table, and it makes no PTE present. -/
theorem walkpgdir_some {va : Nat} (room : (d.tables (pdx va)).isSome ∨ m.freelist ≠ []) :
    ∃ m' d', walkpgdir m d va true = some (m', d') ∧
      m.freelist.length ≤ m'.freelist.length + (if (d.tables (pdx va)).isSome then 0 else 1) ∧
      (∀ i, i ≠ pdx va → d'.tables i = d.tables i) ∧
      (∀ u, d.entries u = none → d'.entries u = none) ∧ (d'.tables (pdx va)).isSome := by
  rw [walkpgdir_eq]
  cases found : d.tables (pdx va) with
  | some t => exact ⟨m, d, rfl, by simp, fun _ _ => rfl, fun _ absent => absent, by simp [found]⟩
  | none =>
      rw [found] at room
      obtain ⟨r, rest, list⟩ : ∃ r rest, m.freelist = r :: rest := by
        cases h : m.freelist with
        | nil => simp [h] at room
        | cons r rest => exact ⟨r, rest, rfl⟩
      have got : kalloc m = (some r, { m with freelist := rest }) := by simp [kalloc, list]
      refine ⟨{ m with freelist := rest }, d.addTable (pdx va) (v2p r), by simp [got], ?_,
        fun i other => ?_, fun u absent => ?_, by simp [Pgdir.addTable]⟩
      · simp [list]
      · simp [Pgdir.addTable, Function.update_of_ne other]
      · simp only [Pgdir.addTable]
        split
        · rfl
        · exact absent

/-- A range of one page wants a table only when its entry has none. -/
theorem tablesWanted_self (d : Pgdir) (a : Nat) :
    tablesWanted d a a = if (d.tables (pdx a)).isSome then 0 else 1 := by
  unfold tablesWanted
  cases (d.tables (pdx a)).isSome <;> simp only [Bool.false_eq_true, ↓reduceIte] <;> omega

/-- The next page of the range lies in the same directory entry or the next. -/
theorem pdx_next {a : Nat} : pdx (a + pgSize) = pdx a ∨ pdx (a + pgSize) = pdx a + 1 := by
  simp only [pdx, pgSize, nPtEntries]
  omega

/-- After the first page, the tables wanted for the rest of the range and the
one the first page took are no more than the range wanted. -/
theorem tablesWanted_next {a last : Nat} (d' : Pgdir) (below : a + pgSize ≤ last)
    (present : (d'.tables (pdx a)).isSome) :
    tablesWanted d' (a + pgSize) last + (if (d.tables (pdx a)).isSome then 0 else 1) ≤
      tablesWanted d a last := by
  have later : pdx a ≤ pdx last := by
    simp only [pdx, pgSize, nPtEntries] at below ⊢
    omega
  unfold tablesWanted
  rcases pdx_next (a := a) with same | next
  · rw [same, present]
    cases (d.tables (pdx a)).isSome <;> simp only [Bool.false_eq_true, ↓reduceIte] <;> omega
  · rw [next]
    cases (d.tables (pdx a)).isSome <;> cases (d'.tables (pdx a + 1)).isSome <;>
      simp only [Bool.false_eq_true, ↓reduceIte] <;> omega

/-- mappages' loop over an aligned range with no PTE present, given the pages
its new page tables want: it maps every page, takes no more than those
pages, leaves a page table for every directory entry of the range, changes
the page tables of no directory entry outside it and removes none, and makes
no PTE present outside the range. -/
theorem mappagesLoop_ok (writable user : Bool) (last : Nat) (lastAligned : last % pgSize = 0) :
    ∀ n (m : Kmem) (d : Pgdir) (a pa : Nat), a % pgSize = 0 → a ≤ last →
      n = (last - a) / pgSize + 1 →
      (∀ u, a ≤ u * pgSize → u * pgSize ≤ last → d.entries u = none) →
      tablesWanted d a last ≤ m.freelist.length →
      ∃ m' d', mappagesLoop writable user last m d a pa n = .ok (true, m', d') ∧
        m.freelist.length ≤ m'.freelist.length + tablesWanted d a last ∧
        (∀ i, (i < pdx a ∨ pdx last < i) → d'.tables i = d.tables i) ∧
        (∀ u, (u * pgSize < a ∨ last < u * pgSize) → d.entries u = none → d'.entries u = none) ∧
        (∀ i, (d.tables i).isSome → (d'.tables i).isSome) ∧
        (∀ i, pdx a ≤ i → i ≤ pdx last → (d'.tables i).isSome) := by
  intro n
  induction n with
  | zero =>
      intro m d a pa _ _ count
      exact absurd count.symm (Nat.succ_ne_zero _)
  | succ n inductionHypothesis =>
      intro m d a pa aligned below count empty enough
      have later : pdx a ≤ pdx last := by
        simp only [pdx, pgSize, nPtEntries] at below ⊢
        omega
      have room : (d.tables (pdx a)).isSome ∨ m.freelist ≠ [] := by
        cases present : (d.tables (pdx a)).isSome
        · refine .inr fun none => ?_
          simp only [tablesWanted, present, none, List.length_nil, Bool.false_eq_true, ↓reduceIte] at enough
          omega
        · exact .inl rfl
      obtain ⟨m₁, d₁, walk, used, tables₁, entries₁, present₁⟩ := walkpgdir_some room
      have kept₁ : ∀ i, (d.tables i).isSome → (d₁.tables i).isSome := by
        intro i present
        by_cases here : i = pdx a
        · rw [here]
          exact present₁
        · rw [tables₁ i here]
          exact present
      have free₁ : d₁.entries (a / pgSize) = none :=
        entries₁ _ (empty _ (by simp only [pgSize] at aligned ⊢; omega) (by simp only [pgSize] at aligned ⊢; omega))
      rw [mappagesLoop_succ, walk]
      dsimp only
      rw [free₁]
      dsimp only
      split
      · -- the range's last page
        rename_i atLast
        subst atLast
        refine ⟨m₁, _, rfl, ?_, fun i outside => ?_, fun u outside absent => ?_, fun i present => ?_,
          fun i low high => ?_⟩
        · rw [tablesWanted_self]
          exact used
        · rw [Pgdir.set_tables, tables₁ i (by omega)]
        · have other : u ≠ a / pgSize := by
            simp only [pgSize] at aligned outside ⊢
            omega
          rw [Pgdir.set_entries, Function.update_of_ne other]
          exact entries₁ u absent
        · rw [Pgdir.set_tables]
          exact kept₁ i present
        · rw [Pgdir.set_tables, show i = pdx a by omega]
          exact present₁
      · rename_i notLast
        have next : a + pgSize ≤ last := by
          simp only [pgSize] at aligned lastAligned ⊢
          omega
        have wanted := tablesWanted_next (d := d) (d₁.set (a / pgSize) (some ⟨pa, writable, user⟩)) next
          (by rw [Pgdir.set_tables]; exact present₁)
        obtain ⟨m', d', ran, used', tables', entries', kept', covered'⟩ :=
          inductionHypothesis m₁ (d₁.set (a / pgSize) (some ⟨pa, writable, user⟩)) (a + pgSize) (pa + pgSize)
            (by simp only [pgSize] at aligned ⊢; omega) next
            (by simp only [pgSize] at count next ⊢; omega)
            (fun u low high => by
              have other : u ≠ a / pgSize := by
                simp only [pgSize] at aligned low ⊢
                omega
              rw [Pgdir.set_entries, Function.update_of_ne other]
              exact entries₁ u (empty u (by omega) high))
            (by omega)
        refine ⟨m', d', ran, by omega, fun i outside => ?_, fun u outside absent => ?_,
          fun i present => kept' i (by rw [Pgdir.set_tables]; exact kept₁ i present), fun i low high => ?_⟩
        · have sameI : i ≠ pdx a := by
            rcases outside with low | high <;> omega
          have beyond : i < pdx (a + pgSize) ∨ pdx last < i := by
            rcases outside with low | high
            · rcases pdx_next (a := a) with same | succ <;> omega
            · exact .inr high
          rw [tables' i beyond, Pgdir.set_tables, tables₁ i sameI]
        · have other : u ≠ a / pgSize := by
            simp only [pgSize] at aligned outside ⊢
            omega
          refine entries' u (by omega) ?_
          rw [Pgdir.set_entries, Function.update_of_ne other]
          exact entries₁ u absent
        · -- the first entry got its table now; the others are the rest's
          by_cases here : i = pdx a
          · exact kept' i (by rw [Pgdir.set_tables, here]; exact present₁)
          · exact covered' i (by rcases pdx_next (a := a) with same | succ <;> omega) high

/-- Never more tables than directory entries in the range. -/
theorem tablesWanted_le (d : Pgdir) (a last : Nat) : tablesWanted d a last ≤ pdx last + 1 - pdx a := by
  unfold tablesWanted
  omega

/-- mappages of a range of whole pages from an aligned `va` where no PTE is
present, given the pages its new page tables want. -/
theorem mappages_ok (writable user : Bool) (va size pa : Nat) (aligned : va % pgSize = 0)
    (whole : size % pgSize = 0) (nonempty : 0 < size)
    (empty : ∀ u, va ≤ u * pgSize → u * pgSize < va + size → d.entries u = none)
    (enough : tablesWanted d va (va + size - pgSize) ≤ m.freelist.length) :
    ∃ m' d', mappages m d va size pa writable user = .ok (true, m', d') ∧
      m.freelist.length ≤ m'.freelist.length + tablesWanted d va (va + size - pgSize) ∧
      (∀ i, (i < pdx va ∨ pdx (va + size - pgSize) < i) → d'.tables i = d.tables i) ∧
      (∀ u, (u * pgSize < va ∨ va + size ≤ u * pgSize) → d.entries u = none → d'.entries u = none) ∧
      (∀ i, (d.tables i).isSome → (d'.tables i).isSome) ∧
      (∀ i, pdx va ≤ i → i ≤ pdx (va + size - pgSize) → (d'.tables i).isSome) := by
  have first : pgrounddown va = va := by
    simp only [pgrounddown, pgSize] at aligned ⊢
    omega
  have last : pgrounddown (va + size - 1) = va + size - pgSize := by
    simp only [pgrounddown, pgSize] at aligned whole nonempty ⊢
    omega
  obtain ⟨m', d', ran, used, tables, entries, kept, covered⟩ :=
    mappagesLoop_ok writable user (va + size - pgSize)
      (by simp only [pgSize] at aligned whole nonempty ⊢; omega) _ m d va pa aligned
      (by simp only [pgSize] at whole nonempty ⊢; omega) rfl
      (fun u low high => empty u low (by simp only [pgSize] at whole nonempty high ⊢; omega)) enough
  refine ⟨m', d', ?_, used, tables, fun u outside absent => entries u ?_ absent, kept, covered⟩
  · rw [mappages_eq, first, last]
    exact ran
  · simp only [pgSize] at whole nonempty outside ⊢
    omega

/-- One entry of kmap[] mapped: setupkvm's loop goes on with the rest. -/
theorem mapKmap_cons {k : Kmap} (rest : List Kmap) {size : Nat} (sized : k.size = size)
    {m' : Kmem} {d' : Pgdir}
    (mapped : mappages m d k.virt size k.physStart k.writable false = .ok (true, m', d')) :
    mapKmap m d (k :: rest) = mapKmap m' d' rest := by
  rw [mapKmap_cons_eq, sized, mapped]
  rfl

/-- The size setupkvm passes to mappages for the kernel's text,
`k->phys_end - k->phys_start`. -/
theorem size_text {data : Nat} (linked : kernLink < data) (inMemory : data < p2v phyStop) :
    Kmap.size ⟨kernLink, v2p kernLink, v2p data, false⟩ = data - kernLink := by
  simp only [Kmap.size, v2p, p2v, kernLink, kernBase, extMem, phyStop, Nat.reducePow] at linked inMemory ⊢
  omega

/-- The size for the kernel's data and the rest of physical memory. -/
theorem size_data {data : Nat} (linked : kernLink < data) (inMemory : data < p2v phyStop) :
    Kmap.size ⟨data, v2p data, phyStop, true⟩ = p2v phyStop - data := by
  simp only [Kmap.size, v2p, p2v, kernLink, kernBase, extMem, phyStop, Nat.reducePow] at linked inMemory ⊢
  omega

/-- setupkvm with the 67 pages it may want, one for the directory and one for
each page table: it succeeds, and the new directory has no page table below
`KERNBASE` or between `KERNBASE + PHYSTOP` and `DEVSPACE`, and no PTE below
`KERNBASE`. -/
theorem setupkvm_ok {data : Nat} (aligned : data % pgSize = 0) (linked : kernLink < data)
    (inMemory : data < p2v phyStop) (m : Kmem) (enough : 67 ≤ m.freelist.length) :
    ∃ pgdir d m', setupkvm data m = .ok (some (pgdir, d), m') ∧
      m.freelist.length ≤ m'.freelist.length + 67 ∧
      (∀ i, i < pdx kernBase ∨ (pdx (p2v phyStop) ≤ i ∧ i < pdx devSpace) → d.tables i = none) ∧
      (∀ u, u * pgSize < kernBase → d.entries u = none) := by
  obtain ⟨r, rest, list⟩ : ∃ r rest, m.freelist = r :: rest := by
    cases h : m.freelist with
    | nil => simp [h] at enough
    | cons r rest => exact ⟨r, rest, rfl⟩
  let m₀ : Kmem := { m with freelist := rest }
  have got : kalloc m = (some r, m₀) := by simp [kalloc, list, m₀]
  have length₀ : m₀.freelist.length + 1 = m.freelist.length := by simp [m₀, list]
  -- where the four ranges of kmap[] fall in the directory
  have low : pdx kernBase = 512 ∧ pdx (kernBase + extMem - pgSize) = 512 ∧ pdx kernLink = 512 := by
    decide
  have high : pdx (p2v phyStop) = 568 ∧ pdx devSpace = 1016 ∧
      pdx (devSpace + (2 ^ 32 - devSpace) - pgSize) = 1023 := by
    decide
  have dataLow : 512 ≤ pdx (data - pgSize) := by
    simp only [pdx, kernLink, kernBase, extMem, pgSize, nPtEntries] at aligned linked ⊢
    omega
  have dataOrder : pdx (data - pgSize) ≤ pdx data := by
    simp only [pdx, pgSize, nPtEntries]
    omega
  have dataHigh : pdx data ≤ 567 := by
    simp only [pdx, pgSize, nPtEntries, p2v, phyStop, kernBase] at inMemory ⊢
    omega
  have last₂ : kernLink + (data - kernLink) - pgSize = data - pgSize := by
    omega
  have last₃ : pdx (data + (p2v phyStop - data) - pgSize) = 567 := by
    simp only [pdx, pgSize, nPtEntries, p2v, phyStop, kernBase] at inMemory ⊢
    omega
  have size₁ : Kmap.size ⟨kernBase, 0, extMem, true⟩ = extMem := rfl
  have size₄ : Kmap.size ⟨devSpace, devSpace, 0, true⟩ = 2 ^ 32 - devSpace := rfl
  have pages₂ : (data - kernLink) % pgSize = 0 := by
    simp only [kernLink, kernBase, extMem, pgSize] at aligned linked ⊢
    omega
  have pages₃ : (p2v phyStop - data) % pgSize = 0 := by
    simp only [pgSize, p2v, phyStop, kernBase] at aligned inMemory ⊢
    omega
  -- the I/O space
  have wanted₁ : tablesWanted Pgdir.empty kernBase (kernBase + extMem - pgSize) = 1 := rfl
  obtain ⟨m₁, d₁, map₁, used₁, tables₁, entries₁, -, -⟩ :=
    mappages_ok (m := m₀) (d := Pgdir.empty) true false kernBase extMem 0
      (by decide) (by decide) (by decide) (fun _ _ _ => rfl) (by omega)
  -- the kernel's text and read-only data
  have bound₂ := tablesWanted_le d₁ kernLink (kernLink + (data - kernLink) - pgSize)
  rw [last₂, low.2.2] at bound₂
  obtain ⟨m₂, d₂, map₂, used₂, tables₂, entries₂, -, -⟩ :=
    mappages_ok (m := m₁) (d := d₁) false false kernLink (data - kernLink) (v2p kernLink)
      (by decide) pages₂ (by omega) (fun u low _ => entries₁ u (.inr low) rfl)
      (by rw [last₂]; omega)
  -- the kernel's data and the rest of physical memory
  have bound₃ := tablesWanted_le d₂ data (data + (p2v phyStop - data) - pgSize)
  rw [last₃] at bound₃
  obtain ⟨m₃, d₃, map₃, used₃, tables₃, entries₃, -, -⟩ :=
    mappages_ok (m := m₂) (d := d₂) true false data (p2v phyStop - data) (v2p data)
      aligned pages₃ (by omega)
      (fun u low _ => entries₂ u (.inr (by omega)) (entries₁ u (.inr (by simp only [kernLink] at linked; omega)) rfl))
      (by rw [last₂] at used₂; omega)
  -- the devices
  have bound₄ := tablesWanted_le d₃ devSpace (devSpace + (2 ^ 32 - devSpace) - pgSize)
  rw [high.2.2, high.2.1] at bound₄
  obtain ⟨m₄, d₄, map₄, used₄, tables₄, entries₄, -, -⟩ :=
    mappages_ok (m := m₃) (d := d₃) true false devSpace (2 ^ 32 - devSpace) devSpace
      (by decide) (by decide) (by decide)
      (fun u low _ => entries₃ u (.inr (by simp only [p2v, phyStop, kernBase, devSpace] at inMemory low ⊢; omega))
        (entries₂ u (.inr (by simp only [p2v, phyStop, kernBase, devSpace] at inMemory low ⊢; omega))
          (entries₁ u (.inr (by simp only [kernBase, extMem, devSpace] at low ⊢; omega)) rfl)))
      (by rw [last₂] at used₂; omega)
  refine ⟨r, d₄, m₄, ?_, ?_, fun i outside => ?_, fun u below => ?_⟩
  · have mapped : mapKmap m₀ Pgdir.empty (kmap data) = .ok (true, m₄, d₄) := by
      rw [kmap, mapKmap_cons _ size₁ map₁, mapKmap_cons _ (size_text linked inMemory) map₂,
        mapKmap_cons _ (size_data linked inMemory) map₃,
        mapKmap_cons _ size₄ map₄]
      rfl
    rw [setupkvm_eq, got]
    dsimp only
    rw [if_neg (by decide), mapped]
    rfl
  · rw [last₂] at used₂
    omega
  · rw [low.1, high.1, high.2.1] at outside
    rw [tables₄ i (.inl (by omega)), tables₃ i (by rw [last₃]; omega), tables₂ i (by rw [last₂]; omega),
      tables₁ i (by rw [low.2.1]; omega)]
    rfl
  · exact entries₄ u (.inl (by simp only [kernBase, devSpace] at below ⊢; omega))
      (entries₃ u (.inl (by simp only [kernLink, kernBase, extMem] at linked below ⊢; omega))
        (entries₂ u (.inl (by simp only [kernLink, kernBase, extMem] at below ⊢; omega))
          (entries₁ u (.inl below) rfl)))

end Vm
end Xv6
