import Xv6.Vm.Phys

/-!
# The exact effect of allocuvm and deallocuvm

From a page directory whose user pages are exactly those below
`PGROUNDUP(oldsz)`, allocuvm either maps every page from there below
`newsz` to its own frame, taken from the free list, zeroed and mapped with
`PTE_W|PTE_U`, and returns `newsz`; or it returns 0, because `newsz` reaches
`KERNBASE` or because the free list holds fewer pages than the growth needs,
and then every PTE is as it was and every page it took is back on the free
list, but for the page tables it added.  deallocuvm clears exactly the PTEs
of the pages from `PGROUNDUP(newsz)` below `oldsz` and puts each of their
frames on the free list once.

The growth needs one page for each page it maps and one page table for each
directory entry those pages reach that has none (`pagesNeeded`).  The proof
follows allocuvm's loop with the bytes of memory, one page at a time.
-/

namespace Xv6
namespace Vm

variable {m m' : Kmem} {d d' : Pgdir}

/-! ## One page of mappages -/

/-- What mappages of one aligned page does: no page table and no page to make
one, or the PTE set in the page table that was there, or in a new one taken
from the head of the free list. -/
theorem mappages_page_cases {a pa : Nat} (aligned : a % pgSize = 0) {writable user ok : Bool}
    (mapped : mappages m d a pgSize pa writable user = .ok (ok, m', d')) :
    ok = false ∧ d.tables (pdx a) = none ∧ m.freelist = [] ∧ m' = m ∧ d' = d ∨
      ok = true ∧ (∃ t, d.tables (pdx a) = some t) ∧ m' = m ∧
        d' = d.set (a / pgSize) (some ⟨pa, writable, user⟩) ∨
      ok = true ∧ d.tables (pdx a) = none ∧ ∃ t rest, m.freelist = t :: rest ∧
        m' = { m with freelist := rest } ∧
        d' = (d.addTable (pdx a) (v2p t)).set (a / pgSize) (some ⟨pa, writable, user⟩) := by
  rw [mappages_page aligned] at mapped
  rw [walkpgdir_eq] at mapped
  rcases table : d.tables (pdx a) with _ | t
  · rw [table] at mapped
    simp only [Bool.not_true, Bool.false_eq_true, ↓reduceIte] at mapped
    rcases kalloc_cases m with ⟨empty, got⟩ | ⟨t, rest, list, got⟩
    · rw [got] at mapped
      cases mapped
      exact .inl ⟨rfl, rfl, empty, rfl, rfl⟩
    · rw [got] at mapped
      dsimp only at mapped
      split at mapped
      · cases mapped
      · cases mapped
        exact .inr (.inr ⟨rfl, rfl, t, rest, list, rfl, rfl⟩)
  · rw [table] at mapped
    dsimp only at mapped
    split at mapped
    · cases mapped
    · cases mapped
      exact .inr (.inl ⟨rfl, ⟨t, rfl⟩, rfl, rfl⟩)

/-! ## The pages a growth needs -/

/-- The directory entries from `lo` below `hi` that have no page table. -/
def missingTables (d : Pgdir) (lo hi : Nat) : Nat :=
  (List.range' lo (hi - lo)).countP fun i => (d.tables i).isNone

/-- The pages allocuvm's loop takes from the free list to grow from `a` to
`newsz`: one for each page, and a page table for each directory entry those
pages reach that has none. -/
def pagesNeeded (d : Pgdir) (a newsz : Nat) : Nat :=
  if a < newsz then (pgroundup newsz - a) / pgSize + missingTables d (pdx a) (pdx (newsz - 1) + 1)
  else 0

/-- The directory entry of a page below `newsz` is in the range the growth
reaches. -/
theorem pdx_lt_last {a newsz : Nat} (below : a < newsz) : pdx a < pdx (newsz - 1) + 1 := by
  simp only [pdx, pgSize, nPtEntries]
  exact Nat.lt_succ_of_le (Nat.div_le_div_right (by omega))

theorem missingTables_cons {lo hi : Nat} (below : lo < hi) :
    missingTables d lo hi =
      missingTables d (lo + 1) hi + if (d.tables lo).isNone then 1 else 0 := by
  unfold missingTables
  obtain ⟨n, count⟩ : ∃ n, hi - lo = n + 1 := ⟨hi - lo - 1, by omega⟩
  rw [count, List.range'_succ, List.countP_cons, show hi - (lo + 1) = n by omega]

/-- Only the page tables in the range count. -/
theorem missingTables_congr {lo hi : Nat} (agree : ∀ i, lo ≤ i → d'.tables i = d.tables i) :
    missingTables d' lo hi = missingTables d lo hi := by
  unfold missingTables
  apply List.countP_congr
  intro i member
  rw [agree i (List.mem_range'_1.mp member).1]

/-- One page mapped from `a`, with its page table now present: the growth from
the next page needs that page and that table less. -/
theorem pagesNeeded_step {a newsz : Nat} (aligned : a % pgSize = 0) (below : a < newsz)
    (fits : newsz < kernBase) (others : ∀ i, i ≠ pdx a → d'.tables i = d.tables i)
    (present : (d'.tables (pdx a)).isSome) :
    pagesNeeded d a newsz =
      pagesNeeded d' (a + pgSize) newsz + 1 + if (d.tables (pdx a)).isNone then 1 else 0 := by
  have round := pgroundup_of_lt fits
  have later : ∀ i, pdx a + 1 ≤ i → d'.tables i = d.tables i :=
    fun i above => others i (by omega)
  rw [pagesNeeded, if_pos below, missingTables_cons (pdx_lt_last below)]
  unfold pagesNeeded
  by_cases more : a + pgSize < newsz
  · rw [if_pos more]
    by_cases sameEntry : pdx (a + pgSize) = pdx a
    · have inside : pdx a < pdx (newsz - 1) + 1 := by
        rw [← sameEntry]
        simp only [pdx, pgSize, nPtEntries] at *
        omega
      rw [sameEntry, missingTables_cons (d := d') inside, missingTables_congr later]
      have gone : (d'.tables (pdx a)).isNone = false := by
        cases table : d'.tables (pdx a) with
        | none =>
            rw [table] at present
            cases present
        | some _ => rfl
      simp only [gone, Bool.false_eq_true, ↓reduceIte, Nat.add_zero, pgSize] at *
      split <;> omega
    · have nextEntry : pdx (a + pgSize) = pdx a + 1 := by
        simp only [pdx, pgSize, nPtEntries] at *
        omega
      rw [nextEntry, missingTables_congr later]
      simp only [pgSize] at *
      split <;> omega
  · rw [if_neg more]
    have lastEntry : pdx (newsz - 1) = pdx a := by
      simp only [pdx, pgSize, nPtEntries] at *
      omega
    rw [lastEntry, missingTables, Nat.sub_self, List.range'_zero, List.countP_nil]
    simp only [pgSize] at *
    split <;> omega

/-- A growth from `a` below `newsz` needs at least the page at `a`, and its
page table when that is missing. -/
theorem pagesNeeded_ge {a newsz : Nat} (aligned : a % pgSize = 0) (below : a < newsz)
    (fits : newsz < kernBase) :
    1 + (if (d.tables (pdx a)).isNone then 1 else 0) ≤ pagesNeeded d a newsz := by
  have round := pgroundup_of_lt fits
  rw [pagesNeeded, if_pos below, missingTables_cons (pdx_lt_last below)]
  simp only [pgSize] at *
  split <;> omega

/-! ## One page of allocuvm's loop -/

/-- The user pages at or above `lo` are mapped writable to zeroed frames. -/
def FreshAbove (d : Pgdir) (mem : Nat → UInt8) (lo : Nat) : Prop :=
  ∀ u e, lo ≤ u * pgSize → d.entries u = some e → e.writable = true ∧ Zeroed mem (p2v e.addr)

/-- Mapping one page leaves every other page table as it was and the table of
`a` present, and takes that table from the free list only if it was missing. -/
theorem mappages_page_tables {a pa : Nat} (aligned : a % pgSize = 0) {writable user : Bool}
    (mapped : mappages m d a pgSize pa writable user = .ok (true, m', d')) :
    (∀ i, i ≠ pdx a → d'.tables i = d.tables i) ∧
      (∀ t, d.tables (pdx a) = some t → d'.tables (pdx a) = some t) ∧
      (d'.tables (pdx a)).isSome ∧
      m.freelist.length = m'.freelist.length + if (d.tables (pdx a)).isNone then 1 else 0 := by
  rcases mappages_page_cases aligned mapped with
    ⟨no, -⟩ | ⟨-, ⟨t, table⟩, rfl, rfl⟩ | ⟨-, table, t, rest, list, rfl, rfl⟩
  · cases no
  · refine ⟨fun _ _ => rfl, fun _ found => found, ?_, ?_⟩
    · rw [Pgdir.set_tables, table]
      rfl
    · rw [table]
      rfl
  · refine ⟨fun i other => Function.update_of_ne other _ _, fun _ found => ?_, ?_, ?_⟩
    · rw [table] at found
      cases found
    · show (Function.update d.tables (pdx a) (some (v2p t)) (pdx a)).isSome
      rw [Function.update_self]
      rfl
    · rw [list, table]
      rfl

/-- allocuvm zeroes the page it took before it maps it, and the page table
mappages may take is another page, so the pages mapped from `lo` on stay
zeroed. -/
theorem FreshAbove.step {mem bytes₂ : Nat → UInt8} {lo a page : Nat} {rest : List Nat}
    {m₂ : Kmem} {d₂ : Pgdir} (fresh : FreshAbove d mem lo) (owns : Owns m d [])
    (list : m.freelist = page :: rest) (aligned : a % pgSize = 0)
    (mapped : Phys.mappages { m with freelist := rest } (memset mem page 0 pgSize) d a pgSize
      (v2p page) true true = .ok ((true, m₂, d₂), bytes₂))
    (entries : d₂.entries = Function.update d.entries (a / pgSize) (some ⟨v2p page, true, true⟩)) :
    FreshAbove d₂ bytes₂ lo := by
  have spare : ∀ v, v ∈ m.freelist → m.Page v := fun v free =>
    owns.spare v (List.mem_append_left _ free)
  have pageOk : m.Page page := spare page (by rw [list]; exact List.mem_cons_self)
  have notRest : page ∉ rest := by
    have nodup := owns.nodup
    rw [List.append_nil, list] at nodup
    exact (List.nodup_cons.mp nodup).1
  -- a page that is zeroed after the memset of `page` survives the table's memset
  have keep : ∀ v, v % pgSize = 0 → (∀ t, rest.head? = some t → v ≠ t) →
      Zeroed (memset mem page 0 pgSize) v → Zeroed bytes₂ v := by
    intro v alignedV other zeroed
    rcases Phys.mappages_page_bytes aligned mapped with same | ⟨t, head, written⟩
    · have same : bytes₂ = memset mem page 0 pgSize := same
      rw [same]
      exact zeroed
    · have tFree : t ∈ m.freelist := by
        rw [list]
        exact List.mem_cons_of_mem _ (List.mem_of_mem_head? head)
      have written : bytes₂ = memset (memset mem page 0 pgSize) t 0 pgSize := written
      rw [written]
      exact zeroed.memset alignedV (spare t tFree).1 (other t head) 0
  intro u e low entry
  rw [entries] at entry
  by_cases here : u = a / pgSize
  · rw [here, Function.update_self] at entry
    obtain rfl := Option.some.inj entry
    refine ⟨rfl, ?_⟩
    rw [pageOk.p2v_v2p]
    refine keep page pageOk.1 (fun t head same => notRest ?_) (zeroed_memset mem page)
    rw [same]
    exact List.mem_of_mem_head? head
  · rw [Function.update_of_ne here] at entry
    obtain ⟨writable, zeroed⟩ := fresh u e low entry
    obtain ⟨frame, notFree⟩ := owns.user u e entry
    rw [List.append_nil, list] at notFree
    refine ⟨writable, keep _ frame.1 (fun t head same => notFree ?_) ?_⟩
    · rw [same]
      exact List.mem_cons_of_mem _ (List.mem_of_mem_head? head)
    · exact zeroed.memset frame.1 pageOk.1 (fun same => notFree (same ▸ List.mem_cons_self)) 0

/-! ## allocuvm's loop -/

/-- What allocuvm's loop from `a` leaves, beside what `Owns.allocLoop` says:
the page tables there were stay, the PTEs below `PGROUNDUP(oldsz)` are
untouched, and either it took from the free list exactly the pages the growth
needs and left every page it mapped zeroed, or the free list held fewer. -/
structure LoopEnd (m : Kmem) (d : Pgdir) (oldsz newsz a r : Nat) (m' : Kmem) (d' : Pgdir)
    (mem' : Nat → UInt8) : Prop where
  tables : ∀ i t, d.tables i = some t → d'.tables i = some t
  kept : ∀ u, u * pgSize < pgroundup oldsz → d'.entries u = d.entries u
  outcome : r = newsz ∧ m.freelist.length = m'.freelist.length + pagesNeeded d a newsz ∧
      FreshAbove d' mem' (pgroundup oldsz) ∨
    r = 0 ∧ m.freelist.length < pagesNeeded d a newsz

/-- The rollback, `deallocuvm(pgdir, newsz, oldsz)`, clears only PTEs from
`PGROUNDUP(oldsz)` on. -/
theorem LoopEnd.rollback {oldsz newsz a : Nat} {mem' : Nat → UInt8}
    (short : m.freelist.length < pagesNeeded d a newsz) :
    LoopEnd m d oldsz newsz a 0 m' (d.clear (pgroundup oldsz) newsz) mem' where
  tables _ _ found := found
  kept u low := by rw [Pgdir.clear_entries, if_neg (by omega)]
  outcome := .inr ⟨rfl, short⟩

/-- The loop from the next page, after one page mapped at `a`. -/
theorem LoopEnd.cons {oldsz newsz a r : Nat} {m₂ : Kmem} {d₂ : Pgdir} {mem' : Nat → UInt8}
    (aligned : a % pgSize = 0) (below : a < newsz) (fits : newsz < kernBase)
    (start : pgroundup oldsz ≤ a) (others : ∀ i, i ≠ pdx a → d₂.tables i = d.tables i)
    (same : ∀ t, d.tables (pdx a) = some t → d₂.tables (pdx a) = some t)
    (present : (d₂.tables (pdx a)).isSome) (untouched : ∀ u, u ≠ a / pgSize → d₂.entries u = d.entries u)
    (taken : m.freelist.length = m₂.freelist.length + 1 + if (d.tables (pdx a)).isNone then 1 else 0)
    (next : LoopEnd m₂ d₂ oldsz newsz (a + pgSize) r m' d' mem') :
    LoopEnd m d oldsz newsz a r m' d' mem' := by
  have needed := pagesNeeded_step aligned below fits others present
  refine ⟨fun i t found => next.tables i t ?_, fun u low => ?_, ?_⟩
  · by_cases here : i = pdx a
    · subst here
      exact same t found
    · rw [others i here]
      exact found
  · rw [next.kept u low, untouched u]
    intro here
    simp only [pgSize] at *
    omega
  · rcases next.outcome with ⟨grown, count, fresh⟩ | ⟨failed, short⟩
    · exact .inl ⟨grown, by omega, fresh⟩
    · exact .inr ⟨failed, by omega⟩

/-- allocuvm's loop from an aligned `a` at or past `PGROUNDUP(oldsz)`, with
the pages below `a` mapped and those from `PGROUNDUP(oldsz)` on zeroed. -/
theorem allocLoop_ends (owns : Owns m d []) (tabled : d.Tabled) {oldsz newsz a : Nat}
    {mem : Nat → UInt8} (shape : d.Shape a) (aligned : a % pgSize = 0)
    (start : pgroundup oldsz ≤ a) (reach : a ≤ pgroundup newsz) (fits : newsz < kernBase)
    (grows : oldsz ≤ newsz) (fresh : FreshAbove d mem (pgroundup oldsz)) :
    ∃ r m' d' mem', Phys.allocLoop m mem d oldsz newsz a = .ok ((r, m', d'), mem') ∧
      LoopEnd m d oldsz newsz a r m' d' mem' := by
  have roundNew := pgroundup_of_lt fits
  have roundOld := pgroundup_of_lt (Nat.lt_of_le_of_lt grows fits)
  -- induction on the distance left to `newsz`, which each mapped page shortens
  induction left : newsz - a using Nat.strongRecOn generalizing m mem d a with
  | _ n ih =>
  rw [Phys.allocLoop]
  split_ifs with below
  · have shrink : oldsz < newsz := by
      rw [roundOld] at start
      omega
    have needed := pagesNeeded_ge (d := d) aligned below fits
    rcases kalloc_cases m with ⟨empty, got⟩ | ⟨page, rest, list, got⟩
    · -- "allocuvm out of memory"
      obtain ⟨m', dealloc, -, -⟩ := owns.deallocuvm tabled shrink
      obtain ⟨bytes, dealloc'⟩ :=
        Fallible.exists_ok_of_map_fst ((Phys.deallocuvm_map_fst m mem d newsz oldsz).trans dealloc)
      refine ⟨0, m', _, bytes, ?_, LoopEnd.rollback (by rw [empty, List.length_nil]; omega)⟩
      rw [got]
      dsimp only
      rw [dealloc', Fallible.ok_bind]
      rfl
    · obtain ⟨owns₁, -⟩ := owns.kalloc got
      have empty : d.entries (a / pgSize) = none := by
        have absent := (shape.present (a / pgSize)).not.mpr (by unfold pgSize at *; omega)
        simpa using absent
      rcases owns₁.mapPage tabled aligned empty true true with
        ⟨mapped, noPage⟩ | ⟨m₂, d₂, mapped, owns₂, tabled₂, entries₂, -⟩
      · -- "allocuvm out of memory (2)": no page table, and no page to make one
        obtain ⟨bytes₂, mapped'⟩ :=
          Fallible.exists_ok_of_map_fst ((Phys.mappages_map_fst ..).trans mapped)
        have absent : d.tables (pdx a) = none := by
          rcases mappages_page_cases aligned mapped with ⟨-, absent, -⟩ | ⟨no, -⟩ | ⟨no, -⟩
          · exact absent
          · cases no
          · cases no
        obtain ⟨m₃, dealloc, owns₃, -⟩ := owns₁.deallocuvm tabled shrink
        obtain ⟨bytes₃, dealloc'⟩ :=
          Fallible.exists_ok_of_map_fst ((Phys.deallocuvm_map_fst ..).trans dealloc)
        obtain ⟨freed, -, -⟩ := owns₃.kfree
        obtain ⟨bytes₄, freed'⟩ := Fallible.exists_ok_of_map_fst ((Phys.kfree_map_fst ..).trans freed)
        refine ⟨0, { m₃ with freelist := page :: m₃.freelist }, _, bytes₄, ?_, LoopEnd.rollback ?_⟩
        · rw [got]
          dsimp only
          rw [mapped', Fallible.ok_bind]
          dsimp only
          rw [dealloc', Fallible.ok_bind]
          dsimp only
          rw [freed', Fallible.ok_bind]
          rfl
        · have single : m.freelist.length = 1 := by
            rw [list, show rest = [] from noPage]
            rfl
          rw [absent] at needed
          simp only [Option.isNone_none, ↓reduceIte] at needed
          omega
      · obtain ⟨bytes₂, mapped'⟩ :=
          Fallible.exists_ok_of_map_fst ((Phys.mappages_map_fst ..).trans mapped)
        obtain ⟨others, same, present, count⟩ := mappages_page_tables aligned mapped
        have untouched : ∀ u, u ≠ a / pgSize → d₂.entries u = d.entries u := fun u other => by
          rw [entries₂, Function.update_of_ne other]
        obtain ⟨r, m', d', mem', loop, next⟩ := ih (newsz - (a + pgSize)) (by unfold pgSize; omega)
          owns₂ tabled₂ (shape.extend aligned entries₂) (by unfold pgSize at *; omega)
          (by unfold pgSize at *; omega) (by rw [roundNew]; unfold pgSize at *; omega)
          (fresh.step owns list aligned mapped' entries₂) rfl
        refine ⟨r, m', d', mem', ?_, next.cons aligned below fits start others same present untouched
          (by rw [list]; simp only [List.length_cons] at count ⊢; omega)⟩
        rw [got]
        dsimp only
        rw [mapped', Fallible.ok_bind]
        simp only [↓reduceIte]
        exact loop
  · have none : pagesNeeded d a newsz = 0 := by
      rw [pagesNeeded, if_neg below]
    exact ⟨newsz, m, d, mem, rfl, fun _ _ found => found, fun _ _ => rfl, .inl ⟨rfl, by omega, fresh⟩⟩

/-! ## Which pages are free -/

theorem p2v_injective {a b : Nat} (same : p2v a = p2v b) : a = b :=
  Nat.add_right_cancel same

/-- The free pages are the pages of the pool that are neither a user page nor
a page table. -/
theorem Owns.mem_freelist_iff (owns : Owns m d []) {v : Nat} :
    v ∈ m.freelist ↔ Pool m d [] v ∧ (∀ u e, d.entries u = some e → p2v e.addr ≠ v) ∧
      ∀ i t, d.tables i = some t → p2v t ≠ v := by
  constructor
  · intro free
    have spare : v ∈ m.freelist ++ [] := List.mem_append_left _ free
    refine ⟨.inl spare, fun u e entry same => ?_, fun i t table same => ?_⟩
    · exact (owns.user u e entry).2 (same ▸ spare)
    · exact (owns.table i t table).2 (same ▸ spare)
  · rintro ⟨pool, notUser, notTable⟩
    rcases pool with free | ⟨u, e, entry, rfl⟩ | ⟨i, t, table, rfl⟩
    · simpa using free
    · exact absurd rfl (notUser u e entry)
    · exact absurd rfl (notTable i t table)

/-! ## The exact effect -/

/-- allocuvm's failure: every PTE is as it was, and the free list holds again
every page it held but those that became new page tables of `pgdir`, and
no other page. -/
structure RolledBack (m : Kmem) (d : Pgdir) (m' : Kmem) (d' : Pgdir) : Prop where
  entries : d'.entries = d.entries
  returned : ∀ v, v ∈ m.freelist ↔
    v ∈ m'.freelist ∨ ∃ i t, d.tables i = none ∧ d'.tables i = some t ∧ p2v t = v

/-- allocuvm's success: the pages below `PGROUNDUP(oldsz)` keep their PTEs,
exactly the pages below `PGROUNDUP(newsz)` are mapped, and each page from
`PGROUNDUP(oldsz)` below `newsz` is mapped `PTE_W|PTE_U` to a frame that was
free, is free no more, is zeroed, and is no other page's. -/
structure Grown (m : Kmem) (d : Pgdir) (oldsz newsz : Nat) (m' : Kmem) (d' : Pgdir)
    (mem' : Nat → UInt8) : Prop where
  shape : d'.Shape (pgroundup newsz)
  kept : ∀ u, u * pgSize < pgroundup oldsz → d'.entries u = d.entries u
  fresh : ∀ u, pgroundup oldsz ≤ u * pgSize → u * pgSize < newsz →
    ∃ pa, d'.entries u = some ⟨pa, true, true⟩ ∧ p2v pa ∈ m.freelist ∧ p2v pa ∉ m'.freelist ∧
      Zeroed mem' (p2v pa)
  distinct : ∀ u w e f, d'.entries u = some e → d'.entries w = some f → e.addr = f.addr → u = w

/-- deallocuvm's effect: exactly the PTEs of the pages from
`PGROUNDUP(newsz)` below `oldsz` are cleared, and the free list gains exactly
their frames, with no page on it twice. -/
structure Shrunk (m : Kmem) (d : Pgdir) (oldsz newsz : Nat) (m' : Kmem) (d' : Pgdir) : Prop where
  cleared : d' = d.clear (pgroundup newsz) oldsz
  freed : ∀ v, v ∈ m'.freelist ↔ v ∈ m.freelist ∨
    ∃ u e, pgroundup newsz ≤ u * pgSize ∧ u * pgSize < oldsz ∧ d.entries u = some e ∧ p2v e.addr = v
  nodup : m'.freelist.Nodup

section Effect

variable {mem' : Nat → UInt8} (owns : Owns m d []) (owns' : Owns m' d' [])
  (pool : Pool m' d' [] = Pool m d [])
include owns owns' pool

/-- A rollback that left every PTE and kept every page table. -/
theorem rolledBack_of (entries : d'.entries = d.entries)
    (tables : ∀ i t, d.tables i = some t → d'.tables i = some t) : RolledBack m d m' d' := by
  refine ⟨entries, fun v => ⟨fun free => ?_, fun returned => ?_⟩⟩
  · by_cases table : ∃ i t, d.tables i = none ∧ d'.tables i = some t ∧ p2v t = v
    · exact .inr table
    · -- not a new page table: then free again
      refine .inl (owns'.mem_freelist_iff.mpr ⟨?_, fun u e entry same => ?_, fun i t found same => ?_⟩)
      · rw [pool]
        exact (owns.mem_freelist_iff.mp free).1
      · rw [entries] at entry
        exact (owns.mem_freelist_iff.mp free).2.1 u e entry same
      · cases old : d.tables i with
        | none => exact table ⟨i, t, old, found, same⟩
        | some t₀ =>
            have moved := tables i t₀ old
            rw [found] at moved
            rw [← Option.some.inj moved] at old
            exact (owns.mem_freelist_iff.mp free).2.2 i t old same
  · rcases returned with free | ⟨i, t, old, found, rfl⟩
    · refine owns.mem_freelist_iff.mpr ⟨?_, fun u e entry same => ?_, fun i t found same => ?_⟩
      · rw [← pool]
        exact (owns'.mem_freelist_iff.mp free).1
      · rw [← entries] at entry
        exact (owns'.mem_freelist_iff.mp free).2.1 u e entry same
      · exact (owns'.mem_freelist_iff.mp free).2.2 i t (tables i t found) same
    · -- a new page table came from the free list
      refine owns.mem_freelist_iff.mpr ⟨?_, fun u e entry same => ?_, fun j t₀ found₀ same => ?_⟩
      · rw [← pool]
        exact .inr (.inr ⟨i, t, found, rfl⟩)
      · rw [← entries] at entry
        exact owns'.apart i t u e found entry (p2v_injective same).symm
      · have moved := tables j t₀ found₀
        rw [p2v_injective same] at moved
        rw [owns'.tableInj i j t t found moved rfl, found₀] at old
        cases old

/-- The pages allocuvm's loop mapped from `PGROUNDUP(oldsz)` on. -/
theorem grown_of {oldsz newsz : Nat} (fits : newsz < kernBase) (shape : d.Shape (pgroundup oldsz))
    (shape' : d'.Shape (pgroundup newsz))
    (kept : ∀ u, u * pgSize < pgroundup oldsz → d'.entries u = d.entries u)
    (tables : ∀ i t, d.tables i = some t → d'.tables i = some t)
    (fresh : FreshAbove d' mem' (pgroundup oldsz)) : Grown m d oldsz newsz m' d' mem' := by
  refine ⟨shape', kept, fun u low high => ?_, owns'.userInj⟩
  have round := pgroundup_of_lt fits
  obtain ⟨e, entry⟩ := Option.isSome_iff_exists.mp ((shape'.present u).mpr (by
    simp only [pgSize] at *
    omega))
  obtain ⟨writable, zeroed⟩ := fresh u e low entry
  have user := shape'.user u e entry
  obtain ⟨pa, writable', user'⟩ := e
  obtain rfl : writable' = true := writable
  obtain rfl : user' = true := user
  refine ⟨pa, entry, ?_, ?_, zeroed⟩
  · -- the frame is in the pool, and was neither a user page nor a page table
    refine owns.mem_freelist_iff.mpr ⟨?_, fun w f old same => ?_, fun i t old same => ?_⟩
    · rw [← pool]
      exact .inr (.inl ⟨u, _, entry, rfl⟩)
    · have below : w * pgSize < pgroundup oldsz := (shape.present w).mp (by rw [old]; rfl)
      have moved : d'.entries w = some f := by rw [kept w below, old]
      have same := owns'.userInj w u f _ moved entry (p2v_injective same)
      subst same
      omega
    · exact owns'.apart i t u _ (tables i t old) entry (p2v_injective same)
  · have taken := (owns'.user u _ entry).2
    rwa [List.append_nil] at taken

/-- deallocuvm's clearing, with the pool unchanged. -/
theorem shrunk_of {oldsz newsz : Nat} (cleared : d' = d.clear (pgroundup newsz) oldsz) :
    Shrunk m d oldsz newsz m' d' := by
  have outside : ∀ u, ¬ (pgroundup newsz ≤ u * pgSize ∧ u * pgSize < oldsz) →
      d'.entries u = d.entries u := fun u out => by
    rw [cleared, Pgdir.clear_entries, if_neg out]
  have inside : ∀ u e, d'.entries u = some e → d.entries u = some e := fun u e entry => by
    rw [cleared, Pgdir.clear_entries] at entry
    split_ifs at entry
    exact entry
  have tables : d'.tables = d.tables := by rw [cleared]; rfl
  refine ⟨cleared, fun v => ⟨fun free => ?_, fun freed => ?_⟩, by simpa using owns'.nodup⟩
  · obtain ⟨spare, notUser, notTable⟩ := owns'.mem_freelist_iff.mp free
    rw [pool] at spare
    rcases spare with old | ⟨u, e, entry, rfl⟩ | ⟨i, t, found, rfl⟩
    · exact .inl (by simpa using old)
    · by_cases range : pgroundup newsz ≤ u * pgSize ∧ u * pgSize < oldsz
      · exact .inr ⟨u, e, range.1, range.2, entry, rfl⟩
      · exact absurd rfl (notUser u e (by rw [outside u range, entry]))
    · exact absurd rfl (notTable i t (by rw [tables, found]))
  · refine owns'.mem_freelist_iff.mpr ⟨?_, fun u e entry same => ?_, fun i t found same => ?_⟩
    · rw [pool]
      rcases freed with old | ⟨u, e, -, -, entry, rfl⟩
      · exact .inl (by simpa using old)
      · exact .inr (.inl ⟨u, e, entry, rfl⟩)
    · rcases freed with old | ⟨w, f, low, high, entry₀, rfl⟩
      · exact (owns.mem_freelist_iff.mp old).2.1 u e (inside u e entry) same
      · -- the frame of a cleared page is no other page's
        have same := owns.userInj u w e f (inside u e entry) entry₀ (p2v_injective same)
        subst same
        rw [cleared, Pgdir.clear_entries, if_pos ⟨low, high⟩] at entry
        cases entry
    · rw [tables] at found
      rcases freed with old | ⟨u, e, -, -, entry₀, rfl⟩
      · exact (owns.mem_freelist_iff.mp old).2.2 i t found same
      · exact owns.apart i t u e found entry₀ (p2v_injective same)

end Effect

/-- Above `PGROUNDUP(oldsz)` there is no PTE yet, so nothing to be zeroed. -/
theorem freshAbove_start {oldsz : Nat} (shape : d.Shape (pgroundup oldsz)) (mem : Nat → UInt8) :
    FreshAbove d mem (pgroundup oldsz) := by
  intro u e low entry
  have below : u * pgSize < pgroundup oldsz := (shape.present u).mp (by rw [entry]; rfl)
  omega

/-- Two directories of one shape that agree below its top agree everywhere. -/
theorem entries_eq_of_shape {top : Nat} (shape : d.Shape top) (shape' : d'.Shape top)
    (kept : ∀ u, u * pgSize < top → d'.entries u = d.entries u) : d'.entries = d.entries := by
  funext u
  by_cases below : u * pgSize < top
  · exact kept u below
  · have absent := (shape.present u).not.mpr below
    have absent' := (shape'.present u).not.mpr below
    simp only [Bool.not_eq_true, Option.isSome_eq_false_iff, Option.isNone_iff_eq_none] at absent absent'
    rw [absent, absent']

/-- allocuvm from a directory of exactly the pages below `PGROUNDUP(oldsz)`. -/
theorem allocuvm_exact (owns : Owns m d []) (tabled : d.Tabled) {oldsz newsz : Nat}
    (shape : d.Shape (pgroundup oldsz)) (mem : Nat → UInt8) (grows : oldsz ≤ newsz) :
    ∃ r m' d' mem', Phys.allocuvm m mem d oldsz newsz = .ok ((r, m', d'), mem') ∧
      (r = 0 ∧ (kernBase ≤ newsz ∨ m.freelist.length < pagesNeeded d (pgroundup oldsz) newsz) ∧
          RolledBack m d m' d' ∨
        r = newsz ∧ newsz < kernBase ∧
          m.freelist.length = m'.freelist.length + pagesNeeded d (pgroundup oldsz) newsz ∧
          Grown m d oldsz newsz m' d' mem') := by
  unfold Phys.allocuvm
  by_cases fits : newsz < kernBase
  · rw [if_neg (by omega), if_neg (by omega)]
    obtain ⟨r, m', d', mem', loop, ends⟩ := allocLoop_ends owns tabled shape (pgroundup_aligned oldsz)
      (Nat.le_refl _) (pgroundup_mono grows fits) fits grows (freshAbove_start shape mem)
    -- the loop without the bytes is `Vm.allocLoop`, whose ownership facts are known
    obtain ⟨r₀, m₀, d₀, loop₀, owns', -, pool, result⟩ := owns.allocLoop tabled shape
      (pgroundup_aligned oldsz) (Nat.le_refl _) (pgroundup_mono grows fits) fits grows
    have same := (Phys.allocLoop_map_fst m mem d oldsz newsz (pgroundup oldsz)).trans loop₀
    rw [loop] at same
    cases same
    refine ⟨r, m', d', mem', loop, ?_⟩
    rcases ends.outcome with ⟨grown, count, fresh⟩ | ⟨failed, short⟩
    · have shape' : d'.Shape (pgroundup newsz) := by
        rcases result with ⟨-, shape'⟩ | ⟨zero, shape'⟩
        · exact shape'
        · rwa [show oldsz = newsz by omega] at shape'
      exact .inr ⟨grown, fits, count,
        grown_of owns owns' pool fits shape shape' ends.kept ends.tables fresh⟩
    · have shape' : d'.Shape (pgroundup oldsz) := by
        rcases result with ⟨grown, -⟩ | ⟨-, shape'⟩
        · have empty : pagesNeeded d (pgroundup oldsz) newsz = 0 := by
            rw [pagesNeeded, if_neg (by omega)]
          omega
        · exact shape'
      exact .inl ⟨failed, .inr short,
        rolledBack_of owns owns' pool (entries_eq_of_shape shape shape' ends.kept) ends.tables⟩
  · rw [if_pos (by omega)]
    exact ⟨0, m, d, mem, rfl, .inl ⟨rfl, .inl (by omega),
      rolledBack_of owns owns rfl rfl fun _ _ found => found⟩⟩

/-- deallocuvm shrinking a directory. -/
theorem deallocuvm_exact (owns : Owns m d []) (tabled : d.Tabled) {oldsz newsz : Nat}
    (mem : Nat → UInt8) (shrink : newsz < oldsz) :
    ∃ m' d' mem', Phys.deallocuvm m mem d oldsz newsz = .ok ((newsz, m', d'), mem') ∧
      Shrunk m d oldsz newsz m' d' := by
  obtain ⟨m', dealloc, owns', pool⟩ := owns.deallocuvm tabled shrink
  obtain ⟨mem', dealloc'⟩ :=
    Fallible.exists_ok_of_map_fst ((Phys.deallocuvm_map_fst m mem d oldsz newsz).trans dealloc)
  exact ⟨m', _, mem', dealloc', shrunk_of owns owns' pool rfl⟩

theorem allocuvm_deallocuvm_exact_effect (owns : Owns m d []) (tabled : d.Tabled)
    {oldsz newsz : Nat} (shape : d.Shape (pgroundup oldsz)) (mem : Nat → UInt8) :
    (oldsz ≤ newsz → ∃ r m' d' mem', Phys.allocuvm m mem d oldsz newsz = .ok ((r, m', d'), mem') ∧
      (r = 0 ∧ (kernBase ≤ newsz ∨ m.freelist.length < pagesNeeded d (pgroundup oldsz) newsz) ∧
          RolledBack m d m' d' ∨
        r = newsz ∧ newsz < kernBase ∧
          m.freelist.length = m'.freelist.length + pagesNeeded d (pgroundup oldsz) newsz ∧
          Grown m d oldsz newsz m' d' mem')) ∧
    (newsz < oldsz → ∃ m' d' mem', Phys.deallocuvm m mem d oldsz newsz = .ok ((newsz, m', d'), mem') ∧
      Shrunk m d oldsz newsz m' d') :=
  ⟨allocuvm_exact owns tabled shape mem, deallocuvm_exact owns tabled mem⟩

/-- The first process, of size `PGSIZE`, grown to two pages. -/
theorem exact_effect_first_process :
    Owns initKmem initPgdir [] ∧ initPgdir.Tabled ∧ initPgdir.Shape (pgroundup pgSize) ∧
      (pgSize ≤ 8192 → ∃ r m' d' mem', Phys.allocuvm initKmem (fun _ => 0) initPgdir pgSize 8192 =
          .ok ((r, m', d'), mem') ∧
        (r = 0 ∧ (kernBase ≤ 8192 ∨ initKmem.freelist.length < pagesNeeded initPgdir (pgroundup pgSize) 8192) ∧
            RolledBack initKmem initPgdir m' d' ∨
          r = 8192 ∧ 8192 < kernBase ∧
            initKmem.freelist.length = m'.freelist.length + pagesNeeded initPgdir (pgroundup pgSize) 8192 ∧
            Grown initKmem initPgdir pgSize 8192 m' d' mem')) ∧
      (8192 < pgSize → ∃ m' d' mem', Phys.deallocuvm initKmem (fun _ => 0) initPgdir pgSize 8192 =
          .ok ((8192, m', d'), mem') ∧ Shrunk initKmem initPgdir pgSize 8192 m' d') :=
  ⟨owns_init, tabled_init, shaped_init.shape,
    allocuvm_deallocuvm_exact_effect owns_init tabled_init shaped_init.shape (fun _ => 0)⟩

end Vm
end Xv6
