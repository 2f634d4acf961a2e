import Xv6.Vm.Map

/-!
# Whole page directories

`Owns` speaks of the user half of a directory.  The PTEs of the kernel half
map all of physical memory, free pages included, and every directory has
the same ones; but a directory from setupkvm also holds pages of its own in
the kernel half, the page tables setupkvm took for kmap[], and freevm frees
them with the rest.  `Pgdir.owned` is the view `Owns` takes of a whole
directory: every page table, and the PTEs below `KERNBASE`.

setupkvm's mappings change that view only by the page tables walkpgdir
takes; a mapping below `KERNBASE` changes it as it changes the directory;
and freevm gives every page of it back: the user pages through deallocuvm,
then each page table, then the directory's own page.  So a directory built
and freed again leaves the free list with the pages it had, in another
order.
-/

namespace Xv6
namespace Vm

/-- The pages a directory holds: all its page tables and its user PTEs. -/
def Pgdir.owned (d : Pgdir) : Pgdir where
  tables := d.tables
  entries u := if u * pgSize < kernBase then d.entries u else none

/-- Every page table sits at one of the `NPDENTRIES` directory entries. -/
def Pgdir.Bounded (d : Pgdir) : Prop := ∀ i t, d.tables i = some t → i < nPdEntries

/-- `d` without the page tables of the directory entries in `l`. -/
def Pgdir.dropTables (d : Pgdir) (l : List Nat) : Pgdir :=
  { d with tables := fun i => if i ∈ l then none else d.tables i }

/-- A kmap[] entry of the kernel half: it starts at or above `KERNBASE`, maps
at least one byte, and ends within the address space. -/
def Kmap.Kernel (k : Kmap) : Prop := kernBase ≤ k.virt ∧ 0 < k.size ∧ k.virt + k.size ≤ 2 ^ 32

/-- The addresses whose PTEs mappages sets for a kmap[] entry. -/
def Kmap.Covers (k : Kmap) (v : Nat) : Prop :=
  pgrounddown k.virt ≤ v ∧ v < pgrounddown (k.virt + k.size - 1) + pgSize

variable {m m' : Kmem} {d d' : Pgdir} {held : List Nat}

/-! ## The view -/

@[simp] theorem Pgdir.owned_tables (d : Pgdir) : d.owned.tables = d.tables := rfl

theorem Pgdir.owned_entries (d : Pgdir) (u : Nat) :
    d.owned.entries u = if u * pgSize < kernBase then d.entries u else none :=
  rfl

theorem Pgdir.owned_set_user {u : Nat} (below : u * pgSize < kernBase) (x : Option Pte) :
    (d.set u x).owned = d.owned.set u x := by
  refine eq_of_entries rfl fun w => ?_
  rw [owned_entries, set_entries, set_entries]
  by_cases here : w = u
  · rw [here, Function.update_self, Function.update_self, if_pos below]
  · rw [Function.update_of_ne here, Function.update_of_ne here, owned_entries]

theorem Pgdir.owned_set_kernel {u : Nat} (above : kernBase ≤ u * pgSize) (x : Option Pte) :
    (d.set u x).owned = d.owned := by
  refine eq_of_entries rfl fun w => ?_
  rw [owned_entries, owned_entries, set_entries]
  by_cases here : w = u
  · rw [here, if_neg (by omega), if_neg (by omega)]
  · rw [Function.update_of_ne here]

theorem Pgdir.owned_addTable (i t : Nat) : (d.addTable i t).owned = d.owned.addTable i t := by
  refine eq_of_entries rfl fun u => ?_
  show (if u * pgSize < kernBase then (if u / nPtEntries = i then none else d.entries u) else none) =
    if u / nPtEntries = i then none else (if u * pgSize < kernBase then d.entries u else none)
  split_ifs <;> rfl

theorem Pgdir.owned_clear (lo hi : Nat) : (d.clear lo hi).owned = d.owned.clear lo hi := by
  refine eq_of_entries rfl fun u => ?_
  rw [owned_entries, clear_entries, clear_entries, owned_entries]
  split_ifs <;> rfl

/-- The view of a directory without user PTEs has no PTEs at all. -/
theorem Pgdir.owned_entries_eq_none {hi : Nat} (top : kernBase ≤ hi) (u : Nat) :
    (d.owned.clear 0 hi).entries u = none := by
  rw [clear_entries, owned_entries]
  by_cases below : u * pgSize < hi
  · rw [if_pos ⟨Nat.zero_le _, below⟩]
  · rw [if_neg (fun inside => below inside.2), if_neg (by omega)]

/-- walkpgdir reads only the page tables, which the view keeps. -/
theorem walkpgdir_owned (m : Kmem) (d : Pgdir) (va : Nat) (alloc : Bool) :
    (walkpgdir m d va alloc).map (fun r => (r.1, r.2.owned)) = walkpgdir m d.owned va alloc := by
  rw [walkpgdir_eq, walkpgdir_eq]
  rw [Pgdir.owned_tables]
  cases d.tables (pdx va) with
  | some _ => rfl
  | none =>
      cases alloc with
      | false => rfl
      | true =>
          rcases kalloc m with ⟨_ | pgtab, m'⟩
          · rfl
          · simp only [Bool.not_true, Bool.false_eq_true, ↓reduceIte, Option.map_some, Pgdir.owned_addTable]

/-! ## Bounded directories -/

theorem Pgdir.Bounded.addTable (bounded : d.Bounded) {i : Nat} (inRange : i < nPdEntries) (t : Nat) :
    (d.addTable i t).Bounded := by
  intro j t' found
  by_cases here : j = i
  · rw [here]
    exact inRange
  · have old : Function.update d.tables i (some t) j = some t' := found
    rw [Function.update_of_ne here] at old
    exact bounded j t' old

theorem pdx_lt {va : Nat} (small : va < 2 ^ 32) : pdx va < nPdEntries := by
  simp only [pdx, pgSize, nPtEntries, nPdEntries] at small ⊢
  omega

/-- walkpgdir at an address of the 32-bit space keeps every table at a
directory entry. -/
theorem Pgdir.Bounded.walkpgdir (bounded : d.Bounded) {va : Nat} (small : va < 2 ^ 32) {alloc : Bool}
    (walk : Vm.walkpgdir m d va alloc = some (m', d')) : d'.Bounded := by
  rw [walkpgdir_eq] at walk
  split at walk
  · cases walk
    exact bounded
  · split_ifs at walk
    rcases kalloc_cases m with ⟨_, got⟩ | ⟨t, rest, _, got⟩
    · rw [got] at walk
      cases walk
    · rw [got] at walk
      cases walk
      exact bounded.addTable (pdx_lt small) _

/-! ## walkpgdir and mappages on a whole directory -/

/-- `Owns.walkpgdir` for a whole directory, seen through `owned`. -/
theorem Owns.walkpgdir_whole (owns : Owns m d.owned held) (tabled : d.owned.Tabled) (va : Nat) :
    Vm.walkpgdir m d va true = none ∧ m.freelist = [] ∨
      ∃ m' d', Vm.walkpgdir m d va true = some (m', d') ∧ Owns m' d'.owned held ∧ d'.owned.Tabled ∧
        d'.owned.entries = d.owned.entries ∧ (∃ t, d'.tables (pdx va) = some t) ∧
        Pool m' d'.owned held = Pool m d.owned held := by
  have same := walkpgdir_owned m d va true
  rcases owns.walkpgdir tabled va with ⟨walk, empty⟩ | ⟨m₁, d₁, walk, owns₁, tabled₁, entries₁, table₁, pool₁⟩
  · rw [walk, Option.map_eq_none_iff] at same
    exact .inl ⟨same, empty⟩
  · rw [walk, Option.map_eq_some_iff] at same
    obtain ⟨⟨m', d'⟩, walked, viewed⟩ := same
    simp only [Prod.mk.injEq] at viewed
    obtain ⟨rfl, rfl⟩ := viewed
    exact .inr ⟨m', d', walked, owns₁, tabled₁, entries₁, table₁, pool₁⟩

/-- mappages' loop over pages at or above `KERNBASE` changes the view only by
the page tables it takes, and keeps every page table at a directory entry. -/
theorem Owns.mappagesLoop_kernel (writable user : Bool) {last : Nat} (lastAligned : last % pgSize = 0)
    (small : last < 2 ^ 32) :
    ∀ n (m : Kmem) (d : Pgdir) (a pa : Nat), a % pgSize = 0 → kernBase ≤ a → a ≤ last →
      Owns m d.owned held → d.owned.Tabled → d.Bounded →
      ∀ {ok : Bool} {m' : Kmem} {d' : Pgdir}, mappagesLoop writable user last m d a pa n = .ok (ok, m', d') →
      Owns m' d'.owned held ∧ d'.owned.Tabled ∧ d'.Bounded ∧ d'.owned.entries = d.owned.entries ∧
        Pool m' d'.owned held = Pool m d.owned held := by
  intro n
  induction n with
  | zero =>
      intro m d a pa _ _ _ owns tabled bounded ok m' d' ran
      cases ran
      exact ⟨owns, tabled, bounded, rfl, rfl⟩
  | succ n inductionHypothesis =>
      intro m d a pa aligned above below owns tabled bounded ok m' d' ran
      rw [mappagesLoop_succ] at ran
      rcases owns.walkpgdir_whole tabled a with ⟨walk, _⟩ |
        ⟨m₁, d₁, walk, owns₁, tabled₁, entries₁, -, pool₁⟩
      · rw [walk] at ran
        cases ran
        exact ⟨owns, tabled, bounded, rfl, rfl⟩
      · rw [walk] at ran
        dsimp only at ran
        have bounded₁ := bounded.walkpgdir (by omega) walk
        have kernelPage : kernBase ≤ a / pgSize * pgSize := by
          simp only [pgSize] at aligned ⊢
          omega
        split at ran
        · cases ran
        · -- the PTE set is in the kernel half, outside the view
          have unseen := Pgdir.owned_set_kernel (d := d₁) kernelPage (some ⟨pa, writable, user⟩)
          split at ran
          · cases ran
            rw [unseen]
            exact ⟨owns₁, tabled₁, bounded₁, entries₁, pool₁⟩
          · rename_i notLast
            have next : a + pgSize ≤ last := by
              simp only [pgSize] at aligned lastAligned ⊢
              omega
            obtain ⟨owns', tabled', bounded', entries', pool'⟩ :=
              inductionHypothesis m₁ (d₁.set (a / pgSize) (some ⟨pa, writable, user⟩)) (a + pgSize) (pa + pgSize)
                (by simp only [pgSize] at aligned ⊢; omega)
                (by omega) next (by rw [unseen]; exact owns₁) (by rw [unseen]; exact tabled₁) bounded₁ ran
            rw [unseen] at entries' pool'
            exact ⟨owns', tabled', bounded', entries'.trans entries₁, pool'.trans pool₁⟩

/-- The page of an address below `KERNBASE` starts below it. -/
theorem page_lt_of_lt {a : Nat} (below : a < kernBase) : a / pgSize * pgSize < kernBase :=
  Nat.lt_of_le_of_lt (Nat.div_mul_le_self a pgSize) below

theorem entries_owned_of_lt (d : Pgdir) {a : Nat} (below : a < kernBase) :
    d.owned.entries (a / pgSize) = d.entries (a / pgSize) := by
  rw [Pgdir.owned_entries, if_pos (page_lt_of_lt below)]

/-- `Owns.mapPage` for a page below `KERNBASE` of a whole directory: the page
is mapped where walkpgdir found or made its page table, or no page table
could be had and nothing changed. -/
theorem Owns.mapPage_whole {r a : Nat} (owns : Owns m d.owned (r :: held)) (tabled : d.owned.Tabled)
    (bounded : d.Bounded) (aligned : a % pgSize = 0) (below : a < kernBase)
    (empty : d.owned.entries (a / pgSize) = none) (writable user : Bool) :
    mappages m d a pgSize (v2p r) writable user = .ok (false, m, d) ∧ m.freelist = [] ∨
      ∃ m' d₁, Vm.walkpgdir m d a true = some (m', d₁) ∧ d₁.entries (a / pgSize) = none ∧
        mappages m d a pgSize (v2p r) writable user =
          .ok (true, m', d₁.set (a / pgSize) (some ⟨v2p r, writable, user⟩)) ∧
        Owns m' (d₁.set (a / pgSize) (some ⟨v2p r, writable, user⟩)).owned held ∧
        (d₁.set (a / pgSize) (some ⟨v2p r, writable, user⟩)).owned.Tabled ∧ d₁.Bounded ∧
        Pool m' (d₁.set (a / pgSize) (some ⟨v2p r, writable, user⟩)).owned held =
          Pool m d.owned (r :: held) := by
  rw [mappages_page aligned]
  rcases owns.walkpgdir_whole tabled a with ⟨walk, noPage⟩ |
    ⟨m₁, d₁, walk, owns₁, tabled₁, entries₁, ⟨t, table⟩, pool₁⟩
  · rw [walk]
    exact .inl ⟨rfl, noPage⟩
  · have userPage := page_lt_of_lt below
    have empty₁ : d₁.owned.entries (a / pgSize) = none := by rw [entries₁, empty]
    have whole₁ : d₁.entries (a / pgSize) = none := by rw [← entries_owned_of_lt d₁ below, empty₁]
    obtain ⟨owns₂, pool₂⟩ := owns₁.map empty₁ writable user
    have inTable : ∃ t, d₁.owned.tables (a / pgSize / nPtEntries) = some t := by
      rw [Nat.div_div_eq_div_mul]
      exact ⟨t, table⟩
    have small : a < 2 ^ 32 := by
      have top : kernBase < 2 ^ 32 := by decide
      omega
    rw [walk]
    dsimp only
    rw [whole₁]
    refine .inr ⟨m₁, d₁, rfl, whole₁, rfl, ?_, ?_, bounded.walkpgdir small walk, ?_⟩
    · rw [Pgdir.owned_set_user userPage]
      exact owns₂
    · rw [Pgdir.owned_set_user userPage]
      exact tabled₁.set_some inTable
    · rw [Pgdir.owned_set_user userPage]
      exact pool₂.trans pool₁

theorem pgrounddown_le (a : Nat) : pgrounddown a ≤ a := Nat.div_mul_le_self a pgSize

theorem pgrounddown_mono {a b : Nat} (le : a ≤ b) : pgrounddown a ≤ pgrounddown b :=
  Nat.mul_le_mul_right _ (Nat.div_le_div_right le)

/-- mappages of a kernel range, as setupkvm makes it. -/
theorem Owns.mappages_kernel (writable user : Bool) {va size pa : Nat} (above : kernBase ≤ va)
    (nonempty : 0 < size) (fits : va + size ≤ 2 ^ 32) (owns : Owns m d.owned held) (tabled : d.owned.Tabled)
    (bounded : d.Bounded) {ok : Bool} (ran : mappages m d va size pa writable user = .ok (ok, m', d')) :
    Owns m' d'.owned held ∧ d'.owned.Tabled ∧ d'.Bounded ∧ d'.owned.entries = d.owned.entries ∧
      Pool m' d'.owned held = Pool m d.owned held := by
  have first : kernBase ≤ pgrounddown va := by
    have aligned : kernBase % pgSize = 0 := by decide
    simp only [pgrounddown, pgSize] at aligned ⊢
    omega
  exact Owns.mappagesLoop_kernel writable user (pgrounddown_aligned _)
    (Nat.lt_of_le_of_lt (pgrounddown_le (va + size - 1)) (by omega)) _ m d _ pa (pgrounddown_aligned _) first
    (pgrounddown_mono (by omega)) owns tabled bounded ran

/-! ## setupkvm's loop -/

/-- setupkvm's loop keeps the view's accounting: the page tables it takes are
all it takes. -/
theorem Owns.mapKmap : ∀ (ks : List Kmap) {m : Kmem} {d : Pgdir}, (∀ k ∈ ks, k.Kernel) →
    Owns m d.owned held → d.owned.Tabled → d.Bounded →
    ∀ {ok : Bool} {m' : Kmem} {d' : Pgdir}, mapKmap m d ks = .ok (ok, m', d') →
    Owns m' d'.owned held ∧ d'.owned.Tabled ∧ d'.Bounded ∧ d'.owned.entries = d.owned.entries ∧
      Pool m' d'.owned held = Pool m d.owned held
  | [], _, _, _, owns, tabled, bounded, _, _, _, ran => by
      cases ran
      exact ⟨owns, tabled, bounded, rfl, rfl⟩
  | k :: rest, m, d, kernel, owns, tabled, bounded, ok, m', d', ran => by
      rw [mapKmap_cons_eq] at ran
      obtain ⟨⟨ok₁, m₁, d₁⟩, mapped, next⟩ := Fallible.bind_ok ran
      obtain ⟨above, nonempty, fits⟩ := kernel k List.mem_cons_self
      obtain ⟨owns₁, tabled₁, bounded₁, entries₁, pool₁⟩ :=
        owns.mappages_kernel k.writable false above nonempty fits tabled bounded mapped
      cases ok₁ with
      | true =>
          dsimp only at next
          rw [if_pos rfl] at next
          obtain ⟨owns', tabled', bounded', entries', pool'⟩ :=
            Owns.mapKmap rest (fun k' member => kernel k' (List.mem_cons_of_mem k member)) owns₁ tabled₁
              bounded₁ next
          exact ⟨owns', tabled', bounded', entries'.trans entries₁, pool'.trans pool₁⟩
      | false =>
          dsimp only at next
          rw [if_neg Bool.false_ne_true] at next
          cases next
          exact ⟨owns₁, tabled₁, bounded₁, entries₁, pool₁⟩

/-- setupkvm's loop never panics when its entries' ranges are apart and no PTE
of them is present: each mappages maps its range, or stops for want of a page
table. -/
theorem mapKmap_ok : ∀ (ks : List Kmap) (m : Kmem) (d : Pgdir), (∀ k ∈ ks, 0 < k.size) →
    ks.Pairwise (fun k k' => ∀ v, k.Covers v → ¬ k'.Covers v) →
    (∀ k ∈ ks, ∀ v, k.Covers v → d.pte v = none) → ∃ r, mapKmap m d ks = .ok r
  | [], _, _, _, _, _ => ⟨_, rfl⟩
  | k :: rest, m, d, sized, apart, empty => by
      rw [List.pairwise_cons] at apart
      have nonempty := sized k List.mem_cons_self
      rw [mapKmap_cons_eq]
      rcases mapped : mappages m d k.virt k.size k.physStart k.writable false with e | ⟨ok, m₁, d₁⟩
      · obtain ⟨-, j, inRange, present⟩ := mappages_remap nonempty mapped
        have positive : 0 < pgSize := by decide
        rw [empty k List.mem_cons_self _ ⟨Nat.le_add_right _ _, by omega⟩] at present
        cases present
      · cases ok with
        | true =>
            obtain ⟨-, frame⟩ := mappages_mapped nonempty mapped
            obtain ⟨r, ran⟩ := mapKmap_ok rest m₁ d₁ (fun k' member => sized k' (List.mem_cons_of_mem k member))
              apart.2 fun k' member v covers => by
                have outside : ¬ k.Covers v := fun inside => apart.1 k' member v inside covers
                unfold Kmap.Covers at outside
                rw [frame v (by omega)]
                exact empty k' (List.mem_cons_of_mem k member) v covers
            exact ⟨r, ran⟩
        | false => exact ⟨_, rfl⟩

/-- The four entries of kmap[] lie in the kernel half. -/
theorem kmap_kernel {data : Nat} (linked : kernLink < data) (inMemory : data < p2v phyStop) :
    ∀ k ∈ kmap data, k.Kernel := by
  have sizes := kmap_size_pos linked inMemory
  have bounds : kernBase < kernLink ∧ p2v phyStop < 2 ^ 32 := by decide
  intro k member
  have sized := sizes k member
  simp only [kmap, List.mem_cons, List.not_mem_nil, or_false] at member
  rcases member with rfl | rfl | rfl | rfl
  · exact ⟨Nat.le_refl _, sized, by decide⟩
  · refine ⟨Nat.le_of_lt bounds.1, sized, ?_⟩
    dsimp only
    rw [size_text linked inMemory]
    omega
  · refine ⟨by dsimp only; omega, sized, ?_⟩
    dsimp only
    rw [size_data linked inMemory]
    omega
  · exact ⟨by decide, sized, by decide⟩

/-- A range of whole pages covers exactly its addresses. -/
theorem Kmap.covers_iff {k : Kmap} (aligned : k.virt % pgSize = 0) (whole : (k.virt + k.size) % pgSize = 0)
    (nonempty : 0 < k.size) {v : Nat} : k.Covers v ↔ k.virt ≤ v ∧ v < k.virt + k.size := by
  unfold Kmap.Covers pgrounddown
  simp only [pgSize] at aligned whole ⊢
  omega

/-- The ranges of kmap[] are apart: the I/O space, the kernel's text, its
data and the rest of memory, and the devices. -/
theorem kmap_apart {data : Nat} (aligned : data % pgSize = 0) (linked : kernLink < data)
    (inMemory : data < p2v phyStop) :
    (kmap data).Pairwise (fun k k' => ∀ v, k.Covers v → ¬ k'.Covers v) := by
  have textSize := size_text linked inMemory
  have dataSize := size_data linked inMemory
  have layout : kernLink % pgSize = 0 ∧ p2v phyStop % pgSize = 0 ∧ kernBase < kernLink ∧
      p2v phyStop ≤ devSpace := by
    decide
  have io : ∀ v, Kmap.Covers ⟨kernBase, 0, extMem, true⟩ v ↔ kernBase ≤ v ∧ v < kernLink := fun v =>
    Kmap.covers_iff (k := ⟨kernBase, 0, extMem, true⟩) (by decide) (by decide) (by decide)
  have text : ∀ v, Kmap.Covers ⟨kernLink, v2p kernLink, v2p data, false⟩ v ↔ kernLink ≤ v ∧ v < data := by
    intro v
    have whole : (kernLink + (data - kernLink)) % pgSize = 0 := by
      rw [Nat.add_sub_cancel' (Nat.le_of_lt linked)]
      exact aligned
    rw [Kmap.covers_iff (k := ⟨kernLink, v2p kernLink, v2p data, false⟩) layout.1 (by dsimp only; rw [textSize]; exact whole)
      (by rw [textSize]; omega)]
    dsimp only
    rw [textSize]
    omega
  have rest : ∀ v, Kmap.Covers ⟨data, v2p data, phyStop, true⟩ v ↔ data ≤ v ∧ v < p2v phyStop := by
    intro v
    have whole : (data + (p2v phyStop - data)) % pgSize = 0 := by
      rw [Nat.add_sub_cancel' (Nat.le_of_lt inMemory)]
      exact layout.2.1
    rw [Kmap.covers_iff (k := ⟨data, v2p data, phyStop, true⟩) aligned (by dsimp only; rw [dataSize]; exact whole)
      (by rw [dataSize]; omega)]
    dsimp only
    rw [dataSize]
    omega
  have devices : ∀ v, Kmap.Covers ⟨devSpace, devSpace, 0, true⟩ v ↔ devSpace ≤ v ∧ v < 2 ^ 32 := fun v =>
    Kmap.covers_iff (k := ⟨devSpace, devSpace, 0, true⟩) (by decide) (by decide) (by decide)
  simp only [kmap, List.pairwise_cons, List.mem_cons, List.not_mem_nil, or_false, forall_eq_or_imp,
    forall_eq, io, text, rest, devices, List.Pairwise.nil, and_true]
  obtain ⟨-, -, ioBelowText, memoryBelowDevices⟩ := layout
  refine ⟨⟨?_, ?_, ?_⟩, ⟨?_, ?_⟩, ?_, fun _ impossible => impossible.elim⟩ <;>
  · intro v inside outside
    omega

/-! ## freevm -/

theorem Pgdir.dropTables_tables (d : Pgdir) (l : List Nat) (i : Nat) :
    (d.dropTables l).tables i = if i ∈ l then none else d.tables i :=
  rfl

@[simp] theorem Pgdir.dropTables_entries (d : Pgdir) (l : List Nat) : (d.dropTables l).entries = d.entries :=
  rfl

theorem Pgdir.dropTables_cons (d : Pgdir) (i : Nat) (rest : List Nat) :
    (d.dropTables [i]).dropTables rest = d.dropTables (i :: rest) := by
  refine eq_of_entries (funext fun j => ?_) fun _ => rfl
  simp only [dropTables_tables, List.mem_cons, List.not_mem_nil, or_false]
  by_cases inRest : j ∈ rest <;> by_cases here : j = i <;> simp [inRest, here]

theorem Pgdir.dropTables_of_none {i : Nat} (absent : d.tables i = none) : d.dropTables [i] = d := by
  refine eq_of_entries (funext fun j => ?_) fun _ => rfl
  rw [dropTables_tables]
  by_cases here : j = i
  · rw [if_pos (List.mem_singleton.mpr here), here, absent]
  · rw [if_neg (by simpa using here)]

theorem kfree_kend {v : Nat} (freed : Vm.kfree m v = .ok m') : m'.kend = m.kend := by
  rw [kfree_def] at freed
  split_ifs at freed
  cases freed
  rfl

/-- deallocuvm's loop clears PTEs and frees pages only: every page table stays
in place, and so does the end of the kernel. -/
theorem deallocLoop_frame {oldsz a : Nat} (ran : Vm.deallocLoop m d oldsz a = .ok (m', d')) :
    d'.tables = d.tables ∧ m'.kend = m.kend := by
  induction m, d, a using deallocLoop_induct oldsz generalizing m' d' with
  | case1 m d a below walk next =>
      rw [deallocLoop_eq, if_pos below, walk] at ran
      exact next ran
  | case2 m d a below walked walk absent next =>
      rw [deallocLoop_eq, if_pos below, walk] at ran
      dsimp only at ran
      rw [absent] at ran
      exact next ran
  | case3 m d a below walked walk pte present null =>
      rw [deallocLoop_eq, if_pos below, walk] at ran
      dsimp only at ran
      rw [present] at ran
      dsimp only at ran
      rw [if_pos null] at ran
      cases ran
  | case4 m d a below walked walk pte present live next =>
      rw [deallocLoop_eq, if_pos below, walk] at ran
      dsimp only at ran
      rw [present] at ran
      dsimp only at ran
      rw [if_neg live] at ran
      obtain ⟨m₁, freed, rest⟩ := Fallible.bind_ok ran
      obtain ⟨tables, kend⟩ := next m₁ rest
      exact ⟨tables, kend.trans (kfree_kend freed)⟩
  | case5 m d a above =>
      rw [deallocLoop_eq, if_neg above] at ran
      cases ran
      exact ⟨rfl, rfl⟩

theorem deallocLoop_tables {oldsz a : Nat} (ran : Vm.deallocLoop m d oldsz a = .ok (m', d')) :
    d'.tables = d.tables :=
  (deallocLoop_frame ran).1

/-- walkpgdir takes its page table, if any, from the free list. -/
theorem walkpgdir_freelist {va : Nat} {alloc : Bool} (walk : Vm.walkpgdir m d va alloc = some (m', d')) :
    ∀ v ∈ m'.freelist, v ∈ m.freelist := by
  rw [walkpgdir_eq] at walk
  split at walk
  · cases walk
    exact fun _ kept => kept
  · split_ifs at walk
    rcases kalloc_cases m with ⟨_, got⟩ | ⟨t, rest, list, got⟩
    · rw [got] at walk
      cases walk
    · rw [got] at walk
      cases walk
      intro v kept
      rw [list]
      exact List.mem_cons_of_mem t kept

/-- walkpgdir takes at most one page off the free list. -/
theorem walkpgdir_length {va : Nat} {alloc : Bool} (walk : Vm.walkpgdir m d va alloc = some (m', d')) :
    m.freelist.length ≤ m'.freelist.length + 1 := by
  rw [walkpgdir_eq] at walk
  split at walk
  · cases walk
    omega
  · split_ifs at walk
    rcases kalloc_cases m with ⟨_, got⟩ | ⟨t, rest, list, got⟩
    · rw [got] at walk
      cases walk
    · rw [got] at walk
      cases walk
      simp [list]

/-! ## The end of the kernel stays where kinit put it -/

theorem walkpgdir_kend {va : Nat} {alloc : Bool} (walk : Vm.walkpgdir m d va alloc = some (m', d')) :
    m'.kend = m.kend := by
  rw [walkpgdir_eq] at walk
  split at walk
  · cases walk
    rfl
  · split_ifs at walk
    rcases kalloc_cases m with ⟨_, got⟩ | ⟨t, rest, _, got⟩
    · rw [got] at walk
      cases walk
    · rw [got] at walk
      cases walk
      rfl

theorem mappagesLoop_kend (writable user : Bool) (last : Nat) :
    ∀ n (m : Kmem) (d : Pgdir) (a pa : Nat) {r : Bool × Kmem × Pgdir},
      Vm.mappagesLoop writable user last m d a pa n = .ok r → r.2.1.kend = m.kend
  | 0, _, _, _, _, _, ran => by
      cases ran
      rfl
  | n + 1, m, d, a, pa, r, ran => by
      rw [mappagesLoop_succ] at ran
      split at ran
      · cases ran
        rfl
      next m₁ d₁ walk =>
        split at ran
        · cases ran
        · dsimp only at ran
          split at ran
          · cases ran
            exact walkpgdir_kend walk
          · exact (mappagesLoop_kend writable user last n m₁ _ _ _ ran).trans (walkpgdir_kend walk)

theorem mappages_kend {va size pa : Nat} {writable user : Bool} {r : Bool × Kmem × Pgdir}
    (ran : Vm.mappages m d va size pa writable user = .ok r) : r.2.1.kend = m.kend :=
  mappagesLoop_kend writable user _ _ m d _ pa ran

theorem mapKmap_kend : ∀ (ks : List Kmap) (m : Kmem) (d : Pgdir) {r : Bool × Kmem × Pgdir},
    Vm.mapKmap m d ks = .ok r → r.2.1.kend = m.kend
  | [], _, _, _, ran => by
      cases ran
      rfl
  | k :: rest, m, d, r, ran => by
      rw [mapKmap_cons_eq] at ran
      obtain ⟨⟨ok, m₁, d₁⟩, mapped, next⟩ := Fallible.bind_ok ran
      have first := mappages_kend mapped
      cases ok with
      | true => exact (mapKmap_kend rest m₁ d₁ next).trans first
      | false =>
          cases next
          exact first

theorem freevm_kend {pgdir : Nat} (freed : Vm.freevm m pgdir d = .ok m') : m'.kend = m.kend := by
  rw [freevm_eq] at freed
  split_ifs at freed
  obtain ⟨⟨_, m₁, d₁⟩, dealloc, rest⟩ := Fallible.bind_ok freed
  obtain ⟨m₂, folded, last⟩ := Fallible.bind_ok rest
  have first : m₁.kend = m.kend := by
    rw [deallocuvm_eq] at dealloc
    rw [if_neg (by decide)] at dealloc
    obtain ⟨⟨m₁', d₁'⟩, loop, same⟩ := Fallible.bind_ok dealloc
    cases same
    exact (deallocLoop_frame loop).2
  have tables : m₂.kend = m₁.kend := by
    refine Fallible.foldlM_invariant (P := fun m' => m'.kend = m₁.kend) (fun m i m' kept step => ?_) _ m₁
      rfl folded
    split at step
    · exact (kfree_kend step).trans kept
    · cases step
      exact kept
  exact (kfree_kend last).trans (tables.trans first)

theorem setupkvm_kend {data : Nat} {r : Option (Nat × Pgdir) × Kmem} (built : Vm.setupkvm data m = .ok r) :
    r.2.kend = m.kend := by
  rw [setupkvm_eq] at built
  rcases kalloc_cases m with ⟨_, got⟩ | ⟨pgdir, rest, _, got⟩
  · rw [got] at built
    cases built
    rfl
  · rw [got] at built
    dsimp only at built
    rw [if_neg (by decide)] at built
    obtain ⟨⟨ok, m₁, d₁⟩, mapped, next⟩ := Fallible.bind_ok built
    have first : m₁.kend = m.kend := mapKmap_kend _ _ _ mapped
    cases ok with
    | true =>
        cases next
        exact first
    | false =>
        obtain ⟨m₂, freed, done⟩ := Fallible.bind_ok next
        cases done
        exact (freevm_kend freed).trans first

/-- The free list and the held pages alone keep their part of `Owns`. -/
theorem Owns.forget (owns : Owns m d held) : Owns m Pgdir.empty held where
  nodup := owns.nodup
  spare := owns.spare
  user _ _ entry := by cases entry
  table _ _ found := by cases found
  userInj _ _ _ _ entry := by cases entry
  tableInj _ _ _ _ found := by cases found
  apart _ _ _ _ found := by cases found

/-- deallocuvm's loop below `KERNBASE` reads and writes only what the view
keeps. -/
theorem deallocLoop_owned (m : Kmem) (d : Pgdir) {oldsz : Nat} (low : oldsz ≤ kernBase) (a : Nat) :
    (deallocLoop m d oldsz a).map (fun r => (r.1, r.2.owned)) = deallocLoop m d.owned oldsz a := by
  induction m, d, a using deallocLoop_induct oldsz with
  | case1 m d a below walk next =>
      have walk' : Vm.walkpgdir m d.owned a false = none := by
        rw [← walkpgdir_owned, walk]
        rfl
      conv_lhs => rw [deallocLoop_eq, if_pos below, walk]
      conv_rhs => rw [deallocLoop_eq, if_pos below, walk']
      exact next
  | case2 m d a below walked walk absent next =>
      have walk' : Vm.walkpgdir m d.owned a false = some (walked.1, walked.2.owned) := by
        rw [← walkpgdir_owned, walk]
        rfl
      have same := entries_owned_of_lt d (Nat.lt_of_lt_of_le below low)
      conv_lhs => rw [deallocLoop_eq, if_pos below, walk]
      conv_rhs => rw [deallocLoop_eq, if_pos below, walk']
      dsimp only
      rw [same, absent]
      exact next
  | case3 m d a below walked walk pte present null =>
      have walk' : Vm.walkpgdir m d.owned a false = some (walked.1, walked.2.owned) := by
        rw [← walkpgdir_owned, walk]
        rfl
      have same := entries_owned_of_lt d (Nat.lt_of_lt_of_le below low)
      conv_lhs => rw [deallocLoop_eq, if_pos below, walk]
      conv_rhs => rw [deallocLoop_eq, if_pos below, walk']
      dsimp only
      rw [same, present]
      dsimp only
      rw [if_pos null, if_pos null]
      rfl
  | case4 m d a below walked walk pte present live next =>
      have walk' : Vm.walkpgdir m d.owned a false = some (walked.1, walked.2.owned) := by
        rw [← walkpgdir_owned, walk]
        rfl
      have inUser := page_lt_of_lt (Nat.lt_of_lt_of_le below low)
      have same := entries_owned_of_lt d (Nat.lt_of_lt_of_le below low)
      conv_lhs => rw [deallocLoop_eq, if_pos below, walk]
      conv_rhs => rw [deallocLoop_eq, if_pos below, walk']
      dsimp only
      rw [same, present]
      dsimp only
      rw [if_neg live, if_neg live]
      rcases freed : kfree m (p2v pte.addr) with e | m'
      · rfl
      · rw [Fallible.ok_bind, Fallible.ok_bind, ← Pgdir.owned_set_user inUser]
        exact next m'
  | case5 m d a above =>
      conv_lhs => rw [deallocLoop_eq, if_neg above]
      conv_rhs => rw [deallocLoop_eq, if_neg above]
      rfl

/-- Taking a page table out of a directory without PTEs leaves its page with
the caller. -/
theorem Owns.untable {i t : Nat} (owns : Owns m d held) (noEntries : ∀ u, d.entries u = none)
    (found : d.tables i = some t) :
    Owns m (d.dropTables [i]) (p2v t :: held) ∧ Pool m (d.dropTables [i]) (p2v t :: held) = Pool m d held := by
  obtain ⟨page, notSpare⟩ := owns.table i t found
  have widen : ∀ v ∈ m.freelist ++ p2v t :: held, v = p2v t ∨ v ∈ m.freelist ++ held := by
    intro v spare
    rw [List.mem_append, List.mem_cons] at spare
    rcases spare with free | rfl | kept
    · exact .inr (List.mem_append_left _ free)
    · exact .inl rfl
    · exact .inr (List.mem_append_right _ kept)
  have kept : ∀ {j t'}, (d.dropTables [i]).tables j = some t' → j ≠ i ∧ d.tables j = some t' := by
    intro j t' found'
    rw [Pgdir.dropTables_tables] at found'
    by_cases here : j = i
    · rw [if_pos (List.mem_singleton.mpr here)] at found'
      cases found'
    · rw [if_neg (by simpa using here)] at found'
      exact ⟨here, found'⟩
  refine ⟨⟨List.nodup_middle.mpr (List.nodup_cons.mpr ⟨notSpare, owns.nodup⟩), fun v spare => ?_,
    fun u e entry => ?_, fun j t' found' => ?_, fun u _ e _ entry => ?_,
    fun j j' t₁ t₂ found₁ found₂ same => owns.tableInj j j' t₁ t₂ (kept found₁).2 (kept found₂).2 same,
    fun j t' u e _ entry => ?_⟩, ?_⟩
  · rcases widen v spare with rfl | old
    · exact page
    · exact owns.spare v old
  · rw [Pgdir.dropTables_entries, noEntries] at entry
    cases entry
  · obtain ⟨other, old⟩ := kept found'
    obtain ⟨page', notSpare'⟩ := owns.table j t' old
    refine ⟨page', fun spare => ?_⟩
    rcases widen _ spare with same | free
    · have sameTable : t' = t := by
        unfold p2v at same
        omega
      exact other (owns.tableInj j i t' t old found sameTable)
    · exact notSpare' free
  · rw [Pgdir.dropTables_entries, noEntries] at entry
    cases entry
  · rw [Pgdir.dropTables_entries, noEntries] at entry
    cases entry
  · funext v
    unfold Pool
    apply propext
    constructor
    · rintro (spare | ⟨u, e, entry, -⟩ | ⟨j, t', found', rfl⟩)
      · rcases widen v spare with rfl | old
        · exact .inr (.inr ⟨i, t, found, rfl⟩)
        · exact .inl old
      · rw [Pgdir.dropTables_entries, noEntries] at entry
        cases entry
      · exact .inr (.inr ⟨j, t', (kept found').2, rfl⟩)
    · rintro (spare | ⟨u, e, entry, -⟩ | ⟨j, t', found', rfl⟩)
      · rw [List.mem_append] at spare ⊢
        rcases spare with free | old
        · exact .inl (.inl free)
        · exact .inl (.inr (List.mem_cons_of_mem _ old))
      · rw [noEntries] at entry
        cases entry
      · by_cases here : j = i
        · rw [here, found] at found'
          cases found'
          exact .inl (List.mem_append_right _ List.mem_cons_self)
        · refine .inr (.inr ⟨j, t', ?_, rfl⟩)
          rw [Pgdir.dropTables_tables, if_neg (by simpa using here)]
          exact found'

/-- freevm's loop over the directory entries, whose step `free` kfrees the
page table of each entry that has one: every page table goes back on the
free list. -/
theorem Owns.freeTables {T : Nat → Option Nat} (free : Kmem → Nat → Except String Kmem)
    (freed : ∀ m i t, T i = some t → free m i = Vm.kfree m (p2v t))
    (skipped : ∀ m i, T i = none → free m i = .ok m) :
    ∀ (l : List Nat) {m : Kmem} {d : Pgdir}, l.Nodup → (∀ u, d.entries u = none) →
      (∀ i ∈ l, d.tables i = T i) → Owns m d held →
      ∃ m', l.foldlM free m = .ok m' ∧ Owns m' (d.dropTables l) held ∧
        Pool m' (d.dropTables l) held = Pool m d held
  | [], m, d, _, _, _, owns => by
      have none : d.dropTables [] = d := Pgdir.eq_of_entries (funext fun _ => rfl) fun _ => rfl
      exact ⟨m, rfl, by rw [none]; exact owns, by rw [none]⟩
  | i :: rest, m, d, nodup, noEntries, agree, owns => by
      rw [List.nodup_cons] at nodup
      have agreeRest : ∀ j ∈ rest, (d.dropTables [i]).tables j = T j := fun j member => by
        have other : j ∉ [i] := by
          rw [List.mem_singleton]
          rintro rfl
          exact nodup.1 member
        rw [Pgdir.dropTables_tables, if_neg other]
        exact agree j (List.mem_cons_of_mem i member)
      rw [List.foldlM_cons, ← Pgdir.dropTables_cons]
      cases table : T i with
      | none =>
          have absent : d.tables i = none := (agree i List.mem_cons_self).trans table
          rw [skipped m i table, Fallible.ok_bind, Pgdir.dropTables_of_none absent]
          rw [Pgdir.dropTables_of_none absent] at agreeRest
          exact Owns.freeTables free freed skipped rest nodup.2 noEntries agreeRest owns
      | some t =>
          obtain ⟨owns₁, pool₁⟩ := owns.untable noEntries ((agree i List.mem_cons_self).trans table)
          obtain ⟨kfreed, owns₂, pool₂⟩ := owns₁.kfree
          obtain ⟨m', ran, owns', pool'⟩ :=
            Owns.freeTables free freed skipped rest (d := d.dropTables [i]) nodup.2 noEntries agreeRest owns₂
          refine ⟨m', ?_, owns', pool'.trans (pool₂.trans pool₁)⟩
          rw [freed m i t table, kfreed, Fallible.ok_bind]
          exact ran

theorem Pgdir.empty_owned : Pgdir.empty.owned = Pgdir.empty :=
  eq_of_entries rfl fun u => by
    rw [owned_entries]
    split_ifs <;> rfl

/-- freevm after deallocuvm, on a directory with no PTE left: its loop frees
every page table, then kfree frees the directory's own page. -/
theorem Owns.freevm_tail {V : Pgdir} {T : Nat → Option Nat} {pgdir : Nat}
    {free : Kmem → Nat → Except String Kmem} {P : Nat → Prop}
    (freed : ∀ m i t, T i = some t → free m i = Vm.kfree m (p2v t))
    (skipped : ∀ m i, T i = none → free m i = .ok m)
    (owns : Owns m V (pgdir :: held)) (noEntries : ∀ u, V.entries u = none) (agree : V.tables = T)
    (bounded : V.Bounded) (pool : Pool m V (pgdir :: held) = P) :
    ∃ m', ((List.range nPdEntries).foldlM free m >>= fun m => Vm.kfree m pgdir) = .ok m' ∧
      Owns m' Pgdir.empty held ∧ Pool m' Pgdir.empty held = P := by
  obtain ⟨m₂, folded, owns₂, pool₂⟩ := Owns.freeTables free freed skipped (List.range nPdEntries)
    List.nodup_range noEntries (fun i _ => congrFun agree i) owns
  have emptied : V.dropTables (List.range nPdEntries) = Pgdir.empty := by
    refine Pgdir.eq_of_entries (funext fun i => ?_) fun u => ?_
    swap
    · rw [Pgdir.dropTables_entries, noEntries]
      rfl
    rw [Pgdir.dropTables_tables]
    split_ifs with inRange
    · rfl
    · cases found : V.tables i with
      | none => rfl
      | some t => exact absurd (List.mem_range.mpr (bounded i t found)) inRange
  rw [emptied] at owns₂ pool₂
  obtain ⟨kfreed, owns₃, pool₃⟩ := owns₂.kfree
  refine ⟨_, ?_, owns₃, pool₃.trans (pool₂.trans pool)⟩
  rw [folded, Fallible.ok_bind]
  exact kfreed

/-- freevm of a directory whose own page the caller holds: every page the
directory holds goes back on the free list, and it never panics. -/
theorem Owns.freevm {pgdir : Nat} (owns : Owns m d.owned (pgdir :: held)) (tabled : d.owned.Tabled)
    (bounded : d.Bounded) :
    ∃ m', Vm.freevm m pgdir d = .ok m' ∧ Owns m' Pgdir.empty held ∧
      Pool m' Pgdir.empty held = Pool m d.owned (pgdir :: held) := by
  have page := owns.spare pgdir (List.mem_append_right _ List.mem_cons_self)
  have nonzero : pgdir ≠ 0 := by
    have above := m.above
    have low := page.2.1
    omega
  -- the user pages, through the view
  obtain ⟨m₁, loop, owns₁, pool₁⟩ := owns.deallocLoop tabled kernBase (a := 0) (by decide)
  have whole := deallocLoop_owned m d (Nat.le_refl kernBase) 0
  rw [loop] at whole
  obtain ⟨⟨m₁', D⟩, dealloc, viewed⟩ := Fallible.map_eq_ok whole
  simp only [Prod.mk.injEq] at viewed
  obtain ⟨same, viewed⟩ := viewed
  rw [same] at dealloc
  have tables : D.tables = d.tables := by
    rw [← Pgdir.owned_tables D, viewed]
    rfl
  have deallocated : Vm.deallocuvm m d kernBase 0 = .ok (0, m₁, D) := by
    rw [deallocuvm_eq]
    rw [if_neg (by decide), show pgroundup 0 = 0 by decide, dealloc]
    rfl
  -- then every page table, and the directory's own page
  rw [freevm_eq, if_neg nonzero, deallocated, Fallible.ok_bind]
  dsimp only
  -- the loop's step is freevm's own lambda, fixed by unifying with the goal
  refine Owns.freevm_tail (T := D.tables) ?_ ?_ owns₁ (Pgdir.owned_entries_eq_none (Nat.le_refl _)) ?_
    (fun i t found => bounded i t found) pool₁
  · intro m i t found
    simp only [found]
  · intro m i absent
    simp only [absent]
  · rw [tables]
    rfl

/-! ## setupkvm -/

/-- The pages held when nothing is mapped and nothing is held: the free list. -/
theorem pool_empty (m : Kmem) : Pool m Pgdir.empty [] = (· ∈ m.freelist) := by
  funext v
  unfold Pool
  apply propext
  constructor
  · rintro (free | ⟨u, e, entry, -⟩ | ⟨i, t, found, -⟩)
    · rwa [List.append_nil] at free
    · cases entry
    · cases found
  · intro free
    exact .inl (by rwa [List.append_nil])

/-- Two free lists of pages held once, with the same pages: one is the other
in some order. -/
theorem Owns.perm_of_pool (owns : Owns m Pgdir.empty []) (owns' : Owns m' Pgdir.empty [])
    (pool : Pool m' Pgdir.empty [] = Pool m Pgdir.empty []) : m'.freelist.Perm m.freelist := by
  rw [pool_empty, pool_empty] at pool
  have nodup := owns.nodup
  have nodup' := owns'.nodup
  rw [List.append_nil] at nodup nodup'
  exact (List.perm_ext_iff_of_nodup nodup' nodup).mpr fun v => by rw [← eq_iff_iff]; exact congrFun pool v

theorem Pgdir.empty_tabled : Pgdir.empty.owned.Tabled := by
  intro u e entry
  rw [Pgdir.empty_owned] at entry
  cases entry

theorem Pgdir.empty_bounded : Pgdir.empty.Bounded := fun _ _ found => by cases found

/-- setupkvm from a free list of pages held once: it returns 0 with every page
back on the free list, or a directory whose own page the caller holds and
whose view holds only page tables, with no page lost; it never panics. -/
theorem Owns.setupkvm {data : Nat} (aligned : data % pgSize = 0) (linked : kernLink < data)
    (inMemory : data < p2v phyStop) (owns : Owns m Pgdir.empty []) :
    ∃ r m', Vm.setupkvm data m = .ok (r, m') ∧
      (r = none ∧ Owns m' Pgdir.empty [] ∧ Pool m' Pgdir.empty [] = Pool m Pgdir.empty [] ∨
        ∃ pgdir d, r = some (pgdir, d) ∧ Owns m' d.owned [pgdir] ∧ d.owned.Tabled ∧ d.Bounded ∧
          (∀ u, d.owned.entries u = none) ∧ Pool m' d.owned [pgdir] = Pool m Pgdir.empty []) := by
  rw [setupkvm_eq]
  rcases kalloc_cases m with ⟨_, got⟩ | ⟨r, rest, _, got⟩
  · rw [got]
    exact ⟨none, m, rfl, .inl ⟨rfl, owns, rfl⟩⟩
  · rw [got]
    dsimp only
    rw [if_neg (by decide)]
    obtain ⟨owns₀, pool₀⟩ := owns.kalloc got
    have viewed₀ : Owns { m with freelist := rest } Pgdir.empty.owned [r] := by
      rw [Pgdir.empty_owned]
      exact owns₀
    obtain ⟨⟨ok, m₁, d₁⟩, mapped⟩ := mapKmap_ok (kmap data) { m with freelist := rest } Pgdir.empty
      (kmap_size_pos linked inMemory) (kmap_apart aligned linked inMemory) fun _ _ _ _ => rfl
    obtain ⟨owns₁, tabled₁, bounded₁, entries₁, pool₁⟩ :=
      Owns.mapKmap (kmap data) (kmap_kernel linked inMemory) viewed₀ Pgdir.empty_tabled Pgdir.empty_bounded mapped
    rw [Pgdir.empty_owned] at entries₁ pool₁
    rw [mapped, Fallible.ok_bind]
    dsimp only
    cases ok with
    | true =>
        refine ⟨_, _, rfl, .inr ⟨r, d₁, rfl, owns₁, tabled₁, bounded₁, fun u => ?_, pool₁.trans pool₀⟩⟩
        rw [entries₁]
        rfl
    | false =>
        obtain ⟨m₂, freed, owns₂, pool₂⟩ := owns₁.freevm tabled₁ bounded₁
        rw [if_neg Bool.false_ne_true, freed, Fallible.ok_bind]
        exact ⟨_, _, rfl, .inl ⟨rfl, owns₂, pool₂.trans (pool₁.trans pool₀)⟩⟩

/-! ## The PTEs of whole directories -/

/-- kalloc hands out a page of the free list and keeps the rest of it. -/
theorem kalloc_taken {r : Nat} (got : kalloc m = (some r, m')) :
    r ∈ m.freelist ∧ ∀ v ∈ m'.freelist, v ∈ m.freelist := by
  rcases kalloc_cases m with ⟨_, empty⟩ | ⟨r', rest, list, found⟩
  · rw [empty] at got
    cases got
  · rw [found] at got
    cases got
    rw [list]
    exact ⟨List.mem_cons_self, fun v kept => List.mem_cons_of_mem r kept⟩

/-- Addresses outside the page at an aligned `a` lie in other pages. -/
theorem page_ne {a v : Nat} (aligned : a % pgSize = 0) (outside : v < a ∨ a + pgSize ≤ v) :
    v / pgSize ≠ a / pgSize := by
  unfold pgSize at *
  omega

theorem Pgdir.entries_of_pte {va : Nat} {e : Pte} (present : d.pte va = some e) :
    d.entries (va / pgSize) = some e := by
  unfold Pgdir.pte at present
  split at present
  · exact present
  · cases present

/-- The view shows the PTEs below `KERNBASE`. -/
theorem Pgdir.owned_pte {va : Nat} (below : va < kernBase) : d.owned.pte va = d.pte va := by
  unfold Pgdir.pte
  rw [owned_tables, entries_owned_of_lt d below]

/-- Where every PTE lies in a page table, a PTE walkpgdir does not find is
not there at all. -/
theorem Pgdir.Tabled.entries_of_pte_none (tabled : d.Tabled) {va : Nat} (absent : d.pte va = none) :
    d.entries (va / pgSize) = none := by
  unfold Pgdir.pte at absent
  split at absent
  · exact absent
  case h_2 noTable =>
    cases entry : d.entries (va / pgSize) with
    | none => rfl
    | some e =>
        obtain ⟨t, table⟩ := tabled _ e entry
        rw [← pdx_eq_div, noTable] at table
        cases table

/-- A page a whole directory maps below `KERNBASE` is a page its holder does
not have free. -/
theorem Owns.frame_of_pte (owns : Owns m d.owned held) {va : Nat} {e : Pte} (below : va < kernBase)
    (present : d.pte va = some e) : m.Page (p2v e.addr) ∧ p2v e.addr ∉ m.freelist ++ held := by
  have entry := Pgdir.entries_of_pte present
  rw [← entries_owned_of_lt d below] at entry
  exact owns.user _ e entry

/-- The PTEs after mappages' one page at `a`: that page's, and the others as
before walkpgdir. -/
theorem pte_after_walk {a : Nat} {d₁ : Pgdir} (walk : Vm.walkpgdir m d a true = some (m', d₁))
    (x : Option Pte) (v : Nat) :
    (d₁.set (a / pgSize) x).pte v = if v / pgSize = a / pgSize then x else d.pte v := by
  obtain ⟨same, table⟩ := walkpgdir_pte walk
  rw [Pgdir.pte_set table, same]

/-! ## Holding one more page, freeing fewer -/

theorem mem_middle {r v : Nat} {l l' : List Nat} : v ∈ l ++ r :: l' ↔ v = r ∨ v ∈ l ++ l' :=
  List.perm_middle.mem_iff.trans List.mem_cons

theorem pool_cons {r v : Nat} : Pool m d (r :: held) v ↔ v = r ∨ Pool m d held v := by
  unfold Pool
  rw [mem_middle]
  constructor
  · rintro ((same | spare) | rest)
    · exact .inl same
    · exact .inr (.inl spare)
    · exact .inr (.inr rest)
  · rintro (same | spare | rest)
    · exact .inl (.inl same)
    · exact .inl (.inr spare)
    · exact .inr rest

/-- A page outside all that the free list, the holder and `d` hold can be
held as well. -/
theorem Owns.hold {r : Nat} (owns : Owns m d held) (page : m.Page r) (outside : ¬ Pool m d held r) :
    Owns m d (r :: held) where
  nodup := List.nodup_middle.mpr (List.nodup_cons.mpr ⟨fun spare => outside (.inl spare), owns.nodup⟩)
  spare v spare := by
    rcases mem_middle.mp spare with rfl | kept
    · exact page
    · exact owns.spare v kept
  user u e entry := by
    obtain ⟨page', notSpare⟩ := owns.user u e entry
    refine ⟨page', fun spare => ?_⟩
    rcases mem_middle.mp spare with same | kept
    · exact outside (.inr (.inl ⟨u, e, entry, same.symm⟩))
    · exact notSpare kept
  table i t found := by
    obtain ⟨page', notSpare⟩ := owns.table i t found
    refine ⟨page', fun spare => ?_⟩
    rcases mem_middle.mp spare with same | kept
    · exact outside (.inr (.inr ⟨i, t, found, same.symm⟩))
    · exact notSpare kept
  userInj := owns.userInj
  tableInj := owns.tableInj
  apart := owns.apart

/-- With fewer pages free, and the same end of the kernel, the pages `d`
holds are still held once and not free. -/
theorem Owns.of_subset (owns : Owns m d []) (nodup : m'.freelist.Nodup) (kend : m'.kend = m.kend)
    (fewer : ∀ v ∈ m'.freelist, v ∈ m.freelist) : Owns m' d [] where
  nodup := by rwa [List.append_nil]
  spare v spare := by
    rw [List.append_nil] at spare
    have page := owns.spare v (List.mem_append_left _ (fewer v spare))
    unfold Kmem.Page at page ⊢
    rwa [kend]
  user u e entry := by
    obtain ⟨page, notSpare⟩ := owns.user u e entry
    unfold Kmem.Page at page ⊢
    rw [kend, List.append_nil]
    rw [List.append_nil] at notSpare
    exact ⟨page, fun spare => notSpare (fewer _ spare)⟩
  table i t found := by
    obtain ⟨page, notSpare⟩ := owns.table i t found
    unfold Kmem.Page at page ⊢
    rw [kend, List.append_nil]
    rw [List.append_nil] at notSpare
    exact ⟨page, fun spare => notSpare (fewer _ spare)⟩
  userInj := owns.userInj
  tableInj := owns.tableInj
  apart := owns.apart

end Vm
end Xv6
