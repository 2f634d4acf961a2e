import Xv6.Vm.Whole
import Xv6.Kernel.String

/-!
# copyuvm

fork's copy of the parent's memory: setupkvm's new directory with the kernel
mappings, then for each page below `sz` a page from kalloc holding the
parent's bytes, mapped at the same address with the same `PTE_W` and `PTE_U`.
When kalloc or mappages runs out, `bad:` frees the new directory with
freevm, after the page in hand.

copyuvm carries the bytes, as `Vm.Kvm` gives setupkvm and freevm with them.
Every byte they write is in a page of the free list they started with: the
directory's page and the page tables, which they zero, the pages they fill,
and the pages they free, which kfree fills with junk.  So the parent's pages
keep their bytes, and a copy once made stays as it was made.
-/

namespace Xv6
namespace Vm

/-- `memmove(dst, src, n)` for ranges that do not wrap, where it is string.c's
memmove over the same bytes (`kernel_memmove_eq`). -/
def memmove (mem : Nat → UInt8) (dst src n : Nat) : Nat → UInt8 :=
  fun a => if dst ≤ a ∧ a < dst + n then mem (src + (a - dst)) else mem a

/-- `mem'` differs from `mem` only inside pages whose address satisfies `P`. -/
def Within (P : Nat → Prop) (mem mem' : Nat → UInt8) : Prop :=
  ∀ a, mem' a ≠ mem a → ∃ v, P v ∧ v ≤ a ∧ a < v + pgSize

namespace Phys

/-- copyuvm's loop over the parent's pages from `i` below `sz`: each is copied
into a page from kalloc, mapped at the same address of `d` with the parent's
`PTE_W` and `PTE_U`; `false` for `goto bad`, after kfree of the page in hand
when mappages failed. -/
def copyLoop (parent : Pgdir) (sz : Nat) (m : Kmem) (mem : Nat → UInt8) (d : Pgdir) (i : Nat) :
    Except String ((Bool × Kmem × Pgdir) × (Nat → UInt8)) :=
  if i < sz then
    match Vm.walkpgdir m parent i false with
    | none => .error "copyuvm: pte should exist"
    | some _ =>
        match parent.entries (i / pgSize) with
        | none => .error "copyuvm: page not present"
        | some pte =>
            match kalloc m with
            | (none, _) => .ok ((false, m, d), mem)
            | (some page, m₁) => do
                let mem₁ := memmove mem page (p2v pte.addr) pgSize
                let ((ok, m₂, d₂), mem₂) ← mappages m₁ mem₁ d i pgSize (v2p page) pte.writable pte.user
                if ok then copyLoop parent sz m₂ mem₂ d₂ (i + pgSize)
                else
                  let (m₃, mem₃) ← kfree m₂ mem₂ page
                  return ((false, m₃, d₂), mem₃)
  else .ok ((true, m, d), mem)
termination_by sz - i
decreasing_by
  simp only [pgSize]
  omega

/-- copyuvm: the child's directory, held in the page returned with it, or
`none` for 0 once `bad:` has freed what it took. -/
def copyuvm (data : Nat) (m : Kmem) (mem : Nat → UInt8) (parent : Pgdir) (sz : Nat) :
    Except String ((Option (Nat × Pgdir) × Kmem) × (Nat → UInt8)) := do
  let ((r, m), mem) ← setupkvm data m mem
  match r with
  | none => return ((none, m), mem)
  | some (pgdir, d) =>
      let ((ok, m, d), mem) ← copyLoop parent sz m mem d 0
      if ok then return ((some (pgdir, d), m), mem)
      else
        let (m, mem) ← freevm m mem pgdir d
        return ((none, m), mem)

end Phys

/-! ## Footprints -/

section Footprint

variable {P Q : Nat → Prop} {mem mem₁ mem₂ : Nat → UInt8}

theorem Within.refl (P : Nat → Prop) (mem : Nat → UInt8) : Within P mem mem :=
  fun _ changed => absurd rfl changed

theorem Within.trans (first : Within P mem mem₁) (second : Within P mem₁ mem₂) : Within P mem mem₂ := by
  intro a changed
  by_cases same : mem₁ a = mem a
  · exact second a (by rwa [same])
  · exact first a same

theorem Within.mono (within : Within P mem mem₁) (wider : ∀ v, P v → Q v) : Within Q mem mem₁ := by
  intro a changed
  obtain ⟨v, inside, low, high⟩ := within a changed
  exact ⟨v, wider v inside, low, high⟩

theorem within_memset {v : Nat} (inside : P v) (mem : Nat → UInt8) (c : UInt8) :
    Within P mem (memset mem v c pgSize) := by
  intro a changed
  by_cases here : v ≤ a ∧ a < v + pgSize
  · exact ⟨v, inside, here⟩
  · exact absurd (memset_of_not_mem c here) changed

theorem within_memmove {v : Nat} (inside : P v) (mem : Nat → UInt8) (src : Nat) :
    Within P mem (memmove mem v src pgSize) := by
  intro a changed
  by_cases here : v ≤ a ∧ a < v + pgSize
  · exact ⟨v, inside, here⟩
  · exact absurd (if_neg here) changed

/-- A page none of whose bytes lies in a page of `P` keeps its bytes. -/
theorem Within.page_eq (within : Within P mem mem₁) {c : Nat} (alignedC : c % pgSize = 0)
    (aligned : ∀ v, P v → v % pgSize = 0) (outside : ¬ P c) {k : Nat} (below : k < pgSize) :
    mem₁ (c + k) = mem (c + k) := by
  by_contra changed
  obtain ⟨v, inside, low, high⟩ := within _ changed
  have apart : c ≠ v := fun same => outside (same ▸ inside)
  exact not_mem_page alignedC (aligned v inside) apart below ⟨low, high⟩

theorem memmove_page (mem : Nat → UInt8) (dst src : Nat) {k : Nat} (below : k < pgSize) :
    memmove mem dst src pgSize (dst + k) = mem (src + k) := by
  unfold memmove
  rw [if_pos ⟨Nat.le_add_right _ _, Nat.add_lt_add_left below _⟩, Nat.add_sub_cancel_left]

/-- On addresses below 2^32 and ranges that do not wrap, string.c's memmove
over the same bytes is `memmove`. -/
theorem kernel_memmove_eq (mem : Nat → UInt8) {dst src n : Nat} (srcFits : src + n < 2 ^ 32)
    (dstFits : dst + n < 2 ^ 32) (a : UInt32) :
    Kernel.memmove (fun b => mem b.toNat) (UInt32.ofNat dst) (UInt32.ofNat src) (UInt32.ofNat n) a =
      memmove mem dst src n a.toNat := by
  have dstNat : (UInt32.ofNat dst).toNat = dst := by
    rw [UInt32.toNat_ofNat', Nat.mod_eq_of_lt (by omega)]
  have srcNat : (UInt32.ofNat src).toNat = src := by
    rw [UInt32.toNat_ofNat', Nat.mod_eq_of_lt (by omega)]
  have nNat : (UInt32.ofNat n).toNat = n := by
    rw [UInt32.toNat_ofNat', Nat.mod_eq_of_lt (by omega)]
  have bound := a.toNat_lt
  rw [Kernel.memmove_eq_moveThroughBuffer _ (by omega) (by omega)]
  unfold Kernel.moveThroughBuffer memmove
  by_cases inside : dst ≤ a.toNat ∧ a.toNat < dst + n
  · have offset : (a - UInt32.ofNat dst).toNat = a.toNat - dst := by
      rw [UInt32.toNat_sub, dstNat]
      omega
    rw [if_pos (by rw [UInt32.lt_iff_toNat_lt, offset, nNat]; omega), if_pos inside]
    show mem (UInt32.ofNat src + (a - UInt32.ofNat dst)).toNat = mem (src + (a.toNat - dst))
    rw [UInt32.toNat_add, srcNat, offset]
    congr 1
    omega
  · have offset : n ≤ (a - UInt32.ofNat dst).toNat := by
      rw [UInt32.toNat_sub, dstNat]
      omega
    rw [if_neg (by rw [UInt32.lt_iff_toNat_lt, nNat]; omega), if_neg inside]

end Footprint

namespace Phys

/-! ## Which bytes change -/

variable {P : Nat → Prop} {m : Kmem} {mem : Nat → UInt8} {d : Pgdir}

theorem kfree_within {v : Nat} {r : Kmem × (Nat → UInt8)} (freed : kfree m mem v = .ok r) :
    Within (· = v) mem r.2 := by
  rw [kfree_eq] at freed
  split_ifs at freed
  cases freed
  exact within_memset (P := fun x => x = v) rfl mem 1

/-- walkpgdir writes at most the page table it takes off the free list. -/
theorem walkpgdir_within {va : Nat} {alloc : Bool} {walked : (Kmem × Pgdir) × (Nat → UInt8)}
    (walk : walkpgdir m mem d va alloc = some walked) :
    Within (· ∈ m.freelist) mem walked.2 ∧ ∀ v ∈ walked.1.1.freelist, v ∈ m.freelist := by
  have dropped := walkpgdir_map_fst m mem d va alloc
  rw [walk, Option.map_some] at dropped
  refine ⟨?_, walkpgdir_freelist dropped.symm⟩
  rcases walkpgdir_bytes walk with same | ⟨t, head, zeroed⟩
  · rw [same]
    exact Within.refl _ mem
  · rw [zeroed]
    exact within_memset (List.mem_of_head? head) mem 0

/-- mappages' loop writes only page tables it takes off the free list. -/
theorem mappagesLoop_within (writable user : Bool) (last : Nat) :
    ∀ n (m : Kmem) (mem : Nat → UInt8) (d : Pgdir) (a pa : Nat) {r : (Bool × Kmem × Pgdir) × (Nat → UInt8)},
      mappagesLoop writable user last m mem d a pa n = .ok r →
      Within (· ∈ m.freelist) mem r.2 ∧ ∀ v ∈ r.1.2.1.freelist, v ∈ m.freelist := by
  intro n
  induction n with
  | zero =>
      intro m mem d a pa r ran
      cases ran
      exact ⟨Within.refl _ mem, fun _ kept => kept⟩
  | succ n inductionHypothesis =>
      intro m mem d a pa r ran
      rw [mappagesLoop] at ran
      rcases walk : walkpgdir m mem d a true with _ | ⟨⟨m₁, d₁⟩, mem₁⟩
      · rw [walk] at ran
        cases ran
        exact ⟨Within.refl _ mem, fun _ kept => kept⟩
      · rw [walk] at ran
        obtain ⟨written₁, taken₁⟩ := walkpgdir_within walk
        dsimp only at ran written₁ taken₁
        split at ran
        · cases ran
        · split at ran
          · cases ran
            exact ⟨written₁, taken₁⟩
          · obtain ⟨written, taken⟩ := inductionHypothesis m₁ mem₁ _ _ _ ran
            exact ⟨written₁.trans (written.mono taken₁), fun v kept => taken₁ v (taken v kept)⟩

theorem mappages_within {va size pa : Nat} {writable user : Bool} {r : (Bool × Kmem × Pgdir) × (Nat → UInt8)}
    (ran : mappages m mem d va size pa writable user = .ok r) :
    Within (· ∈ m.freelist) mem r.2 ∧ ∀ v ∈ r.1.2.1.freelist, v ∈ m.freelist :=
  mappagesLoop_within writable user _ _ m mem d _ pa ran

/-- setupkvm's loop writes only page tables it takes off the free list. -/
theorem mapKmap_within : ∀ (ks : List Kmap) (m : Kmem) (mem : Nat → UInt8) (d : Pgdir)
    {r : (Bool × Kmem × Pgdir) × (Nat → UInt8)}, mapKmap m mem d ks = .ok r →
    Within (· ∈ m.freelist) mem r.2 ∧ ∀ v ∈ r.1.2.1.freelist, v ∈ m.freelist
  | [], _, mem, _, _, ran => by
      cases ran
      exact ⟨Within.refl _ mem, fun _ kept => kept⟩
  | k :: rest, m, mem, d, r, ran => by
      rw [mapKmap] at ran
      obtain ⟨⟨⟨ok, m₁, d₁⟩, mem₁⟩, mapped, next⟩ := Fallible.bind_ok ran
      obtain ⟨written₁, taken₁⟩ := mappages_within mapped
      dsimp only at next written₁ taken₁
      cases ok with
      | true =>
          rw [if_pos rfl] at next
          obtain ⟨written, taken⟩ := mapKmap_within rest m₁ mem₁ d₁ next
          exact ⟨written₁.trans (written.mono taken₁), fun v kept => taken₁ v (taken v kept)⟩
      | false =>
          rw [if_neg Bool.false_ne_true] at next
          cases next
          exact ⟨written₁, taken₁⟩

/-- deallocuvm's loop writes only the user pages it frees. -/
theorem deallocLoop_within {oldsz a : Nat} {r : (Kmem × Pgdir) × (Nat → UInt8)}
    (ran : deallocLoop m mem d oldsz a = .ok r) :
    Within (fun v => ∃ u e, d.entries u = some e ∧ u * pgSize < oldsz ∧ v = p2v e.addr) mem r.2 := by
  induction m, mem, d, a using deallocLoop.induct oldsz generalizing r with
  | case1 m mem d a below walk next =>
      rw [deallocLoop, if_pos below, walk] at ran
      exact next ran
  | case2 m mem d a below walked walk absent next =>
      rw [deallocLoop, if_pos below, walk] at ran
      dsimp only at ran
      rw [absent] at ran
      exact next ran
  | case3 m mem d a below walked walk pte present null =>
      rw [deallocLoop, if_pos below, walk] at ran
      dsimp only at ran
      rw [present] at ran
      dsimp only at ran
      rw [if_pos null] at ran
      cases ran
  | case4 m mem d a below walked walk pte present live next =>
      rw [deallocLoop, if_pos below, walk] at ran
      dsimp only at ran
      rw [present] at ran
      dsimp only at ran
      rw [if_neg live] at ran
      obtain ⟨⟨m₁, mem₁⟩, freed, rest⟩ := Fallible.bind_ok ran
      have page : a / pgSize * pgSize < oldsz := Nat.lt_of_le_of_lt (Nat.div_mul_le_self a pgSize) below
      refine (kfree_within freed).mono (fun v same => ⟨a / pgSize, pte, present, page, same⟩) |>.trans ?_
      refine (next m₁ mem₁ rest).mono ?_
      rintro v ⟨u, e, entry, low, same⟩
      refine ⟨u, e, ?_, low, same⟩
      by_cases here : u = a / pgSize
      · rw [here, Pgdir.set_entries, Function.update_self] at entry
        cases entry
      · rwa [Pgdir.set_entries, Function.update_of_ne here] at entry
  | case5 m mem d a above =>
      rw [deallocLoop, if_neg above] at ran
      cases ran
      exact Within.refl _ mem

/-- A loop whose every step writes within pages of `P` writes within them. -/
theorem within_foldlM {ι σ : Type} {f : σ × (Nat → UInt8) → ι → Except String (σ × (Nat → UInt8))}
    (step : ∀ s mem i r, f (s, mem) i = .ok r → Within P mem r.2) :
    ∀ (l : List ι) (s : σ) (mem : Nat → UInt8) {r : σ × (Nat → UInt8)}, l.foldlM f (s, mem) = .ok r →
      Within P mem r.2
  | [], _, mem, _, ran => by
      cases ran
      exact Within.refl _ mem
  | i :: rest, s, mem, r, ran => by
      rw [List.foldlM_cons] at ran
      obtain ⟨⟨s₁, mem₁⟩, first, next⟩ := Fallible.bind_ok ran
      exact (step s mem i _ first).trans (within_foldlM step rest s₁ mem₁ next)

/-- freevm writes only pages the directory and its holder hold. -/
theorem freevm_within {pgdir : Nat} (held : List Nat) {r : Kmem × (Nat → UInt8)}
    (ran : freevm m mem pgdir d = .ok r) : Within (Pool m d.owned (pgdir :: held)) mem r.2 := by
  unfold freevm at ran
  split_ifs at ran
  obtain ⟨⟨⟨_, m₁, d₁⟩, mem₁⟩, dealloc, rest⟩ := Fallible.bind_ok ran
  obtain ⟨⟨m₂, mem₂⟩, folded, freed⟩ := Fallible.bind_ok rest
  -- the user pages
  unfold deallocuvm at dealloc
  rw [if_neg (by decide), show pgroundup 0 = 0 by decide] at dealloc
  obtain ⟨⟨⟨m₁', d₁'⟩, mem₁'⟩, loop, same⟩ := Fallible.bind_ok dealloc
  cases same
  have dropped : Vm.deallocLoop m d kernBase 0 = .ok (m₁, d₁) := by
    rw [← deallocLoop_map_fst, loop]
    rfl
  have tables := deallocLoop_tables dropped
  have users := deallocLoop_within loop
  -- then every page table, then the directory's own page
  have frees := within_foldlM (P := fun v => ∃ i t, d₁.tables i = some t ∧ v = p2v t) (fun s mem i r step => by
    dsimp only at step
    cases found : d₁.tables i with
    | some t =>
        rw [found] at step
        exact (kfree_within step).mono fun v same => ⟨i, t, found, same⟩
    | none =>
        rw [found] at step
        cases step
        exact Within.refl _ mem) _ m₁ mem₁ folded
  refine (users.mono ?_).trans ((frees.mono ?_).trans ((kfree_within freed).mono ?_))
  · rintro v ⟨u, e, entry, below, rfl⟩
    refine .inr (.inl ⟨u, e, ?_, rfl⟩)
    rw [Pgdir.owned_entries, if_pos (by omega)]
    exact entry
  · rintro v ⟨i, t, found, rfl⟩
    rw [tables] at found
    exact .inr (.inr ⟨i, t, found, rfl⟩)
  · rintro v rfl
    exact .inl (List.mem_append_right _ List.mem_cons_self)

/-! ## setupkvm -/

/-- setupkvm from a free list of pages held once never panics and writes only
pages of that free list.  It returns 0 with every page back on the free
list, or a directory with exactly the kernel mappings of `kernelPte`, whose
own page the caller holds and whose view holds only page tables, with no
page lost. -/
theorem setupkvm_spec {data : Nat} (aligned : data % pgSize = 0) (linked : kernLink < data)
    (inMemory : data < p2v phyStop) (owns : Owns m Pgdir.empty []) (mem : Nat → UInt8) :
    ∃ r m' mem', setupkvm data m mem = .ok ((r, m'), mem') ∧ Within (· ∈ m.freelist) mem mem' ∧
      m'.kend = m.kend ∧
      (r = none ∧ Owns m' Pgdir.empty [] ∧ Pool m' Pgdir.empty [] = Pool m Pgdir.empty [] ∨
        ∃ pgdir d, r = some (pgdir, d) ∧ Owns m' d.owned [pgdir] ∧ d.owned.Tabled ∧ d.Bounded ∧
          (∀ v, d.pte v = kernelPte data v) ∧ Pool m' d.owned [pgdir] = Pool m Pgdir.empty []) := by
  obtain ⟨r, m', ran, outcome⟩ := Owns.setupkvm aligned linked inMemory owns
  have dropped := setupkvm_map_fst data m mem
  rw [ran] at dropped
  obtain ⟨mem', phys⟩ := Fallible.exists_ok_of_map_fst dropped
  refine ⟨r, m', mem', phys, ?_, setupkvm_kend ran, ?_⟩
  · -- the bytes: the directory's page, the page tables, and on failure what freevm frees
    unfold setupkvm at phys
    rcases kalloc_cases m with ⟨_, got⟩ | ⟨pgdir, rest, list, got⟩
    · rw [got] at phys
      cases phys
      exact Within.refl _ mem
    · rw [got] at phys
      dsimp only at phys
      rw [if_neg (by decide)] at phys
      obtain ⟨⟨⟨ok, m₁, d₁⟩, mem₁⟩, mapped, next⟩ := Fallible.bind_ok phys
      have head : pgdir ∈ m.freelist := by
        rw [list]
        exact List.mem_cons_self
      have tail : ∀ v ∈ rest, v ∈ m.freelist := fun v kept => by
        rw [list]
        exact List.mem_cons_of_mem pgdir kept
      have zeroed := within_memset (P := (· ∈ m.freelist)) head mem 0
      obtain ⟨tables, -⟩ := mapKmap_within _ _ _ _ mapped
      have built := zeroed.trans (tables.mono tail)
      cases ok with
      | true =>
          cases next
          exact built
      | false =>
          dsimp only at next
          rw [if_neg Bool.false_ne_true] at next
          obtain ⟨⟨m₂, mem₂⟩, freed, done⟩ := Fallible.bind_ok next
          cases done
          -- what freevm frees is what setupkvm took
          have viewed : Owns { m with freelist := rest } Pgdir.empty.owned [pgdir] := by
            rw [Pgdir.empty_owned]
            exact (owns.kalloc got).1
          have vmMapped : Vm.mapKmap { m with freelist := rest } Pgdir.empty (kmap data) = .ok (false, m₁, d₁) := by
            rw [← mapKmap_map_fst, mapped]
            rfl
          obtain ⟨-, -, -, -, pool₁⟩ := Owns.mapKmap (kmap data) (kmap_kernel linked inMemory) viewed
            Pgdir.empty_tabled Pgdir.empty_bounded vmMapped
          have pool : Pool m₁ d₁.owned [pgdir] = (· ∈ m.freelist) := by
            rw [pool₁, Pgdir.empty_owned, (owns.kalloc got).2, pool_empty]
          have frees := freevm_within [] freed
          rw [pool] at frees
          exact built.trans frees
  · rcases outcome with ⟨rfl, owns', pool'⟩ | ⟨pgdir, d, rfl, owns', tabled', bounded', -, pool'⟩
    · exact .inl ⟨rfl, owns', pool'⟩
    · exact .inr ⟨pgdir, d, rfl, owns', tabled', bounded', setupkvm_pte aligned linked inMemory ran, pool'⟩

/-- With 67 free pages setupkvm returns a directory, having taken at most 67
of them. -/
theorem setupkvm_some {data : Nat} (aligned : data % pgSize = 0) (linked : kernLink < data)
    (inMemory : data < p2v phyStop) (enough : 67 ≤ m.freelist.length) {r : Option (Nat × Pgdir)} {m' : Kmem}
    {mem' : Nat → UInt8} (ran : setupkvm data m mem = .ok ((r, m'), mem')) :
    r.isSome ∧ m.freelist.length ≤ m'.freelist.length + 67 := by
  obtain ⟨pgdir, d, m'', built, used, -, -⟩ := Vm.setupkvm_ok aligned linked inMemory m enough
  have dropped := setupkvm_map_fst data m mem
  rw [ran, built] at dropped
  simp only [Except.map, Except.ok.injEq, Prod.mk.injEq] at dropped
  obtain ⟨rfl, rfl⟩ := dropped
  exact ⟨rfl, used⟩

/-! ## copyuvm -/

/-- What copyuvm keeps of the kmem `m₀` and the bytes `mem₀` it started
with, whatever it has done so far: the new directory, held in the page
`pgdir`, holds with the free list exactly the pages free at the start, only
bytes of those pages have changed, and the end of the kernel is where it was. -/
structure Holds (m₀ : Kmem) (mem₀ : Nat → UInt8) (pgdir : Nat) (m : Kmem) (mem : Nat → UInt8)
    (d : Pgdir) : Prop where
  owns : Owns m d.owned [pgdir]
  tabled : d.owned.Tabled
  bounded : d.Bounded
  pool : Pool m d.owned [pgdir] = Pool m₀ Pgdir.empty []
  within : Within (· ∈ m₀.freelist) mem₀ mem
  kend : m.kend = m₀.kend

/-- copyuvm's loop invariant at `i`: every page of `parent` below `i` has its
copy, mapped with the parent's `PTE_W` and `PTE_U` and holding the bytes the
parent's page held in `mem₀`; nothing is mapped from `i` up to `KERNBASE`;
above it, setupkvm's kernel mappings. -/
structure Copying (data : Nat) (parent : Pgdir) (m₀ : Kmem) (mem₀ : Nat → UInt8) (pgdir : Nat)
    (m : Kmem) (mem : Nat → UInt8) (d : Pgdir) (i : Nat) : Prop
    extends Holds m₀ mem₀ pgdir m mem d where
  kernel : ∀ v, kernBase ≤ v → d.pte v = kernelPte data v
  above : ∀ v, i ≤ v → v < kernBase → d.pte v = none
  copied : ∀ u, u * pgSize < i → ∃ e e', parent.pte (u * pgSize) = some e ∧ d.pte (u * pgSize) = some e' ∧
    e'.writable = e.writable ∧ e'.user = e.user ∧ ∀ k < pgSize, mem (p2v e'.addr + k) = mem₀ (p2v e.addr + k)

section Copying

variable {data : Nat} {parent : Pgdir} {m₀ : Kmem} {mem₀ : Nat → UInt8} {pgdir sz i : Nat}

theorem Holds.free (holds : Holds m₀ mem₀ pgdir m mem d) {v : Nat} (free : v ∈ m.freelist) :
    v ∈ m₀.freelist := by
  have pooled : Pool m d.owned [pgdir] v := .inl (List.mem_append_left _ free)
  rwa [holds.pool, pool_empty] at pooled

/-- A page the new directory maps below `KERNBASE` is not free, and was free
when copyuvm started. -/
theorem Holds.frame (holds : Holds m₀ mem₀ pgdir m mem d) {va : Nat} {e : Pte} (below : va < kernBase)
    (present : d.pte va = some e) :
    m.Page (p2v e.addr) ∧ p2v e.addr ∉ m.freelist ∧ p2v e.addr ∈ m₀.freelist := by
  obtain ⟨page, notFree⟩ := holds.owns.frame_of_pte below present
  have entry : d.owned.entries (va / pgSize) = some e := by
    rw [entries_owned_of_lt d below]
    exact Pgdir.entries_of_pte present
  have pooled : Pool m d.owned [pgdir] (p2v e.addr) := .inr (.inl ⟨_, e, entry, rfl⟩)
  rw [holds.pool, pool_empty] at pooled
  exact ⟨page, fun free => notFree (List.mem_append_left _ free), pooled⟩

/-- The parent's page at `i`, copied into the page `r` from kalloc and mapped
there by mappages, carries the invariant to the next page. -/
theorem Copying.extend (inv : Copying data parent m₀ mem₀ pgdir m mem d i)
    (freeAligned : ∀ v ∈ m₀.freelist, v % pgSize = 0) (aligned : i % pgSize = 0) (lower : i < kernBase)
    {e : Pte} (found : parent.pte i = some e) (parentAligned : p2v e.addr % pgSize = 0)
    (parentBusy : p2v e.addr ∉ m₀.freelist) {r : Nat} {m₁ m₂ : Kmem} {d₁ : Pgdir} {mem₂ : Nat → UInt8}
    (got : kalloc m = (some r, m₁)) (walk : Vm.walkpgdir m₁ d i true = some (m₂, d₁))
    (holds : Holds m₀ mem₀ pgdir m₂ mem₂ (d₁.set (i / pgSize) (some ⟨v2p r, e.writable, e.user⟩)))
    (written : Within (· ∈ m₁.freelist) (memmove mem r (p2v e.addr) pgSize) mem₂) :
    Copying data parent m₀ mem₀ pgdir m₂ mem₂ (d₁.set (i / pgSize) (some ⟨v2p r, e.writable, e.user⟩))
      (i + pgSize) := by
  obtain ⟨owns₁, -⟩ := inv.owns.kalloc got
  obtain ⟨free, kept⟩ := kalloc_taken got
  have page := owns₁.spare r (List.mem_append_right _ List.mem_cons_self)
  have moved : Within (· ∈ m.freelist) mem mem₂ := (within_memmove free mem _).trans (written.mono kept)
  have freeAlignedNow : ∀ v ∈ m.freelist, v % pgSize = 0 := fun v free' => freeAligned v (inv.free free')
  refine { toHolds := holds, kernel := ?_, above := ?_, copied := ?_ }
  · intro v high
    have apart : i + pgSize ≤ v := by
      unfold pgSize kernBase at *
      omega
    rw [pte_after_walk walk, if_neg (page_ne aligned (.inr apart)), inv.kernel v high]
  · intro v low high
    rw [pte_after_walk walk, if_neg (page_ne aligned (.inr low)), inv.above v (by omega) high]
  · intro u below
    by_cases old : u * pgSize < i
    · -- a page copied before: its PTE stays, and its page was not free, so it keeps its bytes
      obtain ⟨e₀, e', parentFound, childFound, writable, user, bytes⟩ := inv.copied u old
      obtain ⟨childPage, childBusy, -⟩ := inv.frame (Nat.lt_trans old lower) childFound
      refine ⟨e₀, e', parentFound, ?_, writable, user, fun k small => ?_⟩
      · rw [pte_after_walk walk, if_neg (page_ne aligned (.inl old)), childFound]
      · rw [moved.page_eq childPage.1 freeAlignedNow childBusy small]
        exact bytes k small
    · -- the page at `i`: `r` holds what memmove copied, and the parent's page was never free
      have here : u * pgSize = i := by
        unfold pgSize at *
        omega
      have held : r ∉ m₁.freelist := fun free' => owns₁.not_spare_of_held (List.mem_append_left _ free')
      refine ⟨e, ⟨v2p r, e.writable, e.user⟩, by rw [here]; exact found, ?_, rfl, rfl, fun k small => ?_⟩
      · rw [pte_after_walk walk, if_pos (by rw [here])]
      · calc mem₂ (p2v (v2p r) + k)
            = memmove mem r (p2v e.addr) pgSize (r + k) := by
              rw [page.p2v_v2p]
              exact written.page_eq page.1 (fun v free' => freeAlignedNow v (kept v free')) held small
          _ = mem (p2v e.addr + k) := memmove_page mem r _ small
          _ = mem₀ (p2v e.addr + k) := inv.within.page_eq parentAligned freeAligned parentBusy small

/-- One turn of copyuvm's loop below `sz`: the parent's page at `i` is copied
and the loop goes on at the next page, or kalloc or mappages runs out and the
loop ends for `goto bad`, with the page in hand freed. -/
theorem copyLoop_step (parentOwns : Owns m₀ parent.owned []) (inv : Copying data parent m₀ mem₀ pgdir m mem d i)
    (aligned : i % pgSize = 0) (below : i < sz) (lower : i < kernBase) (present : (parent.pte i).isSome) :
    (∃ m' mem' d', copyLoop parent sz m mem d i = copyLoop parent sz m' mem' d' (i + pgSize) ∧
      Copying data parent m₀ mem₀ pgdir m' mem' d' (i + pgSize) ∧ m.freelist.length ≤ m'.freelist.length + 2) ∨
    ∃ m' mem' d', copyLoop parent sz m mem d i = .ok ((false, m', d'), mem') ∧
      Holds m₀ mem₀ pgdir m' mem' d' ∧ m.freelist.length ≤ 1 := by
  obtain ⟨e, found⟩ := Option.isSome_iff_exists.mp present
  obtain ⟨parentPage, parentBusy⟩ := parentOwns.frame_of_pte lower found
  have freeAligned : ∀ v ∈ m₀.freelist, v % pgSize = 0 := fun v free =>
    (parentOwns.spare v (List.mem_append_left _ free)).1
  have fresh : d.pte i = none := inv.above i (Nat.le_refl i) lower
  have empty : d.owned.entries (i / pgSize) = none := by
    rw [← Pgdir.owned_pte lower] at fresh
    exact inv.tabled.entries_of_pte_none fresh
  rw [copyLoop, if_pos below, walkpgdir_of_pte present false]
  dsimp only
  rw [Pgdir.entries_of_pte found]
  dsimp only
  rcases kalloc_cases m with ⟨empty, got⟩ | ⟨r, rest, list, got⟩
  · -- no page for the copy: `goto bad` with nothing in hand
    rw [got]
    exact .inr ⟨m, mem, d, rfl, inv.toHolds, by rw [empty]; exact Nat.zero_le 1⟩
  rw [got]
  dsimp only
  obtain ⟨owns₁, pool₁⟩ := inv.owns.kalloc got
  obtain ⟨free, kept⟩ := kalloc_taken got
  rcases owns₁.mapPage_whole inv.tabled inv.bounded aligned lower empty e.writable e.user with
    ⟨failed, noTable⟩ | ⟨m₂, d₁, walk, -, mapped, owns₂, tabled₂, bounded₁, pool₂⟩
  · -- mappages found no page for a page table: kfree the copy, `goto bad`
    obtain ⟨mem₂, phys⟩ := Fallible.exists_ok_of_map_fst ((mappages_map_fst ..).trans failed)
    obtain ⟨written, -⟩ := mappages_within phys
    obtain ⟨-, owns₃, pool₃⟩ := owns₁.kfree
    have page := owns₁.spare r (List.mem_append_right _ List.mem_cons_self)
    rw [phys, Fallible.ok_bind]
    dsimp only
    rw [if_neg Bool.false_ne_true, kfree_eq, if_pos page, Fallible.ok_bind]
    have trashed := (within_memmove free mem _).trans ((written.mono kept).trans (within_memset free _ 1))
    -- the copy's page was the last free one
    have last : m.freelist.length ≤ 1 := by
      have none : rest = [] := noTable
      rw [list, none]
      simp
    exact .inr ⟨_, _, d, rfl, ⟨owns₃, inv.tabled, inv.bounded, pool₃.trans (pool₁.trans inv.pool),
      inv.within.trans (trashed.mono fun _ free' => inv.free free'), inv.kend⟩, last⟩
  · obtain ⟨mem₂, phys⟩ := Fallible.exists_ok_of_map_fst ((mappages_map_fst ..).trans mapped)
    obtain ⟨written, -⟩ := mappages_within phys
    rw [phys, Fallible.ok_bind]
    dsimp only
    rw [if_pos rfl]
    have copied := (within_memmove free mem _).trans (written.mono kept)
    -- the copy's page, and at most one page table
    have used : m.freelist.length ≤ m₂.freelist.length + 2 := by
      have table := walkpgdir_length walk
      rw [list]
      simp only [List.length_cons] at table ⊢
      omega
    refine .inl ⟨m₂, mem₂, _, rfl, inv.extend freeAligned aligned lower found parentPage.1
      (fun free' => parentBusy (List.mem_append_left _ free')) got walk ?_ written, used⟩
    exact ⟨owns₂, tabled₂, bounded₁, pool₂.trans (pool₁.trans inv.pool),
      inv.within.trans (copied.mono fun _ free' => inv.free free'), (mappages_kend mapped).trans inv.kend⟩

/-- copyuvm's loop, from any page at or below `PGROUNDUP(sz)` where the
invariant holds, over a parent that maps every page below `sz`: it never
panics, and it ends with every page copied, or for `goto bad` with the
accounting kept, which it reaches only with fewer free pages than two for
each page left to copy. -/
theorem copyLoop_spec (parentOwns : Owns m₀ parent.owned []) (small : sz < kernBase)
    (present : ∀ u, u * pgSize < sz → (parent.pte (u * pgSize)).isSome) {m : Kmem} {mem : Nat → UInt8}
    {d : Pgdir} {i : Nat} (inv : Copying data parent m₀ mem₀ pgdir m mem d i) (aligned : i % pgSize = 0)
    (reach : i ≤ pgroundup sz) :
    ∃ ok m' mem' d', copyLoop parent sz m mem d i = .ok ((ok, m', d'), mem') ∧
      (ok = true ∧ Copying data parent m₀ mem₀ pgdir m' mem' d' (pgroundup sz) ∨
        ok = false ∧ Holds m₀ mem₀ pgdir m' mem' d' ∧
          m.freelist.length < 2 * ((pgroundup sz - i) / pgSize)) := by
  have top := pgroundup_of_lt small
  by_cases below : i < sz
  · have here : (parent.pte i).isSome := by
      have page := present (i / pgSize) (Nat.lt_of_le_of_lt (Nat.div_mul_le_self i pgSize) below)
      rwa [Nat.div_mul_cancel (Nat.dvd_of_mod_eq_zero aligned)] at page
    -- a page is left to copy: the loop has at least two pages' worth of room to need
    have left : 1 ≤ (pgroundup sz - i) / pgSize := by
      rw [top]
      unfold pgSize at *
      omega
    rcases copyLoop_step parentOwns inv aligned below (Nat.lt_trans below small) here with
      ⟨m', mem', d', next, inv', used⟩ | ⟨m', mem', d', failed, holds, last⟩
    · have alignedNext : (i + pgSize) % pgSize = 0 := by
        rw [Nat.add_mod_right]
        exact aligned
      have reachNext : i + pgSize ≤ pgroundup sz := by
        rw [top]
        unfold pgSize at *
        omega
      have fewer : (pgroundup sz - (i + pgSize)) / pgSize + 1 = (pgroundup sz - i) / pgSize := by
        rw [top]
        unfold pgSize at *
        omega
      rw [next]
      obtain ⟨ok, m'', mem'', d'', ran, ended⟩ := copyLoop_spec parentOwns small present inv' alignedNext reachNext
      refine ⟨ok, m'', mem'', d'', ran, ended.imp_right fun ⟨stopped, holds', short⟩ => ⟨stopped, holds', ?_⟩⟩
      omega
    · exact ⟨false, m', mem', d', failed, .inr ⟨rfl, holds, by omega⟩⟩
  · -- past `sz`: the loop ends at `PGROUNDUP(sz)`, the first page boundary at or past it
    have done : i = pgroundup sz := by
      rw [top]
      unfold pgSize at *
      omega
    rw [copyLoop, if_neg below]
    exact ⟨true, m, mem, d, rfl, .inl ⟨rfl, done ▸ inv⟩⟩
termination_by sz - i
decreasing_by
  unfold pgSize
  omega

theorem kernelPte_of_lt {v : Nat} (below : v < kernBase) : kernelPte data v = none := by
  unfold kernelPte
  rw [if_neg (fun inside => absurd inside.1 (Nat.not_le_of_lt below)),
    if_neg (fun inside => absurd (Nat.lt_of_lt_of_le below (Nat.le_trans (by decide) inside.1)) (Nat.lt_irrefl v))]

/-- copyuvm, from a parent directory below `sz < KERNBASE` that maps every page
below `sz` in pages that are not free, never panics and writes only pages of
the free list.  It returns 0 with the free list as it was, in some order, or
a new directory with setupkvm's kernel mappings and, below `PGROUNDUP(sz)`,
a copy of each of the parent's pages, with its `PTE_W`, its `PTE_U` and its
bytes, in a page that was free; with the free list it holds every page that
was free.  It returns 0 only with fewer free pages than setupkvm's 67 and two
for each page to copy. -/
theorem copyuvm_spec (aligned : data % pgSize = 0) (linked : kernLink < data) (inMemory : data < p2v phyStop)
    (parentOwns : Owns m parent.owned []) (small : sz < kernBase)
    (present : ∀ u, u * pgSize < sz → (parent.pte (u * pgSize)).isSome) (mem : Nat → UInt8) :
    ∃ r m' mem', copyuvm data m mem parent sz = .ok ((r, m'), mem') ∧ Within (· ∈ m.freelist) mem mem' ∧
      m'.kend = m.kend ∧ (r = none ∧ Owns m' Pgdir.empty [] ∧ m'.freelist.Perm m.freelist ∧
          m.freelist.length < 67 + 2 * (pgroundup sz / pgSize) ∨
        ∃ pgdir d, r = some (pgdir, d) ∧ Copying data parent m mem pgdir m' mem' d (pgroundup sz)) := by
  obtain ⟨r, m₁, mem₁, built, written, kend₁, outcome⟩ :=
    setupkvm_spec aligned linked inMemory parentOwns.forget mem
  unfold copyuvm
  rw [built, Fallible.ok_bind]
  -- past setupkvm, the free list is at most 67 pages shorter
  have setupUsed : 67 ≤ m.freelist.length → m.freelist.length ≤ m₁.freelist.length + 67 :=
    fun enough => (setupkvm_some aligned linked inMemory enough built).2
  rcases outcome with ⟨rfl, owns₁, pool₁⟩ | ⟨pgdir, d, rfl, owns₁, tabled₁, bounded₁, kernel₁, pool₁⟩
  · have short : m.freelist.length < 67 := by
      by_contra enough
      exact absurd (setupkvm_some aligned linked inMemory (Nat.le_of_not_lt enough) built).1 (by simp)
    exact ⟨none, m₁, mem₁, rfl, written, kend₁,
      .inl ⟨rfl, owns₁, parentOwns.forget.perm_of_pool owns₁ pool₁, by omega⟩⟩
  have start : Copying data parent m mem pgdir m₁ mem₁ d 0 :=
    { owns := owns₁, tabled := tabled₁, bounded := bounded₁, pool := pool₁, within := written, kend := kend₁,
      kernel := fun v _ => kernel₁ v,
      above := fun v _ high => by rw [kernel₁]; exact kernelPte_of_lt high,
      copied := fun u below => absurd below (Nat.not_lt_zero _) }
  obtain ⟨ok, m₂, mem₂, d₂, loop, ended⟩ :=
    copyLoop_spec parentOwns small present start (Nat.zero_mod _) (Nat.zero_le _)
  dsimp only
  rw [loop, Fallible.ok_bind]
  rcases ended with ⟨rfl, copied⟩ | ⟨rfl, holds, short⟩
  · exact ⟨some (pgdir, d₂), m₂, mem₂, rfl, copied.within, copied.kend, .inr ⟨pgdir, d₂, rfl, copied⟩⟩
  · -- `bad:` freevm gives back every page the new directory held
    obtain ⟨m₃, freed, owns₃, pool₃⟩ := holds.owns.freevm holds.tabled holds.bounded
    obtain ⟨mem₃, phys⟩ := Fallible.exists_ok_of_map_fst ((freevm_map_fst ..).trans freed)
    have cleared := freevm_within [] phys
    rw [holds.pool, pool_empty] at cleared
    dsimp only
    rw [if_neg Bool.false_ne_true, phys, Fallible.ok_bind]
    have fewer : m.freelist.length < 67 + 2 * (pgroundup sz / pgSize) := by
      rw [Nat.sub_zero] at short
      by_cases enough : 67 ≤ m.freelist.length
      · have := setupUsed enough
        omega
      · omega
    exact ⟨none, m₃, mem₃, rfl, holds.within.trans cleared, (freevm_kend freed).trans holds.kend,
      .inl ⟨rfl, owns₃, parentOwns.forget.perm_of_pool owns₃ (pool₃.trans holds.pool), fewer⟩⟩

end Copying

end Phys

end Vm
end Xv6
