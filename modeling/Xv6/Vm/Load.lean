import Xv6.Vm.Copy
import Xv6.Vm.Exec

/-!
# exec's loader

exec reads the ELF header of the program's file and checks its size and
magic, takes a new directory from setupkvm, then reads the program headers
in turn: for each loadable segment it checks the sizes, grows the directory
with allocuvm to the segment's end, checks that the segment starts on a page
and has loaduvm read the segment's bytes from the file into the pages it
maps.  Any failure is `goto bad`, which frees the new directory with freevm.

The file is its inode's content, read with readi's rules; the log operation
and the inode lock around the loop read nothing that this model keeps.  The
new directory carries the bytes, as in `Vm.Copy`: every page the loop
writes is one that allocuvm took off the free list, so whether the loop ends
in `bad:` or not, it never panics and the accounting of `Holds` stays, with
setupkvm's kernel mappings above `KERNBASE`.
-/

namespace Xv6
namespace Vm

/-- `ELF_MAGIC`: "\x7FELF" read as a little-endian `uint`. -/
def elfMagic : Nat := 0x464C457F

/-- `ELF_PROG_LOAD`. -/
def elfProgLoad : Nat := 1

/-- `sizeof(struct elfhdr)`. -/
def elfhdrSize : Nat := 52

/-- `sizeof(struct proghdr)`. -/
def proghdrSize : Nat := 32

/-- The little-endian `ushort` at `off` of the bytes readi copied. -/
def le16 (b : List UInt8) (off : Nat) : Nat :=
  (b.getD off 0).toNat + (b.getD (off + 1) 0).toNat * 2 ^ 8

/-- The little-endian `uint` at `off`. -/
def le32 (b : List UInt8) (off : Nat) : Nat :=
  le16 b off + le16 b (off + 2) * 2 ^ 16

/-- The fields of struct elfhdr that exec reads. -/
structure Elfhdr where
  magic : Nat
  entry : Nat
  phoff : Nat
  phnum : Nat

/-- struct elfhdr over the bytes readi copied into it: `magic` at 0, `entry`
at 24, `phoff` at 28 and the `ushort` `phnum` at 44. -/
def Elfhdr.read (b : List UInt8) : Elfhdr :=
  ⟨le32 b 0, le32 b 24, le32 b 28, le16 b 44⟩

/-- The fields of struct proghdr that exec reads. -/
structure Proghdr where
  type : Nat
  off : Nat
  vaddr : Nat
  filesz : Nat
  memsz : Nat

/-- struct proghdr over the bytes readi copied into it. -/
def Proghdr.read (b : List UInt8) : Proghdr :=
  ⟨le32 b 0, le32 b 4, le32 b 8, le32 b 16, le32 b 20⟩

/-- readi from an inode that is not a device and holds `file`: -1 (`none`)
when `off` is past the end or `off + n` wraps, else the bytes from `off`, `n`
of them or up to the end. -/
def readi (file : List UInt8) (off n : Nat) : Option (List UInt8) :=
  if file.length < off ∨ (off + n) % 2 ^ 32 < off then none
  else some ((file.drop off).take n)

namespace Phys

/-- loaduvm's loop over the segment's pages from offset `i`: each page's
bytes go from the file to the page its PTE names, 0 when the PTE is not
present; -1 (`false`) when readi returns fewer than it was asked for. -/
def loadLoop (m : Kmem) (d : Pgdir) (addr : Nat) (file : List UInt8) (offset sz : Nat)
    (mem : Nat → UInt8) (i : Nat) : Except Fault (Bool × (Nat → UInt8)) :=
  if i < sz then
    match Vm.walkpgdir m d (addr + i) false with
    | none => .error (.panic "loaduvm: address should exist")
    | some _ =>
        -- `pa = PTE_ADDR(*pte)`
        let pa := ((d.entries ((addr + i) / pgSize)).map Pte.addr).getD 0
        let n := if sz - i < pgSize then sz - i else pgSize
        match readi file ((offset + i) % 2 ^ 32) n with
        | none => .ok (false, mem)
        | some bytes =>
            if bytes.length = n then loadLoop m d addr file offset sz (store mem (p2v pa) bytes) (i + pgSize)
            else .ok (false, store mem (p2v pa) bytes)
  else .ok (true, mem)
termination_by sz - i
decreasing_by
  simp only [pgSize]
  omega

/-- loaduvm: 0 (`true`) or -1 (`false`). -/
def loaduvm (m : Kmem) (mem : Nat → UInt8) (d : Pgdir) (addr : Nat) (file : List UInt8) (offset sz : Nat) :
    Except Fault (Bool × (Nat → UInt8)) :=
  if addr % pgSize ≠ 0 then .error (.panic "loaduvm: addr must be page aligned")
  else loadLoop m d addr file offset sz mem 0

/-- exec's loop over the program headers from the `i`th, read at `off`: each
loadable segment grows `d` to its end and is read in.  `none` for `goto bad`,
else the size the segments reach, with kmem and the directory. -/
def loadSegs (file : List UInt8) (phnum : Nat) (m : Kmem) (mem : Nat → UInt8) (d : Pgdir) (sz i off : Nat) :
    Except Fault ((Option Nat × Kmem × Pgdir) × (Nat → UInt8)) :=
  if i < phnum then
    match readi file off proghdrSize with
    | none => .ok ((none, m, d), mem)
    | some b =>
        if b.length ≠ proghdrSize then .ok ((none, m, d), mem)
        else
          let ph := Proghdr.read b
          if ph.type ≠ elfProgLoad then loadSegs file phnum m mem d sz (i + 1) ((off + proghdrSize) % 2 ^ 32)
          else if ph.memsz < ph.filesz then .ok ((none, m, d), mem)
          else if (ph.vaddr + ph.memsz) % 2 ^ 32 < ph.vaddr then .ok ((none, m, d), mem)
          else do
            let ((sz, m, d), mem) ← (allocuvm m mem d sz ((ph.vaddr + ph.memsz) % 2 ^ 32)).mapError .panic
            if sz = 0 then return ((none, m, d), mem)
            else if ph.vaddr % pgSize ≠ 0 then return ((none, m, d), mem)
            else
              let (ok, mem) ← loaduvm m mem d ph.vaddr file ph.off ph.filesz
              if ok then loadSegs file phnum m mem d sz (i + 1) ((off + proghdrSize) % 2 ^ 32)
              else return ((none, m, d), mem)
  else .ok ((some sz, m, d), mem)
termination_by phnum - i

end Phys

/-! ## Pages that change hands -/

variable {m m' : Kmem} {mem : Nat → UInt8} {d : Pgdir} {held : List Nat}

theorem Kmem.Page.of_kend {v : Nat} (page : m.Page v) (kend : m'.kend = m.kend) : m'.Page v := by
  unfold Kmem.Page at page ⊢
  rwa [kend]

/-- `d` and the pages `held` stay held, once each and off the free list, when
the free list becomes one of pages held once of which each was free before
or is none of the pages `d`, `held` and the old free list hold. -/
theorem Owns.of_freelist (owns : Owns m d held) (spare : Owns m' Pgdir.empty []) (kend : m'.kend = m.kend)
    (fresh : ∀ v ∈ m'.freelist, v ∈ m.freelist ∨ ¬ Pool m d held v) : Owns m' d held where
  nodup := by
    have free := spare.nodup
    rw [List.append_nil] at free
    refine List.nodup_append.mpr ⟨free, (List.nodup_append.mp owns.nodup).2.1, ?_⟩
    intro v spareV w heldW same
    subst same
    rcases fresh v spareV with wasFree | outside
    · exact (List.nodup_append.mp owns.nodup).2.2 v wasFree v heldW rfl
    · exact outside (.inl (List.mem_append_right _ heldW))
  spare v spareV := by
    rcases List.mem_append.mp spareV with free | kept
    · exact spare.spare v (List.mem_append_left _ free)
    · exact (owns.spare v (List.mem_append_right _ kept)).of_kend kend
  user u e entry := by
    obtain ⟨page, busy⟩ := owns.user u e entry
    refine ⟨page.of_kend kend, fun spareV => ?_⟩
    rcases List.mem_append.mp spareV with free | kept
    · rcases fresh _ free with wasFree | outside
      · exact busy (List.mem_append_left _ wasFree)
      · exact outside (.inr (.inl ⟨u, e, entry, rfl⟩))
    · exact busy (List.mem_append_right _ kept)
  table i t found := by
    obtain ⟨page, busy⟩ := owns.table i t found
    refine ⟨page.of_kend kend, fun spareV => ?_⟩
    rcases List.mem_append.mp spareV with free | kept
    · rcases fresh _ free with wasFree | outside
      · exact busy (List.mem_append_left _ wasFree)
      · exact outside (.inr (.inr ⟨i, t, found, rfl⟩))
    · exact busy (List.mem_append_right _ kept)
  userInj := owns.userInj
  tableInj := owns.tableInj
  apart := owns.apart

/-! ## deallocuvm of a whole directory -/

/-- deallocuvm's loop changes no PTE at or above `oldsz`. -/
theorem deallocLoop_entries_above {d' : Pgdir} {oldsz a : Nat} (ran : Vm.deallocLoop m d oldsz a = .ok (m', d'))
    {u : Nat} (above : oldsz ≤ u * pgSize) : d'.entries u = d.entries u := by
  induction m, d, a using deallocLoop_induct oldsz generalizing m' d' with
  | case1 m d a below walk next =>
      rw [deallocLoop_eq, if_pos below, walk] at ran
      exact next ran
  | case2 m d a below walked walk absent next =>
      rw [deallocLoop_eq, if_pos below, walk] at ran
      dsimp only at ran
      rw [absent] at ran
      exact next ran
  | case3 m d a below walked walk pte present null =>
      rw [deallocLoop_eq, if_pos below, walk] at ran
      dsimp only at ran
      rw [present] at ran
      dsimp only at ran
      rw [if_pos null] at ran
      cases ran
  | case4 m d a below walked walk pte present live next =>
      rw [deallocLoop_eq, if_pos below, walk] at ran
      dsimp only at ran
      rw [present] at ran
      dsimp only at ran
      rw [if_neg live] at ran
      obtain ⟨m₁, -, rest⟩ := Fallible.bind_ok ran
      -- the PTE cleared is that of `a`, below `oldsz`
      have other : u ≠ a / pgSize := by
        have page := Nat.div_mul_le_self a pgSize
        intro same
        rw [same] at above
        omega
      rw [next m₁ rest, Pgdir.set_entries, Function.update_of_ne other]
  | case5 m d a above' =>
      rw [deallocLoop_eq, if_neg above'] at ran
      cases ran
      rfl

/-- deallocuvm of a whole directory whose view is held, below `KERNBASE`:
the PTEs of the pages from `PGROUNDUP(newsz)` below `oldsz` are cleared,
their pages freed, and nothing else changes. -/
theorem Owns.deallocuvm_whole (owns : Owns m d.owned held) (tabled : d.owned.Tabled) {oldsz newsz : Nat}
    (shrink : newsz < oldsz) (low : oldsz ≤ kernBase) :
    ∃ m', Vm.deallocuvm m d oldsz newsz = .ok (newsz, m', d.clear (pgroundup newsz) oldsz) ∧
      Owns m' (d.clear (pgroundup newsz) oldsz).owned held ∧
      Pool m' (d.clear (pgroundup newsz) oldsz).owned held = Pool m d.owned held := by
  obtain ⟨m', viewLoop, owns', pool'⟩ := owns.deallocLoop tabled oldsz (pgroundup_aligned newsz)
  have whole := deallocLoop_owned m d low (pgroundup newsz)
  rw [viewLoop] at whole
  obtain ⟨⟨m'', D⟩, loop, viewed⟩ := Fallible.map_eq_ok whole
  simp only [Prod.mk.injEq] at viewed
  obtain ⟨same, viewed⟩ := viewed
  rw [same] at loop
  -- below `KERNBASE` the view says what the loop left; above it the loop left every PTE
  have cleared : D = d.clear (pgroundup newsz) oldsz := by
    refine Pgdir.eq_of_entries (by rw [deallocLoop_tables loop]; rfl) fun u => ?_
    by_cases user : u * pgSize < kernBase
    · have entry := congrArg (fun D => Pgdir.entries D u) viewed
      simp only [Pgdir.owned_entries, Pgdir.clear_entries, if_pos user] at entry
      rw [entry, Pgdir.clear_entries]
    · rw [deallocLoop_entries_above loop (by omega), Pgdir.clear_entries, if_neg (by omega)]
  subst cleared
  refine ⟨m', ?_, by rwa [Pgdir.owned_clear], by rwa [Pgdir.owned_clear]⟩
  rw [deallocuvm_eq, if_neg (by omega), loop]
  rfl

/-- The same with the bytes: deallocuvm's kfrees write only the pages it
frees, which the view held. -/
theorem Owns.deallocuvm_bytes (owns : Owns m d.owned held) (tabled : d.owned.Tabled) {oldsz newsz : Nat}
    (shrink : newsz < oldsz) (low : oldsz ≤ kernBase) (mem : Nat → UInt8) :
    ∃ m' mem', Phys.deallocuvm m mem d oldsz newsz = .ok ((newsz, m', d.clear (pgroundup newsz) oldsz), mem') ∧
      Owns m' (d.clear (pgroundup newsz) oldsz).owned held ∧
      Pool m' (d.clear (pgroundup newsz) oldsz).owned held = Pool m d.owned held ∧
      Within (Pool m d.owned held) mem mem' ∧ m'.kend = m.kend := by
  obtain ⟨m', dealloc, owns', pool'⟩ := owns.deallocuvm_whole tabled shrink low
  obtain ⟨mem', phys⟩ := Fallible.exists_ok_of_map_fst ((Phys.deallocuvm_map_fst ..).trans dealloc)
  refine ⟨m', mem', phys, owns', pool', ?_, ?_⟩
  · unfold Phys.deallocuvm at phys
    rw [if_neg (by omega)] at phys
    obtain ⟨⟨⟨m₁, d₁⟩, mem₁⟩, loop, done⟩ := Fallible.bind_ok phys
    cases done
    refine (Phys.deallocLoop_within loop).mono ?_
    rintro v ⟨u, e, entry, below, rfl⟩
    refine .inr (.inl ⟨u, e, ?_, rfl⟩)
    rw [Pgdir.owned_entries, if_pos (by omega)]
    exact entry
  · rw [deallocuvm_eq, if_neg (by omega)] at dealloc
    obtain ⟨⟨m₁, d₁⟩, loop, done⟩ := Fallible.bind_ok dealloc
    cases done
    exact (deallocLoop_frame loop).2

/-- Above `KERNBASE` no PTE is cleared by the clearing of user pages. -/
theorem Pgdir.pte_clear_of_le {lo hi v : Nat} (low : hi ≤ kernBase) (above : kernBase ≤ v) :
    (d.clear lo hi).pte v = d.pte v := by
  unfold Pgdir.pte
  rw [show (d.clear lo hi).tables = d.tables from rfl, Pgdir.clear_entries, if_neg]
  simp only [pgSize, kernBase] at low above ⊢
  omega

/-- The view after walkpgdir made or found the page table of `a`: the same PTEs. -/
theorem owned_entries_of_walk (owns : Owns m d.owned held) (tabled : d.owned.Tabled) {a : Nat} {d₁ : Pgdir}
    (walk : Vm.walkpgdir m d a true = some (m', d₁)) : d₁.owned.entries = d.owned.entries := by
  rcases owns.walkpgdir_whole tabled a with ⟨absent, -⟩ | ⟨m₁, d₂, walk', -, -, entries, -, -⟩
  · rw [walk] at absent
    cases absent
  · rw [walk, Option.some.injEq, Prod.mk.injEq] at walk'
    obtain ⟨-, rfl⟩ := walk'
    exact entries

/-! ## exec's new image while it is built -/

/-- exec's new directory, held in the page `pgdir`, from setupkvm on, with the
kmem `m₀` and the bytes `mem₀` setupkvm started from: the accounting of
`Holds`, setupkvm's kernel mappings, and user pages exactly those below
`top`, each with `PTE_U`. -/
structure Building (data : Nat) (m₀ : Kmem) (mem₀ : Nat → UInt8) (pgdir : Nat) (m : Kmem) (mem : Nat → UInt8)
    (d : Pgdir) (top : Nat) : Prop extends Phys.Holds m₀ mem₀ pgdir m mem d where
  kernel : ∀ v, kernBase ≤ v → d.pte v = kernelPte data v
  shape : d.owned.Shape top

section Building

variable {data : Nat} {m₀ : Kmem} {mem₀ : Nat → UInt8} {pgdir : Nat}

/-- A step that leaves the view held with the same pages, and writes only
pages among them, keeps `Holds`. -/
theorem Phys.Holds.step {m' : Kmem} {mem' : Nat → UInt8} {d' : Pgdir} (holds : Phys.Holds m₀ mem₀ pgdir m mem d)
    (owns : Owns m' d'.owned [pgdir]) (tabled : d'.owned.Tabled) (bounded : d'.Bounded)
    (pool : Pool m' d'.owned [pgdir] = Pool m d.owned [pgdir]) (within : Within (Pool m d.owned [pgdir]) mem mem')
    (kend : m'.kend = m.kend) : Phys.Holds m₀ mem₀ pgdir m' mem' d' := by
  rw [holds.pool, pool_empty] at within
  exact ⟨owns, tabled, bounded, pool.trans holds.pool, holds.within.trans within, kend.trans holds.kend⟩

/-- What allocuvm's rollback, `deallocuvm(pgdir, newsz, oldsz)`, leaves of
the image grown to `a`: the kernel mappings, and the pages below
`PGROUNDUP(oldsz)`. -/
theorem Building.rolledBack {a oldsz newsz : Nat} (inv : Building data m₀ mem₀ pgdir m mem d a)
    (start : pgroundup oldsz ≤ a) (below : a < newsz) (low : newsz ≤ kernBase) :
    (∀ v, kernBase ≤ v → (d.clear (pgroundup oldsz) newsz).pte v = kernelPte data v) ∧
      (d.clear (pgroundup oldsz) newsz).owned.Shape (pgroundup oldsz) := by
  refine ⟨fun v above => ?_, ?_⟩
  · rw [Pgdir.pte_clear_of_le low above]
    exact inv.kernel v above
  · rw [Pgdir.owned_clear]
    exact inv.shape.rollback start below

/-- allocuvm's loop on exec's new directory, from an aligned `a` at or past
`PGROUNDUP(oldsz)` up to which the pages are mapped: it never panics, and it
grows the image to `PGROUNDUP(newsz)`, or rolls it back to
`PGROUNDUP(oldsz)` and returns 0. -/
theorem Building.allocLoop {a : Nat} (inv : Building data m₀ mem₀ pgdir m mem d a) {oldsz newsz : Nat}
    (aligned : a % pgSize = 0) (start : pgroundup oldsz ≤ a) (reach : a ≤ pgroundup newsz)
    (fits : newsz < kernBase) (grows : oldsz ≤ newsz) :
    ∃ r m' d' mem', Phys.allocLoop m mem d oldsz newsz a = .ok ((r, m', d'), mem') ∧
      (r = newsz ∧ Building data m₀ mem₀ pgdir m' mem' d' (pgroundup newsz) ∨
        r = 0 ∧ Building data m₀ mem₀ pgdir m' mem' d' (pgroundup oldsz)) := by
  have roundNew := pgroundup_of_lt fits
  have roundOld := pgroundup_of_lt (Nat.lt_of_le_of_lt grows fits)
  -- induction on the distance left to `newsz`, which each mapped page shortens
  induction left : newsz - a using Nat.strongRecOn generalizing m mem d a with
  | _ n ih =>
  rw [Phys.allocLoop]
  split_ifs with below
  · have shrink : oldsz < newsz := by
      rw [roundOld] at start
      omega
    have low : newsz ≤ kernBase := Nat.le_of_lt fits
    obtain ⟨kernel', shape'⟩ := inv.rolledBack start below low
    have tabled' : (d.clear (pgroundup oldsz) newsz).owned.Tabled := by
      rw [Pgdir.owned_clear]
      exact inv.tabled.clear _ _
    rcases kalloc_cases m with ⟨_, got⟩ | ⟨page, rest, _, got⟩
    · -- "allocuvm out of memory": the rollback
      obtain ⟨m', mem', dealloc, owns', pool', written, kend'⟩ :=
        inv.owns.deallocuvm_bytes inv.tabled shrink low mem
      rw [got]
      dsimp only
      rw [dealloc, Fallible.ok_bind]
      exact ⟨0, m', _, mem', rfl,
        .inr ⟨rfl, ⟨inv.step owns' tabled' inv.bounded pool' written kend', kernel', shape'⟩⟩⟩
    rw [got]
    dsimp only
    obtain ⟨owns₁, pool₁⟩ := inv.owns.kalloc got
    obtain ⟨free, kept⟩ := kalloc_taken got
    have pooled : ∀ v ∈ m.freelist, Pool m d.owned [pgdir] v := fun v spare => .inl (List.mem_append_left _ spare)
    have zeroed := within_memset (pooled page free) mem 0
    have empty : d.owned.entries (a / pgSize) = none := by
      have absent := (inv.shape.present (a / pgSize)).not.mpr (by unfold pgSize at *; omega)
      simpa using absent
    rcases owns₁.mapPage_whole inv.tabled inv.bounded aligned (by omega) empty true true with
      ⟨failed, -⟩ | ⟨m₂, d₁, walk, -, mapped, owns₂, tabled₂, bounded₁, pool₂⟩
    · -- "allocuvm out of memory (2)": the rollback, then the kfree of the page in hand
      obtain ⟨mem₂, phys⟩ := Fallible.exists_ok_of_map_fst ((Phys.mappages_map_fst ..).trans failed)
      obtain ⟨written₂, -⟩ := Phys.mappages_within phys
      rw [phys, Fallible.ok_bind]
      dsimp only
      rw [if_neg Bool.false_ne_true]
      obtain ⟨m₃, mem₃, dealloc, owns₃, pool₃, written₃, kend₃⟩ :=
        owns₁.deallocuvm_bytes inv.tabled shrink low mem₂
      rw [dealloc, Fallible.ok_bind]
      dsimp only
      obtain ⟨freed, owns₄, pool₄⟩ := owns₃.kfree
      obtain ⟨mem₄, physFreed⟩ := Fallible.exists_ok_of_map_fst ((Phys.kfree_map_fst ..).trans freed)
      rw [physFreed, Fallible.ok_bind]
      have trashed := Phys.kfree_within physFreed
      have written : Within (Pool m d.owned [pgdir]) mem mem₄ := by
        refine zeroed.trans ((written₂.mono fun v spare => pooled v (kept v spare)).trans ?_)
        rw [← pool₁]
        refine written₃.trans (trashed.mono ?_)
        rintro v rfl
        exact .inl (List.mem_append_right _ List.mem_cons_self)
      exact ⟨0, _, _, mem₄, rfl, .inr ⟨rfl, ⟨inv.step owns₄ tabled' inv.bounded (pool₄.trans (pool₃.trans pool₁))
        written kend₃, kernel', shape'⟩⟩⟩
    · -- the page is mapped, and the loop goes on from the next
      obtain ⟨mem₂, phys⟩ := Fallible.exists_ok_of_map_fst ((Phys.mappages_map_fst ..).trans mapped)
      obtain ⟨written₂, -⟩ := Phys.mappages_within phys
      rw [phys, Fallible.ok_bind]
      dsimp only
      rw [if_pos rfl]
      have userPage := page_lt_of_lt (a := a) (by omega)
      have entries : (d₁.set (a / pgSize) (some ⟨v2p page, true, true⟩)).owned.entries =
          Function.update d.owned.entries (a / pgSize) (some ⟨v2p page, true, true⟩) := by
        rw [Pgdir.owned_set_user userPage, Pgdir.set_entries, owned_entries_of_walk owns₁ inv.tabled walk]
      have next : Building data m₀ mem₀ pgdir m₂ mem₂ (d₁.set (a / pgSize) (some ⟨v2p page, true, true⟩))
          (a + pgSize) := by
        refine ⟨inv.step owns₂ tabled₂ bounded₁ (pool₂.trans pool₁)
          (zeroed.trans (written₂.mono fun v spare => pooled v (kept v spare))) (mappages_kend mapped),
          fun v above => ?_, inv.shape.extend aligned entries⟩
        rw [pte_after_walk walk, if_neg (by unfold pgSize kernBase at *; omega), inv.kernel v above]
      exact ih (newsz - (a + pgSize)) (by unfold pgSize; omega) next (by unfold pgSize at *; omega)
        (by unfold pgSize at *; omega) (by rw [roundNew]; unfold pgSize at *; omega) rfl
  · have top : a = pgroundup newsz := by
      rw [roundNew] at reach ⊢
      unfold pgSize at aligned
      omega
    rw [← top]
    exact ⟨newsz, m, d, mem, rfl, .inl ⟨rfl, inv⟩⟩

/-- allocuvm on exec's new directory of the pages below `PGROUNDUP(oldsz)`:
it never panics; it returns 0 with those pages, or a size from `newsz` on
below `KERNBASE` with the pages below its `PGROUNDUP`. -/
theorem Building.allocuvm {oldsz : Nat} (inv : Building data m₀ mem₀ pgdir m mem d (pgroundup oldsz))
    (small : oldsz < kernBase) (newsz : Nat) :
    ∃ r m' d' mem', Phys.allocuvm m mem d oldsz newsz = .ok ((r, m', d'), mem') ∧
      (r = 0 ∧ Building data m₀ mem₀ pgdir m' mem' d' (pgroundup oldsz) ∨
        0 < r ∧ r = max oldsz newsz ∧ r < kernBase ∧ Building data m₀ mem₀ pgdir m' mem' d' (pgroundup r)) := by
  unfold Phys.allocuvm
  by_cases fits : newsz < kernBase
  · rw [if_neg (by omega)]
    by_cases grows : oldsz ≤ newsz
    · rw [if_neg (by omega)]
      obtain ⟨r, m', d', mem', loop, result⟩ :=
        inv.allocLoop (pgroundup_aligned oldsz) (Nat.le_refl _) (pgroundup_mono grows fits) fits grows
      refine ⟨r, m', d', mem', loop, ?_⟩
      rcases result with ⟨rfl, grown⟩ | ⟨rfl, failed⟩
      · by_cases zero : r = 0
        · -- nothing to grow from 0 to 0
          have none : oldsz = 0 := by omega
          subst zero none
          exact .inl ⟨rfl, grown⟩
        · exact .inr ⟨Nat.pos_of_ne_zero zero, (Nat.max_eq_right grows).symm, fits, grown⟩
      · exact .inl ⟨rfl, failed⟩
    · rw [if_pos (by omega)]
      exact ⟨oldsz, m, d, mem, rfl, .inr ⟨by omega, (Nat.max_eq_left (by omega)).symm, small, inv⟩⟩
  · rw [if_pos (by omega)]
    exact ⟨0, m, d, mem, rfl, .inl ⟨rfl, inv⟩⟩

end Building

/-! ## loaduvm -/

theorem pgroundup_le_kernBase {sz : Nat} (small : sz < kernBase) : pgroundup sz ≤ kernBase := by
  rw [pgroundup_of_lt small]
  unfold kernBase at small ⊢
  omega

theorem le16_lt (b : List UInt8) (off : Nat) : le16 b off < 2 ^ 16 := by
  have low := (b.getD off 0).toNat_lt
  have high := (b.getD (off + 1) 0).toNat_lt
  unfold le16
  omega

theorem le32_lt (b : List UInt8) (off : Nat) : le32 b off < 2 ^ 32 := by
  have low := le16_lt b off
  have high := le16_lt b (off + 2)
  unfold le32
  omega

theorem readi_length {file : List UInt8} {off n : Nat} {b : List UInt8} (read : readi file off n = some b) :
    b.length ≤ n := by
  unfold readi at read
  split_ifs at read
  cases read
  exact List.length_take_le _ _

/-- A store that stays within the page at `v` changes that page only. -/
theorem within_store {P : Nat → Prop} {v dst : Nat} (inside : P v) {buf : List UInt8} (low : v ≤ dst)
    (high : dst + buf.length ≤ v + pgSize) (mem : Nat → UInt8) : Within P mem (store mem dst buf) := by
  intro a changed
  by_cases here : dst ≤ a ∧ a < dst + buf.length
  · exact ⟨v, inside, by omega, by omega⟩
  · exact absurd (if_neg here) changed

section Building

variable {data : Nat} {m₀ : Kmem} {mem₀ : Nat → UInt8} {pgdir : Nat}

/-- A user page of the view of the new directory has its PTE in its page table. -/
theorem Phys.Holds.pte_of_entry (holds : Phys.Holds m₀ mem₀ pgdir m mem d) {va : Nat} {e : Pte}
    (below : va < kernBase) (entry : d.owned.entries (va / pgSize) = some e) :
    d.pte va = some e ∧ d.entries (va / pgSize) = some e := by
  have whole : d.entries (va / pgSize) = some e := by
    rwa [entries_owned_of_lt d below] at entry
  obtain ⟨t, table⟩ := holds.tabled _ e entry
  rw [Pgdir.owned_tables, ← pdx_eq_div] at table
  exact ⟨by rw [Pgdir.pte_of_table table, whole], whole⟩

/-- The PTE of a page of the image below `top`: present, in its page table. -/
theorem Building.pte_of_lt {top : Nat} (inv : Building data m₀ mem₀ pgdir m mem d top) (low : top ≤ kernBase)
    {va : Nat} (below : va < top) :
    ∃ e, d.pte va = some e ∧ d.entries (va / pgSize) = some e := by
  have page : va / pgSize * pgSize < top := Nat.lt_of_le_of_lt (Nat.div_mul_le_self va pgSize) below
  obtain ⟨e, entry⟩ := Option.isSome_iff_exists.mp ((inv.shape.present _).mpr page)
  exact ⟨e, inv.pte_of_entry (by omega) entry⟩

/-- setupkvm's directory, held in `pgdir`, as setupkvm leaves it: the image
of size 0, with no user page, since each would show through its page table
where setupkvm maps nothing. -/
theorem Building.start (owns : Owns m d.owned [pgdir]) (tabled : d.owned.Tabled) (bounded : d.Bounded)
    (kernel : ∀ v, d.pte v = kernelPte data v) (pool : Pool m d.owned [pgdir] = Pool m₀ Pgdir.empty [])
    (within : Within (· ∈ m₀.freelist) mem₀ mem) (kend : m.kend = m₀.kend) :
    Building data m₀ mem₀ pgdir m mem d (pgroundup 0) := by
  have holds : Phys.Holds m₀ mem₀ pgdir m mem d := ⟨owns, tabled, bounded, pool, within, kend⟩
  have empty : ∀ u, d.owned.entries u = none := fun u => by
    cases found : d.owned.entries u with
    | none => rfl
    | some e =>
        have user : u * pgSize < kernBase := by
          rw [Pgdir.owned_entries] at found
          split_ifs at found with below
          exact below
        have page : u * pgSize / pgSize = u := Nat.mul_div_cancel u (by decide)
        have atPage : d.owned.entries (u * pgSize / pgSize) = some e := by
          rw [page]
          exact found
        obtain ⟨pte, -⟩ := holds.pte_of_entry user atPage
        rw [kernel, Phys.kernelPte_of_lt user] at pte
        cases pte
  refine ⟨holds, fun v _ => kernel v, ⟨fun u => ?_, fun u e entry => ?_⟩⟩
  · rw [empty u, show pgroundup 0 = 0 by decide]
    exact iff_of_false (by decide) (Nat.not_lt_zero _)
  · rw [empty u] at entry
    cases entry

/-- loaduvm's loop over a segment within the image: it never panics, and it
writes only the segment's pages, which were free when exec began. -/
theorem Building.loadLoop {top : Nat} {mem : Nat → UInt8} (inv : Building data m₀ mem₀ pgdir m mem d top)
    (low : top ≤ kernBase) {addr sz : Nat} (inside : addr + sz ≤ top) (file : List UInt8) (offset i : Nat) :
    ∃ ok mem', Phys.loadLoop m d addr file offset sz mem i = .ok (ok, mem') ∧
      Building data m₀ mem₀ pgdir m mem' d top := by
  rw [Phys.loadLoop]
  by_cases below : i < sz
  · rw [if_pos below]
    have inSegment : addr + i < top := by omega
    obtain ⟨e, pte, entry⟩ := inv.pte_of_lt low inSegment
    obtain ⟨-, -, wasFree⟩ := inv.frame (by omega) pte
    rw [walkpgdir_of_pte (by rw [pte]; rfl) false]
    dsimp only
    rw [entry, Option.map_some, Option.getD_some]
    have page : (if sz - i < pgSize then sz - i else pgSize) ≤ pgSize := by
      split <;> omega
    generalize (if sz - i < pgSize then sz - i else pgSize) = n at page ⊢
    rcases read : readi file ((offset + i) % 2 ^ 32) n with _ | bytes
    · exact ⟨false, mem, rfl, inv⟩
    · have short := readi_length read
      -- readi's bytes land in the segment's page, which was free
      have written : Building data m₀ mem₀ pgdir m (store mem (p2v e.addr) bytes) d top :=
        { inv with within := inv.within.trans (within_store wasFree (Nat.le_refl _) (by omega) mem) }
      dsimp only
      by_cases whole : bytes.length = n
      · rw [if_pos whole]
        exact written.loadLoop low inside file offset (i + pgSize)
      · rw [if_neg whole]
        exact ⟨false, _, rfl, written⟩
  · rw [if_neg below]
    exact ⟨true, mem, rfl, inv⟩
termination_by sz - i
decreasing_by
  simp only [pgSize]
  omega

theorem Building.loaduvm {top : Nat} (inv : Building data m₀ mem₀ pgdir m mem d top) (low : top ≤ kernBase)
    {addr sz : Nat} (aligned : addr % pgSize = 0) (inside : addr + sz ≤ top) (file : List UInt8) (offset : Nat) :
    ∃ ok mem', Phys.loaduvm m mem d addr file offset sz = .ok (ok, mem') ∧
      Building data m₀ mem₀ pgdir m mem' d top := by
  unfold Phys.loaduvm
  rw [if_neg (not_not_intro aligned)]
  exact inv.loadLoop low inside file offset 0

/-- exec's loop over the program headers, from an image of size `sz`: it never
panics; it ends in `bad:` with the accounting of `Holds` kept, or with an
image of the size it returns. -/
theorem Building.loadSegs {sz : Nat} {m : Kmem} {mem : Nat → UInt8} {d : Pgdir}
    (inv : Building data m₀ mem₀ pgdir m mem d (pgroundup sz)) (small : sz < kernBase) (file : List UInt8)
    (phnum i off : Nat) :
    ∃ r m' d' mem', Phys.loadSegs file phnum m mem d sz i off = .ok ((r, m', d'), mem') ∧
      Phys.Holds m₀ mem₀ pgdir m' mem' d' ∧
      ∀ sz', r = some sz' → sz' < kernBase ∧ Building data m₀ mem₀ pgdir m' mem' d' (pgroundup sz') := by
  have bad : ∀ {m' : Kmem} {mem' : Nat → UInt8} {d' : Pgdir} {top : Nat},
      Building data m₀ mem₀ pgdir m' mem' d' top → Phys.Holds m₀ mem₀ pgdir m' mem' d' ∧
        ∀ sz', (none : Option Nat) = some sz' → sz' < kernBase ∧
          Building data m₀ mem₀ pgdir m' mem' d' (pgroundup sz') :=
    fun built => ⟨built.toHolds, fun _ none => by cases none⟩
  rw [Phys.loadSegs]
  by_cases more : i < phnum
  · rw [if_pos more]
    rcases read : readi file off proghdrSize with _ | b
    · exact ⟨none, m, d, mem, rfl, bad inv⟩
    dsimp only
    by_cases short : b.length ≠ proghdrSize
    · rw [if_pos short]
      exact ⟨none, m, d, mem, rfl, bad inv⟩
    rw [if_neg short]
    by_cases notLoad : (Proghdr.read b).type ≠ elfProgLoad
    · rw [if_pos notLoad]
      exact inv.loadSegs small file phnum (i + 1) _
    rw [if_neg notLoad]
    by_cases tooBig : (Proghdr.read b).memsz < (Proghdr.read b).filesz
    · rw [if_pos tooBig]
      exact ⟨none, m, d, mem, rfl, bad inv⟩
    rw [if_neg tooBig]
    by_cases wraps : ((Proghdr.read b).vaddr + (Proghdr.read b).memsz) % 2 ^ 32 < (Proghdr.read b).vaddr
    · rw [if_pos wraps]
      exact ⟨none, m, d, mem, rfl, bad inv⟩
    rw [if_neg wraps]
    -- a loadable segment: allocuvm to its end, then loaduvm
    obtain ⟨r, m₁, d₁, mem₁, alloc, grown⟩ :=
      inv.allocuvm small (((Proghdr.read b).vaddr + (Proghdr.read b).memsz) % 2 ^ 32)
    rw [alloc, Fallible.ok_mapError, Fallible.ok_bind]
    dsimp only
    rcases grown with ⟨rfl, built⟩ | ⟨positive, reach, fits, built⟩
    · exact ⟨none, m₁, d₁, mem₁, rfl, bad built⟩
    rw [if_neg (Nat.pos_iff_ne_zero.mp positive)]
    by_cases aligned : (Proghdr.read b).vaddr % pgSize = 0
    · rw [if_neg (not_not_intro aligned)]
      -- the segment's bytes from the file lie below the end allocuvm reached
      have memsz := le32_lt b 20
      have inside : (Proghdr.read b).vaddr + (Proghdr.read b).filesz ≤ pgroundup r := by
        have round := pgroundup_of_lt fits
        have reach : ((Proghdr.read b).vaddr + (Proghdr.read b).memsz) % 2 ^ 32 ≤ r := by
          rw [reach]
          exact Nat.le_max_right _ _
        simp only [Proghdr.read] at tooBig wraps reach memsz ⊢
        omega
      obtain ⟨ok, mem₂, load, loaded⟩ :=
        built.loaduvm (pgroundup_le_kernBase fits) aligned inside file (Proghdr.read b).off
      rw [load, Fallible.ok_bind]
      dsimp only
      cases ok with
      | true => exact loaded.loadSegs fits file phnum (i + 1) _
      | false => exact ⟨none, m₁, d₁, mem₂, rfl, bad loaded⟩
    · rw [if_pos aligned]
      exact ⟨none, m₁, d₁, mem₁, rfl, bad built⟩
  · rw [if_neg more]
    exact ⟨some sz, m, d, mem, rfl, inv.toHolds, fun sz' same => by cases same; exact ⟨small, inv⟩⟩
termination_by phnum - i

end Building

end Vm
end Xv6
