import Xv6.Vm.Kvm
import Xv6.Vm.Uvm

/-!
# exec's user stack

exec's stack phase: round the size up, grow the image by two pages, clear
`PTE_U` on the first, push the argument strings and the `ustack` words, as
x86 stores a `uint`, below the top of the second, every write through
copyout and uva2ka.  The functions of `Phys` carry the bytes; those of `Vm`
drop them.  uva2ka reads `*pte` through the null pointer walkpgdir returns
when the directory entry has no page table, where the model stops with
`nullPte`; a string longer than the image wraps `sp` in `uint` arithmetic,
and from 32 MB past the image on it lands where setupkvm made no page table.
-/

namespace Xv6
namespace Vm

/-- How exec's walks of a directory can stop: a panic, or the read of `*pte`
through the null pointer walkpgdir returned for `va`. -/
inductive Fault where
  | panic (msg : String)
  | nullPte (va : Nat)
  deriving DecidableEq

/-- uva2ka: the kernel address of the page at `uva` when its PTE is present
with `PTE_U`, else 0 (`none`). -/
def uva2ka (m : Kmem) (d : Pgdir) (uva : Nat) : Except Fault (Option Nat) :=
  match walkpgdir m d uva false with
  | none => .error (.nullPte uva)
  | some _ =>
      match d.entries (uva / pgSize) with
      | none => .ok none
      | some pte => if pte.user then .ok (some (p2v pte.addr)) else .ok none

/-- clearpteu: clear `PTE_U` in the PTE of `uva`; a panic when its directory
entry has no page table. -/
def clearpteu (m : Kmem) (d : Pgdir) (uva : Nat) : Except Fault Pgdir :=
  match walkpgdir m d uva false with
  | none => .error (.panic "clearpteu")
  | some _ => .ok (d.set (uva / pgSize) ((d.entries (uva / pgSize)).map fun pte => { pte with user := false }))

/-- `sp = (sp - (strlen(s) + 1)) & ~3` for a string `s`, in `uint`s. -/
def pushSp (sp : Nat) (s : List UInt8) : Nat :=
  (sp + 2 ^ 32 - (s.length + 1) % 2 ^ 32) % 2 ^ 32 / 4 * 4

/-- `memmove(dst, buf, len)` from a kernel buffer holding the bytes `buf`. -/
def store (mem : Nat → UInt8) (dst : Nat) (buf : List UInt8) : Nat → UInt8 :=
  fun a => if dst ≤ a ∧ a < dst + buf.length then buf.getD (a - dst) 0 else mem a

/-- The four bytes of a `uint` as x86 stores them, lowest first. -/
def word (w : Nat) : List UInt8 :=
  [UInt8.ofNat w, UInt8.ofNat (w / 2 ^ 8), UInt8.ofNat (w / 2 ^ 16), UInt8.ofNat (w / 2 ^ 24)]

theorem length_flatMap_word (ws : List Nat) : (ws.flatMap word).length = ws.length * 4 := by
  induction ws with
  | nil => rfl
  | cons w rest ih =>
      rw [List.flatMap_cons, List.length_append, ih, List.length_cons]
      simp only [word, List.length_cons, List.length_nil]
      omega

namespace Phys

/-- copyout of the bytes `buf` to user address `va`, one page at a time:
0, or -1 at the first page not present with `PTE_U`. -/
def copyout (m : Kmem) (d : Pgdir) (va : Nat) (buf : List UInt8) (mem : Nat → UInt8) :
    Except Fault (Int × (Nat → UInt8)) :=
  if 0 < buf.length then do
    let va0 := pgrounddown va
    match ← uva2ka m d va0 with
    | none => return (-1, mem)
    | some pa0 =>
        let n := min (pgSize - (va - va0)) buf.length
        copyout m d ((va0 + pgSize) % 2 ^ 32) (buf.drop n) (store mem (pa0 + (va - va0)) (buf.take n))
  else .ok (0, mem)
termination_by buf.length
decreasing_by
  simp only [List.length_drop, pgrounddown, pgSize] at *
  omega

/-- exec's loop over the argument strings from `argv[argc]` on: each goes
with its NUL below `sp`, and its address is the next of `ustack[3..]`; the
last `sp` and those addresses, or `none` for `goto bad`. -/
def pushArgs (m : Kmem) (d : Pgdir) : Nat → Nat → List (List UInt8) → (Nat → UInt8) →
    Except Fault (Option (Nat × List Nat) × (Nat → UInt8))
  | sp, _, [], mem => .ok (some (sp, []), mem)
  | sp, argc, s :: rest, mem =>
      if maxArg ≤ argc then .ok (none, mem)
      else do
        let sp := pushSp sp s
        let (r, mem) ← copyout m d sp (s ++ [0]) mem
        if r < 0 then return (none, mem)
        else
          match ← pushArgs m d sp (argc + 1) rest mem with
          | (none, mem) => return (none, mem)
          | (some (sp', addrs), mem) => return (some (sp', sp :: addrs), mem)

/-- exec's `bad:` once the program is loaded: free the new directory, held in
page `pgdir`, and return -1. -/
def execBad (pgdir : Nat) (m : Kmem) (mem : Nat → UInt8) (d : Pgdir) :
    Except Fault ((Option (Nat × Nat × List Nat × Pgdir) × Kmem) × (Nat → UInt8)) := do
  let (m, mem) ← (freevm m mem pgdir d).mapError .panic
  return ((none, m), mem)

/-- exec from `sz = PGROUNDUP(sz)` on, with the new directory `d` held in page
`pgdir`: the size, the stack pointer and the `ustack` words the process gets
with the directory, or `none` for -1; then kmem. -/
def execStack (pgdir : Nat) (m : Kmem) (mem : Nat → UInt8) (d : Pgdir) (sz : Nat) (argv : List (List UInt8)) :
    Except Fault ((Option (Nat × Nat × List Nat × Pgdir) × Kmem) × (Nat → UInt8)) := do
  let sz := pgroundup sz
  let ((sz, m, d), mem) ← (allocuvm m mem d sz ((sz + 2 * pgSize) % 2 ^ 32)).mapError .panic
  if sz = 0 then execBad pgdir m mem d
  else
    let d ← clearpteu m d (sz - 2 * pgSize)
    match ← pushArgs m d sz 0 argv mem with
    | (none, mem) => execBad pgdir m mem d
    | (some (sp, addrs), mem) =>
        let argc := addrs.length
        -- the fake return PC, argc, argv, then the string pointers and 0
        let ustack := [0xffffffff, argc, (sp + 2 ^ 32 - (argc + 1) * 4) % 2 ^ 32] ++ addrs ++ [0]
        let sp := (sp + 2 ^ 32 - (3 + argc + 1) * 4) % 2 ^ 32
        let (r, mem) ← copyout m d sp (ustack.flatMap word) mem
        if r < 0 then execBad pgdir m mem d
        else return ((some (sz, sp, ustack, d), m), mem)

end Phys

/-- copyout of `len` bytes without the bytes. -/
def copyout (m : Kmem) (d : Pgdir) (va len : Nat) : Except Fault Int :=
  (Phys.copyout m d va (List.replicate len 0) zeros).map Prod.fst

/-- exec's argument loop without the bytes. -/
def pushArgs (m : Kmem) (d : Pgdir) (sp argc : Nat) (argv : List (List UInt8)) :
    Except Fault (Option (Nat × List Nat)) :=
  (Phys.pushArgs m d sp argc argv zeros).map Prod.fst

/-- exec's `bad:` without the bytes. -/
def execBad (pgdir : Nat) (m : Kmem) (d : Pgdir) : Except Fault (Option (Nat × Nat × List Nat × Pgdir) × Kmem) :=
  (Phys.execBad pgdir m zeros d).map Prod.fst

/-- exec's stack phase without the bytes. -/
def execStack (pgdir : Nat) (m : Kmem) (d : Pgdir) (sz : Nat) (argv : List (List UInt8)) :
    Except Fault (Option (Nat × Nat × List Nat × Pgdir) × Kmem) :=
  (Phys.execStack pgdir m zeros d sz argv).map Prod.fst

/-! ## Dropping the bytes -/

namespace Phys

/-- copyout of two buffers of one length from any bytes: the same pages are
missing. -/
theorem copyout_agree (m : Kmem) (d : Pgdir) (va : Nat) (buf buf' : List UInt8) (mem mem' : Nat → UInt8)
    (same : buf.length = buf'.length) :
    (copyout m d va buf mem).map Prod.fst = (copyout m d va buf' mem').map Prod.fst := by
  rw [copyout.eq_1 m d va buf, copyout.eq_1 m d va buf', ← same]
  by_cases nonempty : 0 < buf.length
  · rw [if_pos nonempty, if_pos nonempty]
    dsimp only
    rcases uva2ka m d (pgrounddown va) with fault | _ | pa0
    · rfl
    · rfl
    · rw [Fallible.ok_bind, Fallible.ok_bind]
      dsimp only
      exact copyout_agree m d _ _ _ _ _ (by rw [List.length_drop, List.length_drop, same])
  · rw [if_neg nonempty, if_neg nonempty]
    rfl
termination_by buf.length
decreasing_by
  simp only [List.length_drop, pgrounddown, pgSize] at *
  omega

theorem copyout_map_fst (m : Kmem) (d : Pgdir) (va : Nat) (buf : List UInt8) (mem : Nat → UInt8) :
    (copyout m d va buf mem).map Prod.fst = Vm.copyout m d va buf.length :=
  copyout_agree m d va buf _ mem zeros (List.length_replicate ..).symm

/-- One round of exec's argument loop with the bytes dropped, from any bytes,
when the rest of the loop drops to its counterpart. -/
theorem pushArgs_drop (m : Kmem) (d : Pgdir) (rest : List (List UInt8))
    (next : ∀ sp argc mem, (pushArgs m d sp argc rest mem).map Prod.fst = Vm.pushArgs m d sp argc rest)
    (s : List UInt8) (sp argc : Nat) (mem : Nat → UInt8) :
    (pushArgs m d sp argc (s :: rest) mem).map Prod.fst =
      if maxArg ≤ argc then .ok none
      else (do
        let sp := pushSp sp s
        if (← Vm.copyout m d sp (s.length + 1)) < 0 then return none
        match ← Vm.pushArgs m d sp (argc + 1) rest with
        | none => return none
        | some (sp', addrs) => return some (sp', sp :: addrs)) := by
  rw [pushArgs]
  by_cases full : maxArg ≤ argc
  · rw [if_pos full, if_pos full]
    rfl
  rw [if_neg full, if_neg full]
  dsimp only
  have copied := copyout_map_fst m d (pushSp sp s) (s ++ [0]) mem
  rw [List.length_append, List.length_singleton] at copied
  rw [← copied]
  rcases copyout m d (pushSp sp s) (s ++ [0]) mem with fault | ⟨r, mem'⟩
  · rfl
  simp only [Fallible.ok_bind, Except.map]
  by_cases failed : r < 0
  · rw [if_pos failed, if_pos failed]
    rfl
  rw [if_neg failed, if_neg failed, ← next]
  rcases pushArgs m d (pushSp sp s) (argc + 1) rest mem' with fault | ⟨_ | ⟨sp', addrs⟩, mem''⟩ <;> rfl

theorem pushArgs_map_fst (m : Kmem) (d : Pgdir) :
    ∀ (argv : List (List UInt8)) (sp argc : Nat) (mem : Nat → UInt8),
      (pushArgs m d sp argc argv mem).map Prod.fst = Vm.pushArgs m d sp argc argv
  | [], _, _, _ => rfl
  | s :: rest, sp, argc, mem =>
      (pushArgs_drop m d rest (pushArgs_map_fst m d rest) s sp argc mem).trans
        (pushArgs_drop m d rest (pushArgs_map_fst m d rest) s sp argc zeros).symm

/-- exec's `bad:` with the bytes dropped, from any bytes. -/
theorem execBad_drop (pgdir : Nat) (m : Kmem) (mem : Nat → UInt8) (d : Pgdir) :
    (execBad pgdir m mem d).map Prod.fst = (do
      let m ← (Vm.freevm m pgdir d).mapError .panic
      return (none, m)) := by
  unfold execBad
  rw [← freevm_map_fst m mem pgdir d]
  rcases freevm m mem pgdir d with fault | ⟨m', mem'⟩ <;> rfl

end Phys

theorem copyout_eq (m : Kmem) (d : Pgdir) (va len : Nat) :
    copyout m d va len =
      if 0 < len then (do
        let va0 := pgrounddown va
        match ← uva2ka m d va0 with
        | none => return -1
        | some _ =>
            let n := min (pgSize - (va - va0)) len
            copyout m d ((va0 + pgSize) % 2 ^ 32) (len - n))
      else .ok 0 := by
  show (Phys.copyout m d va (List.replicate len 0) zeros).map Prod.fst = _
  rw [Phys.copyout.eq_1, List.length_replicate]
  by_cases nonempty : 0 < len
  · rw [if_pos nonempty, if_pos nonempty]
    dsimp only
    rcases uva2ka m d (pgrounddown va) with fault | _ | pa0
    · rfl
    · rfl
    · rw [Fallible.ok_bind, Fallible.ok_bind]
      dsimp only
      rw [Phys.copyout_map_fst, List.length_drop, List.length_replicate]
  · rw [if_neg nonempty, if_neg nonempty]
    rfl

theorem pushArgs_cons (m : Kmem) (d : Pgdir) (sp argc : Nat) (s : List UInt8) (rest : List (List UInt8)) :
    pushArgs m d sp argc (s :: rest) =
      if maxArg ≤ argc then .ok none
      else (do
        let sp := pushSp sp s
        if (← copyout m d sp (s.length + 1)) < 0 then return none
        match ← pushArgs m d sp (argc + 1) rest with
        | none => return none
        | some (sp', addrs) => return some (sp', sp :: addrs)) :=
  Phys.pushArgs_drop m d rest (Phys.pushArgs_map_fst m d rest) s sp argc zeros

theorem execBad_eq (pgdir : Nat) (m : Kmem) (d : Pgdir) :
    execBad pgdir m d = (do
      let m ← (freevm m pgdir d).mapError .panic
      return (none, m)) :=
  Phys.execBad_drop pgdir m zeros d

theorem Phys.execBad_map_fst (pgdir : Nat) (m : Kmem) (mem : Nat → UInt8) (d : Pgdir) :
    (Phys.execBad pgdir m mem d).map Prod.fst = Vm.execBad pgdir m d :=
  (Phys.execBad_drop ..).trans (execBad_eq ..).symm

theorem execStack_eq (pgdir : Nat) (m : Kmem) (d : Pgdir) (sz : Nat) (argv : List (List UInt8)) :
    execStack pgdir m d sz argv = (do
      let sz := pgroundup sz
      let (sz, m, d) ← (allocuvm m d sz ((sz + 2 * pgSize) % 2 ^ 32)).mapError .panic
      if sz = 0 then execBad pgdir m d
      else
        let d ← clearpteu m d (sz - 2 * pgSize)
        match ← pushArgs m d sz 0 argv with
        | none => execBad pgdir m d
        | some (sp, addrs) =>
            let argc := addrs.length
            let ustack := [0xffffffff, argc, (sp + 2 ^ 32 - (argc + 1) * 4) % 2 ^ 32] ++ addrs ++ [0]
            let sp := (sp + 2 ^ 32 - (3 + argc + 1) * 4) % 2 ^ 32
            if (← copyout m d sp ((3 + argc + 1) * 4)) < 0 then execBad pgdir m d
            else return (some (sz, sp, ustack, d), m)) := by
  show (Phys.execStack pgdir m zeros d sz argv).map Prod.fst = _
  unfold Phys.execStack
  dsimp only
  rw [← Phys.allocuvm_map_fst]
  rcases Phys.allocuvm m zeros d (pgroundup sz) ((pgroundup sz + 2 * pgSize) % 2 ^ 32) with
    fault | ⟨⟨sz', m', d'⟩, mem'⟩
  · rfl
  simp only [Except.map, Fallible.ok_mapError, Fallible.ok_bind]
  by_cases zero : sz' = 0
  · rw [if_pos zero, if_pos zero, ← Phys.execBad_map_fst]
    rfl
  rw [if_neg zero, if_neg zero]
  rcases clearpteu m' d' (sz' - 2 * pgSize) with fault | d₁
  · rfl
  simp only [Fallible.ok_bind]
  rw [← Phys.pushArgs_map_fst]
  rcases Phys.pushArgs m' d₁ sz' 0 argv mem' with fault | ⟨_ | ⟨sp, addrs⟩, mem₁⟩
  · rfl
  · simp only [Except.map, Fallible.ok_bind]
    rw [← Phys.execBad_map_fst]
    rfl
  simp only [Except.map, Fallible.ok_bind]
  -- the `ustack` words take `(3 + argc + 1) * 4` bytes
  have copied := Phys.copyout_map_fst m' d₁ ((sp + 2 ^ 32 - (3 + addrs.length + 1) * 4) % 2 ^ 32)
    (([4294967295, addrs.length, (sp + 2 ^ 32 - (addrs.length + 1) * 4) % 2 ^ 32] ++ addrs ++ [0]).flatMap word) mem₁
  rw [length_flatMap_word] at copied
  simp only [List.length_append, List.length_cons, List.length_nil] at copied
  rw [show (3 + addrs.length + 1) * 4 = (0 + 1 + 1 + 1 + addrs.length + (0 + 1)) * 4 by omega, ← copied]
  rcases Phys.copyout m' d₁ _ _ mem₁ with fault | ⟨r, mem₂⟩
  · rfl
  simp only [Except.map, Fallible.ok_bind]
  by_cases failed : r < 0
  · rw [if_pos failed, if_pos failed, ← Phys.execBad_map_fst]
    rfl
  · rw [if_neg failed, if_neg failed]
    rfl

/-! ## allocuvm, when kalloc has the pages it needs -/

variable {m : Kmem} {d : Pgdir}

/-- allocuvm's loop from an aligned `a`, when no PTE of the range is present
and kalloc has two pages for each page left, one for the page and one for a
page table: it maps every page below `newsz` and returns `newsz`, leaves a
page table for each of them and removes none, and changes no page table at
or above `KERNBASE`. -/
theorem allocLoop_ok (oldsz newsz : Nat) (small : newsz ≤ kernBase) :
    ∀ k (m : Kmem) (d : Pgdir) (a : Nat), a % pgSize = 0 → newsz ≤ a + k * pgSize →
      (∀ u, a ≤ u * pgSize → u * pgSize < newsz → d.entries u = none) →
      2 * k ≤ m.freelist.length →
      ∃ m' d', allocLoop m d oldsz newsz a = .ok (newsz, m', d') ∧
        m.freelist.length ≤ m'.freelist.length + 2 * k ∧
        (∀ i, pdx kernBase ≤ i → d'.tables i = d.tables i) ∧
        (∀ i, (d.tables i).isSome → (d'.tables i).isSome) ∧
        (∀ x, a ≤ x → x < newsz → (d'.tables (pdx x)).isSome) := by
  intro k
  induction k with
  | zero =>
      intro m d a _ done _ _
      refine ⟨m, d, ?_, by omega, fun _ _ => rfl, fun _ present => present, fun x low high => by omega⟩
      rw [allocLoop_eq, if_neg (by omega)]
  | succ k inductionHypothesis =>
      intro m d a aligned done empty enough
      by_cases more : a < newsz
      · obtain ⟨mem, rest, list⟩ : ∃ mem rest, m.freelist = mem :: rest := by
          cases h : m.freelist with
          | nil => simp [h] at enough
          | cons mem rest => exact ⟨mem, rest, rfl⟩
        have got : kalloc m = (some mem, { m with freelist := rest }) := by simp [kalloc, list]
        have length₁ : m.freelist.length = rest.length + 1 := by simp [list]
        -- the page at a, in one mappages call
        have wanted := tablesWanted_le d a (a + pgSize - pgSize)
        obtain ⟨m₂, d₂, mapped, used, tables, entries, kept, covered⟩ :=
          mappages_ok (m := { m with freelist := rest }) (d := d) true true a pgSize (v2p mem)
            aligned (by decide) (by decide)
            (fun u low high => empty u low (by simp only [pgSize] at aligned low high more ⊢; omega))
            (by simp only [Nat.add_sub_cancel] at wanted ⊢; omega)
        simp only [Nat.add_sub_cancel] at used tables covered
        have below : pdx a < pdx kernBase := by
          simp only [pdx, kernBase, pgSize, nPtEntries] at more small ⊢
          omega
        obtain ⟨m', d', ran, used', tables', kept', covered'⟩ :=
          inductionHypothesis m₂ d₂ (a + pgSize) (by simp only [pgSize] at aligned ⊢; omega)
            (by simp only [Nat.succ_mul] at done; omega)
            (fun u low high => entries u (.inr low) (empty u (by omega) high))
            (by simp only [tablesWanted] at used; omega)
        refine ⟨m', d', ?_, ?_, fun i high => ?_, fun i present => kept' i (kept i present),
          fun x low high => ?_⟩
        · rw [allocLoop_eq, if_pos more, got]
          dsimp only
          rw [mapped, Fallible.ok_bind]
          dsimp only
          rw [if_pos rfl]
          exact ran
        · simp only [tablesWanted] at used
          omega
        · rw [tables' i high, tables i (.inr (by omega))]
        · -- a page of the first's directory entry, or one of the rest
          by_cases first : x < a + pgSize
          · have same : pdx x = pdx a := by
              simp only [pdx, pgSize, nPtEntries] at aligned low first ⊢
              omega
            rw [same]
            exact kept' _ (covered _ (Nat.le_refl _) (Nat.le_refl _))
          · exact covered' x (by omega) high
      · refine ⟨m, d, ?_, by omega, fun _ _ => rfl, fun _ present => present, fun x low high => by omega⟩
        rw [allocLoop_eq, if_neg more]

/-- allocuvm growing to `newsz` below `KERNBASE` with the pages it may want. -/
theorem allocuvm_ok (oldsz newsz : Nat) (grow : oldsz ≤ newsz) (small : newsz < kernBase)
    (empty : ∀ u, pgroundup oldsz ≤ u * pgSize → u * pgSize < newsz → d.entries u = none)
    {k : Nat} (pages : newsz ≤ pgroundup oldsz + k * pgSize) (enough : 2 * k ≤ m.freelist.length) :
    ∃ m' d', allocuvm m d oldsz newsz = .ok (newsz, m', d') ∧
      m.freelist.length ≤ m'.freelist.length + 2 * k ∧
      (∀ i, pdx kernBase ≤ i → d'.tables i = d.tables i) ∧
      (∀ x, pgroundup oldsz ≤ x → x < newsz → (d'.tables (pdx x)).isSome) := by
  obtain ⟨m', d', ran, used, tables, -, covered⟩ :=
    allocLoop_ok oldsz newsz (Nat.le_of_lt small) k m d (pgroundup oldsz) (pgroundup_aligned oldsz)
      pages empty enough
  refine ⟨m', d', ?_, used, tables, covered⟩
  rw [allocuvm_eq, if_neg (by omega), if_neg (by omega)]
  exact ran

/-! ## The walks exec makes -/

/-- uva2ka where the directory entry has no page table: the null read. -/
theorem uva2ka_null {uva : Nat} (absent : d.tables (pdx uva) = none) :
    uva2ka m d uva = .error (.nullPte uva) := by
  unfold uva2ka
  rw [walkpgdir_eq, absent]
  rfl

/-- copyout where the first page's directory entry has no page table. -/
theorem copyout_null {va : Nat} (len : Nat) (nonempty : 0 < len)
    (absent : d.tables (pdx (pgrounddown va)) = none) :
    copyout m d va len = .error (.nullPte (pgrounddown va)) := by
  rw [copyout_eq, if_pos nonempty]
  simp only [uva2ka_null absent]
  rfl

/-- clearpteu where the page table exists: no page table changes. -/
theorem clearpteu_ok (uva : Nat) (present : (d.tables (pdx uva)).isSome) :
    ∃ d', clearpteu m d uva = .ok d' ∧ d'.tables = d.tables := by
  obtain ⟨t, found⟩ := Option.isSome_iff_exists.mp present
  unfold clearpteu
  rw [walkpgdir_eq, found]
  exact ⟨_, rfl, rfl⟩

/-- exec's argument loop, where the page the next string's `sp` falls in has
no page table. -/
theorem pushArgs_null {sp : Nat} (argc : Nat) {s : List UInt8} (rest : List (List UInt8)) (room : argc < maxArg)
    (absent : d.tables (pdx (pgrounddown (pushSp sp s))) = none) :
    pushArgs m d sp argc (s :: rest) = .error (.nullPte (pgrounddown (pushSp sp s))) := by
  rw [pushArgs_cons, if_neg (Nat.not_le.mpr room)]
  simp only [copyout_null (s.length + 1) (Nat.succ_pos _) absent]
  rfl

/-- The page a string `sp` wraps to from the top of a two-page stack when the
string is from 32 MB + 8 KB to 0x72000000 bytes long: between
`KERNBASE + PHYSTOP` and `DEVSPACE`. -/
theorem pushSp_wraps {s : List UInt8} (long : 2 ^ 25 + 8192 ≤ s.length) (short : s.length < 0x72000000) :
    p2v phyStop ≤ pgrounddown (pushSp 8192 s) ∧ pgrounddown (pushSp 8192 s) < devSpace := by
  simp only [pgrounddown, pushSp, p2v, phyStop, kernBase, devSpace, pgSize, Nat.reducePow] at long short ⊢
  constructor <;> omega

/-- exec of a program with no loadable segment, so that the size is 0 once it
is loaded, and one argument string of 32 MB + 8 KB up to 0x72000000 bytes,
on a new directory from setupkvm, wherever the kernel's data starts and with
the 71 pages setupkvm and the stack may want: the string's `sp` wraps to a
page between `KERNBASE + PHYSTOP` and `DEVSPACE`, which has no page table,
and copyout's uva2ka reads `*pte` through walkpgdir's null pointer. -/
theorem exec_long_argument_null_pte {data : Nat} (aligned : data % pgSize = 0) (linked : kernLink < data)
    (inMemory : data < p2v phyStop) (m : Kmem) (enough : 71 ≤ m.freelist.length) (arg : List UInt8)
    (long : 2 ^ 25 + 8192 ≤ arg.length) (short : arg.length < 0x72000000) :
    ∃ pgdir d m', setupkvm data m = .ok (some (pgdir, d), m') ∧
      ∃ va, execStack pgdir m' d 0 [arg] = .error (.nullPte va) ∧ d.tables (pdx va) = none ∧
        p2v phyStop ≤ va ∧ va < devSpace := by
  obtain ⟨pgdir, d, m', setup, used, noTable, noPte⟩ := setupkvm_ok aligned linked inMemory m (by omega)
  refine ⟨pgdir, d, m', setup, ?_⟩
  -- the guard page and the stack page
  obtain ⟨m₁, d₁, grown, -, above, covered⟩ :=
    allocuvm_ok (m := m') (d := d) (k := 2) 0 8192 (by decide) (by decide)
      (fun u _ high => noPte u (by simp only [kernBase] at high ⊢; omega)) (by decide) (by omega)
  obtain ⟨d₂, cleared, sameTables⟩ := clearpteu_ok (m := m₁) (d := d₁) 0 (covered 0 (by decide) (by decide))
  obtain ⟨low, high⟩ := pushSp_wraps long short
  -- the string's page is in the directory entries setupkvm left without a table
  have gap : pdx (p2v phyStop) ≤ pdx (pgrounddown (pushSp 8192 arg)) ∧
      pdx (pgrounddown (pushSp 8192 arg)) < pdx devSpace := by
    simp only [pdx, p2v, phyStop, kernBase, devSpace, pgSize, nPtEntries] at low high ⊢
    constructor <;> omega
  have none₀ : d.tables (pdx (pgrounddown (pushSp 8192 arg))) = none := noTable _ (.inr gap)
  have absent : d₂.tables (pdx (pgrounddown (pushSp 8192 arg))) = none := by
    rw [sameTables, above _ (by simp only [pdx, p2v, phyStop, kernBase, pgSize, nPtEntries] at gap ⊢; omega),
      none₀]
  refine ⟨_, ?_, none₀, low, high⟩
  have start : pgroundup 0 = 0 := rfl
  have top : (0 + 2 * pgSize) % 2 ^ 32 = 8192 := rfl
  have guard : 8192 - 2 * pgSize = 0 := rfl
  have grownSize : ((8192 : Nat) = 0) = False := eq_false (by decide)
  simp only [execStack_eq, start, top, grown, grownSize, ↓reduceIte, guard, cleared,
    pushArgs_null 0 [] (by decide) absent, Except.mapError, Fallible.ok_bind]
  rfl

/-- kmem with 71 free pages above a kernel that ends at `KERNBASE + 4 MB`. -/
def kmem71 : Kmem :=
  ⟨kernBase + 0x400000, by decide, (List.range 71).map fun i => kernBase + 0x400000 + i * pgSize⟩

theorem length_kmem71 : kmem71.freelist.length = 71 := by
  rw [show kmem71.freelist = (List.range 71).map (fun i => kernBase + 0x400000 + i * pgSize) from rfl,
    List.length_map, List.length_range]

/-- The failing input's argument: 32 MB + 8 KB bytes 'a'. -/
def longArg : List UInt8 := List.replicate (2 ^ 25 + 8192) 97

theorem length_longArg : longArg.length = 2 ^ 25 + 8192 := by
  rw [longArg, List.length_replicate]

/-- The failing input: the kernel's data at `0x80108000`, kmem with 71 free
pages, and `longArg`. -/
theorem exec_long_argument_at_boot :
    ∃ pgdir d m', setupkvm 0x80108000 kmem71 = .ok (some (pgdir, d), m') ∧
      ∃ va, execStack pgdir m' d 0 [longArg] = .error (.nullPte va) ∧
        d.tables (pdx va) = none ∧ p2v phyStop ≤ va ∧ va < devSpace :=
  exec_long_argument_null_pte (by decide) (by decide) (by decide) kmem71 (Nat.le_of_eq length_kmem71.symm)
    longArg (Nat.le_of_eq length_longArg.symm) (by rw [length_longArg]; decide +kernel)

end Vm
end Xv6
