import Xv6.Param
import Xv6.Lib.CInt

/-!
# System-call arguments

`fetchint`, `fetchstr`, `argint`, `argptr` and `argstr` of `kernel/syscall.c`.
The kernel reads a system call's arguments straight from the caller's memory,
through the caller's page directory, so each fetcher first checks its range
against `p->sz` in uint arithmetic.  With `sz` below `KERNBASE` none of those
sums can wrap: whatever `tf->esp` and the argument words hold, a check that
passes describes a range inside `[0, sz)`, and fetchstr's scan reads nothing
from `sz` on (`Confined`).
-/

namespace Xv6
namespace Syscall

/-- What the fetchers see of the current process: `p->sz`, `p->tf->esp` and
its user memory, byte by byte. -/
structure User where
  sz : UInt32
  esp : UInt32
  mem : UInt32 → UInt8

/-- `*(int*)(addr)`: the int stored little-endian at `addr`. -/
def loadInt (mem : UInt32 → UInt8) (addr : UInt32) : Int32 :=
  ((mem addr).toUInt32 ||| (mem (addr + 1)).toUInt32 <<< 8 |||
    (mem (addr + 2)).toUInt32 <<< 16 ||| (mem (addr + 3)).toUInt32 <<< 24).toInt32

/-- fetchint: the int at `addr`, when `addr` and `addr+4` pass the check against `sz`. -/
def fetchint (p : User) (addr : UInt32) : Option Int32 :=
  if addr ≥ p.sz ∨ addr + 4 > p.sz then none else some (loadInt p.mem addr)

/-- fetchstr's loop `for(s = *pp; s < ep; s++) if(*s == 0) return s - *pp;`:
the first NUL from `s` on, below `ep`. -/
def nulFrom (mem : UInt32 → UInt8) (ep s : UInt32) : Option UInt32 :=
  if s < ep then
    if mem s = 0 then some s else nulFrom mem ep (s + 1)
  else none
termination_by ep.toNat - s.toNat
decreasing_by
  -- `s < ep`, so `s + 1` does not wrap
  have below := UInt32.lt_iff_toNat_lt.mp ‹s < ep›
  have := ep.toNat_lt
  rw [CInt.toNat_add_of_lt (by rw [UInt32.toNat_one]; omega), UInt32.toNat_one]
  omega

/-- fetchstr: the length of the NUL-terminated string at `addr`, which must
start below `sz` and end before it. -/
def fetchstr (p : User) (addr : UInt32) : Option Nat :=
  if addr ≥ p.sz then none else (nulFrom p.mem p.sz addr).map fun s => (s - addr).toNat

/-- argint: the `n`th int above the return address on the user stack. -/
def argint (p : User) (n : Int32) : Option Int32 :=
  fetchint p (p.esp + 4 + 4 * n.toUInt32)

/-- argptr: the `n`th argument as a pointer to `size` bytes inside the process. -/
def argptr (p : User) (n size : Int32) : Option UInt32 :=
  match argint p n with
  | none => none
  | some i =>
    if size < 0 ∨ i.toUInt32 ≥ p.sz ∨ i.toUInt32 + size.toUInt32 > p.sz then none
    else some i.toUInt32

/-- argstr: the `n`th argument as a NUL-terminated string: its address and length. -/
def argstr (p : User) (n : Int32) : Option (UInt32 × Nat) :=
  match argint p n with
  | none => none
  | some addr => (fetchstr p addr.toUInt32).map fun len => (addr.toUInt32, len)

/-- Two memories that agree on the addresses in `[lo, hi)`. -/
def Agree (mem mem' : UInt32 → UInt8) (lo hi : Nat) : Prop :=
  ∀ a : UInt32, lo ≤ a.toNat → a.toNat < hi → mem' a = mem a

/-- What the checks guarantee, for every value of the stack pointer and the
argument words: each range a fetcher accepts lies inside `[0, sz)` as a range
of integers, and fetchstr's result depends on no byte outside `[addr, sz)`. -/
structure Confined (p : User) : Prop where
  fetchint : ∀ addr v, fetchint p addr = some v → addr.toNat + 4 ≤ p.sz.toNat
  argint : ∀ n v, argint p n = some v → (p.esp + 4 + 4 * n.toUInt32).toNat + 4 ≤ p.sz.toNat
  fetchstr : ∀ addr len, fetchstr p addr = some len → addr.toNat < p.sz.toNat ∧
    ∃ t : UInt32, addr.toNat ≤ t.toNat ∧ t.toNat < p.sz.toNat ∧ p.mem t = 0
  fetchstr_reads : ∀ addr mem', Agree p.mem mem' addr.toNat p.sz.toNat →
    Syscall.fetchstr { p with mem := mem' } addr = Syscall.fetchstr p addr
  argptr : ∀ n size ptr, argptr p n size = some ptr → 0 ≤ size.toInt ∧
    ∃ i, Syscall.argint p n = some i ∧ 0 ≤ i.toInt ∧ i.toInt + size.toInt ≤ p.sz.toNat ∧
      (ptr.toNat : Int) = i.toInt

variable {p : User}

theorem fetchint_range (small : p.sz.toNat < kernBase) {addr : UInt32} {v : Int32}
    (ok : fetchint p addr = some v) : addr.toNat + 4 ≤ p.sz.toNat := by
  unfold fetchint at ok
  split at ok
  · cases ok
  · rename_i pass
    simp only [not_or, ge_iff_le, gt_iff_lt, Std.not_le, Std.not_lt] at pass
    obtain ⟨below, within⟩ := pass
    have := UInt32.lt_iff_toNat_lt.mp below
    have four : (4 : UInt32).toNat = 4 := rfl
    rw [UInt32.le_iff_toNat_le, CInt.toNat_add_of_lt (by unfold kernBase at small; omega), four]
      at within
    exact within

/-- A pointer below `ep` can be incremented without wrapping. -/
theorem toNat_succ_of_lt {s ep : UInt32} (below : s < ep) : (s + 1).toNat = s.toNat + 1 := by
  have := ep.toNat_lt
  have := UInt32.lt_iff_toNat_lt.mp below
  rw [CInt.toNat_add_of_lt (by rw [UInt32.toNat_one]; omega), UInt32.toNat_one]

/-- What the scan finds is a NUL below `ep`, at or after where it started. -/
theorem nulFrom_some {mem : UInt32 → UInt8} {ep s t : UInt32} (found : nulFrom mem ep s = some t) :
    s.toNat ≤ t.toNat ∧ t.toNat < ep.toNat ∧ mem t = 0 := by
  fun_induction nulFrom mem ep s with
  | case1 s below nul =>
    cases found
    exact ⟨Nat.le_refl _, UInt32.lt_iff_toNat_lt.mp below, nul⟩
  | case2 s below notNul ih =>
    obtain ⟨after, within, nul⟩ := ih found
    have step := toNat_succ_of_lt below
    exact ⟨by omega, within, nul⟩
  | case3 s above => cases found

/-- The scan reads only the bytes from where it starts up to `ep`. -/
theorem nulFrom_congr {mem mem' : UInt32 → UInt8} {ep s : UInt32}
    (agree : Agree mem mem' s.toNat ep.toNat) : nulFrom mem' ep s = nulFrom mem ep s := by
  fun_induction nulFrom mem ep s with
  | case1 s below nul =>
    have same := agree s (Nat.le_refl _) (UInt32.lt_iff_toNat_lt.mp below)
    rw [nulFrom, if_pos below, if_pos (same.trans nul)]
  | case2 s below notNul ih =>
    have same := agree s (Nat.le_refl _) (UInt32.lt_iff_toNat_lt.mp below)
    have step := toNat_succ_of_lt below
    rw [nulFrom, if_pos below, if_neg (same ▸ notNul)]
    exact ih fun a after within => agree a (by omega) within
  | case3 s above =>
    rw [nulFrom, if_neg above]

theorem fetchstr_some {addr : UInt32} {len : Nat} (ok : fetchstr p addr = some len) :
    addr.toNat < p.sz.toNat ∧
      ∃ t : UInt32, addr.toNat ≤ t.toNat ∧ t.toNat < p.sz.toNat ∧ p.mem t = 0 := by
  unfold fetchstr at ok
  split at ok
  · cases ok
  · rename_i pass
    obtain ⟨t, found, -⟩ := Option.map_eq_some_iff.mp ok
    exact ⟨UInt32.lt_iff_toNat_lt.mp (Std.not_le.mp pass), t, nulFrom_some found⟩

theorem fetchstr_congr {addr : UInt32} {mem' : UInt32 → UInt8}
    (agree : Agree p.mem mem' addr.toNat p.sz.toNat) :
    fetchstr { p with mem := mem' } addr = fetchstr p addr := by
  simp only [fetchstr, nulFrom_congr agree]

/-- A pointer argptr accepts is the argument word itself, not negative, and
its `size` bytes end by `sz`: below `KERNBASE` neither the int-to-uint casts
nor `i+size` can wrap. -/
theorem argptr_range (small : p.sz.toNat < kernBase) {n size : Int32} {ptr : UInt32}
    (ok : argptr p n size = some ptr) : 0 ≤ size.toInt ∧
      ∃ i, argint p n = some i ∧ 0 ≤ i.toInt ∧ i.toInt + size.toInt ≤ p.sz.toNat ∧
        (ptr.toNat : Int) = i.toInt := by
  unfold argptr at ok
  split at ok
  · cases ok
  · rename_i i word
    split at ok
    · cases ok
    · rename_i pass
      cases ok
      simp only [not_or, ge_iff_le, gt_iff_lt, Std.not_le, Std.not_lt] at pass
      obtain ⟨sizeNonneg, below, within⟩ := pass
      have sizeNonneg : 0 ≤ size.toInt := by
        simpa [Int32.le_iff_toInt_le] using sizeNonneg
      have below := UInt32.lt_iff_toNat_lt.mp below
      unfold kernBase at small
      have iNonneg := CInt.nonneg_of_toUInt32_lt (a := i) (by omega)
      have iCast := CInt.toNat_toUInt32_of_nonneg iNonneg
      have sizeCast := CInt.toNat_toUInt32_of_nonneg sizeNonneg
      have := size.toInt_lt
      rw [UInt32.le_iff_toNat_le, CInt.toNat_add_of_lt (by omega)] at within
      exact ⟨sizeNonneg, i, word, iNonneg, by omega, iCast⟩

/-- Below `KERNBASE` the argument checks confine every access to the caller's
memory, whatever `tf->esp` and the argument words hold. -/
theorem syscall_arguments_confined (p : User) (small : p.sz.toNat < kernBase) : Confined p where
  fetchint _ _ ok := fetchint_range small ok
  argint _ _ ok := fetchint_range small ok
  fetchstr _ _ ok := fetchstr_some ok
  fetchstr_reads _ _ agree := fetchstr_congr agree
  argptr _ _ _ ok := argptr_range small ok

/-- The first process, of one page with its stack at the top. -/
def initUser : User := ⟨4096, 4096, fun _ => 0⟩

theorem initUser_confined : initUser.sz.toNat < kernBase ∧ Confined initUser :=
  ⟨by decide, syscall_arguments_confined initUser (by decide)⟩

end Syscall
end Xv6
