import Xv6.Kernel.String

/-!
# The boot loader's segment reads

bootmain.c's `readsect` reads one 512-byte sector of the boot disk into
memory, and `readseg(pa, count, offset)` reads byte `offset` on of the
kernel image, which starts at sector 1, to `pa`: it rounds `pa` down to the
start of the sector that holds `offset` and reads whole sectors while `pa`
is below `epa = pa + count`.  bootmain's loop reads each program segment so
and zero-fills it from `filesz` to `memsz` with `stosb`.

Addresses are 32-bit pointers, so `pa += SECTSIZE` wraps.  When the sectors
the loop reads fit below `2^32` (`pa + count + SECTSIZE ≤ 2^32` suffices),
readseg ends after at most `count / 512 + 2` turns, holds the image's bytes
at `pa` and wrote nothing outside `[pa - offset % 512, pa + count + 512)`
(`readseg_spec`).  When they do not, `pa` can wrap to the bottom of memory
before it reaches `epa`, and then it never does: readseg(0xFFFFFDA8, 599, 0)
reads sector after sector into low memory forever (`readseg_top_never_ends`),
although neither `pa - offset % 512` nor `pa + count` wraps.

The loop is given `fuel` turns, and `none` means it had not ended after them.
-/

namespace Xv6
namespace Boot

open Kernel (Mem)

/-- The boot disk, byte by byte: byte `k` of sector `s` is byte `s * 512 + k`. -/
abbrev Disk := Nat → UInt8

/-- Byte `j` of the kernel image, which starts at sector 1. -/
def image (disk : Disk) (j : Nat) : UInt8 := disk (512 + j)

/-- The `len` bytes of the disk from sector `sector` on, stored from `dst` on. -/
def sectorsAt (m : Mem) (disk : Disk) (dst : UInt32) (sector len : Nat) : Mem :=
  fun a => if (a - dst).toNat < len then disk (sector * 512 + (a - dst).toNat) else m a

/-- readsect(dst, offset): `insl` stores sector `offset`'s 512 bytes at `dst`,
in order.  (readseg's sector numbers stay below `2^24`, where the address
registers hold them exactly.) -/
def readsect (m : Mem) (disk : Disk) (dst offset : UInt32) : Mem :=
  sectorsAt m disk dst offset.toNat 512

/-- readseg's loop `for(; pa < epa; pa += SECTSIZE, offset++) readsect(pa, offset);`,
run for at most `fuel` turns. -/
def readsegLoop (disk : Disk) (epa : UInt32) : Nat → Mem → UInt32 → UInt32 → Option Mem
  | 0, _, _, _ => none
  | fuel + 1, m, pa, offset =>
      if pa < epa then readsegLoop disk epa fuel (readsect m disk pa offset) (pa + 512) (offset + 1)
      else some m

/-- readseg(pa, count, offset): round `pa` down to the sector of `offset`,
and count sectors from 1. -/
def readseg (fuel : Nat) (m : Mem) (disk : Disk) (pa count offset : UInt32) : Option Mem :=
  readsegLoop disk (pa + count) fuel m (pa - offset % 512) (offset / 512 + 1)

/-- The fields of an ELF program header that bootmain reads. -/
structure Proghdr where
  off : UInt32
  paddr : UInt32
  filesz : UInt32
  memsz : UInt32

/-- stosb(addr, data, cnt). -/
def stosb (m : Mem) (addr : UInt32) (data : UInt8) (cnt : UInt32) : Mem :=
  fun a => if a - addr < cnt then data else m a

/-- One turn of bootmain's loop over the program headers. -/
def loadSegment (fuel : Nat) (m : Mem) (disk : Disk) (ph : Proghdr) : Option Mem :=
  (readseg fuel m disk ph.paddr ph.filesz ph.off).map fun m =>
    if ph.memsz > ph.filesz then stosb m (ph.paddr + ph.filesz) 0 (ph.memsz - ph.filesz) else m

/-! ## Address arithmetic -/

theorem toNat_mod_512 (x : UInt32) : (x % 512).toNat = x.toNat % 512 := by simp

/-- The offset of `a` from `dst + 512` is its offset from `dst` less 512,
or, below `dst + 512`, that difference wrapped. -/
theorem toNat_sub_add_512 (a dst : UInt32) :
    (a - (dst + 512)).toNat =
      if 512 ≤ (a - dst).toNat then (a - dst).toNat - 512 else (a - dst).toNat + 2 ^ 32 - 512 := by
  have regroup : a - (dst + 512) = (a - dst) - 512 := by grind
  rw [regroup, UInt32.toNat_sub]
  have := (a - dst).toNat_lt
  split <;> simp <;> omega

/-! ## The loop -/

theorem sectorsAt_zero (m : Mem) (disk : Disk) (dst : UInt32) (sector : Nat) :
    sectorsAt m disk dst sector 0 = m := by
  funext a
  simp [sectorsAt]

/-- A sector read at `dst` followed by `len` bytes from the next sector at
`dst + 512` is `512 + len` bytes from `dst`, when they fit below `2^32`. -/
theorem sectorsAt_readsect (m : Mem) (disk : Disk) (dst offset : UInt32) (len : Nat)
    (fits : dst.toNat + 512 + len ≤ 2 ^ 32) :
    sectorsAt (readsect m disk dst offset) disk (dst + 512) (offset.toNat + 1) len =
      sectorsAt m disk dst offset.toNat (512 + len) := by
  funext a
  have shifted := toNat_sub_add_512 a dst
  simp only [sectorsAt, readsect]
  split at shifted
  case isTrue past =>
    -- `a` lies past the first sector: the later reads decide it
    rw [shifted]
    by_cases inside : (a - dst).toNat - 512 < len
    · rw [if_pos inside, if_pos (by omega)]
      apply congrArg disk
      rw [Nat.add_mul]
      omega
    · rw [if_neg inside, if_neg (by omega), if_neg (by omega)]
  case isFalse first =>
    -- `a` lies in the first sector: the later reads, which fit, miss it
    rw [shifted, if_neg (by omega), if_pos (by omega), if_pos (by omega)]

/-- Turns readseg's loop has left: one for each sector that starts below `epa`. -/
def turns (epa pa : UInt32) : Nat := (epa.toNat - pa.toNat + 511) / 512

/-- When every sector the loop reads fits below `2^32`, the loop ends within
`turns + 1` steps, with those sectors stored from `pa` on. -/
theorem readsegLoop_eq (disk : Disk) (epa : UInt32) (fuel : Nat) (m : Mem) (pa offset : UInt32)
    (enough : turns epa pa < fuel) (fits : pa.toNat + 512 * turns epa pa < 2 ^ 32)
    (sectorsFit : offset.toNat + turns epa pa < 2 ^ 32) :
    readsegLoop disk epa fuel m pa offset =
      some (sectorsAt m disk pa offset.toNat (512 * turns epa pa)) := by
  induction fuel generalizing m pa offset with
  | zero => cases enough
  | succ fuel inductionHypothesis =>
      rw [readsegLoop]
      split
      case isTrue below =>
        -- one more sector: `pa + 512` and `offset + 1` do not wrap
        have lt := UInt32.lt_iff_toNat_lt.mp below
        have positive : 1 ≤ turns epa pa := by
          simp only [turns]
          omega
        have next : (pa + 512).toNat = pa.toNat + 512 := CInt.toNat_add_of_lt (by simp; omega)
        have nextSector : (offset + 1).toNat = offset.toNat + 1 := CInt.toNat_add_of_lt (by simp; omega)
        have fewer : turns epa (pa + 512) = turns epa pa - 1 := by
          simp only [turns, next]
          omega
        have rest := inductionHypothesis (readsect m disk pa offset) (pa + 512) (offset + 1)
          (by rw [fewer]; omega) (by rw [fewer, next, Nat.mul_sub, Nat.mul_one]; omega)
          (by rw [fewer, nextSector]; omega)
        rw [rest, fewer, nextSector,
          sectorsAt_readsect m disk pa offset _ (by rw [Nat.mul_sub, Nat.mul_one]; omega)]
        apply congrArg some
        apply congrArg (sectorsAt m disk pa offset.toNat)
        omega
      case isFalse done =>
        have none : turns epa pa = 0 := by
          simp only [turns]
          have := UInt32.lt_iff_toNat_lt.not.mp done
          omega
        rw [none, Nat.mul_zero, sectorsAt_zero]

/-! ## readseg -/

section Readseg

variable {pa count offset : UInt32}
variable (below : offset.toNat % 512 ≤ pa.toNat) (fits : pa.toNat + count.toNat + 512 ≤ 2 ^ 32)
include below fits

omit fits in
theorem toNat_start : (pa - offset % 512).toNat = pa.toNat - offset.toNat % 512 := by
  rw [UInt32.toNat_sub_of_le _ _ (UInt32.le_iff_toNat_le.mpr (by rwa [toNat_mod_512])), toNat_mod_512]

theorem turns_readseg :
    turns (pa + count) (pa - offset % 512) = (count.toNat + offset.toNat % 512 + 511) / 512 := by
  simp only [turns, toNat_start below, CInt.toNat_add_of_lt (by omega : pa.toNat + count.toNat < 2 ^ 32)]
  congr 1
  omega

/-- readseg ends within `count / 512 + 2` turns, with byte `offset + k` of
the image at `pa + k` for every `k < count`, and nothing written outside
`[pa - offset % 512, pa + count + 512)`. -/
theorem readseg_spec (m : Mem) (disk : Disk) :
    ∃ m', (∀ fuel, count.toNat / 512 + 2 < fuel → readseg fuel m disk pa count offset = some m') ∧
      (∀ k < count.toNat, m' (pa + UInt32.ofNat k) = image disk (offset.toNat + k)) ∧
      (∀ a, a.toNat < pa.toNat - offset.toNat % 512 ∨ pa.toNat + count.toNat + 512 ≤ a.toNat →
        m' a = m a) := by
  have start := toNat_start below
  have turnsEq := turns_readseg below fits
  have sector : (offset / 512 + 1).toNat = offset.toNat / 512 + 1 := by
    rw [CInt.toNat_add_of_lt (by simp; have := offset.toNat_lt; omega)]
    simp
  refine ⟨sectorsAt m disk (pa - offset % 512) (offset / 512 + 1).toNat
      (512 * turns (pa + count) (pa - offset % 512)), fun fuel enough => ?_, fun k inside => ?_,
    fun a outside => ?_⟩
  · apply readsegLoop_eq
    · rw [turnsEq]
      omega
    · rw [turnsEq, start]
      omega
    · rw [turnsEq]
      have := offset.toNat_lt
      omega
  · -- `pa + k` lies `offset % 512 + k` bytes into the sectors read
    have offsetIn : (pa + UInt32.ofNat k - (pa - offset % 512)).toNat = offset.toNat % 512 + k := by
      have regroup : pa + UInt32.ofNat k - (pa - offset % 512) = offset % 512 + UInt32.ofNat k := by grind
      rw [regroup, Kernel.toNat_add_ofNat _ (by rw [toNat_mod_512]; omega), toNat_mod_512]
    simp only [sectorsAt, offsetIn, sector, turnsEq, image]
    rw [if_pos (by omega)]
    apply congrArg disk
    omega
  · have far : 512 * turns (pa + count) (pa - offset % 512) ≤ (a - (pa - offset % 512)).toNat := by
      rw [turnsEq, UInt32.toNat_sub, start]
      have := a.toNat_lt
      omega
    simp only [sectorsAt, if_neg (Nat.not_lt.mpr far)]

end Readseg

/-! ## Program segments -/

theorem stosb_apply (m : Mem) (addr : UInt32) (data : UInt8) (cnt a : UInt32) :
    stosb m addr data cnt a = if (a - addr).toNat < cnt.toNat then data else m a := by
  simp only [stosb, UInt32.lt_iff_toNat_lt]

/-- Byte `k` of a segment lies `k - filesz` bytes into the zero-filled part,
or, below `filesz`, that difference wrapped. -/
theorem toNat_sub_filesz (paddr filesz : UInt32) {k : Nat} (small : k < 2 ^ 32) :
    (paddr + UInt32.ofNat k - (paddr + filesz)).toNat =
      if filesz.toNat ≤ k then k - filesz.toNat else k + 2 ^ 32 - filesz.toNat := by
  have regroup : paddr + UInt32.ofNat k - (paddr + filesz) = UInt32.ofNat k - filesz := by grind
  rw [regroup, UInt32.toNat_sub, UInt32.toNat_ofNat', Nat.mod_eq_of_lt small]
  have := filesz.toNat_lt
  split <;> omega

/-- bootmain's turn for one program header leaves its `filesz` bytes of the
image at `paddr` and zeroes up to `memsz`, when its sectors fit. -/
theorem loadSegment_spec (m : Mem) (disk : Disk) (ph : Proghdr)
    (below : ph.off.toNat % 512 ≤ ph.paddr.toNat) (fits : ph.paddr.toNat + ph.filesz.toNat + 512 ≤ 2 ^ 32)
    (memFits : ph.paddr.toNat + ph.memsz.toNat ≤ 2 ^ 32) :
    ∃ m', (∀ fuel, ph.filesz.toNat / 512 + 2 < fuel → loadSegment fuel m disk ph = some m') ∧
      (∀ k < ph.filesz.toNat, m' (ph.paddr + UInt32.ofNat k) = image disk (ph.off.toNat + k)) ∧
      (∀ k, ph.filesz.toNat ≤ k → k < ph.memsz.toNat → m' (ph.paddr + UInt32.ofNat k) = 0) := by
  obtain ⟨m₁, ends, loaded, -⟩ := readseg_spec below fits m disk
  refine ⟨if ph.memsz > ph.filesz then stosb m₁ (ph.paddr + ph.filesz) 0 (ph.memsz - ph.filesz) else m₁,
    fun fuel enough => by rw [loadSegment, ends fuel enough]; rfl, fun k inside => ?_,
    fun k past inside => ?_⟩
  · -- the zero fill starts at `filesz` and stays below `2^32`, so it misses the file bytes
    split
    case isTrue more =>
      have fill : (ph.memsz - ph.filesz).toNat = ph.memsz.toNat - ph.filesz.toNat :=
        UInt32.toNat_sub_of_le _ _ (UInt32.le_of_lt more)
      have wrapped : (ph.paddr + UInt32.ofNat k - (ph.paddr + ph.filesz)).toNat =
          k + 2 ^ 32 - ph.filesz.toNat := by
        rw [toNat_sub_filesz _ _ (by omega), if_neg (by omega)]
      rw [stosb_apply, wrapped, fill, if_neg (by have := ph.memsz.toNat_lt; omega)]
      exact loaded k inside
    case isFalse => exact loaded k inside
  · have more : ph.memsz > ph.filesz := UInt32.lt_iff_toNat_lt.mpr (by omega)
    have fill : (ph.memsz - ph.filesz).toNat = ph.memsz.toNat - ph.filesz.toNat :=
      UInt32.toNat_sub_of_le _ _ (UInt32.le_of_lt more)
    have offsetIn : (ph.paddr + UInt32.ofNat k - (ph.paddr + ph.filesz)).toNat = k - ph.filesz.toNat := by
      rw [toNat_sub_filesz _ _ (by omega), if_pos past]
    rw [if_pos more, stosb_apply, offsetIn, fill, if_pos (by omega)]

/-- readseg, on sectors that fit below `2^32`, ends and loads the image's
bytes and nothing outside its range; bootmain's turn for a program header
with these `paddr`, `filesz` and `off` then zero-fills up to `memsz`. -/
theorem readseg_loads_segment (m : Mem) (disk : Disk) (pa count offset memsz : UInt32)
    (below : offset.toNat % 512 ≤ pa.toNat) (fits : pa.toNat + count.toNat + 512 ≤ 2 ^ 32)
    (memFits : pa.toNat + memsz.toNat ≤ 2 ^ 32) :
    (∃ m', (∀ fuel, count.toNat / 512 + 2 < fuel → readseg fuel m disk pa count offset = some m') ∧
      (∀ k < count.toNat, m' (pa + UInt32.ofNat k) = image disk (offset.toNat + k)) ∧
      (∀ a, a.toNat < pa.toNat - offset.toNat % 512 ∨ pa.toNat + count.toNat + 512 ≤ a.toNat →
        m' a = m a)) ∧
    (∃ m', (∀ fuel, count.toNat / 512 + 2 < fuel → loadSegment fuel m disk ⟨offset, pa, count, memsz⟩ = some m') ∧
      (∀ k < count.toNat, m' (pa + UInt32.ofNat k) = image disk (offset.toNat + k)) ∧
      (∀ k, count.toNat ≤ k → k < memsz.toNat → m' (pa + UInt32.ofNat k) = 0)) :=
  ⟨readseg_spec below fits m disk, loadSegment_spec m disk ⟨offset, pa, count, memsz⟩ below fits memFits⟩

/-- The kernel's text segment as xv6's linker lays it out: 40 KB from file
offset 0x1000 to 0x100000, 44 KB in memory. -/
theorem readseg_loads_kernel_text :
    (0x1000 : UInt32).toNat % 512 ≤ (0x100000 : UInt32).toNat ∧
      (0x100000 : UInt32).toNat + (0xA000 : UInt32).toNat + 512 ≤ 2 ^ 32 ∧
      (0x100000 : UInt32).toNat + (0xB000 : UInt32).toNat ≤ 2 ^ 32 ∧
      ((∃ m', (∀ fuel, (0xA000 : UInt32).toNat / 512 + 2 < fuel →
          readseg fuel (fun _ => 0) (fun _ => 1) 0x100000 0xA000 0x1000 = some m') ∧
        (∀ k < (0xA000 : UInt32).toNat, m' (0x100000 + UInt32.ofNat k) =
          image (fun _ => 1) ((0x1000 : UInt32).toNat + k)) ∧
        (∀ a, a.toNat < (0x100000 : UInt32).toNat - (0x1000 : UInt32).toNat % 512 ∨
          (0x100000 : UInt32).toNat + (0xA000 : UInt32).toNat + 512 ≤ a.toNat → m' a = 0)) ∧
      (∃ m', (∀ fuel, (0xA000 : UInt32).toNat / 512 + 2 < fuel →
          loadSegment fuel (fun _ => 0) (fun _ => 1) ⟨0x1000, 0x100000, 0xA000, 0xB000⟩ = some m') ∧
        (∀ k < (0xA000 : UInt32).toNat, m' (0x100000 + UInt32.ofNat k) =
          image (fun _ => 1) ((0x1000 : UInt32).toNat + k)) ∧
        (∀ k, (0xA000 : UInt32).toNat ≤ k → k < (0xB000 : UInt32).toNat →
          m' (0x100000 + UInt32.ofNat k) = 0))) :=
  ⟨by decide, by decide, by decide,
    readseg_loads_segment (fun _ => 0) (fun _ => 1) 0x100000 0xA000 0x1000 0xB000
      (by decide) (by decide) (by decide)⟩

/-! ## Near the top of the address space -/

/-- From a `pa` 424 bytes past a sector boundary, `pa += 512` never reaches
`epa = 0xFFFFFFFF`: every such `pa` is at most `0xFFFFFFA8`, and the sum
wraps to the next such `pa`. -/
theorem readsegLoop_top (disk : Disk) (fuel : Nat) (m : Mem) (pa offset : UInt32)
    (stuck : pa.toNat % 512 = 424) : readsegLoop disk 0xFFFFFFFF fuel m pa offset = none := by
  induction fuel generalizing m pa offset with
  | zero => rfl
  | succ fuel inductionHypothesis =>
      have below : pa < 0xFFFFFFFF := by
        rw [UInt32.lt_iff_toNat_lt]
        have := pa.toNat_lt
        simp only [UInt32.reduceToNat]
        omega
      rw [readsegLoop, if_pos below]
      exact inductionHypothesis _ _ _ (by simp only [UInt32.toNat_add, UInt32.reduceToNat]; omega)

/-- readseg(0xFFFFFDA8, 599, 0): `pa - offset % 512 = pa` and `pa + count =
0xFFFFFFFF` do not wrap, yet the loop never ends. -/
theorem readseg_top_never_ends :
    (0 : UInt32).toNat % 512 ≤ (0xFFFFFDA8 : UInt32).toNat ∧
      (0xFFFFFDA8 : UInt32).toNat + (599 : UInt32).toNat < 2 ^ 32 ∧
      ∀ fuel m disk, readseg fuel m disk 0xFFFFFDA8 599 0 = none := by
  refine ⟨by decide, by decide, fun fuel m disk => ?_⟩
  have epa : (0xFFFFFDA8 : UInt32) + 599 = 0xFFFFFFFF := by decide
  have start : (0xFFFFFDA8 : UInt32) - 0 % 512 = 0xFFFFFDA8 := by decide
  rw [readseg, epa, start]
  exact readsegLoop_top disk fuel m _ _ (by decide)

end Boot
end Xv6
