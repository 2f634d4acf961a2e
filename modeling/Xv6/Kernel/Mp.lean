import Mathlib.Data.UInt
import Xv6.Param

/-!
# mpinit's walk over the MP configuration table

mp.c's mpconfig accepts a configuration table whose signature is "PCMP",
whose version is 1 or 4 and whose `length` bytes add up to zero; mpinit then
walks the entries that follow the 44-byte header, up to `conf + length`.
Each `case` of its `switch(*p)` moves `p` past the entry and `continue`s the
loop: 20 bytes for a processor, which it records while `ncpu < NCPU`, 8 for
the other four types of mp.h.  An entry of any other type sets `ismp = 0`
and `break`s, which leaves the `switch` and not the `for`: the loop, which
has no increment, tests `p < e` again at the same `p` and takes the same
`default` again.

So the walk ends, with at most `NCPU` processors recorded, exactly when the
entries it passes all have known types (`mpinitLoop_ends`); otherwise it
runs forever at the first unknown entry (`mpinitLoop_spins`), and the
"Didn't find a suitable machine" panic after the loop is never reached.  The
loop is given `fuel` turns, `none` meaning it had not ended after them.  The
table is read through offsets from `conf`; the search for the floating
pointer, `lapic` and the IMCR are left out.
-/

namespace Xv6
namespace Mp

/-- The bytes of memory from the configuration table's header on. -/
abbrev Table := Nat → UInt8

/-- `conf->length`, the ushort at offset 4. -/
def length (conf : Table) : Nat := (conf 4).toNat + (conf 5).toNat * 256

/-- `sum(addr, len)`: the bytes added up in an int, returned as a uchar. -/
def sum (conf : Table) (len : Nat) : UInt8 :=
  UInt8.ofNat ((List.range len).map fun i => (conf i).toNat).sum

/-- mpconfig's tests on the table: signature, version and checksum. -/
def mpconfig (conf : Table) : Bool :=
  [conf 0, conf 1, conf 2, conf 3] = "PCMP".toList.map Char.toUInt8 &&
    (conf 6 = 1 || conf 6 = 4) && sum conf (length conf) = 0

/-- What mpinit records: `ncpu`, the apic ids of `cpus[0..ncpu)`,
`ioapicid` and `ismp`. -/
structure Found where
  ncpu : Nat
  apicids : List UInt8
  ioapicid : UInt8
  ismp : Bool

/-- `if(ncpu < NCPU) { cpus[ncpu].apicid = proc->apicid; ncpu++; }` -/
def Found.record (found : Found) (apicid : UInt8) : Found :=
  if found.ncpu < nCpu then { found with ncpu := found.ncpu + 1, apicids := found.apicids ++ [apicid] }
  else found

/-- The entry loop `for(p=(uchar*)(conf+1), e=(uchar*)conf+conf->length; p<e; )`
from offset `p`, for at most `fuel` turns. -/
def mpinitLoop (conf : Table) (e : Nat) : Nat → Nat → Found → Option Found
  | 0, _, _ => none
  | fuel + 1, p, found =>
      if p < e then
        match conf p with
        | 0 => mpinitLoop conf e fuel (p + 20) (found.record (conf (p + 1)))
        | 2 => mpinitLoop conf e fuel (p + 8) { found with ioapicid := conf (p + 1) }
        | 1 | 3 | 4 => mpinitLoop conf e fuel (p + 8) found
        | _ =>
            -- `default: ismp = 0; break;` leaves the switch, and the loop goes round at `p`
            mpinitLoop conf e fuel p { found with ismp := false }
      else some found

/-- mpinit, with its loop given `fuel` turns. -/
def mpinit (fuel : Nat) (conf : Table) : Option (Except String Found) :=
  if mpconfig conf then
    (mpinitLoop conf (length conf) fuel 44 ⟨0, [], 0, true⟩).map fun found =>
      if found.ismp then .ok found else .error "Didn't find a suitable machine"
  else some (.error "Expect to run on an SMP")

/-- The length of an entry of type `t`: 20 bytes for a processor, 8 for the
other types of mp.h, none for a type it does not define. -/
def entryLength (t : UInt8) : Option Nat :=
  match t with
  | 0 => some 20
  | 1 | 2 | 3 | 4 => some 8
  | _ => none

theorem entryLength_pos {t : UInt8} {n : Nat} (known : entryLength t = some n) : 0 < n := by
  unfold entryLength at known
  split at known <;> cases known <;> decide

/-- Whether every entry from `p` to `e`, each as long as its type says, has
a type of mp.h. -/
def knownFrom (conf : Table) (e p : Nat) : Bool :=
  if p < e then
    match _known : entryLength (conf p) with
    | some n => knownFrom conf e (p + n)
    | none => false
  else true
termination_by e - p
decreasing_by
  have := entryLength_pos _known
  omega

theorem knownFrom_of_some {conf : Table} {e p n : Nat} (inside : p < e) (known : entryLength (conf p) = some n) :
    knownFrom conf e p = knownFrom conf e (p + n) := by
  rw [knownFrom, if_pos inside]
  split <;> simp_all

theorem knownFrom_of_none {conf : Table} {e p : Nat} (inside : p < e) (unknown : entryLength (conf p) = none) :
    knownFrom conf e p = false := by
  rw [knownFrom, if_pos inside]
  split <;> simp_all

/-- What the loop keeps: one apic id per processor recorded, and at most
`NCPU` of them. -/
def Found.Ok (found : Found) : Prop := found.apicids.length = found.ncpu ∧ found.ncpu ≤ nCpu

theorem Found.Ok.record {found : Found} (ok : found.Ok) (apicid : UInt8) : (found.record apicid).Ok := by
  unfold Found.record
  split
  case isTrue room => exact ⟨by simp [ok.1], by simp only; omega⟩
  case isFalse => exact ok

/-- One turn of the loop at an entry inside the table: a known entry moves
`p` on by its length, keeping `ismp` and what the loop keeps; an unknown one
clears `ismp` and leaves `p` where it is. -/
theorem mpinitLoop_turn (conf : Table) {e p : Nat} (fuel : Nat) (found : Found) (inside : p < e) :
    (∃ n found', entryLength (conf p) = some n ∧ found'.ismp = found.ismp ∧ (found.Ok → found'.Ok) ∧
      mpinitLoop conf e (fuel + 1) p found = mpinitLoop conf e fuel (p + n) found') ∨
    (entryLength (conf p) = none ∧
      mpinitLoop conf e (fuel + 1) p found = mpinitLoop conf e fuel p { found with ismp := false }) := by
  rw [mpinitLoop, if_pos inside]
  split
  case h_1 _ proc =>
    refine .inl ⟨20, _, by rw [proc]; rfl, ?_, fun ok => ok.record _, rfl⟩
    unfold Found.record
    split <;> rfl
  case h_2 _ ioapic =>
    exact .inl ⟨8, { found with ioapicid := conf (p + 1) }, by rw [ioapic]; rfl, rfl, fun ok => ok, rfl⟩
  case h_3 _ bus | h_4 _ bus | h_5 _ bus => exact .inl ⟨8, found, by rw [bus]; rfl, rfl, id, rfl⟩
  case h_6 =>
    refine .inr ⟨?_, rfl⟩
    unfold entryLength
    split <;> simp_all

/-- A walk over known entries ends, within `e - p + 1` turns, keeping
`ismp` and recording at most `NCPU` processors. -/
theorem mpinitLoop_ends (conf : Table) (e : Nat) :
    ∀ (fuel p : Nat) (found : Found), knownFrom conf e p = true → e - p < fuel → found.Ok →
      ∃ found', mpinitLoop conf e fuel p found = some found' ∧ found'.ismp = found.ismp ∧ found'.Ok
  | 0, _, _, _, enough, _ => absurd enough (Nat.not_lt_zero _)
  | fuel + 1, p, found, known, enough, ok => by
      by_cases inside : p < e
      · rcases mpinitLoop_turn conf fuel found inside with ⟨n, found', length, same, kept, turn⟩ | ⟨unknown, _⟩
        · have rest := mpinitLoop_ends conf e fuel (p + n) found'
            (by rwa [← knownFrom_of_some inside length]) (by have := entryLength_pos length; omega) (kept ok)
          rw [turn, ← same]
          exact rest
        · rw [knownFrom_of_none inside unknown] at known
          cases known
      · exact ⟨found, by rw [mpinitLoop, if_neg inside], rfl, ok⟩

/-- A walk that meets an entry of unknown type never ends: the loop goes
round at that entry for as long as it is given. -/
theorem mpinitLoop_spins (conf : Table) (e : Nat) :
    ∀ (fuel p : Nat) (found : Found), knownFrom conf e p = false → mpinitLoop conf e fuel p found = none
  | 0, _, _, _ => rfl
  | fuel + 1, p, found, unknown => by
      by_cases inside : p < e
      · rcases mpinitLoop_turn conf fuel found inside with ⟨n, found', length, -, -, turn⟩ | ⟨_, turn⟩
        · rw [turn]
          exact mpinitLoop_spins conf e fuel (p + n) found' (by rwa [← knownFrom_of_some inside length])
        · rw [turn]
          exact mpinitLoop_spins conf e fuel p _ unknown
      · rw [knownFrom, if_neg inside] at unknown
        cases unknown

/-! ## mpinit -/

/-- On a table that passes mpconfig's tests and whose entries all have known
types, mpinit returns what it found, with at most `NCPU` processors. -/
theorem mpinit_of_known (conf : Table) (passes : mpconfig conf = true)
    (known : knownFrom conf (length conf) 44 = true) (fuel : Nat) (enough : length conf - 44 < fuel) :
    ∃ found, mpinit fuel conf = some (.ok found) ∧ found.Ok := by
  obtain ⟨found, ran, same, ok⟩ :=
    mpinitLoop_ends conf _ fuel 44 ⟨0, [], 0, true⟩ known enough ⟨rfl, Nat.zero_le _⟩
  refine ⟨found, ?_, ok⟩
  rw [mpinit, if_pos passes, ran]
  simp only [Option.map_some, same, if_true]

/-- A 64-byte table: "PCMP", length 64, version 1, checksum 143, and one
processor entry, of apic id 0. -/
def oneCpuTable : Table := fun i =>
  (([0x50, 0x43, 0x4D, 0x50, 64, 0, 1, 143] ++ List.replicate 56 0 : List UInt8)).getD i 0

theorem mpinit_one_cpu :
    mpconfig oneCpuTable = true ∧ knownFrom oneCpuTable (length oneCpuTable) 44 = true ∧
      length oneCpuTable - 44 < 21 ∧ ∃ found, mpinit 21 oneCpuTable = some (.ok found) ∧ found.Ok := by
  have passes : mpconfig oneCpuTable = true := by decide
  have size : length oneCpuTable = 64 := by decide
  -- one processor entry of 20 bytes, then the end of the table
  have known : knownFrom oneCpuTable (length oneCpuTable) 44 = true := by
    rw [size, knownFrom_of_some (by decide) (show entryLength (oneCpuTable 44) = some 20 by decide),
      knownFrom, if_neg (by decide)]
  have enough : length oneCpuTable - 44 < 21 := by
    rw [size]
    decide
  exact ⟨passes, known, enough, mpinit_of_known oneCpuTable passes known 21 enough⟩

/-- On a table that passes mpconfig's tests and whose entry walk meets an
entry of unknown type, mpinit neither returns nor reaches its
"Didn't find a suitable machine" panic: its loop never ends. -/
theorem mpinit_spins_on_unknown_entry (conf : Table) (passes : mpconfig conf = true)
    (unknown : knownFrom conf (length conf) 44 = false) (fuel : Nat) : mpinit fuel conf = none := by
  rw [mpinit, if_pos passes, mpinitLoop_spins conf _ fuel 44 _ unknown]
  rfl

/-- A 48-byte table: "PCMP", length 48, version 1, checksum 154, and one
entry, of type 5. -/
def typeFiveTable : Table := fun i =>
  (([0x50, 0x43, 0x4D, 0x50, 48, 0, 1, 154] ++ List.replicate 36 0 ++ [5, 0, 0, 0] : List UInt8)).getD i 0

theorem typeFiveTable_hangs :
    mpconfig typeFiveTable = true ∧ knownFrom typeFiveTable (length typeFiveTable) 44 = false ∧
      ∀ fuel, mpinit fuel typeFiveTable = none := by
  have passes : mpconfig typeFiveTable = true := by decide
  have unknown : knownFrom typeFiveTable (length typeFiveTable) 44 = false :=
    knownFrom_of_none (by decide) (by decide)
  exact ⟨passes, unknown, mpinit_spins_on_unknown_entry typeFiveTable passes unknown⟩

end Mp
end Xv6
