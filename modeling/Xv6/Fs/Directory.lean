import Xv6.Fs.Vol

/-!
# Directories as maps from names to inodes

A directory of whole entries means a map from names, compared on their
first `DIRSIZ` bytes, to inode numbers: `lookup` over its `entries`.
dirlookup gives what that map gives (`dirlookup_eq`), and dirlink of a name
the map lacks adds the name and leaves every other name as it was
(`dirlink_adds`).  dirlink does not always do what it is for: a directory
whose `MAXFILE` blocks are full makes it panic, and a name whose entry is
the directory's own makes it sleep for good.
-/

namespace Xv6
namespace Fs
namespace Vol

variable {v : Vol} {dp : Fin nInode}

/-- dirlink of a name the directory lacks, with a free block for the entry
should the directory grow: the new entry goes over the first empty entry, or
after the last when there is room for it, and then `name` finds the new
inode and every other name finds what it found before. -/
theorem dirlink_adds (isDir : (v.inode dp).type = tDir)
    (aligned : (v.inode dp).data.length % direntSize = 0)
    (room : (∃ de ∈ entries (v.inode dp).data, de.inum = 0) ∨
      (v.inode dp).data.length + direntSize ≤ maxFile * bSize)
    (fits : (v.inode dp).data.length ≤ maxFile * bSize)
    (blocks : blocksFor ((v.inode dp).data.length + direntSize) ≤ v.free + blocksFor (v.inode dp).data.length)
    {name : List UInt8} (absent : lookup name (entries (v.inode dp).data) 0 = none)
    {inum : Nat} (linkable : 0 < inum ∧ inum < 65536) :
    ∃ des, v.dirlink dp name inum =
        .ok ({ v.setNode (v.slot dp).inum { v.inode dp with data := encode des } with
          free := v.free + blocksFor (v.inode dp).data.length - blocksFor (encode des).length }, 0) ∧
      entries (encode des) = des ∧ (∃ off, lookup name des 0 = some (inum, off)) ∧
      ∀ name', cname dirSiz name' ≠ cname dirSiz name →
        lookup name' des 0 = lookup name' (entries (v.inode dp).data) 0 := by
  have bound : maxFile * bSize < 2 ^ 32 := by decide
  obtain ⟨front, back, split, used, stops, found⟩ := firstEmpty_split (entries (v.inode dp).data) 0
  have wf := wf_entries (v.inode dp).data
  let new : Dirent := ⟨inum, strncpy name dirSiz⟩
  have newWf : new.Wf := ⟨linkable.2, length_strncpy name dirSiz⟩
  have encoded : (v.inode dp).data = encode (front ++ back) := by rw [← split, encode_entries aligned]
  have dataLength : (v.inode dp).data.length = direntSize * (front.length + back.length) := by
    rw [encoded, length_encode fun de member => (wf de (split ▸ member)).name, List.length_append]
  have frontBelow : direntSize * front.length ≤ (v.inode dp).data.length := by
    rw [dataLength]
    exact Nat.mul_le_mul_left _ (Nat.le_add_right _ _)
  have roomy : direntSize * (front.length + 1) ≤ maxFile * bSize := by
    rw [Nat.mul_succ]
    rcases room with ⟨de, member, empty⟩ | grows
    · cases back with
      | nil =>
          rw [split, List.append_nil] at member
          exact absurd empty (used de member)
      | cons de' rest =>
          have below : direntSize * (front.length + 1) ≤ (v.inode dp).data.length := by
            rw [dataLength]
            exact Nat.mul_le_mul_left _ (by simp)
          rw [Nat.mul_succ] at below
          omega
    · omega
  have written := writeBytes_encode (fun de member => (wf de (split ▸ member)).name)
    newWf.name roomy
  have written' : writeBytes (v.inode dp).data new.bytes (direntSize * front.length) =
      ((direntSize : Int), encode (front ++ new :: back.tail)) := by
    rw [encoded]
    exact written
  -- the entry adds at most `direntSize` bytes, for which there is a block
  have grown : (encode (front ++ new :: back.tail)).length ≤ (v.inode dp).data.length + direntSize := by
    have wfNew : ∀ de ∈ front ++ new :: back.tail, de.name.length = dirSiz := by
      intro de member
      rcases List.mem_append.mp member with early | late
      · exact (wf de (split ▸ List.mem_append_left _ early)).name
      · rcases List.mem_cons.mp late with rfl | later
        · exact newWf.name
        · exact (wf de (split ▸ List.mem_append_right _ (List.mem_of_mem_tail later))).name
    rw [length_encode wfNew, dataLength, List.length_append, List.length_cons, List.length_tail]
    rw [Nat.mul_add, Nat.mul_add, Nat.mul_add, Nat.mul_one]
    have : direntSize * (back.length - 1) ≤ direntSize * back.length := Nat.mul_le_mul_left _ (Nat.sub_le _ _)
    omega
  have notDev : (v.inode dp).type ≠ tDev := by rw [isDir]; decide
  refine ⟨front ++ new :: back.tail, ?_, ?_, ?_, ?_⟩
  · rw [dirlink_eq isDir aligned (by omega), absent]
    dsimp only
    rw [found, Nat.zero_add,
      writei_of_room notDev (by rw [written']; exact (blocksFor_mono grown).trans blocks), written']
    rfl
  · apply entries_encode_of_wf
    intro de member
    rcases List.mem_append.mp member with early | late
    · exact wf de (split ▸ List.mem_append_left _ early)
    · rcases List.mem_cons.mp late with rfl | later
      · exact newWf
      · exact wf de (split ▸ List.mem_append_right _ (List.mem_of_mem_tail later))
  · refine ⟨direntSize * front.length, ?_⟩
    have frontAbsent : lookup name front 0 = none := by
      rw [split, lookup_append] at absent
      exact (Option.or_eq_none_iff.mp absent).1
    rw [lookup_append, frontAbsent, Option.none_or, lookup, Nat.zero_add,
      if_pos ⟨by simp [new]; omega, (cname_strncpy name dirSiz).symm⟩]
  · intro name' differ
    have newMisses : ¬ (new.inum ≠ 0 ∧ cname dirSiz name' = cname dirSiz new.name) :=
      fun hit => differ (hit.2.trans (cname_strncpy name dirSiz))
    rw [split, lookup_append, lookup_append, lookup, if_neg newMisses]
    cases back with
    | nil => rfl
    | cons de rest =>
        have empty : de.inum = 0 := stops de (by simp)
        rw [List.tail_cons, lookup, if_neg (fun hit => hit.1 empty)]

/-- The two ways dirlink fails to do what it is for.  In a directory whose
`MAXFILE` blocks are full of entries in use, none for `name`, there is no
empty entry and no room to grow: writei fails and dirlink panics.  And when
the entry for `name` names the directory itself, as "." does, dirlink's
iput of that inode waits for the sleep-lock its caller holds, for good. -/
theorem dirlink_full_panics_self_hangs :
    (∀ (v : Vol) (dp : Fin nInode) (name : List UInt8) (inum : Nat),
      (v.inode dp).type = tDir → (v.inode dp).data.length = maxFile * bSize →
      (∀ de ∈ entries (v.inode dp).data, de.inum ≠ 0 ∧ cname dirSiz de.name ≠ cname dirSiz name) →
      v.dirlink dp name inum = .error (.panic "dirlink")) ∧
    (∀ (v : Vol) (dp : Fin nInode) (name : List UInt8) (inum off : Nat),
      (v.inode dp).type = tDir → (v.inode dp).data.length % direntSize = 0 →
      (v.inode dp).data.length ≤ maxFile * bSize →
      0 < (v.slot dp).ref → (v.slot dp).locked = true →
      (∀ j, 0 < (v.slot j).ref → (v.slot j).inum = (v.slot dp).inum → j = dp) →
      lookup name (entries (v.inode dp).data) 0 = some ((v.slot dp).inum, off) →
      v.dirlink dp name inum = .error .hang) := by
  have bound : maxFile * bSize < 2 ^ 32 := by decide
  constructor
  · intro v dp name inum isDir full filled
    have aligned : (v.inode dp).data.length % direntSize = 0 := by rw [full]; decide
    have absent : lookup name (entries (v.inode dp).data) 0 = none :=
      lookup_eq_none_iff.mpr fun de member _ same => (filled de member).2 same.symm
    obtain ⟨front, back, split, _, stops, found⟩ := firstEmpty_split (entries (v.inode dp).data) 0
    have noEmpty : back = [] := by
      cases back with
      | nil => rfl
      | cons de rest =>
          have empty : de.inum = 0 := stops de (by simp)
          exact absurd empty (filled de (split ▸ by simp)).1
    rw [noEmpty, List.append_nil] at split
    have atEnd : firstEmpty (entries (v.inode dp).data) 0 = (v.inode dp).data.length := by
      rw [found, Nat.zero_add, ← split, ← length_encode fun de member => (wf_entries _ de member).name,
        encode_entries aligned]
    have sized : (Dirent.bytes ⟨inum, strncpy name dirSiz⟩).length = direntSize :=
      length_bytes (length_strncpy name dirSiz)
    have failed : writeBytes (v.inode dp).data (Dirent.bytes ⟨inum, strncpy name dirSiz⟩)
        (v.inode dp).data.length = (-1, (v.inode dp).data) := by
      unfold writeBytes
      rw [sized, full, if_neg (by decide), if_pos (by decide)]
    have notDev : (v.inode dp).type ≠ tDev := by rw [isDir]; decide
    rw [dirlink_eq isDir aligned (by omega), absent]
    dsimp only
    rw [atEnd, writei_of_room notDev (by rw [failed]; exact Nat.le_add_left _ _), failed]
    rfl
  · intro v dp name inum off isDir aligned fits used held unique self
    rw [dirlink_eq isDir aligned (by omega), self]
    dsimp only
    rw [iget_of_held used unique, Fallible.ok_bind]
    dsimp only
    rw [iput_of_locked (by simpa [idup] using held)]
    rfl

/-- The state dirlink's callers leave the root in on a fresh image: entry 0
of the icache holds it, valid, and the running call holds its sleep-lock. -/
def rootLocked (files : List (List UInt8 × List UInt8)) : Vol :=
  (mkfs files).setSlot slot₀ ⟨rootIno, 1, true, true⟩

/-- The name of the `k`-th link into the full directory: two bytes, neither
NUL nor '/', different for each `k` below 4478. -/
def linkName (k : Nat) : List UInt8 := [UInt8.ofNat (97 + k / 200), UInt8.ofNat (50 + k % 200)]

/-- The entries of a root directory that links have filled: ".", "..", and
4478 names of one file, inode 2. -/
def fullEntries : List Dirent :=
  ⟨rootIno, strncpy dot dirSiz⟩ :: ⟨rootIno, strncpy dotDot dirSiz⟩ ::
    (List.range 4478).map fun k => ⟨2, strncpy (linkName k) dirSiz⟩

/-- The root of `rootLocked []` once links have filled it. -/
def fullRoot : Vol :=
  { rootLocked [] with
    node := Function.update (rootLocked []).node rootIno ⟨tDir, 0, 0, 1, encode fullEntries⟩ }

theorem entries_fullEntries : entries (encode fullEntries) = fullEntries := by
  apply entries_encode_of_wf
  intro de member
  simp only [fullEntries, List.mem_cons, List.mem_map, List.mem_range] at member
  rcases member with rfl | rfl | ⟨k, _, rfl⟩
  · exact ⟨by decide, length_strncpy _ _⟩
  · exact ⟨by decide, length_strncpy _ _⟩
  · exact ⟨show 2 < 65536 by decide, length_strncpy _ _⟩

/-- The failing inputs: dirlink of a new name "z" into the full root panics,
and dirlink of "." into the root of a fresh image, whose "." entry names the
root itself, sleeps for good. -/
theorem full_root_panics_dot_hangs :
    ((fullRoot.inode slot₀).type = tDir ∧ (fullRoot.inode slot₀).data.length = maxFile * bSize ∧
      (∀ de ∈ entries (fullRoot.inode slot₀).data,
        de.inum ≠ 0 ∧ cname dirSiz de.name ≠ cname dirSiz [122]) ∧
      fullRoot.dirlink slot₀ [122] 2 = .error (.panic "dirlink")) ∧
    (((rootLocked []).inode slot₀).type = tDir ∧
      ((rootLocked []).inode slot₀).data.length % direntSize = 0 ∧
      ((rootLocked []).inode slot₀).data.length ≤ maxFile * bSize ∧
      0 < ((rootLocked []).slot slot₀).ref ∧ ((rootLocked []).slot slot₀).locked = true ∧
      (∀ j, 0 < ((rootLocked []).slot j).ref →
        ((rootLocked []).slot j).inum = ((rootLocked []).slot slot₀).inum → j = slot₀) ∧
      lookup dot (entries ((rootLocked []).inode slot₀).data) 0 =
        some (((rootLocked []).slot slot₀).inum, 0) ∧
      (rootLocked []).dirlink slot₀ dot 2 = .error .hang) := by
  have isDir : (fullRoot.inode slot₀).type = tDir := rfl
  have rootData : (fullRoot.inode slot₀).data = encode fullEntries := rfl
  have filled : (fullRoot.inode slot₀).data.length = maxFile * bSize := by
    rw [rootData, length_encode fun de member => (wf_entries _ de (entries_fullEntries ▸ member)).name]
    simp only [fullEntries, List.length_cons, List.length_map, List.length_range]
    decide
  have inUse : ∀ de ∈ entries (fullRoot.inode slot₀).data,
      de.inum ≠ 0 ∧ cname dirSiz de.name ≠ cname dirSiz [122] := by
    rw [rootData, entries_fullEntries]
    intro de member
    simp only [fullEntries, List.mem_cons, List.mem_map, List.mem_range] at member
    rcases member with rfl | rfl | ⟨k, below, rfl⟩
    · exact ⟨by decide, by decide⟩
    · exact ⟨by decide, by decide⟩
    · refine ⟨show 2 ≠ 0 by decide, ?_⟩
      have noNul : 0 ∉ linkName k := by
        simp only [linkName, List.mem_cons, List.not_mem_nil, or_false, not_or]
        constructor
        · intro zero
          have := congrArg UInt8.toNat zero
          simp at this
          omega
        · intro zero
          have := congrArg UInt8.toNat zero
          simp at this
          omega
      rw [cname_strncpy, cname_of_nul_not_mem noNul]
      simp [linkName, cname, dirSiz]
  have locked : ((rootLocked []).inode slot₀).type = tDir := rfl
  have aligned : ((rootLocked []).inode slot₀).data.length % direntSize = 0 := by decide +kernel
  have fits : ((rootLocked []).inode slot₀).data.length ≤ maxFile * bSize := by decide +kernel
  have unique : ∀ j, 0 < ((rootLocked []).slot j).ref →
      ((rootLocked []).slot j).inum = ((rootLocked []).slot slot₀).inum → j = slot₀ := by
    decide +kernel
  have self : lookup dot (entries ((rootLocked []).inode slot₀).data) 0 =
      some (((rootLocked []).slot slot₀).inum, 0) := by
    decide +kernel
  exact ⟨⟨isDir, filled, inUse, (dirlink_full_panics_self_hangs.1 fullRoot slot₀ [122] 2 isDir filled
      inUse)⟩,
    ⟨locked, aligned, fits, by decide, rfl, unique, self,
      dirlink_full_panics_self_hangs.2 (rootLocked []) slot₀ dot 2 0 locked aligned fits (by decide)
        rfl unique self⟩⟩

end Vol
end Fs
end Xv6
