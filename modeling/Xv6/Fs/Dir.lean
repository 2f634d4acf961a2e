import Xv6.Fs.Content
import Mathlib.Data.List.TakeWhile

/-!
# Directory entries and path names

The byte-level half of fs.c's directories and paths, and the string
functions of string.c they use.  A C string is the list of its bytes before
the NUL that ends it, and reading past the end of the list reads that NUL:
`strncmp` and `skipelem` stop at a NUL byte or at the end of the list alike.

A directory's bytes are `struct dirent`s of `direntSize` bytes: a `ushort`
inode number, little-endian as on x86, and a name of `DIRSIZ` bytes that has
no NUL when the name is `DIRSIZ` bytes long.  `entries` reads them back, and
`lookup` is the entry dirlookup is meant to find.  `components` is what a
path means, its runs of bytes other than '/', and `elems` the names namex's
loop takes off it, one skipelem a turn.
-/

namespace Xv6
namespace Fs

/-- `DIRSIZ`: the bytes of a name in a directory entry. -/
def dirSiz : Nat := 14

/-- `sizeof(struct dirent)`: a `ushort` and `DIRSIZ` bytes. -/
def direntSize : Nat := 2 + dirSiz

/-- `T_DIR` of stat.h. -/
def tDir : Int := 1

/-- `T_FILE` of stat.h. -/
def tFile : Int := 2

/-- '/'. -/
def slash : UInt8 := 47

/-- The string ".". -/
def dot : List UInt8 := [46]

/-- The string "..". -/
def dotDot : List UInt8 := [46, 46]

/-! ## C strings -/

/-- strncmp. -/
def strncmp : List UInt8 → List UInt8 → Nat → Int
  | _, _, 0 => 0
  | p, q, n + 1 =>
      if p.headD 0 ≠ 0 ∧ p.headD 0 = q.headD 0 then strncmp p.tail q.tail n
      else ((p.headD 0).toNat : Int) - (q.headD 0).toNat

/-- strncpy into an `n`-byte buffer: the bytes of `t` up to its NUL, then
NULs to the end of the buffer. -/
def strncpy : List UInt8 → Nat → List UInt8
  | _, 0 => []
  | t, n + 1 => if t.headD 0 = 0 then List.replicate (n + 1) 0 else t.headD 0 :: strncpy t.tail n

/-- namecmp. -/
def namecmp (s t : List UInt8) : Int := strncmp s t dirSiz

/-- What a string says in at most `n` bytes: its bytes before the first NUL,
at most `n` of them. -/
def cname (n : Nat) (s : List UInt8) : List UInt8 := (s.takeWhile (· ≠ 0)).take n

theorem cname_zero (s : List UInt8) : cname 0 s = [] := rfl

theorem cname_succ (n : Nat) (s : List UInt8) :
    cname (n + 1) s = if s.headD 0 = 0 then [] else s.headD 0 :: cname n s.tail := by
  cases s with
  | nil => rfl
  | cons c rest =>
      by_cases nul : c = 0
      · simp [cname, nul]
      · simp [cname, nul]

theorem toNat_sub_toNat_eq_zero (a b : UInt8) : ((a.toNat : Int) - b.toNat = 0) ↔ a = b := by
  rw [Int.sub_eq_zero, Int.natCast_inj]
  exact ⟨UInt8.toNat.inj, congrArg _⟩

/-- strncmp finds two strings equal exactly when they say the same in `n`
bytes. -/
theorem strncmp_eq_zero_iff (p q : List UInt8) (n : Nat) :
    strncmp p q n = 0 ↔ cname n p = cname n q := by
  induction n generalizing p q with
  | zero => simp [strncmp, cname_zero]
  | succ n inductionHypothesis =>
      rw [strncmp, cname_succ, cname_succ]
      split
      · rename_i same
        rw [inductionHypothesis, if_neg same.1, if_neg (same.2 ▸ same.1), same.2]
        simp
      · -- the loop stopped at a NUL of p or at the first difference
        rename_i stopped
        rw [toNat_sub_toNat_eq_zero]
        generalize p.headD 0 = a at stopped ⊢
        generalize q.headD 0 = b at stopped ⊢
        by_cases nul : a = 0
        · subst nul
          by_cases nul' : b = 0
          · simp [nul']
          · simp [nul', Ne.symm nul']
        · have differ : a ≠ b := fun same => stopped ⟨nul, same⟩
          by_cases nul' : b = 0 <;> simp [nul, nul', differ]

/-- namecmp finds two names equal exactly when they say the same in
`DIRSIZ` bytes. -/
theorem namecmp_eq_zero_iff (s t : List UInt8) : namecmp s t = 0 ↔ cname dirSiz s = cname dirSiz t :=
  strncmp_eq_zero_iff s t dirSiz

theorem length_strncpy (t : List UInt8) (n : Nat) : (strncpy t n).length = n := by
  induction n generalizing t with
  | zero => rfl
  | succ n inductionHypothesis =>
      rw [strncpy]
      split
      · simp
      · simp [inductionHypothesis]

/-- What strncpy copies says in `n` bytes what its source says. -/
theorem cname_strncpy (t : List UInt8) (n : Nat) : cname n (strncpy t n) = cname n t := by
  induction n generalizing t with
  | zero => rfl
  | succ n inductionHypothesis =>
      rw [strncpy]
      split
      · rename_i nul
        rw [cname_succ, cname_succ n t, if_pos nul]
        cases n <;> simp [List.replicate]
      · rename_i ch
        rw [cname_succ, cname_succ n t, if_neg ch, List.headD_cons, List.tail_cons, if_neg ch,
          inductionHypothesis]

theorem cname_of_nul_not_mem {word : List UInt8} (noNul : 0 ∉ word) (n : Nat) :
    cname n word = word.take n := by
  rw [cname, List.takeWhile_eq_self_iff.mpr]
  intro c member
  simpa using ne_of_mem_of_not_mem member noNul

theorem cname_append_nul {word : List UInt8} (noNul : 0 ∉ word) (n : Nat) :
    cname n (word ++ [0]) = word.take n := by
  rw [cname, List.takeWhile_append_of_pos]
  · simp
  · intro c member
    simpa using ne_of_mem_of_not_mem member noNul

/-! ## Directory entries -/

/-- struct dirent. -/
structure Dirent where
  inum : Nat
  name : List UInt8
deriving DecidableEq

/-- The bytes of a dirent: `inum` as a `ushort`, then the name. -/
def Dirent.bytes (de : Dirent) : List UInt8 :=
  [UInt8.ofNat de.inum, UInt8.ofNat (de.inum / 256)] ++ de.name

/-- The dirent that bytes read into a `struct dirent` give. -/
def Dirent.ofBytes (bytes : List UInt8) : Dirent :=
  ⟨(bytes.getD 0 0).toNat + 256 * (bytes.getD 1 0).toNat, bytes.drop 2⟩

theorem Dirent.ofBytes_bytes (de : Dirent) : Dirent.ofBytes de.bytes = ⟨de.inum % 65536, de.name⟩ := by
  simp only [Dirent.ofBytes, Dirent.bytes, Dirent.mk.injEq]
  constructor
  · simp
    omega
  · rfl

/-- The entry at offset `off` of a directory whose bytes are `data`. -/
def entryAt (data : List UInt8) (off : Nat) : Dirent :=
  Dirent.ofBytes ((data.drop off).take direntSize)

/-- `count` entries from offset `off` on. -/
def entriesFrom (data : List UInt8) : Nat → Nat → List Dirent
  | _, 0 => []
  | off, count + 1 => entryAt data off :: entriesFrom data (off + direntSize) count

/-- The entries of a directory: all its whole `direntSize`-byte records. -/
def entries (data : List UInt8) : List Dirent := entriesFrom data 0 (data.length / direntSize)

/-- The bytes of a directory that holds `des`. -/
def encode (des : List Dirent) : List UInt8 := des.flatMap Dirent.bytes

/-- The entry dirlookup is meant to find among `des`, the first of which is
at offset `off`: the first in use whose name says in `DIRSIZ` bytes what
`name` says, given as its inode number and offset. -/
def lookup (name : List UInt8) : List Dirent → Nat → Option (Nat × Nat)
  | [], _ => none
  | de :: des, off =>
      if de.inum ≠ 0 ∧ cname dirSiz name = cname dirSiz de.name then some (de.inum, off)
      else lookup name des (off + direntSize)

/-- Where dirlink is meant to write among `des`, the first at offset `off`:
the first entry not in use, or the end. -/
def firstEmpty : List Dirent → Nat → Nat
  | [], off => off
  | de :: des, off => if de.inum = 0 then off else firstEmpty des (off + direntSize)

/-- A dirent as a directory's bytes can hold it. -/
structure Dirent.Wf (de : Dirent) : Prop where
  inum : de.inum < 65536
  name : de.name.length = dirSiz

theorem entryAt_append (front data : List UInt8) (off : Nat) :
    entryAt (front ++ data) (front.length + off) = entryAt data off := by
  rw [entryAt, entryAt, List.drop_append, List.drop_eq_nil_of_le (by omega), List.nil_append,
    Nat.add_sub_cancel_left]

theorem entriesFrom_append (front data : List UInt8) (off count : Nat) :
    entriesFrom (front ++ data) (front.length + off) count = entriesFrom data off count := by
  induction count generalizing off with
  | zero => rfl
  | succ count inductionHypothesis =>
      rw [entriesFrom, entriesFrom, entryAt_append, Nat.add_assoc, inductionHypothesis]

theorem length_bytes {de : Dirent} (named : de.name.length = dirSiz) : de.bytes.length = direntSize := by
  simp [Dirent.bytes, named, direntSize]; omega

theorem encode_cons (de : Dirent) (des : List Dirent) : encode (de :: des) = de.bytes ++ encode des :=
  List.flatMap_cons

theorem encode_append (front back : List Dirent) :
    encode (front ++ back) = encode front ++ encode back := List.flatMap_append

theorem length_encode {des : List Dirent} (named : ∀ de ∈ des, de.name.length = dirSiz) :
    (encode des).length = direntSize * des.length := by
  induction des with
  | nil => rfl
  | cons de des inductionHypothesis =>
      rw [encode, List.flatMap_cons, ← encode, List.length_append,
        length_bytes (named de List.mem_cons_self),
        inductionHypothesis (fun de member => named de (List.mem_cons_of_mem _ member)),
        List.length_cons, Nat.mul_succ, Nat.add_comm]

theorem entries_encode (des : List Dirent) (named : ∀ de ∈ des, de.name.length = dirSiz) :
    entries (encode des) = des.map fun de => ⟨de.inum % 65536, de.name⟩ := by
  rw [entries, length_encode named, Nat.mul_div_cancel_left _ (by decide)]
  induction des with
  | nil => rfl
  | cons de des inductionHypothesis =>
      have front := length_bytes (named de List.mem_cons_self)
      rw [List.length_cons, entriesFrom, List.map_cons]
      congr 1
      · rw [encode_cons, entryAt, List.drop_zero, List.take_append_of_le_length (by omega),
          List.take_of_length_le (by omega), Dirent.ofBytes_bytes]
      · have rest := entriesFrom_append de.bytes (encode des) 0 des.length
        rw [Nat.add_zero, front] at rest
        rw [encode_cons, Nat.zero_add, rest]
        exact inductionHypothesis (fun de member => named de (List.mem_cons_of_mem _ member))

theorem Dirent.bytes_ofBytes {bytes : List UInt8} (sized : bytes.length = direntSize) :
    (Dirent.ofBytes bytes).bytes = bytes := by
  match bytes, sized with
  | b₀ :: b₁ :: rest, _ =>
      have low := b₀.toNat_lt
      have high := b₁.toNat_lt
      simp only [Dirent.bytes, Dirent.ofBytes, List.getD_cons_zero, List.getD_cons_succ,
        List.drop_succ_cons, List.drop_zero, List.cons_append, List.nil_append, List.cons.injEq,
        and_true]
      constructor
      · apply UInt8.toNat.inj
        simp
      · apply UInt8.toNat.inj
        simp
        omega

theorem Dirent.wf_ofBytes {bytes : List UInt8} (sized : bytes.length = direntSize) :
    (Dirent.ofBytes bytes).Wf := by
  match bytes, sized with
  | b₀ :: b₁ :: rest, sized =>
      have low := b₀.toNat_lt
      have high := b₁.toNat_lt
      constructor
      · simp only [Dirent.ofBytes, List.getD_cons_zero, List.getD_cons_succ]
        omega
      · simp only [Dirent.ofBytes, List.drop_succ_cons, List.drop_zero]
        simp [direntSize, dirSiz] at sized ⊢
        omega

theorem length_entriesFrom (data : List UInt8) (off count : Nat) :
    (entriesFrom data off count).length = count := by
  induction count generalizing off with
  | zero => rfl
  | succ count inductionHypothesis => simp [entriesFrom, inductionHypothesis]

theorem encode_entriesFrom {data : List UInt8} {off count : Nat}
    (inside : off + direntSize * count ≤ data.length) :
    encode (entriesFrom data off count) = (data.drop off).take (direntSize * count) := by
  induction count generalizing off with
  | zero => simp [entriesFrom, encode]
  | succ count inductionHypothesis =>
      have sized : ((data.drop off).take direntSize).length = direntSize := by
        simp
        rw [Nat.mul_succ] at inside
        omega
      rw [entriesFrom, encode_cons, inductionHypothesis (by rw [Nat.mul_succ] at inside; omega),
        entryAt, Dirent.bytes_ofBytes sized, Nat.mul_succ,
        Nat.add_comm (direntSize * count) direntSize, List.take_add, List.drop_drop]

theorem encode_entries {data : List UInt8} (aligned : data.length % direntSize = 0) :
    encode (entries data) = data := by
  rw [entries, encode_entriesFrom (by rw [Nat.zero_add]; exact Nat.mul_div_le _ _), List.drop_zero,
    Nat.mul_div_cancel' (Nat.dvd_of_mod_eq_zero aligned), List.take_length]

theorem entries_encode_of_wf {des : List Dirent} (wf : ∀ de ∈ des, de.Wf) : entries (encode des) = des := by
  rw [entries_encode des fun de member => (wf de member).name]
  conv => rhs; rw [← List.map_id des]
  apply List.map_congr_left
  intro de member
  rw [Nat.mod_eq_of_lt (wf de member).inum]
  rfl

theorem wf_entriesFrom {data : List UInt8} {off count : Nat}
    (inside : off + direntSize * count ≤ data.length) : ∀ de ∈ entriesFrom data off count, de.Wf := by
  induction count generalizing off with
  | zero => simp [entriesFrom]
  | succ count inductionHypothesis =>
      intro de member
      rw [entriesFrom, List.mem_cons] at member
      rcases member with rfl | later
      · apply Dirent.wf_ofBytes
        simp
        rw [Nat.mul_succ] at inside
        omega
      · exact inductionHypothesis (by rw [Nat.mul_succ] at inside; omega) de later

theorem wf_entries (data : List UInt8) : ∀ de ∈ entries data, de.Wf :=
  wf_entriesFrom (by rw [Nat.zero_add]; exact Nat.mul_div_le _ _)

theorem lookup_append (name : List UInt8) (front back : List Dirent) (off : Nat) :
    lookup name (front ++ back) off =
      (lookup name front off).or (lookup name back (off + direntSize * front.length)) := by
  induction front generalizing off with
  | nil => simp [lookup]
  | cons de front inductionHypothesis =>
      rw [List.cons_append, lookup, lookup, inductionHypothesis]
      split
      · rfl
      · rw [List.length_cons, Nat.mul_succ, Nat.add_assoc, Nat.add_comm direntSize]

theorem lookup_eq_none_iff {name : List UInt8} {des : List Dirent} {off : Nat} :
    lookup name des off = none ↔ ∀ de ∈ des, de.inum ≠ 0 → cname dirSiz name ≠ cname dirSiz de.name := by
  induction des generalizing off with
  | nil => simp [lookup]
  | cons de des inductionHypothesis =>
      rw [lookup]
      split
      · rename_i found
        simp only [reduceCtorEq, false_iff, not_forall]
        exact ⟨de, List.mem_cons_self, found.1, fun differ => differ found.2⟩
      · rename_i differs
        rw [inductionHypothesis, List.forall_mem_cons]
        constructor
        · intro rest
          exact ⟨fun used same => differs ⟨used, same⟩, rest⟩
        · exact fun both => both.2

theorem lookup_congr {name name' : List UInt8} (same : cname dirSiz name = cname dirSiz name')
    (des : List Dirent) (off : Nat) : lookup name des off = lookup name' des off := by
  induction des generalizing off with
  | nil => rfl
  | cons de des inductionHypothesis => rw [lookup, lookup, same, inductionHypothesis]

theorem lookup_mem {name : List UInt8} {des : List Dirent} {off inum off' : Nat}
    (found : lookup name des off = some (inum, off')) : ∃ de ∈ des, de.inum = inum ∧ inum ≠ 0 := by
  induction des generalizing off with
  | nil => cases found
  | cons de des inductionHypothesis =>
      rw [lookup] at found
      split at found
      · rename_i hit
        cases found
        exact ⟨de, List.mem_cons_self, rfl, hit.1⟩
      · obtain ⟨de', member, same, used⟩ := inductionHypothesis found
        exact ⟨de', List.mem_cons_of_mem _ member, same, used⟩

/-- The entries dirlink's scan passes, all in use, and those from the first
empty one on. -/
theorem firstEmpty_split (des : List Dirent) (off : Nat) :
    ∃ front back, des = front ++ back ∧ (∀ de ∈ front, de.inum ≠ 0) ∧
      (∀ de ∈ back.head?, de.inum = 0) ∧ firstEmpty des off = off + direntSize * front.length := by
  induction des generalizing off with
  | nil => exact ⟨[], [], rfl, by simp, by simp, rfl⟩
  | cons de des inductionHypothesis =>
      by_cases empty : de.inum = 0
      · refine ⟨[], de :: des, rfl, by simp, by simpa using empty, ?_⟩
        rw [firstEmpty, if_pos empty]
        rfl
      · obtain ⟨front, back, split, used, stops, found⟩ := inductionHypothesis (off + direntSize)
        refine ⟨de :: front, back, by rw [split]; rfl, ?_, stops, ?_⟩
        · intro de' member
          rcases List.mem_cons.mp member with rfl | later
          · exact empty
          · exact used de' later
        · rw [firstEmpty, if_neg empty, found, List.length_cons, Nat.mul_succ]
          omega

/-- dirlink's write: the new entry's bytes over the first empty entry, or
after the last, give the entries with the new one there. -/
theorem writeBytes_encode {front back : List Dirent} {new : Dirent}
    (named : ∀ de ∈ front ++ back, de.name.length = dirSiz) (newNamed : new.name.length = dirSiz)
    (room : direntSize * (front.length + 1) ≤ maxFile * bSize) :
    writeBytes (encode (front ++ back)) new.bytes (direntSize * front.length) =
      ((direntSize : Int), encode (front ++ new :: back.tail)) := by
  have frontLength := length_encode fun de member => named de (List.mem_append_left back member)
  have backLength := length_encode fun de member => named de (List.mem_append_right front member)
  have newLength := length_bytes newNamed
  have bound : maxFile * bSize < 2 ^ 32 := by decide
  rw [Nat.mul_succ] at room
  unfold writeBytes
  rw [if_neg (by simp [encode_append, frontLength, newLength]; omega),
    if_neg (by rw [newLength]; omega), newLength]
  congr 1
  have dropped : (encode back).drop direntSize = encode back.tail := by
    cases back with
    | nil => rfl
    | cons de rest =>
        rw [encode_cons, List.drop_left' (length_bytes (named de (by simp))), List.tail_cons]
  rw [encode_append, ← frontLength, List.take_left, List.drop_append, List.drop_eq_nil_of_le (by omega),
    List.nil_append, Nat.add_sub_cancel_left, dropped, encode_append, encode_cons, List.append_assoc]

/-! ## Paths -/

/-- skipelem: the next element of `path`, its first `DIRSIZ` bytes or all of
it and a NUL, and the rest of the path past the slashes after it; `none`
when no element is left. -/
def skipelem (path : List UInt8) : Option (List UInt8 × List UInt8) :=
  let path := path.dropWhile (· = slash)
  if path.headD 0 = 0 then none
  else
    let rest := path.dropWhile fun c => c ≠ slash ∧ c ≠ 0
    let len := path.length - rest.length
    let name := if dirSiz ≤ len then path.take dirSiz else path.take len ++ [0]
    some (name, rest.dropWhile (· = slash))

/-- The components of a path: its maximal runs of bytes other than '/', in
order. -/
def components (path : List UInt8) : List (List UInt8) :=
  (path.splitOnP (· == slash)).filter fun run => !run.isEmpty

theorem components_nil : components [] = [] := rfl

theorem components_slash (path : List UInt8) : components (slash :: path) = components path := by
  simp [components, List.splitOnP_cons_eq_if_modifyHead]

theorem components_dropWhile (path : List UInt8) :
    components (path.dropWhile (· = slash)) = components path := by
  induction path with
  | nil => rfl
  | cons c rest inductionHypothesis =>
      by_cases isSlash : c = slash
      · rw [List.dropWhile_cons_of_pos (by simpa using isSlash), inductionHypothesis, isSlash,
          components_slash]
      · rw [List.dropWhile_cons_of_neg (by simpa using isSlash)]

theorem components_append {word rest : List UInt8} (inWord : ∀ c ∈ word, c ≠ slash)
    (nonempty : word ≠ []) (atSlash : rest.headD slash = slash) :
    components (word ++ rest) = word :: components rest := by
  have noSlash : ∀ c ∈ word, (c == slash) = false := by simpa using inWord
  cases rest with
  | nil =>
      simp [components, List.splitOnP_eq_singleton noSlash, nonempty]
  | cons s rest =>
      obtain rfl : s = slash := atSlash
      rw [components_slash]
      simp [components, List.splitOnP_append_cons_of_forall_mem noSlash, nonempty]



/-- A path with no NUL, once its leading slashes are skipped, is empty or a
word of bytes other than '/' followed by nothing or by a slash. -/
theorem dropWhile_slash_shape {path : List UInt8} (noNul : 0 ∉ path) :
    path.dropWhile (· = slash) = [] ∨
      ∃ word rest, path.dropWhile (· = slash) = word ++ rest ∧ word ≠ [] ∧
        (∀ c ∈ word, c ≠ slash ∧ c ≠ 0) ∧ rest.headD slash = slash := by
  have sublist := List.dropWhile_sublist (l := path) fun c => decide (c = slash)
  generalize skipped : path.dropWhile (· = slash) = tail at sublist
  cases tail with
  | nil => exact .inl rfl
  | cons c tail =>
      right
      have notSlash : c ≠ slash := by
        have stopped := List.head_dropWhile_not (fun c => decide (c = slash)) (l := path)
          (by rw [skipped]; simp)
        simpa [skipped] using stopped
      have inPath : ∀ x ∈ c :: tail, x ≠ 0 := fun x member =>
        ne_of_mem_of_not_mem (sublist.subset member) noNul
      refine ⟨(c :: tail).takeWhile (fun c => c ≠ slash ∧ c ≠ 0),
        (c :: tail).dropWhile (fun c => c ≠ slash ∧ c ≠ 0), List.takeWhile_append_dropWhile.symm,
        ?_, ?_, ?_⟩
      · rw [List.takeWhile_cons_of_pos (by simpa using ⟨notSlash, inPath c (by simp)⟩)]
        simp
      · intro x member
        simpa using List.mem_takeWhile_imp member
      · generalize rested : (c :: tail).dropWhile (fun c => c ≠ slash ∧ c ≠ 0) = rest
        cases rest with
        | nil => rfl
        | cons r rest =>
            have stopped := List.head_dropWhile_not (fun c => decide (c ≠ slash ∧ c ≠ 0))
              (l := c :: tail) (by rw [rested]; simp)
            have notNul : r ≠ 0 :=
              inPath r ((List.dropWhile_sublist _).subset (by rw [rested]; simp))
            simp only [rested, List.head_cons, decide_eq_false_iff_not, not_and, not_not] at stopped
            have isSlash : r = slash := by
              by_contra other
              exact notNul (stopped other)
            simp [isSlash]


/-- skipelem on a path whose leading slashes drop to a word and then nothing
or a slash: the word, cut at `DIRSIZ` bytes or ended by a NUL, and what
follows the slashes after it. -/
theorem skipelem_of_word {path word rest : List UInt8}
    (split : path.dropWhile (· = slash) = word ++ rest) (nonempty : word ≠ [])
    (inWord : ∀ c ∈ word, c ≠ slash ∧ c ≠ 0) (atSlash : rest.headD slash = slash) :
    skipelem path = some (if dirSiz ≤ word.length then word.take dirSiz else word ++ [0],
      rest.dropWhile (· = slash)) := by
  have afterWord : (word ++ rest).dropWhile (fun c => c ≠ slash ∧ c ≠ 0) = rest := by
    rw [List.dropWhile_append_of_pos (by simpa using inWord)]
    cases rest with
    | nil => rfl
    | cons r rest =>
        obtain rfl : r = slash := atSlash
        simp
  have headNotNul : (word ++ rest).headD 0 ≠ 0 := by
    obtain ⟨c, word', rfl⟩ := List.exists_cons_of_ne_nil nonempty
    simpa using (inWord c (by simp)).2
  unfold skipelem
  simp only [split, if_neg headNotNul, afterWord, List.length_append, Nat.add_sub_cancel]
  split
  · rw [List.take_append_of_le_length ‹_›]
  · simp

theorem skipelem_eq_none_iff {path : List UInt8} (noNul : 0 ∉ path) :
    skipelem path = none ↔ components path = [] := by
  rw [← components_dropWhile]
  rcases dropWhile_slash_shape noNul with empty | ⟨word, rest, split, nonempty, inWord, atSlash⟩
  · have none : skipelem path = none := by
      unfold skipelem
      simp [empty]
    simp [none, empty, components_nil]
  · rw [skipelem_of_word split nonempty inWord atSlash, split,
      components_append (fun c member => (inWord c member).1) nonempty atSlash]
    simp

/-- What one skipelem takes off a path with no NUL: its first component, cut
to `DIRSIZ` bytes, and a shorter path with the other components. -/
theorem skipelem_eq_some {path name rest : List UInt8} (noNul : 0 ∉ path)
    (skipped : skipelem path = some (name, rest)) :
    ∃ word, components path = word :: components rest ∧ 0 ∉ word ∧
      cname dirSiz name = word.take dirSiz ∧ 0 ∉ rest ∧ rest.length < path.length := by
  rcases dropWhile_slash_shape noNul with empty | ⟨word, after, split, nonempty, inWord, atSlash⟩
  · unfold skipelem at skipped
    simp [empty] at skipped
  · rw [skipelem_of_word split nonempty inWord atSlash, Option.some.injEq, Prod.mk.injEq] at skipped
    obtain ⟨named, rfl⟩ := skipped
    have wordNoNul : 0 ∉ word := fun member => (inWord 0 member).2 rfl
    have sublist : (after.dropWhile (· = slash)).Sublist path :=
      ((List.dropWhile_sublist _).trans (List.sublist_append_right word after)).trans
        (split ▸ List.dropWhile_sublist _)
    have shorter : (after.dropWhile (· = slash)).length < path.length := by
      have dropped := (List.dropWhile_sublist (l := after) fun c => decide (c = slash)).length_le
      have inPath := (List.dropWhile_sublist (l := path) fun c => decide (c = slash)).length_le
      have longer : after.length < (word ++ after).length := by
        simpa [List.length_pos_iff] using nonempty
      rw [← split] at longer
      omega
    refine ⟨word, ?_, wordNoNul, ?_, fun member => noNul (sublist.subset member), shorter⟩
    · rw [← components_dropWhile, split,
        components_append (fun c member => (inWord c member).1) nonempty atSlash,
        components_dropWhile]
    · rw [← named]
      split
      · rw [cname_of_nul_not_mem (fun member => wordNoNul (List.mem_of_mem_take member)),
          List.take_take, Nat.min_self]
      · rename_i short
        rw [cname_append_nul wordNoNul, List.take_of_length_le (by omega)]


theorem dropWhile_dropWhile (p : UInt8 → Bool) (path : List UInt8) :
    (path.dropWhile p).dropWhile p = path.dropWhile p := by
  induction path with
  | nil => rfl
  | cons c rest inductionHypothesis =>
      by_cases drops : p c = true
      · rw [List.dropWhile_cons_of_pos drops, inductionHypothesis]
      · rw [List.dropWhile_cons_of_neg drops, List.dropWhile_cons_of_neg drops]

/-- What skipelem leaves of a path with no NUL ends there exactly when no
component is left: namex's test for the last element. -/
theorem skipelem_rest_headD {path name rest : List UInt8} (noNul : 0 ∉ path)
    (skipped : skipelem path = some (name, rest)) : rest.headD 0 = 0 ↔ components rest = [] := by
  obtain ⟨_, _, _, _, restNoNul, _⟩ := skipelem_eq_some noNul skipped
  have stripped : rest.dropWhile (· = slash) = rest := by
    unfold skipelem at skipped
    dsimp only at skipped
    split at skipped
    · cases skipped
    · cases skipped
      apply dropWhile_dropWhile
  rw [← skipelem_eq_none_iff restNoNul]
  unfold skipelem
  dsimp only
  rw [stripped]
  constructor
  · intro nul
    rw [if_pos nul]
  · intro none
    by_contra other
    rw [if_neg other] at none
    cases none

/-- The names namex's loop takes off `path`, one skipelem a turn, for at
most `fuel` turns; `path.length` turns take them all (`elems_eq`). -/
def elems : Nat → List UInt8 → List (List UInt8)
  | 0, _ => []
  | fuel + 1, path =>
      match skipelem path with
      | none => []
      | some (name, rest) => name :: elems fuel rest

theorem elems_eq (fuel : Nat) {path : List UInt8} (noNul : 0 ∉ path) (enough : path.length ≤ fuel) :
    (elems fuel path).map (cname dirSiz) = (components path).map (List.take dirSiz) := by
  induction fuel generalizing path with
  | zero =>
      obtain rfl : path = [] := List.eq_nil_of_length_eq_zero (by omega)
      rfl
  | succ fuel inductionHypothesis =>
      rw [elems]
      cases skipped : skipelem path with
      | none => simp [(skipelem_eq_none_iff noNul).mp skipped]
      | some next =>
          obtain ⟨name, rest⟩ := next
          obtain ⟨word, split, _, named, restNoNul, shorter⟩ := skipelem_eq_some noNul skipped
          simp only [split, List.map_cons, named, inductionHypothesis restNoNul (by omega)]

end Fs
end Xv6
