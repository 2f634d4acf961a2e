import Mathlib.Computability.Language

/-!
# grep's matcher

The Kernighan–Pike matcher of `user/grep.c`: `match`, `matchhere` and
`matchstar` over NUL-terminated strings, a string being the list of its
characters before the NUL.  Over it stands the meaning of a pattern: read left
to right into stars, atoms and a final end anchor, each item denotes a
`Language Char` and the sequence denotes their product.  `matchhere` is shown
to decide whether a prefix of the text lies in that product, by induction on
the pattern along `items`; `matchstar`'s backtracking loop is the star case,
by induction on the text.
-/

namespace Xv6.Grep

mutual
/-- matchhere: search for re at beginning of text. -/
def matchhere (re text : List Char) : Bool :=
  match re, text with
  | [], _ => true
  | c :: '*' :: re, text => matchstar c re text
  | ['$'], text => text.isEmpty
  | c :: re, t :: text => (c == '.' || c == t) && matchhere re text
  | _ :: _, [] => false
termination_by (re.length, 1, text.length)

/-- matchstar: search for c*re at beginning of text.  The do-while loop tries
`re` first and only then consumes one character, which must be `c` unless `c`
is '.'. -/
def matchstar (c : Char) (re text : List Char) : Bool :=
  matchhere re text ||
    match text with
    | t :: text => (t == c || c == '.') && matchstar c re text
    | [] => false
termination_by (re.length + 1, 0, text.length)
end

/-- The do-while loop of `match`: `matchhere` at `text` and at each shorter
suffix, the empty one included. -/
def matchLoop (re : List Char) : List Char → Bool
  | [] => matchhere re []
  | t :: text => matchhere re (t :: text) || matchLoop re text

/-- match: search for re anywhere in text, or only at its start after a leading '^'. -/
def «match» (re text : List Char) : Bool :=
  match re with
  | '^' :: re => matchhere re text
  | re => matchLoop re text

/-! ### What a pattern means -/

/-- The items a pattern is read into. -/
inductive Item
  | star (c : Char)
  | any
  | literal (c : Char)
  | endAnchor
  deriving DecidableEq, Repr

/-- A character on its own: '.' is `any`, every other character itself. -/
def Item.atom (c : Char) : Item := if c = '.' then .any else .literal c

/-- The pattern after its optional '^', read left to right: a character before
'*' makes a star, a final '$' the end anchor, and every other character an atom. -/
def items : List Char → List Item
  | [] => []
  | c :: '*' :: re => .star c :: items re
  | ['$'] => [.endAnchor]
  | c :: re => .atom c :: items re

/-- Whether the pattern is anchored by a leading '^', and its items. -/
def parse : List Char → Bool × List Item
  | '^' :: re => (true, items re)
  | re => (false, items re)

/-- The words one item matches. -/
def Item.lang : Item → Language Char
  | .star c => {w | ∀ x ∈ w, x = c ∨ c = '.'}
  | .any => {w | ∃ x, w = [x]}
  | .literal c => {[c]}
  | .endAnchor => 1

/-- The words a sequence of items matches: the product of their languages. -/
def lang : List Item → Language Char
  | [] => 1
  | i :: is => i.lang * lang is

/-- The items match a prefix of `text`: one of their words starts it, and is
all of it when they end with the end anchor. -/
def MatchesAt (is : List Item) (text : List Char) : Prop :=
  ∃ w r, text = w ++ r ∧ w ∈ lang is ∧ (.endAnchor ∈ is → r = [])

/-- What the pattern asks of a text: a match at position 0 when anchored, and
otherwise at some position 0..len. -/
def Matches (re text : List Char) : Prop :=
  match parse re with
  | (true, is) => MatchesAt is text
  | (false, is) => ∃ i ≤ text.length, MatchesAt is (text.drop i)

/-! ### Membership, item by item -/

theorem atom_ne_endAnchor (c : Char) : Item.atom c ≠ .endAnchor := by
  unfold Item.atom
  split <;> nofun

theorem mem_lang_atom {c : Char} {w : List Char} :
    w ∈ (Item.atom c).lang ↔ ∃ x, w = [x] ∧ (c = '.' ∨ c = x) := by
  by_cases dot : c = '.'
  · have any : w ∈ Item.any.lang ↔ ∃ x, w = [x] := Iff.rfl
    simp [Item.atom, dot, any]
  · have lit : w ∈ (Item.literal c).lang ↔ w = [c] := Iff.rfl
    simp only [Item.atom, dot, ↓reduceIte, lit, false_or]
    constructor
    · rintro rfl
      exact ⟨c, rfl, rfl⟩
    · rintro ⟨x, rfl, rfl⟩
      rfl

theorem matchesAt_nil (text : List Char) : MatchesAt [] text :=
  ⟨[], text, rfl, (Language.mem_one _).mpr rfl, by simp⟩

/-- The first item of a sequence takes a prefix of the text and the rest of the
items match what follows; this holds for every item but the end anchor. -/
theorem matchesAt_cons {i : Item} (hi : i ≠ .endAnchor) {is : List Item} {text : List Char} :
    MatchesAt (i :: is) text ↔ ∃ u v, text = u ++ v ∧ u ∈ i.lang ∧ MatchesAt is v := by
  have ends : Item.endAnchor ∈ i :: is ↔ Item.endAnchor ∈ is := by
    simp [Ne.symm hi]
  simp only [MatchesAt, lang, Language.mem_mul, ends]
  constructor
  · rintro ⟨w, r, rfl, ⟨u, hu, v, hv, rfl⟩, hr⟩
    exact ⟨u, v ++ r, List.append_assoc .., hu, v, r, rfl, hv, hr⟩
  · rintro ⟨u, v, rfl, hu, w, r, rfl, hw, hr⟩
    exact ⟨u ++ w, r, (List.append_assoc ..).symm, ⟨u, hu, w, hw, rfl⟩, hr⟩

theorem matchesAt_endAnchor {text : List Char} : MatchesAt [.endAnchor] text ↔ text = [] := by
  simp only [MatchesAt, lang, Item.lang, mul_one, Language.mem_one, List.mem_singleton,
    forall_const]
  constructor
  · rintro ⟨w, r, rfl, rfl, rfl⟩
    rfl
  · rintro rfl
    exact ⟨[], [], rfl, rfl, rfl⟩

theorem matchesAt_atom_cons {c t : Char} {is : List Item} {text : List Char} :
    MatchesAt (.atom c :: is) (t :: text) ↔ (c = '.' ∨ c = t) ∧ MatchesAt is text := by
  rw [matchesAt_cons (atom_ne_endAnchor c)]
  constructor
  · rintro ⟨u, v, split, hu, hv⟩
    obtain ⟨x, rfl, fits⟩ := mem_lang_atom.mp hu
    simp only [List.singleton_append, List.cons.injEq] at split
    obtain ⟨rfl, rfl⟩ := split
    exact ⟨fits, hv⟩
  · rintro ⟨fits, hv⟩
    exact ⟨[t], text, rfl, mem_lang_atom.mpr ⟨t, rfl, fits⟩, hv⟩

theorem not_matchesAt_atom_nil {c : Char} {is : List Item} :
    ¬ MatchesAt (.atom c :: is) [] := by
  rw [matchesAt_cons (atom_ne_endAnchor c)]
  rintro ⟨u, v, split, hu, -⟩
  obtain ⟨x, rfl, -⟩ := mem_lang_atom.mp hu
  simp at split

/-! ### The matcher decides the items -/

/-- `matchstar`'s loop, where `matchhere re` decides `P`: some prefix of
characters that fit `c` is skipped and `P` holds of what follows.  The
induction is on the text, which the loop consumes one character at a time. -/
theorem matchstar_iff {c : Char} {re : List Char} {P : List Char → Prop}
    (here : ∀ v, matchhere re v = true ↔ P v) :
    ∀ text, matchstar c re text = true ↔
      ∃ u v, text = u ++ v ∧ u ∈ (Item.star c).lang ∧ P v
  | [] => by
    rw [matchstar.eq_2, Bool.or_false, here]
    constructor
    · intro h
      exact ⟨[], [], rfl, nofun, h⟩
    · rintro ⟨u, v, split, -, h⟩
      obtain ⟨rfl, rfl⟩ := List.append_eq_nil_iff.mp split.symm
      exact h
  | t :: text => by
    have fits : (t == c || c == '.') = true ↔ t = c ∨ c = '.' := by
      simp only [Bool.or_eq_true, beq_iff_eq]
    rw [matchstar.eq_1, Bool.or_eq_true, here, Bool.and_eq_true, fits, matchstar_iff here text]
    constructor
    · rintro (h | ⟨first, u, v, rfl, hu, h⟩)
      · exact ⟨[], t :: text, rfl, nofun, h⟩
      · refine ⟨t :: u, v, rfl, ?_, h⟩
        rintro x (_ | ⟨_, hx⟩)
        exacts [first, hu x hx]
    · rintro ⟨u, v, split, hu, h⟩
      cases u with
      | nil =>
        rw [List.nil_append] at split
        exact .inl (split ▸ h)
      | cons x u =>
        simp only [List.cons_append, List.cons.injEq] at split
        obtain ⟨rfl, rfl⟩ := split
        exact .inr ⟨hu _ List.mem_cons_self, u, v, rfl,
          fun y hy => hu y (List.mem_cons_of_mem _ hy), h⟩

/-- `matchhere` decides whether the pattern's items match a prefix of the text.
The induction follows `items`, so each case is one branch of `matchhere`. -/
theorem matchhere_iff (re : List Char) :
    ∀ text, matchhere re text = true ↔ MatchesAt (items re) text := by
  induction re using items.induct with
  | case1 =>
    intro text
    simp only [matchhere.eq_1, items, matchesAt_nil]
  | case2 c re ih =>
    intro text
    rw [matchhere.eq_2, items, matchstar_iff ih, matchesAt_cons (by nofun : Item.star c ≠ _)]
  | case3 =>
    intro text
    rw [matchhere.eq_3, items, matchesAt_endAnchor, List.isEmpty_iff]
  | case4 c re notStar notEnd ih =>
    intro text
    rw [items.eq_4 c re notStar notEnd]
    cases text with
    | nil =>
      simp only [matchhere.eq_5 c re notStar notEnd, Bool.false_eq_true, false_iff]
      exact not_matchesAt_atom_nil
    | cons t text =>
      rw [matchhere.eq_4 c re t text notStar notEnd, matchesAt_atom_cons, ← ih]
      simp only [Bool.and_eq_true, Bool.or_eq_true, beq_iff_eq]

/-- `match`'s do-while loop tries every position from 0 to the length. -/
theorem matchLoop_iff (re : List Char) :
    ∀ text, matchLoop re text = true ↔ ∃ i ≤ text.length, MatchesAt (items re) (text.drop i)
  | [] => by
    simp [matchLoop, matchhere_iff]
  | t :: text => by
    rw [matchLoop, Bool.or_eq_true, matchhere_iff, matchLoop_iff re text]
    constructor
    · rintro (h | ⟨i, hi, h⟩)
      · exact ⟨0, Nat.zero_le _, h⟩
      · exact ⟨i + 1, by simp only [List.length_cons]; omega, h⟩
    · rintro ⟨i, hi, h⟩
      cases i with
      | zero => exact .inl h
      | succ i => exact .inr ⟨i, by simp only [List.length_cons] at hi; omega, h⟩

/-- grep's matcher decides the pattern language: `match re text` is 1 exactly
when the items of `re` match a substring of `text` that starts at 0 when `re`
is anchored and at any position otherwise, and ends at the end of `text` when
the items end with '$'.  The three functions are total, their recursion being
well founded on the pattern's and the text's lengths. -/
theorem match_iff_matches (re text : List Char) : «match» re text = true ↔ Matches re text := by
  by_cases caret : ∃ r, re = '^' :: r
  · obtain ⟨r, rfl⟩ := caret
    rw [«match».eq_1, Matches, parse.eq_1]
    exact matchhere_iff r text
  · have notCaret : ∀ r, re = '^' :: r → False := fun r h => caret ⟨r, h⟩
    rw [«match».eq_2 re text notCaret, Matches, parse.eq_2 re notCaret]
    exact matchLoop_iff re text

/-! ### grep's read loop

`grep` reads into `buf` after the `m` bytes it keeps from the last read, scans
the '\n'-terminated lines with `strchr`, and keeps what follows the last '\n'
for the next read, except when no '\n' was found at all: then `p == buf` and
it forgets the whole buffer. -/

/-- `sizeof(buf)`. -/
def bufSize : Nat := 1024

/-- strchr(s, c) over the bytes from `s` on: the offset of the first `c`, none
when a NUL comes first.  The end of the list is the NUL grep puts at buf[m]. -/
def strchr : List Char → Char → Option Nat
  | [], _ => none
  | x :: s, c => if x = '\x00' then none else if x = c then some 0 else (strchr s c).map (· + 1)

theorem strchr_lt : ∀ {s : List Char} {c : Char} {q : Nat}, strchr s c = some q → q < s.length
  | [], _, _, found => nomatch found
  | x :: s, c, q, found => by
    simp only [strchr] at found
    split at found
    · cases found
    · split at found
      · cases found
        exact Nat.zero_lt_succ _
      · obtain ⟨q', found', rfl⟩ := Option.map_eq_some_iff.mp found
        exact Nat.succ_lt_succ (strchr_lt found')

theorem strchr_of_not_mem {c : Char} : ∀ {s : List Char}, c ∉ s → strchr s c = none
  | [], _ => rfl
  | x :: s, absent => by
    have notHead : x ≠ c := fun h => absent (h ▸ List.mem_cons_self)
    simp only [strchr, notHead, ↓reduceIte, strchr_of_not_mem (fun h => absent (List.mem_cons_of_mem x h)),
      Option.map_none, ite_self]

/-- A found offset is that of the first `c`. -/
theorem strchr_found : ∀ {s : List Char} {c : Char} {q : Nat}, strchr s c = some q →
    c ∉ s.take q ∧ s = s.take q ++ c :: s.drop (q + 1)
  | [], _, _, found => nomatch found
  | x :: s, c, q, found => by
    simp only [strchr] at found
    split at found
    · cases found
    · split at found
      · cases found
        subst x
        exact ⟨List.not_mem_nil, rfl⟩
      · obtain ⟨q', found', rfl⟩ := Option.map_eq_some_iff.mp found
        obtain ⟨before, split⟩ := strchr_found found'
        refine ⟨?_, ?_⟩
        · rintro (_ | ⟨_, later⟩)
          · contradiction
          · exact before later
        · exact congrArg (x :: ·) split

/-- Over bytes with no NUL, strchr misses only a character that is not there. -/
theorem strchr_eq_none {c : Char} : ∀ {s : List Char}, '\x00' ∉ s → strchr s c = none → c ∉ s
  | [], _, _ => List.not_mem_nil
  | x :: s, noNul, missed => by
    have notNul : x ≠ '\x00' := fun h => noNul (h ▸ List.mem_cons_self)
    simp only [strchr, notNul, ↓reduceIte] at missed
    split at missed
    · cases missed
    · rintro (_ | ⟨_, later⟩)
      · contradiction
      · exact strchr_eq_none (fun h => noNul (List.mem_cons_of_mem x h))
          (Option.map_eq_none_iff.mp missed) later

/-- The inner while loop of `grep` over the bytes from `p` to `m`: each line
that `strchr` finds is written, with its '\n', when the pattern matches it.
Returns what was written and how far `p` advanced. -/
def scanLines (pattern s : List Char) : List Char × Nat :=
  match found : strchr s '\n' with
  | none => ([], 0)
  | some q =>
    let line := s.take q
    let rest := scanLines pattern (s.drop (q + 1))
    ((if «match» pattern line then line ++ ['\n'] else []) ++ rest.1, q + 1 + rest.2)
termination_by s.length
decreasing_by
  have := strchr_lt found
  simp only [List.length_drop]
  omega

theorem scanLines_of_strchr_none {pattern s : List Char} (missed : strchr s '\n' = none) :
    scanLines pattern s = ([], 0) := by
  rw [scanLines]
  split
  · rfl
  · simp_all

theorem scanLines_of_strchr_some {pattern s : List Char} {q : Nat} (found : strchr s '\n' = some q) :
    scanLines pattern s =
      (let rest := scanLines pattern (s.drop (q + 1))
       ((if «match» pattern (s.take q) then s.take q ++ ['\n'] else []) ++ rest.1, q + 1 + rest.2)) := by
  rw [scanLines]
  split
  · simp_all
  · simp_all

/-- One turn of `grep`'s outer loop, `read` having put `chunk` after the `m`
bytes `buf` keeps: what it writes, and the bytes buf[0..m) holds for the next
read. -/
def grepStep (pattern buf chunk : List Char) : List Char × List Char :=
  let buf := buf ++ chunk
  let (out, p) := scanLines pattern buf
  -- if(p == buf) m = 0;
  let m := if p = 0 then 0 else buf.length
  -- if(m > 0){ m -= p - buf; memmove(buf, p, m); }
  (out, if 0 < m then buf.drop p else [])

/-- `grep(pattern, fd)` where the reads return `chunks` in turn and then 0,
starting from `buf` holding buf[0..m): everything it writes. -/
def grepLoop (pattern : List Char) : List Char → List (List Char) → List Char
  | _, [] => []
  | buf, chunk :: chunks => (grepStep pattern buf chunk).1 ++ grepLoop pattern (grepStep pattern buf chunk).2 chunks

/-- grep(pattern, fd): `m = 0`, then the read loop. -/
def grep (pattern : List Char) (chunks : List (List Char)) : List Char :=
  grepLoop pattern [] chunks

/-- The chunks are what successive reads may return: each is non-empty and no
longer than the sizeof(buf)-m-1 bytes `grep` asks for, as a pipe's short reads
allow. -/
def Reads (pattern : List Char) : List Char → List (List Char) → Prop
  | _, [] => True
  | buf, chunk :: chunks =>
    chunk ≠ [] ∧ chunk.length ≤ bufSize - buf.length - 1 ∧
      Reads pattern (grepStep pattern buf chunk).2 chunks

/-- The '\n'-terminated lines of a stream, in order: what follows the last '\n'
is not a line. -/
def lines (stream : List Char) : List (List Char) :=
  (stream.splitOn '\n').dropLast

/-- What grep is meant to write for a stream: each line the pattern matches,
followed by '\n'. -/
def matchingLines (pattern stream : List Char) : List Char :=
  (lines stream).flatMap fun line => if «match» pattern line then line ++ ['\n'] else []

theorem lines_of_not_mem {s : List Char} (absent : '\n' ∉ s) : lines s = [] := by
  rw [lines, List.splitOn_eq_singleton absent]
  rfl

theorem lines_append_cons {line : List Char} (absent : '\n' ∉ line) (s : List Char) :
    lines (line ++ '\n' :: s) = line :: lines s := by
  rw [lines, List.splitOn_append_cons_self_of_not_mem absent,
    List.dropLast_cons_of_ne_nil (List.splitOn_ne_nil _ _)]
  rfl

/-- Over bytes with no NUL, the inner loop writes exactly the matching lines,
and leaves after `p` bytes with no '\n'.  The induction follows `scanLines`,
one found line at a time. -/
theorem scanLines_spec (pattern s : List Char) (noNul : '\x00' ∉ s) :
    (scanLines pattern s).1 = matchingLines pattern s ∧ '\n' ∉ s.drop (scanLines pattern s).2 := by
  induction s using scanLines.induct pattern with
  | case1 s missed =>
    have absent := strchr_eq_none noNul missed
    rw [scanLines_of_strchr_none missed, matchingLines, lines_of_not_mem absent]
    exact ⟨rfl, absent⟩
  | case2 s q found ih =>
    obtain ⟨before, split⟩ := strchr_found found
    obtain ⟨out, tail⟩ := ih (fun h => noNul (List.mem_of_mem_drop h))
    have linesEq : lines s = s.take q :: lines (s.drop (q + 1)) := by
      rw [← lines_append_cons before (s.drop (q + 1)), ← split]
    rw [scanLines_of_strchr_some found]
    refine ⟨?_, ?_⟩
    · simp only [matchingLines, linesEq, List.flatMap_cons, out]
    · rwa [← List.drop_drop]

/-- A buffer of two lines and a partial third, pattern `a`. -/
theorem scanLines_two_lines :
    '\x00' ∉ ['a', 'b', '\n', 'c', '\n', 'a'] ∧
      (scanLines ['a'] ['a', 'b', '\n', 'c', '\n', 'a']).1 = matchingLines ['a'] ['a', 'b', '\n', 'c', '\n', 'a'] ∧
      '\n' ∉ (['a', 'b', '\n', 'c', '\n', 'a'] : List Char).drop (scanLines ['a'] ['a', 'b', '\n', 'c', '\n', 'a']).2 :=
  ⟨by decide, scanLines_spec ['a'] ['a', 'b', '\n', 'c', '\n', 'a'] (by decide)⟩

/-- A read that leaves no '\n' in the buffer is forgotten: nothing is written
and `m` goes back to 0, whatever the bytes were. -/
theorem grepStep_of_not_mem {pattern buf chunk : List Char} (noNewline : '\n' ∉ buf ++ chunk) :
    grepStep pattern buf chunk = ([], []) := by
  simp only [grepStep, scanLines_of_strchr_none (strchr_of_not_mem noNewline), ↓reduceIte,
    Nat.lt_irrefl]

/-- grep forgets a first read that holds no '\n': its output is that of the
later reads alone, so the start of a line split across two reads is lost. -/
theorem grep_forgets_read_without_newline (pattern : List Char) {part : List Char}
    (noNewline : '\n' ∉ part) (chunks : List (List Char)) :
    grep pattern (part :: chunks) = grep pattern chunks := by
  have step : grepStep pattern [] part = ([], []) :=
    grepStep_of_not_mem (by rwa [List.nil_append])
  rw [grep, grepLoop, step, List.nil_append, grep]

/-- A pipe that delivers "ab" and then "c\n": both reads fit, grep "a" writes
nothing, and the stream's one line "abc" matches "a". -/
theorem grep_loses_ab :
    Reads ['a'] [] [['a', 'b'], ['c', '\n']] ∧
      grep ['a'] [['a', 'b'], ['c', '\n']] = [] ∧
      matchingLines ['a'] (['a', 'b'] ++ ['c', '\n']) = ['a', 'b', 'c', '\n'] := by
  have first : grepStep ['a'] [] ['a', 'b'] = ([], []) := grepStep_of_not_mem (by decide)
  have noMatch : «match» ['a'] ['c'] = false := by
    simp [«match», matchLoop, matchhere]
  have second : grepStep ['a'] [] ['c', '\n'] = ([], []) := by
    simp [grepStep, scanLines_of_strchr_some (show strchr ['c', '\n'] '\n' = some 1 by decide),
      noMatch, scanLines_of_strchr_none (show strchr [] '\n' = none from rfl)]
  refine ⟨⟨by decide, by decide, ?_⟩, ?_, ?_⟩
  · rw [first]
    exact ⟨by decide, by decide, trivial⟩
  · rw [grep_forgets_read_without_newline ['a'] (by decide) [['c', '\n']], grep, grepLoop, second]
    rfl
  · have abc : «match» ['a'] ['a', 'b', 'c'] = true := by
      simp [«match», matchLoop, matchhere]
    have split : lines (['a', 'b'] ++ ['c', '\n']) = [['a', 'b', 'c']] := by decide
    rw [matchingLines, split, List.flatMap_singleton, abc]
    rfl

end Xv6.Grep
