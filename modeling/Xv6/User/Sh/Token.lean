import Mathlib.Data.List.GetD
import Xv6.User.Grep

/-!
# sh.c's tokens

The shell reads a command line through two functions that share a cursor
into it: `gettoken` skips whitespace, reads one token and skips the
whitespace after it, and `peek` skips whitespace and tells whether the next
character is one of a given set.  Both read `*s` up to `es`, the line's
terminating NUL, and test characters with ulib's `strchr`.

A position is an index into the buffer; past the buffer's end the buffer
reads as NUL, as the NUL at `es` does.  The tokens of a line are those
`gettoken` returns until it returns 0 (`tokensFrom`); the lemmas below say
how `peek` and `gettoken` see them, and that a word's text is a maximal run
of characters that are neither whitespace nor symbols.
-/

namespace Xv6.Sh

open Grep (strchr)

/-- `*s` at position `p`: the buffer's character, or NUL past its end. -/
def charAt (s : List Char) (p : Nat) : Char := s.getD p '\x00'

/-- strlen: the characters before the first NUL. -/
def strlen (s : List Char) : Nat := (s.takeWhile (· != '\x00')).length

/-- `whitespace[] = " \t\r\n\v"`. -/
def whitespace : List Char := [' ', '\t', '\r', '\n', '\x0b']

/-- `symbols[] = "<|>&;()"`. -/
def symbols : List Char := ['<', '|', '>', '&', ';', '(', ')']

/-- `strchr(whitespace, c)` found `c`. -/
def isSpace (c : Char) : Bool := (strchr whitespace c).isSome

/-- A character a word runs over: `!strchr(whitespace, c) && !strchr(symbols, c)`. -/
def isWordChar (c : Char) : Bool := !(strchr whitespace c).isSome && !(strchr symbols c).isSome

/-- `while(s < es && keep(*s)) s++;`, the loops of gettoken and peek. -/
def skipWhile (s : List Char) (es : Nat) (keep : Char → Bool) (p : Nat) : Nat :=
  if p < es ∧ keep (charAt s p) = true then skipWhile s es keep (p + 1) else p
termination_by es - p

/-- gettoken's switch at the first character after the whitespace: the code
it returns and where the token's text ends. -/
def scanToken (s : List Char) (es p : Nat) : Char × Nat :=
  match charAt s p with
  | '\x00' => ('\x00', p)
  | '|' | '(' | ')' | ';' | '&' | '<' => (charAt s p, p + 1)
  | '>' => if charAt s (p + 1) = '>' then ('+', p + 2) else ('>', p + 1)
  | _ => ('a', skipWhile s es isWordChar p)

/-- What gettoken returns, what it stores in `*q` and `*eq`, and where it
leaves `*ps`. -/
structure Got where
  ret : Char
  q : Nat
  eq : Nat
  ps : Nat
deriving DecidableEq, Repr

def gettoken (s : List Char) (es p : Nat) : Got :=
  let start := skipWhile s es isSpace p
  let scanned := scanToken s es start
  ⟨scanned.1, start, scanned.2, skipWhile s es isSpace scanned.2⟩

/-- peek: whether the next character is one of `toks`, and `*ps` moved past
the whitespace before it. -/
def peek (s : List Char) (es p : Nat) (toks : List Char) : Bool × Nat :=
  let start := skipWhile s es isSpace p
  (charAt s start != '\x00' && (strchr toks (charAt s start)).isSome, start)

/-- A token: a word, with the bounds `q` and `eq` of its text, or a symbol,
by the code gettoken returns for it ('+' for ">>"). -/
inductive Token
  | word (q eq : Nat)
  | sym (c : Char)
deriving DecidableEq, Repr

/-- The token gettoken read. -/
def Got.token (got : Got) : Token := if got.ret = 'a' then .word got.q got.eq else .sym got.ret

/-! ## The loops -/

section Loops

variable {s : List Char} {es : Nat} {keep : Char → Bool}

theorem skipWhile_eq (s : List Char) (es : Nat) (keep : Char → Bool) (p : Nat) :
    skipWhile s es keep p =
      if p < es ∧ keep (charAt s p) = true then skipWhile s es keep (p + 1) else p := by
  rw [skipWhile]

theorem skipWhile_of_not {p : Nat} (stop : ¬ (p < es ∧ keep (charAt s p) = true)) :
    skipWhile s es keep p = p := by
  rw [skipWhile_eq, if_neg stop]

theorem le_skipWhile (p : Nat) : p ≤ skipWhile s es keep p := by
  induction p using skipWhile.induct s es keep with
  | case1 p more inductionHypothesis =>
      rw [skipWhile_eq, if_pos more]
      omega
  | case2 p stop => rw [skipWhile_of_not stop]

/-- The loop stops where the condition fails, over characters that meet it. -/
theorem skipWhile_spec (p : Nat) :
    (∀ i, p ≤ i → i < skipWhile s es keep p → i < es ∧ keep (charAt s i) = true) ∧
      ¬ (skipWhile s es keep p < es ∧ keep (charAt s (skipWhile s es keep p)) = true) := by
  induction p using skipWhile.induct s es keep with
  | case1 p more inductionHypothesis =>
      rw [skipWhile_eq, if_pos more]
      refine ⟨fun i low high => ?_, inductionHypothesis.2⟩
      by_cases here : i = p
      · subst here
        exact more
      · exact inductionHypothesis.1 i (by omega) high
  | case2 p stop =>
      rw [skipWhile_of_not stop]
      exact ⟨fun i low high => absurd high (by omega), stop⟩

theorem skipWhile_idem (p : Nat) :
    skipWhile s es keep (skipWhile s es keep p) = skipWhile s es keep p :=
  skipWhile_of_not (skipWhile_spec p).2

theorem skipWhile_le {p : Nat} (within : p ≤ es) : skipWhile s es keep p ≤ es := by
  by_contra past
  have inside := (@skipWhile_spec s es keep p).1 es within (by omega)
  omega

end Loops

/-! ## The end of the line -/

/-- `es` ends the line in `s`: no NUL before it, and the NUL at it. -/
structure Ends (s : List Char) (es : Nat) : Prop where
  nonzero : ∀ i, i < es → charAt s i ≠ '\x00'
  nul : charAt s es = '\x00'

@[simp] theorem charAt_nil (p : Nat) : charAt [] p = '\x00' := by
  simp [charAt]

@[simp] theorem charAt_cons_zero (c : Char) (s : List Char) : charAt (c :: s) 0 = c := rfl

@[simp] theorem charAt_cons_succ (c : Char) (s : List Char) (p : Nat) :
    charAt (c :: s) (p + 1) = charAt s p := rfl

/-- Past its end the buffer reads as NUL. -/
theorem lt_length_of_charAt {s : List Char} {p : Nat} (nonzero : charAt s p ≠ '\x00') :
    p < s.length := by
  by_contra past
  exact nonzero (List.getD_eq_default _ _ (by omega))

/-- strlen finds the end of the line. -/
theorem ends_strlen (s : List Char) : Ends s (strlen s) := by
  induction s with
  | nil => exact ⟨fun i below => absurd below (by simp [strlen]), charAt_nil 0⟩
  | cons c s inductionHypothesis =>
      by_cases nul : c = '\x00'
      · have zero : strlen (c :: s) = 0 := by simp [strlen, nul]
        rw [zero]
        exact ⟨fun i below => absurd below (Nat.not_lt_zero i), nul⟩
      · have more : strlen (c :: s) = strlen s + 1 := by simp [strlen, nul]
        rw [more]
        refine ⟨fun i below => ?_, inductionHypothesis.nul⟩
        cases i with
        | zero => exact nul
        | succ i => exact inductionHypothesis.nonzero i (by omega)

/-! ## gettoken and peek -/

section Cursor

variable {s : List Char} {es : Nat}

theorem le_scanToken (p : Nat) : p ≤ (scanToken s es p).2 := by
  unfold scanToken
  split
  all_goals try (dsimp only; omega)
  · split <;> omega
  · exact le_skipWhile p

theorem le_gettoken (p : Nat) : p ≤ (gettoken s es p).ps :=
  calc p ≤ skipWhile s es isSpace p := le_skipWhile p
    _ ≤ (scanToken s es (skipWhile s es isSpace p)).2 := le_scanToken _
    _ ≤ (gettoken s es p).ps := le_skipWhile _

theorem le_peek (p : Nat) (toks : List Char) : p ≤ (peek s es p toks).2 := le_skipWhile p

theorem peek_le {p : Nat} (within : p ≤ es) (toks : List Char) : (peek s es p toks).2 ≤ es :=
  skipWhile_le within

/-- What strchr finds in a string is in it. -/
theorem mem_of_strchr {str : List Char} {c : Char} (found : (strchr str c).isSome) : c ∈ str := by
  obtain ⟨q, found⟩ := Option.isSome_iff_exists.mp found
  rw [(Grep.strchr_found found).2]
  exact List.mem_append_right _ List.mem_cons_self

/-- Over a string with no NUL, strchr finds what is in it. -/
theorem strchr_isSome_iff {str : List Char} (noNul : '\x00' ∉ str) {c : Char} :
    (strchr str c).isSome ↔ c ∈ str := by
  refine ⟨mem_of_strchr, fun member => ?_⟩
  cases missed : strchr str c with
  | none => exact absurd member (Grep.strchr_eq_none noNul missed)
  | some _ => rfl

theorem isSpace_of_mem_symbols {c : Char} (symbol : c ∈ symbols) : isSpace c = false := by
  simp only [symbols, List.mem_cons, List.not_mem_nil, or_false] at symbol
  rcases symbol with rfl | rfl | rfl | rfl | rfl | rfl | rfl <;> decide

/-- A symbol is one character of a token, or two for ">>". -/
theorem scanToken_of_mem_symbols {p : Nat} (symbol : charAt s p ∈ symbols) :
    p < (scanToken s es p).2 := by
  unfold scanToken
  split
  all_goals try (dsimp only; omega)
  · simp [*, symbols] at symbol
  · split <;> omega
  · simp_all [symbols]

/-- The symbol peek saw is what the next gettoken consumes. -/
theorem peek_advance {p : Nat} {toks : List Char} (sub : toks ⊆ symbols)
    (hit : (peek s es p toks).1 = true) :
    p < (gettoken s es (peek s es p toks).2).ps ∧ p < s.length := by
  simp only [peek, Bool.and_eq_true, bne_iff_ne, ne_eq] at hit
  have symbol : charAt s (skipWhile s es isSpace p) ∈ symbols := sub (mem_of_strchr hit.2)
  have staying : skipWhile s es isSpace (skipWhile s es isSpace p) = skipWhile s es isSpace p :=
    skipWhile_idem p
  have advanced := @scanToken_of_mem_symbols s es _ symbol
  have after := @le_skipWhile s es isSpace (scanToken s es (skipWhile s es isSpace p)).2
  have start := @le_skipWhile s es isSpace p
  have inside := lt_length_of_charAt hit.1
  simp only [peek, gettoken, staying]
  omega

theorem scanToken_ret_eq_zero {p : Nat} : (scanToken s es p).1 = '\x00' ↔ charAt s p = '\x00' := by
  unfold scanToken
  split
  all_goals try simp_all
  split <;> simp_all

theorem gettoken_ret_eq_zero {p : Nat} :
    (gettoken s es p).ret = '\x00' ↔ charAt s (skipWhile s es isSpace p) = '\x00' :=
  scanToken_ret_eq_zero

theorem lt_length_of_gettoken {p : Nat} (nonzero : (gettoken s es p).ret ≠ '\x00') :
    p < s.length :=
  Nat.lt_of_le_of_lt (le_skipWhile p) (lt_length_of_charAt (mt gettoken_ret_eq_zero.mpr nonzero))

/-- gettoken after the whitespace is gettoken before it. -/
theorem gettoken_skipWhile (p : Nat) :
    gettoken s es (skipWhile s es isSpace p) = gettoken s es p := by
  unfold gettoken
  rw [skipWhile_idem]

end Cursor

/-- Whether `peek` with `toks` stops at the token `t`: a symbol whose first
character is one of `toks`. -/
def Token.seen (toks : List Char) : Token → Bool
  | .word _ _ => false
  | .sym c => decide ((if c = '+' then '>' else c) ∈ toks)

/-- The tokens gettoken reads from `p` on, until it returns 0. -/
def tokensFrom (s : List Char) (es p : Nat) : List Token :=
  if (gettoken s es p).ret ≠ '\x00' ∧ p < (gettoken s es p).ps then
    (gettoken s es p).token :: tokensFrom s es (gettoken s es p).ps
  else []
termination_by s.length - p
decreasing_by
  rename_i advanced
  have := lt_length_of_gettoken advanced.1
  omega

/-- The tokens of the line `s`. -/
def lex (s : List Char) : List Token := tokensFrom s (strlen s) 0

/-! ## Within the line -/

section Line

variable {s : List Char} {es : Nat} (ends : Ends s es)
include ends

theorem skipWhile_eq_es_iff {keep : Char → Bool} {p : Nat} (within : p ≤ es) :
    skipWhile s es keep p = es ↔ charAt s (skipWhile s es keep p) = '\x00' := by
  have le := @skipWhile_le s _ keep _ within
  constructor
  · intro atEnd
    rw [atEnd]
    exact ends.nul
  · intro nul
    by_contra before
    exact ends.nonzero _ (by omega) nul

/-- The token gettoken reads within the line: a word runs over word
characters up to one that is not, or to the end; a symbol is one or two
characters. -/
theorem scanToken_spec {p : Nat} (inside : p < es) (notSpace : isSpace (charAt s p) = false) :
    p < (scanToken s es p).2 ∧ (scanToken s es p).2 ≤ es ∧ (scanToken s es p).1 ≠ '\x00' ∧
      ((scanToken s es p).1 = 'a' →
        (∀ i, p ≤ i → i < (scanToken s es p).2 → isWordChar (charAt s i) = true) ∧
        ((scanToken s es p).2 = es ∨ isWordChar (charAt s (scanToken s es p).2) = false)) := by
  have nonzero := ends.nonzero p inside
  unfold scanToken
  split
  · contradiction
  all_goals try (dsimp only; exact ⟨by omega, by omega, by simp_all, by simp_all⟩)
  · -- '>' or ">>": a second '>' is not the NUL at `es`
    split
    · have second := ends.nonzero (p + 1)
      have notEnd : p + 1 ≠ es := fun atEnd => by simp_all [ends.nul]
      exact ⟨by omega, by omega, by simp, by simp⟩
    · exact ⟨by omega, by omega, by simp, by simp⟩
  · -- a word: its first character is neither whitespace nor a symbol
    have notSymbol : charAt s p ∉ symbols := by
      simp only [symbols, List.mem_cons, List.not_mem_nil, or_false]
      rintro (same | same | same | same | same | same | same) <;> simp_all
    have first : isWordChar (charAt s p) = true := by
      simp only [isWordChar, Grep.strchr_of_not_mem notSymbol]
      simp_all [isSpace]
    have spec := @skipWhile_spec s es isWordChar p
    have advanced : p < skipWhile s es isWordChar p := by
      rw [skipWhile_eq, if_pos ⟨inside, first⟩]
      exact Nat.lt_of_lt_of_le (Nat.lt_succ_self p) (le_skipWhile _)
    refine ⟨advanced, skipWhile_le (by omega), by simp, fun _ => ⟨fun i low high => (spec.1 i low high).2, ?_⟩⟩
    by_cases atEnd : skipWhile s es isWordChar p < es
    · exact .inr (by simpa [atEnd] using spec.2)
    · exact .inl (by have := @skipWhile_le s _ isWordChar _ (Nat.le_of_lt inside); omega)

theorem gettoken_eq_zero_iff {p : Nat} (within : p ≤ es) :
    (gettoken s es p).ret = '\x00' ↔ skipWhile s es isSpace p = es :=
  gettoken_ret_eq_zero.trans (skipWhile_eq_es_iff ends within).symm

/-- A token gettoken reads starts after the whitespace, before the end. -/
theorem gettoken_start {p : Nat} (within : p ≤ es) (nonzero : (gettoken s es p).ret ≠ '\x00') :
    skipWhile s es isSpace p < es ∧ isSpace (charAt s (skipWhile s es isSpace p)) = false := by
  have before : skipWhile s es isSpace p < es := by
    have := @skipWhile_le s _ isSpace _ within
    have := mt (gettoken_eq_zero_iff ends within).mpr nonzero
    omega
  have stop := (@skipWhile_spec s es isSpace p).2
  exact ⟨before, by simpa [before] using stop⟩

theorem gettoken_le {p : Nat} (within : p ≤ es) : (gettoken s es p).ps ≤ es := by
  by_cases zero : (gettoken s es p).ret = '\x00'
  · -- at the NUL gettoken stays at `es`
    have atEnd := (gettoken_eq_zero_iff ends within).mp zero
    have stays : (scanToken s es es).2 = es := by
      unfold scanToken
      rw [ends.nul]
      rfl
    show skipWhile s es isSpace (scanToken s es (skipWhile s es isSpace p)).2 ≤ es
    rw [atEnd, stays]
    exact skipWhile_le (Nat.le_refl es)
  · obtain ⟨before, notSpace⟩ := gettoken_start ends within zero
    exact skipWhile_le (scanToken_spec ends before notSpace).2.1

theorem gettoken_advance {p : Nat} (within : p ≤ es) (nonzero : (gettoken s es p).ret ≠ '\x00') :
    p < (gettoken s es p).ps := by
  obtain ⟨before, notSpace⟩ := gettoken_start ends within nonzero
  calc p ≤ skipWhile s es isSpace p := le_skipWhile p
    _ < (scanToken s es (skipWhile s es isSpace p)).2 := (scanToken_spec ends before notSpace).1
    _ ≤ (gettoken s es p).ps := le_skipWhile _

/-- Within the line, the tokens are what gettoken reads, one after another. -/
theorem tokensFrom_eq {p : Nat} (within : p ≤ es) :
    tokensFrom s es p =
      if (gettoken s es p).ret = '\x00' then []
      else (gettoken s es p).token :: tokensFrom s es (gettoken s es p).ps := by
  rw [tokensFrom]
  by_cases zero : (gettoken s es p).ret = '\x00'
  · rw [if_neg (fun advanced => advanced.1 zero), if_pos zero]
  · rw [if_pos ⟨zero, gettoken_advance ends within zero⟩, if_neg zero]

theorem tokensFrom_skipWhile {p : Nat} (within : p ≤ es) :
    tokensFrom s es (skipWhile s es isSpace p) = tokensFrom s es p := by
  rw [tokensFrom_eq ends (skipWhile_le within), tokensFrom_eq ends within, gettoken_skipWhile]

/-- No token is left exactly when only whitespace is. -/
theorem tokensFrom_eq_nil_iff {p : Nat} (within : p ≤ es) :
    tokensFrom s es p = [] ↔ skipWhile s es isSpace p = es := by
  rw [tokensFrom_eq ends within, ← gettoken_eq_zero_iff ends within]
  split
  · exact ⟨fun _ => by assumption, fun _ => rfl⟩
  · exact ⟨fun empty => (List.cons_ne_nil _ _ empty).elim, fun zero => absurd zero (by assumption)⟩

/-- A word's text: in the line, over word characters, and maximal. -/
structure WordAt (s : List Char) (es q eq : Nat) : Prop where
  nonempty : q < eq
  within : eq ≤ es
  chars : ∀ i, q ≤ i → i < eq → isWordChar (charAt s i) = true
  maximal : eq = es ∨ isWordChar (charAt s eq) = false

theorem wordAt_gettoken {p : Nat} (within : p ≤ es) (word : (gettoken s es p).ret = 'a') :
    WordAt s es (gettoken s es p).q (gettoken s es p).eq := by
  have nonzero : (gettoken s es p).ret ≠ '\x00' := by rw [word]; decide
  obtain ⟨before, notSpace⟩ := gettoken_start ends within nonzero
  obtain ⟨advanced, bounded, -, text⟩ := scanToken_spec ends before notSpace
  obtain ⟨chars, maximal⟩ := text word
  exact ⟨advanced, bounded, chars, maximal⟩

/-- Every word token's text is a word of the line. -/
theorem wordAt_of_mem {p q eq : Nat} (within : p ≤ es) (member : .word q eq ∈ tokensFrom s es p) :
    WordAt s es q eq := by
  -- induction on the distance to the end of the buffer, one token at a time
  induction left : s.length - p using Nat.strongRecOn generalizing p with
  | _ n inductionHypothesis =>
  rw [tokensFrom_eq ends within] at member
  split at member
  · cases member
  · rename_i nonzero
    rcases List.mem_cons.mp member with head | later
    · have word : (gettoken s es p).ret = 'a' := by
        unfold Got.token at head
        split at head
        · assumption
        · cases head
      unfold Got.token at head
      rw [if_pos word] at head
      cases head
      exact wordAt_gettoken ends within word
    · exact inductionHypothesis _ (by have := gettoken_advance ends within nonzero
                                      have := lt_length_of_gettoken nonzero
                                      omega)
        (gettoken_le ends within) later rfl

end Line

/-! ## What peek sees -/

section Peek

variable {s : List Char} {es : Nat} {toks : List Char}

theorem nul_not_mem_of_subset (sub : toks ⊆ symbols) : '\x00' ∉ toks := fun member =>
  absurd (sub member) (by decide)

theorem Got.seen_token (got : Got) (toks : List Char) :
    got.token.seen toks =
      (got.ret != 'a' && decide ((if got.ret = '+' then '>' else got.ret) ∈ toks)) := by
  unfold Got.token
  split <;> simp_all [Token.seen]

/-- peek, at a token, tells whether it is a symbol that starts with one of `toks`. -/
theorem scanToken_seen (sub : toks ⊆ symbols) (start : Nat)
    (nonzero : (scanToken s es start).1 ≠ '\x00') :
    (charAt s start != '\x00' && (strchr toks (charAt s start)).isSome) =
      ((scanToken s es start).1 != 'a' &&
        decide ((if (scanToken s es start).1 = '+' then '>' else (scanToken s es start).1) ∈ toks)) := by
  have found : ∀ c, (strchr toks c).isSome = decide (c ∈ toks) := fun c => by
    rw [Bool.eq_iff_iff, strchr_isSome_iff (nul_not_mem_of_subset sub), decide_eq_true_iff]
  unfold scanToken at *
  split
  all_goals try simp_all
  · -- '>' and ">>" both start with '>'
    split <;> simp_all
  · -- a word: its first character is not a symbol, so not one of `toks`
    have notSymbol : charAt s start ∉ symbols := by
      simp only [symbols, List.mem_cons, List.not_mem_nil, or_false]
      rintro (same | same | same | same | same | same | same) <;> simp_all
    exact fun member => notSymbol (sub member)

theorem peek_eq_seen (sub : toks ⊆ symbols) (p : Nat) (nonzero : (gettoken s es p).ret ≠ '\x00') :
    (peek s es p toks).1 = (gettoken s es p).token.seen toks := by
  rw [Got.seen_token]
  exact scanToken_seen sub _ nonzero

/-- Within the line, peek tells whether the next token is one it stops at. -/
theorem peek_seen (ends : Ends s es) (sub : toks ⊆ symbols) {p : Nat} (within : p ≤ es) :
    (peek s es p toks).1 = ((tokensFrom s es p).head?.map (Token.seen toks)).getD false := by
  rw [tokensFrom_eq ends within]
  split
  · rename_i zero
    simp only [peek, gettoken_ret_eq_zero.mp zero, bne_self_eq_false, Bool.false_and,
      List.head?_nil, Option.map_none, Option.getD_none]
  · rename_i nonzero
    rw [peek_eq_seen sub p nonzero]
    rfl

/-! ## The cursor over the tokens -/

section Tokens

variable (ends : Ends s es)
include ends

/-- Within the line, gettoken reads the first token. -/
theorem tokensFrom_cons {p : Nat} (within : p ≤ es) (nonzero : (gettoken s es p).ret ≠ '\x00') :
    tokensFrom s es p = (gettoken s es p).token :: tokensFrom s es (gettoken s es p).ps := by
  rw [tokensFrom_eq ends within, if_neg nonzero]

/-- With no token left, gettoken returns 0 and stays at the end. -/
theorem gettoken_of_nil {p : Nat} (within : p ≤ es) (empty : tokensFrom s es p = []) :
    (gettoken s es p).ret = '\x00' ∧ tokensFrom s es (gettoken s es p).ps = [] := by
  have zero : (gettoken s es p).ret = '\x00' := by
    by_contra nonzero
    rw [tokensFrom_cons ends within nonzero] at empty
    cases empty
  refine ⟨zero, ?_⟩
  have atEnd := (gettoken_eq_zero_iff ends within).mp zero
  have stays : (gettoken s es p).ps = es := by
    have stop : (scanToken s es es).2 = es := by
      unfold scanToken
      rw [ends.nul]
      rfl
    show skipWhile s es isSpace (scanToken s es (skipWhile s es isSpace p)).2 = es
    rw [atEnd, stop]
    exact skipWhile_of_not (fun inside => Nat.lt_irrefl es inside.1)
  rw [stays, tokensFrom_eq_nil_iff ends (Nat.le_refl es)]
  exact skipWhile_of_not (fun inside => Nat.lt_irrefl es inside.1)

/-- peek moves only over whitespace. -/
theorem tokensFrom_peek {p : Nat} (within : p ≤ es) (toks : List Char) :
    tokensFrom s es (peek s es p toks).2 = tokensFrom s es p :=
  tokensFrom_skipWhile ends within

/-- A symbol peek saw is the first token, which the next gettoken consumes. -/
theorem peek_consumes {p : Nat} {toks : List Char} (sub : toks ⊆ symbols) (within : p ≤ es)
    (hit : (peek s es p toks).1 = true) :
    tokensFrom s es p = (gettoken s es (peek s es p toks).2).token ::
        tokensFrom s es (gettoken s es (peek s es p toks).2).ps ∧
      (gettoken s es (peek s es p toks).2).token.seen toks = true := by
  have inside := peek_le (s := s) within toks
  have nonzero : (gettoken s es (peek s es p toks).2).ret ≠ '\x00' := by
    intro zero
    have empty := (tokensFrom_eq_nil_iff ends inside).mpr
      ((gettoken_eq_zero_iff ends inside).mp zero)
    rw [peek_seen ends sub within, ← tokensFrom_peek ends within toks, empty] at hit
    cases hit
  have first := tokensFrom_cons ends inside nonzero
  rw [tokensFrom_peek ends within] at first
  refine ⟨first, ?_⟩
  rw [peek_seen ends sub within, first] at hit
  exact hit

/-- peek does not see a first token it does not stop at. -/
theorem peek_of_not_seen {p : Nat} {toks : List Char} (sub : toks ⊆ symbols) (within : p ≤ es)
    (unseen : ∀ t ∈ (tokensFrom s es p).head?, t.seen toks = false) :
    (peek s es p toks).1 = false := by
  rw [peek_seen ends sub within]
  cases first : (tokensFrom s es p).head? with
  | none => rfl
  | some t => exact unseen t first

end Tokens

end Peek

end Xv6.Sh
