import Xv6.User.Sh.Parse

/-!
# What parsecmd accepts is in the grammar

Each parsing function that returns a tree has passed over the tokens of a
phrase of its nonterminal, and the tree is that phrase's derivation.  The
cursor is followed through `Consumed`: from `p` to `q` it passed the tokens
`ts`, so that the tokens left at `p` are `ts` and then those left at `q`.
`peek` passes none and `gettoken` one; a chain of them is `Consumed.trans`.

The four mutually recursive functions are proved together by strong
induction on the distance to the end of the line, in the order in which they
call one another at one position: parseblock and parseexec need parseline only
after a '(' has been passed, parsepipe needs parseexec at its own position,
and parseline needs parsepipe.
-/

namespace Xv6.Sh

/-- From `p` to `q` the cursor passed over the tokens `ts`, staying within the line. -/
structure Consumed (s : List Char) (es p q : Nat) (ts : List Token) : Prop where
  within : q ≤ es
  tokens : tokensFrom s es p = ts ++ tokensFrom s es q

@[simp] theorem After.val_weaken {p q : Nat} (a : After q) (le : p ≤ q) : (a.weaken le).1 = a.1 := rfl

/-- A parse from `p` that returned a tree passed over a phrase of `nt` with that tree. -/
def Sound (s : List Char) (es : Nat) (nt : Nonterminal) (p : Nat) (result : Except String (Cmd × After p)) :
    Prop :=
  ∀ cmd a, result = .ok (cmd, a) → ∃ ts, Consumed s es p a.1 ts ∧ Derives nt ts cmd

/-- A token gettoken returned as a symbol. -/
theorem Got.token_of_seen {got : Got} {toks : List Char} (seen : got.token.seen toks = true) :
    got.ret ≠ 'a' ∧ got.token = .sym got.ret := by
  unfold Got.token at *
  split at seen
  · cases seen
  · rename_i notWord
    rw [if_neg notWord]
    exact ⟨notWord, rfl⟩

theorem Got.token_of_word {got : Got} (word : got.ret = 'a') : got.token = .word got.q got.eq := by
  unfold Got.token
  rw [if_pos word]

section Cursor

variable {s : List Char} {es : Nat}

theorem Consumed.trans {p q r : Nat} {ts ts' : List Token} (first : Consumed s es p q ts)
    (second : Consumed s es q r ts') : Consumed s es p r (ts ++ ts') :=
  ⟨second.within, by rw [first.tokens, second.tokens, List.append_assoc]⟩

theorem Consumed.le {p q : Nat} {ts : List Token} (consumed : Consumed s es p q ts) : q ≤ es :=
  consumed.within

variable (ends : Ends s es)
include ends

/-- peek passes over whitespace only. -/
theorem consumed_peek {p : Nat} (within : p ≤ es) (toks : List Char) :
    Consumed s es p (peek s es p toks).2 [] :=
  ⟨peek_le within toks, (tokensFrom_peek ends within toks).symm⟩

/-- gettoken passes over the token it reads. -/
theorem consumed_gettoken {p : Nat} (within : p ≤ es) (nonzero : (gettoken s es p).ret ≠ '\x00') :
    Consumed s es p (gettoken s es p).ps [(gettoken s es p).token] :=
  ⟨gettoken_le ends within, tokensFrom_cons ends within nonzero⟩

/-- After a symbol peek saw, the next gettoken passes over that symbol. -/
theorem consumed_seen {p : Nat} {toks : List Char} (sub : toks ⊆ symbols) (within : p ≤ es)
    (hit : (peek s es p toks).1 = true) :
    Consumed s es p (gettoken s es (peek s es p toks).2).ps [(gettoken s es (peek s es p toks).2).token] ∧
      (gettoken s es (peek s es p toks).2).token.seen toks = true := by
  obtain ⟨first, seen⟩ := peek_consumes ends sub within hit
  exact ⟨⟨gettoken_le ends (peek_le within toks), first⟩, seen⟩

/-- For a symbol other than '>', the token passed is that symbol. -/
theorem consumed_symbol {p : Nat} {c : Char} (symbol : c ∈ symbols) (notGt : c ≠ '>') (within : p ≤ es)
    (hit : (peek s es p [c]).1 = true) :
    Consumed s es p (gettoken s es (peek s es p [c]).2).ps [.sym c] := by
  have consumed := consumed_seen ends (List.cons_subset.mpr ⟨symbol, List.nil_subset _⟩) within hit
  rw [← Token.eq_of_seen notGt consumed.2]
  exact consumed.1

/-- Passing a symbol moves the cursor. -/
theorem lt_of_seen {p : Nat} {toks : List Char} (sub : toks ⊆ symbols) (within : p ≤ es)
    (hit : (peek s es p toks).1 = true) : p < (gettoken s es (peek s es p toks).2).ps := by
  have nonzero : (gettoken s es (peek s es p toks).2).ret ≠ '\x00' := by
    have seen := (consumed_seen ends sub within hit).2
    intro zero
    rw [(Got.token_of_seen seen).2, zero] at seen
    exact absurd (sub (by simpa [Token.seen] using seen)) (by decide)
  calc p ≤ (peek s es p toks).2 := le_peek p toks
    _ < (gettoken s es (peek s es p toks).2).ps := gettoken_advance ends (peek_le within toks) nonzero

/-! ## The loops -/

/-- parseredirs passed over the redirections it returns. -/
theorem parseredirs_sound {p : Nat} (within : p ≤ es) {rs : List Redir} {a : After p}
    (parsed : parseredirs s es p = .ok (rs, a)) : ∃ ts, Consumed s es p a.1 ts ∧ Redirs ts rs := by
  fun_induction parseredirs s es p generalizing rs with
  | case1 => cases parsed
  | case2 => cases parsed
  | case3 p more tok file named rest after rested =>
      rename_i inductionHypothesis
      cases parsed
      have word : file.ret = 'a' := of_not_not named
      -- the symbol seen, and the file name after it
      obtain ⟨symbol, seen⟩ := consumed_seen ends (by decide) within more
      obtain ⟨notWord, isSym⟩ := Got.token_of_seen seen
      have name := consumed_gettoken ends symbol.within (by rw [word]; decide)
      obtain ⟨ts, later, redirs⟩ := inductionHypothesis name.within rested
      obtain ⟨r, made⟩ : ∃ r, redirOf tok.ret file.q file.eq = some r := by
        apply Option.isSome_iff_exists.mp
        rw [redirOf_isSome, ← isSym]
        exact seen
      refine ⟨_, (symbol.trans name).trans later, ?_⟩
      rw [made, isSym, Got.token_of_word word]
      exact .cons made redirs
  | case4 p done =>
      cases parsed
      exact ⟨[], consumed_peek ends within ['<', '>'], .nil⟩

/-- parselineBacks passed over the '&'s it wrapped the command in. -/
theorem parselineBacks_sound {cmd cmd' : Cmd} {p : Nat} (within : p ≤ es) {a : After p}
    (parsed : parselineBacks s es cmd p = (cmd', a)) :
    ∃ n, Consumed s es p a.1 (List.replicate n (.sym '&')) ∧ cmd' = backs n cmd := by
  fun_induction parselineBacks s es cmd p generalizing cmd' with
  | case1 cmd p more backed =>
      rename_i inductionHypothesis
      cases parsed
      have amp := consumed_symbol ends (by decide) (by decide) within more
      obtain ⟨n, later, backed⟩ := inductionHypothesis amp.within rfl
      exact ⟨n + 1, amp.trans later, backed⟩
  | case2 cmd p done =>
      cases parsed
      exact ⟨0, consumed_peek ends within ['&'], rfl⟩

/-- parseexec's loop passed over words and redirections, fewer than
`MAXARGS` words in all. -/
theorem parseexecArgs_sound {argv : List (Nat × Nat)} {rs : List Redir} {p : Nat} (within : p ≤ es)
    (room : argv.length < maxArgs) {argv' : List (Nat × Nat)} {rs' : List Redir} {a : After p}
    (parsed : parseexecArgs s es argv rs p = .ok (argv', rs', a)) :
    ∃ ts words more, Consumed s es p a.1 ts ∧ Words ts words more ∧
      argv' = argv ++ words ∧ rs' = rs ++ more ∧ argv'.length < maxArgs := by
  fun_induction parseexecArgs s es argv rs p generalizing argv' rs' with
  | case1 argv rs p stop =>
      cases parsed
      exact ⟨[], [], [], consumed_peek ends within ['|', ')', '&', ';'], .nil, by simp, by simp, room⟩
  | case2 argv rs p more tok =>
      rename_i zero
      cases parsed
      -- gettoken returned 0: no token is left
      have inside := peek_le (s := s) within ['|', ')', '&', ';']
      have empty := (tokensFrom_eq_nil_iff ends inside).mpr ((gettoken_eq_zero_iff ends inside).mp zero)
      refine ⟨[], [], [], ⟨gettoken_le ends inside, ?_⟩, .nil, by simp, by simp, room⟩
      rw [(gettoken_of_nil ends inside empty).2, ← tokensFrom_peek ends within _, empty]
      rfl
  | case3 | case4 | case5 | case6 => cases parsed
  | case7 argv rs p more tok nonzero word fits more' a₁ read argv₁ rs₁ a₂ rested =>
      rename_i inductionHypothesis
      cases parsed
      have isWord : tok.ret = 'a' := of_not_not word
      -- the word, the redirections after it, and the rest of the loop
      have first := (consumed_peek ends within ['|', ')', '&', ';']).trans
        (consumed_gettoken ends (peek_le within _) nonzero)
      obtain ⟨ts, after, redirections⟩ := parseredirs_sound ends first.within read
      obtain ⟨ts', words', more'', later, rest, grown, added, bounded⟩ :=
        inductionHypothesis after.within (by rw [List.length_append, List.length_singleton]; omega) rested
      refine ⟨_, (tok.q, tok.eq) :: words', more' ++ more'', (first.trans after).trans later, ?_, ?_, ?_, bounded⟩
      · rw [Got.token_of_word isWord]
        simpa using Words.cons redirections rest
      · rw [grown, List.append_assoc, List.singleton_append]
      · rw [added, List.append_assoc]

/-! ## The four mutually recursive functions -/

/-- parseblock reads '(' line ')' and redirections, when parseline is sound
after the '('. -/
theorem parseblock_sound {p : Nat} (within : p ≤ es)
    (line : ∀ q, p < q → q ≤ es → Sound s es .line q (parseline s es q)) :
    Sound s es .exec p (parseblock s es p) := by
  intro cmd a parsed
  rw [parseblock] at parsed
  split at parsed
  case isFalse => cases parsed
  case isTrue opened =>
    have lparen := consumed_symbol ends (by decide) (by decide) within opened
    split at parsed
    case h_1 => cases parsed
    case h_2 inner a₁ parsedLine =>
      obtain ⟨ts, body, derives⟩ :=
        line _ (lt_of_seen ends (by decide) within opened) lparen.within inner a₁ parsedLine
      split at parsed
      case isFalse => cases parsed
      case isTrue closed =>
        have rparen := consumed_symbol ends (by decide) (by decide) body.within closed
        split at parsed
        case h_1 => cases parsed
        case h_2 rs a₂ parsedRedirs =>
          cases parsed
          obtain ⟨ts', after, redirs⟩ := parseredirs_sound ends rparen.within parsedRedirs
          refine ⟨_, ((lparen.trans body).trans rparen).trans after, ?_⟩
          simpa using Derives.block derives redirs

/-- parseexec reads a block, or redirections and words. -/
theorem parseexec_sound {p : Nat} (within : p ≤ es)
    (line : ∀ q, p < q → q ≤ es → Sound s es .line q (parseline s es q)) :
    Sound s es .exec p (parseexec s es p) := by
  intro cmd a parsed
  have spaces := consumed_peek ends within ['(']
  rw [parseexec] at parsed
  split at parsed
  case isTrue opened =>
    split at parsed
    case h_1 => cases parsed
    case h_2 block a₁ parsedBlock =>
      have laterLine : ∀ q, (peek s es p ['(']).2 < q → q ≤ es → Sound s es .line q (parseline s es q) :=
        fun q after inside => line q (Nat.lt_of_le_of_lt (le_peek p ['(']) after) inside
      obtain ⟨ts, read, derives⟩ := parseblock_sound ends spaces.within laterLine block a₁ parsedBlock
      cases parsed
      exact ⟨ts, spaces.trans read, derives⟩
  case isFalse =>
    split at parsed
    case h_1 => cases parsed
    case h_2 rs a₁ parsedRedirs =>
      split at parsed
      case h_1 => cases parsed
      case h_2 argv rs' a₂ parsedArgs =>
        cases parsed
        obtain ⟨ts, redirected, redirs⟩ := parseredirs_sound ends spaces.within parsedRedirs
        obtain ⟨ts', words, more, worded, wordsDerived, grown, added, bounded⟩ :=
          parseexecArgs_sound ends redirected.within (by decide) parsedArgs
        refine ⟨ts ++ ts', (spaces.trans redirected).trans worded, ?_⟩
        rw [List.nil_append] at grown
        subst grown
        rw [added]
        exact Derives.words redirs wordsDerived bounded

/-- parsepipe reads an exec, and a '|' with the rest of the pipe. -/
theorem parsepipe_sound {p : Nat} (exec : Sound s es .exec p (parseexec s es p))
    (pipe : ∀ q, p < q → q ≤ es → Sound s es .pipe q (parsepipe s es q)) :
    Sound s es .pipe p (parsepipe s es p) := by
  intro cmd a parsed
  rw [parsepipe] at parsed
  split at parsed
  case h_1 => cases parsed
  case h_2 left a₁ parsedExec =>
    obtain ⟨ts, read, derives⟩ := exec left a₁ parsedExec
    split at parsed
    case isTrue bar =>
      have pipeSymbol := consumed_symbol ends (by decide) (by decide) read.within bar
      split at parsed
      case h_1 => cases parsed
      case h_2 right a₂ parsedPipe =>
        cases parsed
        have after : p < (gettoken s es (peek s es a₁.1 ['|']).2).ps :=
          Nat.lt_of_le_of_lt a₁.2 (lt_of_seen ends (by decide) read.within bar)
        obtain ⟨ts', rest, derives'⟩ := pipe _ after pipeSymbol.within right a₂ parsedPipe
        refine ⟨_, (read.trans pipeSymbol).trans rest, ?_⟩
        simpa using Derives.pipe derives derives'
    case isFalse =>
      cases parsed
      exact ⟨ts ++ [], read.trans (consumed_peek ends read.within ['|']), by simpa using Derives.exec derives⟩

/-- parseline reads a pipe, its '&'s, and a ';' with the rest of the line. -/
theorem parseline_sound {p : Nat} (pipe : Sound s es .pipe p (parsepipe s es p))
    (line : ∀ q, p < q → q ≤ es → Sound s es .line q (parseline s es q)) :
    Sound s es .line p (parseline s es p) := by
  intro cmd a parsed
  rw [parseline] at parsed
  split at parsed
  case h_1 => cases parsed
  case h_2 first a₁ parsedPipe =>
    obtain ⟨ts, read, derives⟩ := pipe first a₁ parsedPipe
    split at parsed
    case h_1 backed a₂ parsedBacks =>
      obtain ⟨n, amps, wrapped⟩ := parselineBacks_sound ends read.within parsedBacks
      split at parsed
      case isTrue semicolon =>
        have semi := consumed_symbol ends (by decide) (by decide) amps.within semicolon
        split at parsed
        case h_1 => cases parsed
        case h_2 right a₃ parsedLine =>
          cases parsed
          have after : p < (gettoken s es (peek s es a₂.1 [';']).2).ps :=
            Nat.lt_of_le_of_lt (Nat.le_trans a₁.2 a₂.2) (lt_of_seen ends (by decide) amps.within semicolon)
          obtain ⟨ts', rest, derives'⟩ := line _ after semi.within right a₃ parsedLine
          refine ⟨_, ((read.trans amps).trans semi).trans rest, ?_⟩
          rw [wrapped]
          simpa using Derives.list n derives derives'
      case isFalse =>
        cases parsed
        refine ⟨_, (read.trans amps).trans (consumed_peek ends amps.within [';']), ?_⟩
        rw [wrapped]
        simpa using Derives.line n derives

/-- Every parsing function is sound, from every position within the line. -/
theorem parse_sound {p : Nat} (within : p ≤ es) :
    Sound s es .line p (parseline s es p) ∧ Sound s es .pipe p (parsepipe s es p) ∧
      Sound s es .exec p (parseexec s es p) := by
  -- strong induction on the distance to the end of the line
  induction left : es - p using Nat.strongRecOn generalizing p with
  | _ n inductionHypothesis =>
  have later : ∀ q, p < q → q ≤ es →
      Sound s es .line q (parseline s es q) ∧ Sound s es .pipe q (parsepipe s es q) ∧
        Sound s es .exec q (parseexec s es q) :=
    fun q after inside => inductionHypothesis (es - q) (by omega) inside rfl
  have exec := parseexec_sound ends within fun q after inside => (later q after inside).1
  have pipe := parsepipe_sound ends exec fun q after inside => (later q after inside).2.1
  exact ⟨parseline_sound ends pipe fun q after inside => (later q after inside).1, pipe, exec⟩

end Cursor

end Xv6.Sh
