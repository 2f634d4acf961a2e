import Xv6.User.Sh.Sound

/-!
# parsecmd accepts its grammar, and nulterminate keeps every word

Whatever the grammar derives, the parser reads: by induction on the
derivation, each parsing function started where the phrase's tokens begin
returns the phrase's tree and stops where they end, provided the tokens after
the phrase are ones the phrase may be followed by (`Follows`), which is where
the parser's `peek`s stop.  With soundness this makes parsecmd return without
a panic exactly on the lines whose tokens derive from `line`, with the tree
of that derivation.

nulterminate then writes a NUL at the end of each string of the tree.  Each
such end is a character a word does not run over, or the end of the line, so
no NUL lands inside a word token: every `argv[i]` and every file name reads
as the text of its own word, NUL-terminated.
-/

namespace Xv6.Sh

/-- The parsing function of each nonterminal. -/
def parse (nt : Nonterminal) (s : List Char) (es p : Nat) : Except String (Cmd × After p) :=
  match nt with
  | .line => parseline s es p
  | .pipe => parsepipe s es p
  | .exec => parseexec s es p

/-- The token gettoken reads as a symbol is that symbol's code. -/
theorem Got.ret_of_sym {got : Got} {c : Char} (sym : got.token = .sym c) : got.ret = c := by
  unfold Got.token at sym
  split at sym
  · cases sym
  · cases sym
    rfl

/-- The token gettoken reads as a word is the text between `q` and `eq`. -/
theorem Got.ret_of_word {got : Got} {q eq : Nat} (word : got.token = .word q eq) :
    got.ret = 'a' ∧ got.q = q ∧ got.eq = eq := by
  unfold Got.token at word
  split at word
  · cases word
    exact ⟨by assumption, rfl, rfl⟩
  · cases word

/-- A property of the first token of two lists in a row. -/
theorem forall_head?_append {P : Token → Prop} {xs ys : List Token} (first : ∀ t ∈ xs.head?, P t)
    (second : ∀ t ∈ ys.head?, P t) : ∀ t ∈ (xs ++ ys).head?, P t := by
  cases xs with
  | nil => simpa using second
  | cons x xs => simpa using first


/-- A token that may follow a phrase of `nt` is not one `peek` stops at for symbols apart from `nt`'s. -/
theorem Follows.unseen {nt : Nonterminal} {rest : List Token} {toks : List Char} (follows : Follows nt rest)
    (apart : ∀ c ∈ nt.follow, c ∉ toks) : ∀ t ∈ rest.head?, t.seen toks = false :=
  fun t first => Token.seen_of_disjoint (follows t first) apart

/-- After a pipe come its '&'s, then what may follow the line. -/
theorem Follows.backs {rest : List Token} (n : Nat) (follows : Follows .line rest) :
    Follows .pipe (List.replicate n (.sym '&') ++ rest) := by
  cases n with
  | zero => exact follows.line_pipe
  | succ n =>
      intro t first
      simp only [List.replicate_succ, List.cons_append, List.head?_cons, Option.mem_def, Option.some.injEq] at first
      rw [← first]
      rfl

/-- After a pipe come its '&'s and a ';'. -/
theorem follows_list (n : Nat) (rest : List Token) :
    Follows .pipe (List.replicate n (.sym '&') ++ .sym ';' :: rest) := by
  intro t first
  cases n with
  | zero =>
      simp only [List.replicate_zero, List.nil_append, List.head?_cons, Option.mem_def, Option.some.injEq] at first
      rw [← first]
      rfl
  | succ n =>
      simp only [List.replicate_succ, List.cons_append, List.head?_cons, Option.mem_def, Option.some.injEq] at first
      rw [← first]
      rfl

/-- After an exec may come what may come after a pipe. -/
theorem Follows.pipe_bar (rest : List Token) : Follows .exec (.sym '|' :: rest) := fun t first => by
  cases first
  rfl

section Cursor

variable {s : List Char} {es : Nat}

/-- The tokens left after passing `ts` from a place where `ts` comes first. -/
theorem Consumed.rest {p q : Nat} {ts rest : List Token} (consumed : Consumed s es p q ts)
    (tokens : tokensFrom s es p = ts ++ rest) : tokensFrom s es q = rest := by
  rw [consumed.tokens] at tokens
  exact List.append_cancel_left tokens

variable (ends : Ends s es)
include ends

/-- At a first token, gettoken reads that token. -/
theorem gettoken_of_cons {p : Nat} (within : p ≤ es) {t : Token} {rest : List Token}
    (tokens : tokensFrom s es p = t :: rest) :
    (gettoken s es p).ret ≠ '\x00' ∧ (gettoken s es p).token = t ∧ tokensFrom s es (gettoken s es p).ps = rest := by
  have nonzero : (gettoken s es p).ret ≠ '\x00' := by
    intro zero
    rw [tokensFrom_eq ends within, if_pos zero] at tokens
    cases tokens
  rw [tokensFrom_cons ends within nonzero, List.cons.injEq] at tokens
  exact ⟨nonzero, tokens.1, tokens.2⟩

/-- At the symbol `c`, peek sees it and the next gettoken passes it. -/
theorem peek_symbol {p : Nat} {c : Char} (symbol : c ∈ symbols) (notGt : c ≠ '>') (within : p ≤ es)
    {rest : List Token} (tokens : tokensFrom s es p = .sym c :: rest) :
    (peek s es p [c]).1 = true ∧ Consumed s es p (gettoken s es (peek s es p [c]).2).ps [.sym c] ∧
      tokensFrom s es (gettoken s es (peek s es p [c]).2).ps = rest := by
  have sub : [c] ⊆ symbols := List.cons_subset.mpr ⟨symbol, List.nil_subset _⟩
  have hit : (peek s es p [c]).1 = true := by
    rw [peek_seen ends sub within, tokens]
    have plain : c ≠ '+' := fun plus => absurd (plus ▸ symbol) (by decide)
    simp [Token.seen, plain]
  have consumed := consumed_symbol ends symbol notGt within hit
  exact ⟨hit, consumed, consumed.rest (List.singleton_append ▸ tokens)⟩

/-- Where the first token is not one of `toks`, peek passes only whitespace. -/
theorem peek_unseen {p : Nat} (toks : List Char) (sub : toks ⊆ symbols) (within : p ≤ es)
    (unseen : ∀ t ∈ (tokensFrom s es p).head?, t.seen toks = false) :
    (peek s es p toks).1 = false ∧ Consumed s es p (peek s es p toks).2 [] :=
  ⟨peek_of_not_seen ends sub within unseen, consumed_peek ends within toks⟩

/-! ## The loops -/

/-- parseredirs reads every redirection up to a token that is not '<' or '>'. -/
theorem parseredirs_complete {ts : List Token} {rs : List Redir} (redirs : Redirs ts rs) {p : Nat}
    (within : p ≤ es) {rest : List Token} (tokens : tokensFrom s es p = ts ++ rest)
    (stop : ∀ t ∈ rest.head?, t.seen ['<', '>'] = false) :
    ∃ a, parseredirs s es p = .ok (rs, a) ∧ Consumed s es p a.1 ts := by
  induction redirs generalizing p with
  | nil =>
      obtain ⟨done, spaces⟩ := peek_unseen ends ['<', '>'] (by decide) within (by rwa [tokens])
      refine ⟨⟨(peek s es p ['<', '>']).2, le_peek p _⟩, ?_, spaces⟩
      rw [parseredirs, if_neg (by rw [done]; decide)]
  | @cons c q eq r ts' rs' made redirs' inductionHypothesis =>
      -- the redirection symbol, then its file name
      have seen : (Token.sym c).seen ['<', '>'] = true := by
        rw [← redirOf_isSome c q eq, made]
        rfl
      have hit : (peek s es p ['<', '>']).1 = true := by
        rw [peek_seen ends (by decide) within, tokens]
        exact seen
      obtain ⟨symbol, isSym⟩ := consumed_seen ends (by decide) within hit
      have afterSymbol := symbol.tokens.symm.trans tokens
      simp only [List.cons_append, List.cons.injEq] at afterSymbol
      have symCode := Got.ret_of_sym afterSymbol.1
      obtain ⟨nonzero, isWord, afterName⟩ := gettoken_of_cons ends symbol.within afterSymbol.2
      obtain ⟨word, named, ended⟩ := Got.ret_of_word isWord
      have name := consumed_gettoken ends symbol.within nonzero
      obtain ⟨a, parsed, later⟩ := inductionHypothesis name.within afterName
      refine ⟨a.weaken (Nat.le_trans (le_gettoken_peek p _) (le_gettoken _)), ?_, ?_⟩
      · rw [parseredirs, if_pos hit]
        simp only [word, ne_eq, not_true_eq_false, if_false, parsed, symCode, named, ended, made]
        rfl
      · simpa [afterSymbol.1, isWord] using (symbol.trans name).trans later

/-- parselineBacks passes every '&' up to a token that is not one. -/
theorem parselineBacks_complete (n : Nat) {cmd : Cmd} {p : Nat} (within : p ≤ es) {rest : List Token}
    (tokens : tokensFrom s es p = List.replicate n (.sym '&') ++ rest)
    (stop : ∀ t ∈ rest.head?, t.seen ['&'] = false) :
    ∃ a, parselineBacks s es cmd p = (backs n cmd, a) ∧ Consumed s es p a.1 (List.replicate n (.sym '&')) := by
  induction n generalizing cmd p with
  | zero =>
      obtain ⟨done, spaces⟩ := peek_unseen ends ['&'] (by decide) within (by rwa [tokens])
      refine ⟨⟨(peek s es p ['&']).2, le_peek p _⟩, ?_, spaces⟩
      rw [parselineBacks, if_neg (by rw [done]; decide)]
      rfl
  | succ n inductionHypothesis =>
      obtain ⟨hit, amp, afterAmp⟩ := peek_symbol ends (c := '&') (by decide) (by decide) within
        (by rwa [List.replicate_succ, List.cons_append] at tokens)
      obtain ⟨a, backed, later⟩ := @inductionHypothesis (.back cmd) _ amp.within afterAmp
      refine ⟨a.weaken (le_gettoken_peek p _), ?_, by simpa [List.replicate_succ] using amp.trans later⟩
      rw [parselineBacks, if_pos hit]
      simp only [backed]
      rfl

/-- parseexec's loop reads every word with its redirections, up to a token
that may follow an exec. -/
theorem parseexecArgs_complete {ts : List Token} {words : List (Nat × Nat)} {more : List Redir}
    (derived : Words ts words more) {argv : List (Nat × Nat)} {rs : List Redir} {p : Nat} (within : p ≤ es)
    {rest : List Token} (tokens : tokensFrom s es p = ts ++ rest) (follows : Follows .exec rest)
    (room : argv.length + words.length < maxArgs) :
    ∃ a, parseexecArgs s es argv rs p = .ok (argv ++ words, rs ++ more, a) ∧ Consumed s es p a.1 ts := by
  induction derived generalizing argv rs p with
  | nil =>
      rw [List.nil_append] at tokens
      cases rest with
      | nil =>
          -- the end of the line: gettoken returns 0
          obtain ⟨done, spaces⟩ := peek_unseen ends ['|', ')', '&', ';'] (by decide) within (by simp [tokens])
          have empty := (tokensFrom_peek ends within ['|', ')', '&', ';']).trans tokens
          obtain ⟨zero, atEnd⟩ := gettoken_of_nil ends spaces.within empty
          refine ⟨⟨(gettoken s es (peek s es p ['|', ')', '&', ';']).2).ps, le_gettoken_peek p _⟩, ?_,
            ⟨gettoken_le ends spaces.within, by rw [tokens, atEnd]; rfl⟩⟩
          rw [parseexecArgs, if_neg (by rw [done]; decide)]
          simp only [zero, if_true, List.append_nil]
      | cons t rest =>
          -- a symbol that ends the exec
          have hit : (peek s es p ['|', ')', '&', ';']).1 = true := by
            rw [peek_seen ends (by decide) within, tokens]
            exact Token.seen_of_subset (follows t rfl) (by decide)
          refine ⟨⟨(peek s es p ['|', ')', '&', ';']).2, le_peek p _⟩, ?_,
            consumed_peek ends within ['|', ')', '&', ';']⟩
          rw [parseexecArgs, if_pos hit, List.append_nil, List.append_nil]
  | @cons q eq ts₁ ts₂ rs₁ rs₂ words₂ redirs words' inductionHypothesis =>
      -- the word, its redirections, then the rest of the loop
      have first : ∀ t ∈ (tokensFrom s es p).head?, t.seen ['|', ')', '&', ';'] = false := by
        rw [tokens]
        intro t head
        cases head
        rfl
      obtain ⟨more', spaces⟩ := peek_unseen ends ['|', ')', '&', ';'] (by decide) within first
      obtain ⟨nonzero, isWord, afterWord⟩ := gettoken_of_cons ends spaces.within
        ((tokensFrom_peek ends within _).trans (by rw [tokens, List.cons_append]))
      obtain ⟨word, named, ended⟩ := Got.ret_of_word isWord
      have wordRead := consumed_gettoken ends spaces.within nonzero
      have stop : ∀ t ∈ (ts₂ ++ rest).head?, t.seen ['<', '>'] = false :=
        forall_head?_append (fun t head => by obtain ⟨q', eq', rfl⟩ := words'.first t head; rfl)
          (follows.not_seen (by simp [Nonterminal.follow]))
      obtain ⟨a₁, redirected, afterRedirs⟩ := parseredirs_complete ends redirs wordRead.within
        (by rw [afterWord, List.append_assoc]) stop
      obtain ⟨a₂, looped, later⟩ := @inductionHypothesis (argv ++ [(q, eq)]) (rs ++ rs₁) _ afterRedirs.within
        (afterRedirs.rest (by rw [afterWord, List.append_assoc]))
        (by simp only [List.length_append, List.length_cons, List.length_nil] at room ⊢; omega)
      have fits : ¬ maxArgs ≤ argv.length + 1 := by
        simp only [List.length_cons] at room
        omega
      refine ⟨(a₂.weaken a₁.2).weaken (le_gettoken_peek p _), ?_, ?_⟩
      · rw [parseexecArgs, if_neg (by rw [more']; decide)]
        simp only [word, named, ended, fits, redirected, looped, if_false, ne_eq, not_true_eq_false,
          List.append_assoc, List.singleton_append]
        simp
      · simpa [isWord] using ((spaces.trans wordRead).trans afterRedirs).trans later

/-! ## The four mutually recursive functions -/

/-- parseblock reads '(' line ')' and the redirections after it. -/
theorem parseblock_complete {ts ts' : List Token} {cmd : Cmd} {rs : List Redir} {p : Nat} (within : p ≤ es)
    {rest : List Token} (tokens : tokensFrom s es p = .sym '(' :: (ts ++ .sym ')' :: ts') ++ rest)
    (line : ∀ {q : Nat} {rest' : List Token}, q ≤ es → tokensFrom s es q = ts ++ rest' → Follows .line rest' →
      ∃ a, parse .line s es q = .ok (cmd, a) ∧ Consumed s es q a.1 ts)
    (redirs : Redirs ts' rs) (follows : Follows .exec rest) :
    ∃ a, parseblock s es p = .ok (wrap cmd rs, a) ∧ Consumed s es p a.1 (.sym '(' :: (ts ++ .sym ')' :: ts')) := by
  obtain ⟨opened, lparen, inside⟩ := peek_symbol ends (c := '(') (by decide) (by decide) within
    (by rw [tokens, List.cons_append])
  obtain ⟨a₁, parsedLine, body⟩ := line lparen.within (by rw [inside, List.append_assoc, List.cons_append])
    (fun t first => by cases first; rfl)
  obtain ⟨closed, rparen, afterParen⟩ := peek_symbol ends (c := ')') (by decide) (by decide) body.within
    (body.rest (by rw [inside, List.append_assoc, List.cons_append]))
  obtain ⟨a₂, redirected, after⟩ := parseredirs_complete ends redirs rparen.within afterParen
    (follows.unseen (by simp [Nonterminal.follow]))
  constructor
  constructor
  · rw [parseblock, if_pos opened]
    simp only [show parseline s es _ = _ from parsedLine, if_pos closed, redirected]
    rfl
  · simpa using ((lparen.trans body).trans rparen).trans after

/-- Whatever the grammar derives, the parser reads, when what follows may
follow the phrase. -/
theorem parse_complete {nt : Nonterminal} {ts : List Token} {cmd : Cmd} (derives : Derives nt ts cmd) :
    ∀ {p : Nat} {rest : List Token}, p ≤ es → tokensFrom s es p = ts ++ rest → Follows nt rest →
      ∃ a, parse nt s es p = .ok (cmd, a) ∧ Consumed s es p a.1 ts := by
  induction derives with
  | @line ts cmd n pipe inductionHypothesis =>
      intro p rest within tokens follows
      have order : tokensFrom s es p = ts ++ (List.replicate n (.sym '&') ++ rest) := by
        rw [tokens, List.append_assoc]
      obtain ⟨a₁, piped, read⟩ := inductionHypothesis within order (Follows.backs n follows)
      obtain ⟨a₂, backed, amps⟩ := @parselineBacks_complete s es ends n cmd _ read.within _ (read.rest order)
        (follows.unseen (by simp [Nonterminal.follow]))
      obtain ⟨done, spaces⟩ := peek_unseen ends [';'] (by decide) amps.within
        (by rw [amps.rest (read.rest order)]; exact follows.unseen (by simp [Nonterminal.follow]))
      constructor
      constructor
      · show parseline s es p = _
        rw [parseline, show parsepipe s es p = _ from piped]
        simp only [backed, done]
        rfl
      · simpa using (read.trans amps).trans spaces
  | @list ts ts' cmd cmd' n pipe line pipeHypothesis lineHypothesis =>
      intro p rest within tokens follows
      have order : tokensFrom s es p = ts ++ (List.replicate n (.sym '&') ++ .sym ';' :: (ts' ++ rest)) := by
        rw [tokens]
        simp
      obtain ⟨a₁, piped, read⟩ := pipeHypothesis within order (follows_list n _)
      obtain ⟨a₂, backed, amps⟩ := @parselineBacks_complete s es ends n cmd _ read.within _ (read.rest order)
        (fun t first => by cases first; rfl)
      obtain ⟨semicolon, semi, afterSemi⟩ := peek_symbol ends (c := ';') (by decide) (by decide) amps.within
        (amps.rest (read.rest order))
      obtain ⟨a₃, lined, rested⟩ := lineHypothesis semi.within afterSemi follows
      constructor
      constructor
      · show parseline s es p = _
        rw [parseline, show parsepipe s es p = _ from piped]
        dsimp only
        rw [backed]
        dsimp only
        rw [if_pos semicolon, show parseline s es _ = _ from lined]
      · simpa using ((read.trans amps).trans semi).trans rested
  | @exec ts cmd exec inductionHypothesis =>
      intro p rest within tokens follows
      obtain ⟨a₁, execed, read⟩ := inductionHypothesis within tokens follows.pipe_exec
      obtain ⟨done, spaces⟩ := peek_unseen ends ['|'] (by decide) read.within
        (by rw [read.rest tokens]; exact follows.unseen (by simp [Nonterminal.follow]))
      constructor
      constructor
      · show parsepipe s es p = _
        rw [parsepipe, show parseexec s es p = _ from execed]
        simp only [done]
        rfl
      · simpa using read.trans spaces
  | @pipe ts ts' cmd cmd' exec pipe execHypothesis pipeHypothesis =>
      intro p rest within tokens follows
      have order : tokensFrom s es p = ts ++ .sym '|' :: (ts' ++ rest) := by
        rw [tokens]
        simp
      obtain ⟨a₁, execed, read⟩ := execHypothesis within order (Follows.pipe_bar _)
      obtain ⟨bar, pipeSymbol, afterBar⟩ := peek_symbol ends (c := '|') (by decide) (by decide) read.within
        (read.rest order)
      obtain ⟨a₂, piped, rested⟩ := pipeHypothesis pipeSymbol.within afterBar follows
      constructor
      constructor
      · show parsepipe s es p = _
        rw [parsepipe, show parseexec s es p = _ from execed]
        simp only [bar, if_true, show parsepipe s es _ = _ from piped]
        rfl
      · simpa using (read.trans pipeSymbol).trans rested
  | @block ts ts' cmd rs line redirs inductionHypothesis =>
      intro p rest within tokens follows
      have opened : (peek s es p ['(']).1 = true := by
        rw [peek_seen ends (by decide) within, tokens]
        rfl
      have spaces := consumed_peek ends within ['(']
      obtain ⟨a, blocked, read⟩ := parseblock_complete ends spaces.within (spaces.rest tokens)
        inductionHypothesis redirs follows
      constructor
      constructor
      · show parseexec s es p = _
        rw [parseexec, if_pos opened, blocked]
      · simpa using spaces.trans read
  | @words ts ts' rs rs' argv redirs words bounded =>
      intro p rest within tokens follows
      -- no '(' comes first: a redirection, a word, or what follows the exec
      have first : ∀ t ∈ (ts ++ ts' ++ rest).head?, t.seen ['('] = false :=
        forall_head?_append (forall_head?_append
          (fun t head => Token.seen_of_disjoint (redirs.first t head) (by simp))
          (fun t head => by obtain ⟨q, eq, rfl⟩ := words.first t head; rfl))
          (follows.unseen (by simp [Nonterminal.follow]))
      obtain ⟨notParen, spaces⟩ := peek_unseen ends ['('] (by decide) within (by rwa [tokens])
      have stop : ∀ t ∈ (ts' ++ rest).head?, t.seen ['<', '>'] = false :=
        forall_head?_append (fun t head => by obtain ⟨q, eq, rfl⟩ := words.first t head; rfl)
          (follows.not_seen (by simp [Nonterminal.follow]))
      obtain ⟨a₁, redirected, afterRedirs⟩ := parseredirs_complete ends redirs spaces.within
        (spaces.rest (by rw [tokens, List.append_assoc, List.nil_append])) stop
      obtain ⟨a₂, looped, later⟩ := @parseexecArgs_complete s es ends _ _ _ words [] rs _ afterRedirs.within _
        (afterRedirs.rest (spaces.rest (by rw [tokens, List.append_assoc, List.nil_append]))) follows
        (by simpa using bounded)
      constructor
      constructor
      · show parseexec s es p = _
        rw [parseexec, if_neg (by rw [notParen]; decide), redirected]
        simp only [looped, List.nil_append]
        rfl
      · simpa using (spaces.trans afterRedirs).trans later

/-! ## parsecmd -/

/-- The line's tokens are those of one phrase of `line` exactly when parsecmd's
last `peek` reaches the end of the line. -/
theorem peek_end_iff {p : Nat} (within : p ≤ es) :
    (peek s es p []).2 = es ↔ tokensFrom s es p = [] :=
  (tokensFrom_eq_nil_iff ends within).symm

end Cursor

/-- What parsecmd returns is the tree of a derivation of the line's tokens from
`line`, after nulterminate. -/
theorem parsecmd_sound {s : List Char} {cmd : Cmd} {buf : List Char} (parsed : parsecmd s = .ok (cmd, buf)) :
    Derives .line (lex s) cmd ∧ buf = nulterminate cmd s := by
  have ends := ends_strlen s
  rw [parsecmd] at parsed
  split at parsed
  case h_1 => cases parsed
  case h_2 cmd' a parsedLine =>
    split at parsed
    case isTrue => cases parsed
    case isFalse atEnd =>
      cases parsed
      obtain ⟨ts, read, derives⟩ := (parse_sound ends (Nat.zero_le _)).1 cmd a parsedLine
      have empty := (peek_end_iff ends read.within).mp (of_not_not atEnd)
      have whole : lex s = ts := by
        rw [lex, read.tokens, empty, List.append_nil]
      exact ⟨whole ▸ derives, rfl⟩

/-- On a line whose tokens derive from `line`, parsecmd returns that
derivation's tree, after nulterminate. -/
theorem parsecmd_complete {s : List Char} {cmd : Cmd} (derives : Derives .line (lex s) cmd) :
    parsecmd s = .ok (cmd, nulterminate cmd s) := by
  have ends := ends_strlen s
  obtain ⟨a, parsedLine, read⟩ := parse_complete ends derives (Nat.zero_le _) (List.append_nil _).symm
    (fun t none => by cases none)
  have atEnd := (peek_end_iff ends read.within).mpr (read.rest (List.append_nil _).symm)
  rw [parsecmd, show parseline s (strlen s) 0 = _ from parsedLine]
  simp only [atEnd, ne_eq, not_true_eq_false, if_false]

/-! ## nulterminate -/

/-- A NUL written at `j`, read back. -/
theorem charAt_set_nul (buf : List Char) (j i : Nat) :
    charAt (buf.set j '\x00') i = if i = j then '\x00' else charAt buf i := by
  unfold charAt
  rw [List.getD_eq_getElem?_getD, List.getD_eq_getElem?_getD, List.getElem?_set]
  by_cases same : j = i
  · subst same
    rw [if_pos rfl, if_pos rfl]
    split <;> rfl
  · rw [if_neg same, if_neg (Ne.symm same)]

/-- The NULs written at the ends of the words of an `execcmd`. -/
theorem charAt_foldl_set_nul (argv : List (Nat × Nat)) (buf : List Char) (i : Nat) :
    charAt (argv.foldl (fun buf arg => buf.set arg.2 '\x00') buf) i =
      if i ∈ argv.map Prod.snd then '\x00' else charAt buf i := by
  induction argv generalizing buf with
  | nil => rfl
  | cons arg argv inductionHypothesis =>
      rw [List.foldl_cons, inductionHypothesis, charAt_set_nul]
      by_cases ended : i = arg.2 <;> by_cases later : i ∈ argv.map Prod.snd <;> simp [ended, later]

/-- After nulterminate, a position where a string of the tree ends reads NUL,
and every other position reads as before. -/
theorem charAt_nulterminate (cmd : Cmd) (buf : List Char) (i : Nat) :
    charAt (nulterminate cmd buf) i = if i ∈ cmd.words.map Prod.snd then '\x00' else charAt buf i := by
  induction cmd generalizing buf with
  | exec argv => exact charAt_foldl_set_nul argv buf i
  | redir cmd file efile mode fd inductionHypothesis =>
      rw [nulterminate, charAt_set_nul, inductionHypothesis]
      by_cases ended : i = efile <;> by_cases inner : i ∈ cmd.words.map Prod.snd <;>
        simp [Cmd.words, ended, inner]
  | pipe left right leftHypothesis rightHypothesis =>
      rw [nulterminate, rightHypothesis, leftHypothesis]
      by_cases inLeft : i ∈ left.words.map Prod.snd <;> by_cases inRight : i ∈ right.words.map Prod.snd <;>
        simp [Cmd.words, inLeft, inRight]
  | list left right leftHypothesis rightHypothesis =>
      rw [nulterminate, rightHypothesis, leftHypothesis]
      by_cases inLeft : i ∈ left.words.map Prod.snd <;> by_cases inRight : i ∈ right.words.map Prod.snd <;>
        simp [Cmd.words, inLeft, inRight]
  | back cmd inductionHypothesis => exact inductionHypothesis buf

/-- The end of a word is not inside the text of any word: it is a character a
word does not run over, or the end of the line. -/
theorem WordAt.end_not_inside {s : List Char} {es q eq q' eq' i : Nat} (word : WordAt s es q eq)
    (other : WordAt s es q' eq') (low : q' ≤ i) (high : i < eq') : i ≠ eq := by
  rintro rfl
  rcases word.maximal with atEnd | stops
  · have := other.within
    omega
  · rw [other.chars i low high] at stops
    cases stops


/-- nulterminate writes inside no word token of the line. -/
theorem nulterminate_inside_word {s : List Char} {cmd : Cmd} (derives : Derives .line (lex s) cmd)
    {q eq : Nat} (word : Token.word q eq ∈ lex s) {i : Nat} (low : q ≤ i) (high : i < eq) :
    charAt (nulterminate cmd s) i = charAt s i := by
  rw [charAt_nulterminate, if_neg]
  intro ended
  obtain ⟨w, member, rfl⟩ := List.mem_map.mp ended
  have own := wordAt_of_mem (ends_strlen s) (Nat.zero_le _) (derives.words_mem w member)
  exact own.end_not_inside (wordAt_of_mem (ends_strlen s) (Nat.zero_le _) word) low high rfl

/-- Every string of the tree is its own word token's text, NUL-terminated. -/
theorem nulterminate_word {s : List Char} {cmd : Cmd} (derives : Derives .line (lex s) cmd)
    {w : Nat × Nat} (member : w ∈ cmd.words) :
    Token.word w.1 w.2 ∈ lex s ∧ charAt (nulterminate cmd s) w.2 = '\x00' ∧
      ∀ i, w.1 ≤ i → i < w.2 → charAt (nulterminate cmd s) i = charAt s i ∧ charAt s i ≠ '\x00' := by
  have own := derives.words_mem w member
  have text := wordAt_of_mem (ends_strlen s) (Nat.zero_le _) own
  refine ⟨own, ?_, fun i low high => ⟨nulterminate_inside_word derives own low high, ?_⟩⟩
  · rw [charAt_nulterminate, if_pos (List.mem_map_of_mem member)]
  · exact (ends_strlen s).nonzero i (Nat.lt_of_lt_of_le high text.within)


/-- parsecmd returns, without a panic, exactly on the lines whose tokens derive
from `line`, and then returns that derivation's tree, which is the only one;
a word token is a maximal run of characters that are neither whitespace nor
symbols; and after nulterminate every string of the tree reads as the text of
its own word token followed by a NUL, no NUL having been written inside any
word token. -/
theorem parsecmd_accepts_exactly_its_grammar (s : List Char) :
    ((∃ result, parsecmd s = .ok result) ↔ ∃ cmd, Derives .line (lex s) cmd) ∧
    (∀ cmd buf, parsecmd s = .ok (cmd, buf) → Derives .line (lex s) cmd ∧ buf = nulterminate cmd s) ∧
    (∀ cmd, Derives .line (lex s) cmd → parsecmd s = .ok (cmd, nulterminate cmd s)) ∧
    (∀ cmd cmd', Derives .line (lex s) cmd → Derives .line (lex s) cmd' → cmd = cmd') ∧
    (∀ q eq, Token.word q eq ∈ lex s → WordAt s (strlen s) q eq) ∧
    (∀ cmd buf, parsecmd s = .ok (cmd, buf) →
      (∀ w ∈ cmd.words, Token.word w.1 w.2 ∈ lex s ∧ charAt buf w.2 = '\x00' ∧
        ∀ i, w.1 ≤ i → i < w.2 → charAt buf i = charAt s i ∧ charAt s i ≠ '\x00') ∧
      ∀ q eq, Token.word q eq ∈ lex s → ∀ i, q ≤ i → i < eq → charAt buf i = charAt s i) := by
  refine ⟨⟨?_, fun ⟨cmd, derives⟩ => ⟨_, parsecmd_complete derives⟩⟩, fun _ _ parsed => parsecmd_sound parsed,
    fun _ derives => parsecmd_complete derives, ?_, fun _ _ word => wordAt_of_mem (ends_strlen s) (Nat.zero_le _) word,
    ?_⟩
  · rintro ⟨⟨cmd, buf⟩, parsed⟩
    exact ⟨cmd, (parsecmd_sound parsed).1⟩
  · -- both derivations are what parsecmd returns
    intro cmd cmd' derives derives'
    have same := (parsecmd_complete derives).symm.trans (parsecmd_complete derives')
    simp only [Except.ok.injEq, Prod.mk.injEq] at same
    exact same.1
  · intro cmd buf parsed
    obtain ⟨derives, rfl⟩ := parsecmd_sound parsed
    exact ⟨fun w member => nulterminate_word derives member,
      fun q eq word i low high => nulterminate_inside_word derives word low high⟩

end Xv6.Sh
