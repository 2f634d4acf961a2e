import Xv6.User.Sh.Grammar

/-!
# sh.c's parser

`parsecmd` and the recursive-descent functions under it, which share the
cursor `*ps` through `peek` and `gettoken`.  A function returns the tree it
built and where it left `*ps`, never before where it started (`After p`): the
recursion `parseline → parsepipe → parseexec → parseblock → parseline` comes
back to a function only after a symbol has been consumed, and that is the
termination argument, with the remaining buffer first and the depth in the
chain second.  A `panic` is an error with its message.

parseexec fills its `execcmd`'s argv after parseredirs has wrapped the
`execcmd` in the redirections read so far, which point to it; the tree it
returns is therefore the redirections, in order, around the `execcmd` with
all its words.  The loops of parseredirs and parseexec return the
redirections they read, and `wrap` builds that tree.
-/

namespace Xv6.Sh

/-- Where a parsing function leaves `*ps`: not before `p`, where it started. -/
abbrev After (p : Nat) := {q : Nat // p ≤ q}

/-- A cursor after one that is after `p` is after `p`. -/
def After.weaken {p q : Nat} (a : After q) (le : p ≤ q) : After p := ⟨a.1, Nat.le_trans le a.2⟩

section Cursor

variable {s : List Char} {es : Nat}

theorem le_gettoken_peek (p : Nat) (toks : List Char) :
    p ≤ (gettoken s es (peek s es p toks).2).ps :=
  Nat.le_trans (le_peek p toks) (le_gettoken _)

/-- A symbol peek saw is consumed by the next gettoken. -/
theorem lt_gettoken_peek {p : Nat} {toks : List Char} (sub : toks ⊆ symbols)
    (hit : (peek s es p toks).1 = true) :
    s.length - (gettoken s es (peek s es p toks).2).ps < s.length - p := by
  have := peek_advance sub hit
  omega

end Cursor

/-- parseredirs's loop `while(peek(ps, es, "<>"))`: the redirections it
wraps the command in, in the order it reads them. -/
def parseredirs (s : List Char) (es p : Nat) : Except String (List Redir × After p) :=
  if (peek s es p ['<', '>']).1 then
    let tok := gettoken s es (peek s es p ['<', '>']).2
    let file := gettoken s es tok.ps
    if file.ret ≠ 'a' then .error "missing file for redirection"
    else
      match parseredirs s es file.ps with
      | .error e => .error e
      | .ok (rs, after) =>
          .ok ((redirOf tok.ret file.q file.eq).toList ++ rs,
            after.weaken (Nat.le_trans (le_gettoken_peek p _) (le_gettoken _)))
  else .ok ([], ⟨(peek s es p ['<', '>']).2, le_peek p _⟩)
termination_by s.length - p
decreasing_by
  rename_i more _
  have := lt_gettoken_peek (by decide) more
  have := @le_gettoken s es (gettoken s es (peek s es p ['<', '>']).2).ps
  omega

/-- parseline's loop `while(peek(ps, es, "&"))`: each '&' wraps the command
in a backcmd. -/
def parselineBacks (s : List Char) (es : Nat) (cmd : Cmd) (p : Nat) : Cmd × After p :=
  if (peek s es p ['&']).1 then
    let backed := parselineBacks s es (.back cmd) (gettoken s es (peek s es p ['&']).2).ps
    (backed.1, backed.2.weaken (le_gettoken_peek p _))
  else (cmd, ⟨(peek s es p ['&']).2, le_peek p _⟩)
termination_by s.length - p
decreasing_by
  rename_i more
  exact lt_gettoken_peek (by decide) more

/-- parseexec's loop `while(!peek(ps, es, "|)&;"))`: the words it adds to
argv and the redirections read after them. -/
def parseexecArgs (s : List Char) (es : Nat) (argv : List (Nat × Nat)) (rs : List Redir) (p : Nat) :
    Except String (List (Nat × Nat) × List Redir × After p) :=
  if (peek s es p ['|', ')', '&', ';']).1 then
    .ok (argv, rs, ⟨(peek s es p ['|', ')', '&', ';']).2, le_peek p _⟩)
  else
    let tok := gettoken s es (peek s es p ['|', ')', '&', ';']).2
    if tok.ret = '\x00' then .ok (argv, rs, ⟨tok.ps, le_gettoken_peek p _⟩)
    else if tok.ret ≠ 'a' then .error "syntax"
    else if maxArgs ≤ argv.length + 1 then .error "too many args"
    else
      match parseredirs s es tok.ps with
      | .error e => .error e
      | .ok (more, a₁) =>
          match parseexecArgs s es (argv ++ [(tok.q, tok.eq)]) (rs ++ more) a₁.1 with
          | .error e => .error e
          | .ok (argv', rs', a₂) =>
              .ok (argv', rs', (a₂.weaken a₁.2).weaken (le_gettoken_peek p _))
termination_by (s.length - p, maxArgs - argv.length)
decreasing_by
  -- the next word moves the cursor, or argv grows towards `MAXARGS`
  rename_i nonzero _ fits
  have advanced := @le_gettoken_peek s es p ['|', ')', '&', ';']
  have inside := Nat.lt_of_le_of_lt (@le_peek s es p ['|', ')', '&', ';'])
    (lt_length_of_gettoken nonzero)
  have after : (gettoken s es (peek s es p ['|', ')', '&', ';']).2).ps ≤ a₁.1 := a₁.2
  rw [Prod.lex_def, List.length_append, List.length_singleton]
  dsimp only
  omega

/-- Within one position, a call lower in the chain. -/
theorem lex_of_le {a b i j : Nat} (le : a ≤ b) (lower : i < j) (n : Nat) :
    Prod.Lex (· < ·) (· < ·) (n - b, i) (n - a, j) := by
  rw [Prod.lex_def]
  omega

/-- At a later position, any call. -/
theorem lex_of_lt {a b i j n : Nat} (lt : n - b < n - a) :
    Prod.Lex (· < ·) (· < ·) (n - b, i) (n - a, j) :=
  Prod.Lex.left _ _ lt

mutual

/-- parseline: a pipe, its '&'s, and a ';' with the rest of the line. -/
def parseline (s : List Char) (es p : Nat) : Except String (Cmd × After p) :=
  match parsepipe s es p with
  | .error e => .error e
  | .ok (cmd, a₁) =>
      match parselineBacks s es cmd a₁.1 with
      | (cmd, a₂) =>
          if (peek s es a₂.1 [';']).1 then
            match parseline s es (gettoken s es (peek s es a₂.1 [';']).2).ps with
            | .error e => .error e
            | .ok (right, a₃) =>
                .ok (.list cmd right, ((a₃.weaken (le_gettoken_peek _ _)).weaken a₂.2).weaken a₁.2)
          else .ok (cmd, (After.weaken ⟨(peek s es a₂.1 [';']).2, le_peek _ _⟩ a₂.2).weaken a₁.2)
termination_by (s.length - p, 3)
decreasing_by
  · exact lex_of_le (Nat.le_refl p) (by decide) _
  · rename_i more
    have := lt_gettoken_peek (by decide) more
    have := a₁.2
    have := a₂.2
    exact lex_of_lt (by omega)

/-- parsepipe: an exec, and a '|' with the rest of the pipe. -/
def parsepipe (s : List Char) (es p : Nat) : Except String (Cmd × After p) :=
  match parseexec s es p with
  | .error e => .error e
  | .ok (cmd, a₁) =>
      if (peek s es a₁.1 ['|']).1 then
        match parsepipe s es (gettoken s es (peek s es a₁.1 ['|']).2).ps with
        | .error e => .error e
        | .ok (right, a₂) => .ok (.pipe cmd right, (a₂.weaken (le_gettoken_peek _ _)).weaken a₁.2)
      else .ok (cmd, After.weaken ⟨(peek s es a₁.1 ['|']).2, le_peek _ _⟩ a₁.2)
termination_by (s.length - p, 2)
decreasing_by
  · exact lex_of_le (Nat.le_refl p) (by decide) _
  · rename_i more
    have := lt_gettoken_peek (by decide) more
    have := a₁.2
    exact lex_of_lt (by omega)

/-- parseexec: a block, or redirections and words. -/
def parseexec (s : List Char) (es p : Nat) : Except String (Cmd × After p) :=
  if (peek s es p ['(']).1 then
    match parseblock s es (peek s es p ['(']).2 with
    | .error e => .error e
    | .ok (cmd, a) => .ok (cmd, a.weaken (le_peek p _))
  else
    match parseredirs s es (peek s es p ['(']).2 with
    | .error e => .error e
    | .ok (rs, a₁) =>
        match parseexecArgs s es [] rs a₁.1 with
        | .error e => .error e
        | .ok (argv, rs', a₂) => .ok (wrap (.exec argv) rs', (a₂.weaken a₁.2).weaken (le_peek p _))
termination_by (s.length - p, 1)
decreasing_by exact lex_of_le (le_peek p _) (by decide) _

/-- parseblock: '(' line ')' and the redirections after it. -/
def parseblock (s : List Char) (es p : Nat) : Except String (Cmd × After p) :=
  if (peek s es p ['(']).1 then
    match parseline s es (gettoken s es (peek s es p ['(']).2).ps with
    | .error e => .error e
    | .ok (cmd, a₁) =>
        if (peek s es a₁.1 [')']).1 then
          match parseredirs s es (gettoken s es (peek s es a₁.1 [')']).2).ps with
          | .error e => .error e
          | .ok (rs, a₂) =>
              .ok (wrap cmd rs, ((a₂.weaken (le_gettoken_peek _ _)).weaken a₁.2).weaken
                (le_gettoken_peek _ _))
        else .error "syntax - missing )"
  else .error "parseblock"
termination_by (s.length - p, 0)
decreasing_by
  rename_i more
  exact lex_of_lt (lt_gettoken_peek (by decide) more)

end

/-- nulterminate: a NUL at the end of every string of the tree. -/
def nulterminate : Cmd → List Char → List Char
  | .exec argv, buf => argv.foldl (fun buf arg => buf.set arg.2 '\x00') buf
  | .redir cmd _ efile _ _, buf => (nulterminate cmd buf).set efile '\x00'
  | .pipe left right, buf => nulterminate right (nulterminate left buf)
  | .list left right, buf => nulterminate right (nulterminate left buf)
  | .back cmd, buf => nulterminate cmd buf

/-- parsecmd: the tree of the line `s`, and the buffer after nulterminate;
leftovers after the line are a syntax error. -/
def parsecmd (s : List Char) : Except String (Cmd × List Char) :=
  match parseline s (strlen s) 0 with
  | .error e => .error e
  | .ok (cmd, a) =>
      if (peek s (strlen s) a.1 []).2 ≠ strlen s then .error "syntax"
      else .ok (cmd, nulterminate cmd s)

end Xv6.Sh
