import Xv6.User.Sh.Token
import Xv6.Fs.Sysfile

/-!
# The grammar of a command line

The command tree sh.c builds, and the grammar its parser is written for:

    line  := pipe ('&')* (';' line)?
    pipe  := exec ('|' pipe)?
    exec  := block | redirs (word redirs)*
    block := '(' line ')' redirs
    redirs := (('<'|'>'|'>>') word)*

with fewer than `MAXARGS` words in an `exec`.  `Derives nt ts cmd` says that
the tokens `ts` derive from `nt` with the tree `cmd`: '|' and ';' nest to the
right, each '&' wraps what stands before it, and each redirection wraps the
command built so far, in the order they are written.  `Follows nt rest` says
which tokens may come after a phrase of `nt`: they are where the parser stops.
-/

namespace Xv6.Sh

/-- `MAXARGS`. -/
def maxArgs : Nat := 10

/-- A redirection: the bounds of the file name's text, the mode to open it
with and the descriptor it replaces. -/
structure Redir where
  file : Nat
  efile : Nat
  mode : BitVec 32
  fd : Nat
deriving DecidableEq, Repr

/-- The command tree: `struct execcmd`, `redircmd`, `pipecmd`, `listcmd` and
`backcmd`, with each string as the bounds of its text in the line. -/
inductive Cmd
  | exec (argv : List (Nat × Nat))
  | redir (cmd : Cmd) (file efile : Nat) (mode : BitVec 32) (fd : Nat)
  | pipe (left right : Cmd)
  | list (left right : Cmd)
  | back (cmd : Cmd)
deriving DecidableEq, Repr

/-- redircmd: `r` around `cmd`. -/
def Redir.around (r : Redir) (cmd : Cmd) : Cmd := .redir cmd r.file r.efile r.mode r.fd

/-- The redirections `rs` around `cmd`, the first innermost. -/
def wrap (cmd : Cmd) (rs : List Redir) : Cmd := rs.foldl (fun cmd r => r.around cmd) cmd

/-- parseredirs's switch: the redirection the symbol `tok` makes of the file
name `q`..`eq`. -/
def redirOf (tok : Char) (q eq : Nat) : Option Redir :=
  match tok with
  | '<' => some ⟨q, eq, Fs.oRdonly, 0⟩
  | '>' => some ⟨q, eq, Fs.oWronly ||| Fs.oCreate, 1⟩
  | '+' => some ⟨q, eq, Fs.oWronly ||| Fs.oCreate, 1⟩
  | _ => none

/-- The `&`s after a pipe, each wrapping what stands before it. -/
def backs : Nat → Cmd → Cmd
  | 0, cmd => cmd
  | n + 1, cmd => backs n (.back cmd)

/-- The grammar's nonterminals. -/
inductive Nonterminal
  | line
  | pipe
  | exec
deriving DecidableEq, Repr

/-- `redirs`, and the redirections it makes, in order. -/
inductive Redirs : List Token → List Redir → Prop
  | nil : Redirs [] []
  | cons {c : Char} {q eq : Nat} {r : Redir} {ts : List Token} {rs : List Redir} :
      redirOf c q eq = some r → Redirs ts rs → Redirs (.sym c :: .word q eq :: ts) (r :: rs)

/-- `(word redirs)*`: its words, and all the redirections after them. -/
inductive Words : List Token → List (Nat × Nat) → List Redir → Prop
  | nil : Words [] [] []
  | cons {q eq : Nat} {ts ts' : List Token} {rs rs' : List Redir} {argv : List (Nat × Nat)} :
      Redirs ts rs → Words ts' argv rs' →
      Words (.word q eq :: (ts ++ ts')) ((q, eq) :: argv) (rs ++ rs')

inductive Derives : Nonterminal → List Token → Cmd → Prop
  /-- `line := pipe ('&')*` -/
  | line {ts : List Token} {cmd : Cmd} (n : Nat) : Derives .pipe ts cmd →
      Derives .line (ts ++ List.replicate n (.sym '&')) (backs n cmd)
  /-- `line := pipe ('&')* ';' line` -/
  | list {ts ts' : List Token} {cmd cmd' : Cmd} (n : Nat) : Derives .pipe ts cmd →
      Derives .line ts' cmd' →
      Derives .line (ts ++ List.replicate n (.sym '&') ++ .sym ';' :: ts') (.list (backs n cmd) cmd')
  /-- `pipe := exec` -/
  | exec {ts : List Token} {cmd : Cmd} : Derives .exec ts cmd → Derives .pipe ts cmd
  /-- `pipe := exec '|' pipe` -/
  | pipe {ts ts' : List Token} {cmd cmd' : Cmd} : Derives .exec ts cmd → Derives .pipe ts' cmd' →
      Derives .pipe (ts ++ .sym '|' :: ts') (.pipe cmd cmd')
  /-- `exec := '(' line ')' redirs` -/
  | block {ts ts' : List Token} {cmd : Cmd} {rs : List Redir} : Derives .line ts cmd →
      Redirs ts' rs → Derives .exec (.sym '(' :: (ts ++ .sym ')' :: ts')) (wrap cmd rs)
  /-- `exec := redirs (word redirs)*`, with fewer than `MAXARGS` words -/
  | words {ts ts' : List Token} {rs rs' : List Redir} {argv : List (Nat × Nat)} :
      Redirs ts rs → Words ts' argv rs' → argv.length < maxArgs →
      Derives .exec (ts ++ ts') (wrap (.exec argv) (rs ++ rs'))

/-- The symbols that end a phrase of each nonterminal. -/
def Nonterminal.follow : Nonterminal → List Char
  | .line => [')']
  | .pipe => [')', '&', ';']
  | .exec => [')', '&', ';', '|']

/-- `rest` may follow a phrase of `nt`: it is empty, or starts with one of
the symbols that end the phrase. -/
def Follows (nt : Nonterminal) (rest : List Token) : Prop :=
  ∀ t ∈ rest.head?, t.seen nt.follow = true

/-- The strings of a tree, in the order nulterminate ends them: the words of
each `execcmd`, and each redirection's file name. -/
def Cmd.words : Cmd → List (Nat × Nat)
  | .exec argv => argv
  | .redir cmd file efile _ _ => cmd.words ++ [(file, efile)]
  | .pipe left right => left.words ++ right.words
  | .list left right => left.words ++ right.words
  | .back cmd => cmd.words

/-! ## First tokens -/

/-- A token peek stops at for one symbol other than '>' is that symbol. -/
theorem Token.eq_of_seen {t : Token} {c : Char} (notGt : c ≠ '>') (seen : t.seen [c] = true) :
    t = .sym c := by
  cases t with
  | word q eq => cases seen
  | sym d =>
      simp only [Token.seen, List.mem_singleton, decide_eq_true_eq] at seen
      split at seen
      · exact absurd seen.symm notGt
      · rw [seen]

/-- The symbols parseredirs turns into redirections are those `peek(ps, es, "<>")` stops at. -/
theorem redirOf_isSome (c : Char) (q eq : Nat) :
    (redirOf c q eq).isSome = (Token.sym c).seen ['<', '>'] := by
  unfold redirOf Token.seen
  split <;> simp_all

/-- A token peek stops at for `toks` is not one it stops at for symbols
apart from `toks`. -/
theorem Token.seen_of_disjoint {t : Token} {toks toks' : List Char}
    (seen : t.seen toks = true) (apart : ∀ c ∈ toks, c ∉ toks') : t.seen toks' = false := by
  cases t with
  | word q eq => rfl
  | sym d =>
      simp only [Token.seen, decide_eq_true_eq, decide_eq_false_iff_not] at seen ⊢
      exact apart _ seen

theorem Token.seen_of_subset {t : Token} {toks toks' : List Char}
    (seen : t.seen toks = true) (sub : toks ⊆ toks') : t.seen toks' = true := by
  cases t with
  | word q eq => cases seen
  | sym d =>
      simp only [Token.seen, decide_eq_true_eq] at seen ⊢
      exact sub seen

theorem Redirs.first {ts : List Token} {rs : List Redir} (redirs : Redirs ts rs) :
    ∀ t ∈ ts.head?, t.seen ['<', '>'] = true := by
  cases redirs with
  | nil => exact fun t none => by cases none
  | cons made _ =>
      intro t first
      cases first
      rw [← redirOf_isSome _ _ _, made]
      rfl

theorem Words.first {ts : List Token} {argv : List (Nat × Nat)} {rs : List Redir}
    (words : Words ts argv rs) : ∀ t ∈ ts.head?, ∃ q eq, t = .word q eq := by
  cases words with
  | nil => exact fun t none => by cases none
  | cons _ _ =>
      intro t first
      cases first
      exact ⟨_, _, rfl⟩

theorem Follows.pipe_exec {rest : List Token} (follows : Follows .pipe rest) : Follows .exec rest :=
  fun t first => Token.seen_of_subset (follows t first) (by decide)

theorem Follows.line_pipe {rest : List Token} (follows : Follows .line rest) : Follows .pipe rest :=
  fun t first => Token.seen_of_subset (follows t first) (by decide)

/-- After an exec comes no redirection, no '(' and no word. -/
theorem Follows.not_seen {rest : List Token} {toks : List Char} (follows : Follows .exec rest)
    (apart : ∀ c ∈ Nonterminal.exec.follow, c ∉ toks) : ∀ t ∈ rest.head?, t.seen toks = false :=
  fun t first => Token.seen_of_disjoint (follows t first) apart

/-! ## The words of a derivation -/

@[simp] theorem words_wrap (cmd : Cmd) (rs : List Redir) :
    (wrap cmd rs).words = cmd.words ++ rs.map fun r => (r.file, r.efile) := by
  induction rs generalizing cmd with
  | nil => simp [wrap]
  | cons r rs inductionHypothesis =>
      simp only [wrap, List.foldl_cons] at inductionHypothesis ⊢
      rw [inductionHypothesis]
      simp [Redir.around, Cmd.words]

@[simp] theorem words_backs (n : Nat) (cmd : Cmd) : (backs n cmd).words = cmd.words := by
  induction n generalizing cmd with
  | zero => rfl
  | succ n inductionHypothesis => exact inductionHypothesis (.back cmd)

theorem Redirs.words_mem {ts : List Token} {rs : List Redir} (redirs : Redirs ts rs) :
    ∀ r ∈ rs, Token.word r.file r.efile ∈ ts := by
  induction redirs with
  | nil => exact fun r none => by cases none
  | cons made _ inductionHypothesis =>
      intro r member
      rcases List.mem_cons.mp member with rfl | later
      · unfold redirOf at made
        split at made <;> cases made <;> exact List.mem_cons_of_mem _ List.mem_cons_self
      · exact List.mem_cons_of_mem _ (List.mem_cons_of_mem _ (inductionHypothesis r later))

theorem Words.words_mem {ts : List Token} {argv : List (Nat × Nat)} {rs : List Redir}
    (words : Words ts argv rs) :
    (∀ w ∈ argv, Token.word w.1 w.2 ∈ ts) ∧ ∀ r ∈ rs, Token.word r.file r.efile ∈ ts := by
  induction words with
  | nil => exact ⟨fun w none => (by cases none), fun r none => (by cases none)⟩
  | cons redirs _ inductionHypothesis =>
      refine ⟨fun w member => ?_, fun r member => ?_⟩
      · rcases List.mem_cons.mp member with rfl | later
        · exact List.mem_cons_self
        · exact List.mem_cons_of_mem _ (List.mem_append_right _ (inductionHypothesis.1 w later))
      · rcases List.mem_append.mp member with first | later
        · exact List.mem_cons_of_mem _ (List.mem_append_left _ (redirs.words_mem r first))
        · exact List.mem_cons_of_mem _ (List.mem_append_right _ (inductionHypothesis.2 r later))

/-- Every string of a derivation's tree is a word of its tokens. -/
theorem Derives.words_mem {nt : Nonterminal} {ts : List Token} {cmd : Cmd} (derives : Derives nt ts cmd) :
    ∀ w ∈ cmd.words, Token.word w.1 w.2 ∈ ts := by
  induction derives with
  | line n _ inductionHypothesis =>
      intro w member
      rw [words_backs] at member
      exact List.mem_append_left _ (inductionHypothesis w member)
  | list n _ _ first rest =>
      intro w member
      simp only [Cmd.words, words_backs, List.mem_append] at member
      rcases member with left | right
      · exact List.mem_append_left _ (List.mem_append_left _ (first w left))
      · exact List.mem_append_right _ (List.mem_cons_of_mem _ (rest w right))
  | exec _ inductionHypothesis => exact inductionHypothesis
  | pipe _ _ first rest =>
      intro w member
      rcases List.mem_append.mp member with left | right
      · exact List.mem_append_left _ (first w left)
      · exact List.mem_append_right _ (List.mem_cons_of_mem _ (rest w right))
  | block _ redirs inductionHypothesis =>
      intro w member
      rw [words_wrap, List.mem_append] at member
      rcases member with inner | file
      · exact List.mem_cons_of_mem _ (List.mem_append_left _ (inductionHypothesis w inner))
      · obtain ⟨r, made, rfl⟩ := List.mem_map.mp file
        exact List.mem_cons_of_mem _ (List.mem_append_right _
          (List.mem_cons_of_mem _ (redirs.words_mem r made)))
  | words redirs words _ =>
      intro w member
      rw [words_wrap, List.mem_append] at member
      rcases member with arg | file
      · exact List.mem_append_right _ ((words.words_mem).1 w arg)
      · obtain ⟨r, made, rfl⟩ := List.mem_map.mp file
        rcases List.mem_append.mp made with first | later
        · exact List.mem_append_left _ (redirs.words_mem r first)
        · exact List.mem_append_right _ ((words.words_mem).2 r later)

end Xv6.Sh
