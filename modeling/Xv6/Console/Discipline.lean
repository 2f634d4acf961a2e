import Xv6.Console.Input
import Xv6.Lib.Transition

/-!
# The console line discipline under any interleaving

The committed input is defined by editing rules on lists (`edit`): a
character is appended to the line, backspace and DEL take back its last
character, ^U empties it, NUL and ^P change nothing, and the line is
committed by a newline, by ^D, or by filling the buffer; a character that
does not fit is dropped.  The first section shows that one iteration of
`consoleintr` moves the ring exactly as these rules move the lists.

The system then lets any number of processes call `consoleread` while
characters arrive, one loop iteration at a time, and any of them may be
killed.  Ghost state records the line and the committed input as the rules
leave them and every byte `consoleread` writes to user memory.  In every
reachable state the indices keep their order, what was written is the
committed input as far as it was taken, less its ^D characters, and each read
ends at its first newline or at a ^D, which it consumes only when it is the
first byte it sees.
-/

namespace Xv6
namespace Console

open WrapCounter

/-! ## The editing rules on lists -/

/-- A character that fits goes at the end of the line; a newline, a ^D, or
the character that fills the buffer commits the line. -/
def append (held : Nat) (line : List UInt8) (c : UInt8) : List UInt8 × List UInt8 :=
  if c = nl ∨ c = C 'D' ∨ held + line.length + 1 = inputBuf then ([], line ++ [c])
  else (line ++ [c], [])

/-- The editing rules that define the committed input: with `held` committed
bytes still unread and `line` being edited, typing `c` gives the new line and
the bytes it commits. -/
def edit (held : Nat) (line : List UInt8) (c : UInt8) : List UInt8 × List UInt8 :=
  if c = C 'P' then (line, [])
  else if c = C 'U' then ([], [])
  else if c = C 'H' ∨ c = del then (line.dropLast, [])
  else if c ≠ 0 ∧ held + line.length < inputBuf then append held line (if c = cr then nl else c)
  else (line, [])

theorem append_lineFree {held : Nat} {line : List UInt8} (lineFree : nl ∉ line) (c : UInt8) :
    nl ∉ (append held line c).1 := by
  unfold append
  split_ifs with commits
  · exact List.not_mem_nil
  · rw [List.mem_append, List.mem_singleton, not_or]
    exact ⟨lineFree, fun same => commits (Or.inl same.symm)⟩

/-- A newline always ends the line, so the line being edited never holds one. -/
theorem edit_lineFree {held : Nat} {line : List UInt8} (lineFree : nl ∉ line) (c : UInt8) :
    nl ∉ (edit held line c).1 := by
  unfold edit
  split_ifs
  · exact lineFree
  · exact List.not_mem_nil
  · exact fun member => lineFree (List.dropLast_subset _ member)
  · exact append_lineFree lineFree _
  · exact append_lineFree lineFree _
  · exact lineFree

namespace Input

variable {inp : Input}

/-- One iteration of `consoleintr` moves the unread bytes and the line as
`edit` says, and keeps the indices in order. -/
theorem intr_edit (bounded : inp.Bounded) (lineFree : nl ∉ inp.editing) (c : UInt8) :
    (inp.intr c).unread = inp.unread ++ (edit inp.unread.length inp.editing c).2 ∧
      (inp.intr c).editing = (edit inp.unread.length inp.editing c).1 ∧
      (inp.intr c).Bounded := by
  have held := length_unread_add_editing inp
  by_cases procdump : c = C 'P'
  · rw [intr, if_pos procdump, edit, if_pos procdump]
    exact ⟨(List.append_nil _).symm, rfl, bounded⟩
  by_cases kill : c = C 'U'
  · rw [intr, if_neg procdump, if_pos kill, edit, if_neg procdump, if_pos kill]
    obtain ⟨unread, editing, stays⟩ := killLine_parts bounded lineFree
    exact ⟨unread.trans (List.append_nil _).symm, editing, stays⟩
  by_cases backspace : c = C 'H' ∨ c = del
  · rw [intr, if_neg procdump, if_neg kill, if_pos backspace, edit, if_neg procdump,
      if_neg kill, if_pos backspace]
    by_cases erasing : inp.e ≠ inp.w
    · rw [if_pos erasing]
      obtain ⟨unread, editing⟩ := erase_parts bounded erasing
      exact ⟨unread.trans (List.append_nil _).symm, editing, erase_bounded bounded erasing⟩
    · rw [if_neg erasing]
      have empty : inp.editing = [] := (editing_eq_nil bounded).mpr (not_not.mp erasing)
      refine ⟨(List.append_nil _).symm, ?_, bounded⟩
      rw [empty]
      rfl
  rw [intr, if_neg procdump, if_neg kill, if_neg backspace, edit, if_neg procdump,
    if_neg kill, if_neg backspace]
  by_cases typed : c ≠ 0 ∧ gap inp.r inp.e < inputBuf
  · have guard : c ≠ 0 ∧ inp.e - inp.r < inputBuf.toUInt32 :=
      ⟨typed.1, room_iff.mpr typed.2⟩
    have fits : c ≠ 0 ∧ inp.unread.length + inp.editing.length < inputBuf := held ▸ typed
    rw [if_pos guard, if_pos fits]
    dsimp only
    generalize (if c = cr then nl else c) = c
    have full := store_full_iff typed.2 c
    obtain ⟨unread, editing⟩ := store_parts bounded typed.2 c
    unfold append
    by_cases commits :
        c = nl ∨ c = C 'D' ∨ inp.unread.length + inp.editing.length + 1 = inputBuf
    · have ends :
          c = nl ∨ c = C 'D' ∨ (inp.store c).e = (inp.store c).r + inputBuf.toUInt32 := by
        rw [full, ← held]
        exact commits
      rw [if_pos ends, if_pos commits]
      obtain ⟨allUnread, noLine⟩ := (inp.store c).commit_parts
      refine ⟨?_, noLine, commit_bounded (store_bounded bounded typed.2 c)⟩
      rw [allUnread, ← unread_append_editing, unread, editing]
    · have stays : ¬(c = nl ∨ c = C 'D' ∨
          (inp.store c).e = (inp.store c).r + inputBuf.toUInt32) := by
        rw [full, ← held]
        exact commits
      rw [if_neg stays, if_neg commits]
      exact ⟨unread.trans (List.append_nil _).symm, editing, store_bounded bounded typed.2 c⟩
  · have full : ¬(c ≠ 0 ∧ inp.unread.length + inp.editing.length < inputBuf) := held ▸ typed
    rw [if_neg (fun guard => typed ⟨guard.1, room_iff.mp guard.2⟩), if_neg full]
    exact ⟨(List.append_nil _).symm, rfl, bounded⟩

end Input

/-! ## Readers and typing, interleaved -/

/-- The console input, the processes inside `consoleread`, and ghost state:
the line and the committed input as `edit` leaves them, and every byte
`consoleread` has written to user memory, in the order written. -/
structure System (ι : Type*) where
  input : Input
  calls : ι → Option Call
  killed : ι → Bool
  line : List UInt8
  committed : List UInt8
  delivered : List UInt8

inductive Action (ι : Type*) where
  | consoleintr (c : UInt8)
  | consoleread (q : ι) (n : Nat)
  | readNext (q : ι)
  | kill (q : ι)

/-- The read still in progress after an iteration, if any. -/
def Next.pending : Next → Option Call
  | .loop call => some call
  | .ret _ _ => none

/-- The bytes written through `dst` once the iteration is over. -/
def Next.dst : Next → List UInt8
  | .loop call => call.dst
  | .ret _ dst => dst

variable {ι : Type*} [DecidableEq ι]

/-- The next iteration of the loop of the `consoleread` that process `q` is
in; `none` when it sleeps. -/
def readNext (s : System ι) (q : ι) : Option (System ι) :=
  match s.calls q with
  | none => none
  | some call =>
      (readStep s.input call (s.killed q)).map fun taken =>
        { s with
          input := taken.1
          calls := Function.update s.calls q taken.2.pending
          delivered := s.delivered ++ taken.2.dst.drop call.dst.length }

def step (s : System ι) : Action ι → Option (System ι)
  | .consoleintr c =>
      let typed := edit s.input.unread.length s.line c
      some { s with input := s.input.intr c, line := typed.1, committed := s.committed ++ typed.2 }
  | .consoleread q n =>
      if s.calls q = none then
        some { s with calls := Function.update s.calls q (some ⟨n, n, []⟩) }
      else none
  | .readNext q => readNext s q
  | .kill q => some { s with killed := Function.update s.killed q true }

/-- The zeroed `input` of a freshly booted kernel, nobody reading. -/
def initial : System ι :=
  ⟨⟨fun _ => 0, 0, 0, 0⟩, fun _ => none, fun _ => false, [], [], []⟩

def Reachable (s : System ι) : Prop :=
  Machine.Reachable (· = initial) step s

/-- A read in progress has written `target - n` bytes, none of them a
newline. -/
structure Call.Pending (call : Call) : Prop where
  counted : call.dst.length + call.n = call.target
  noNewline : nl ∉ call.dst

/-- The indices keep their order, the ring holds the ghost line, the bytes
taken by reads followed by the unread ones are the committed input, and
what was written is what was taken less its ^D characters. -/
structure Inv (s : System ι) : Prop where
  bounded : s.input.Bounded
  editing : s.input.editing = s.line
  lineFree : nl ∉ s.line
  taken : ∃ taken, taken ++ s.input.unread = s.committed ∧
    s.delivered = taken.filter (· ≠ C 'D')
  pending : ∀ q call, s.calls q = some call → call.Pending

/-! ## What one read iteration does to the buffer -/

section Iteration

variable {inp inp' : Input} {call : Call} {killed : Bool} {next : Next}

/-- Either the buffer is left alone and nothing is written, or the oldest
unread byte is taken and written unless it is a ^D; the line is untouched
and the read stays counted. -/
theorem Iteration.takes (bounded : inp.Bounded) (pending : call.Pending)
    (iteration : Iteration inp call killed inp' next) :
    inp'.Bounded ∧ inp'.editing = inp.editing ∧
      (∃ written, next.dst = call.dst ++ written ∧
        (inp' = inp ∧ written = [] ∨
          ∃ c, inp.unread = c :: inp'.unread ∧ written = [c].filter (· ≠ C 'D'))) ∧
      ∀ call', next.pending = some call' → call'.Pending := by
  cases iteration with
  | done _ | killed _ _ _ | eofKept _ _ _ _ =>
      exact ⟨bounded, rfl, ⟨[], (List.append_nil _).symm, .inl ⟨rfl, rfl⟩⟩, nofun⟩
  | eofTaken _ nonempty eof _ =>
      obtain ⟨oldest, editing⟩ := Input.advance_parts bounded nonempty
      refine ⟨Input.advance_bounded bounded nonempty, editing,
        ⟨[], (List.append_nil _).symm, .inr ⟨C 'D', eof ▸ oldest, ?_⟩⟩, nofun⟩
      simp
  | newline _ nonempty newline =>
      obtain ⟨oldest, editing⟩ := Input.advance_parts bounded nonempty
      refine ⟨Input.advance_bounded bounded nonempty, editing,
        ⟨[nl], rfl, .inr ⟨nl, newline ▸ oldest, ?_⟩⟩, nofun⟩
      simp [nl_ne_eof]
  | byte active nonempty other notNewline =>
      obtain ⟨oldest, editing⟩ := Input.advance_parts bounded nonempty
      refine ⟨Input.advance_bounded bounded nonempty, editing,
        ⟨[inp.cell inp.r.toNat], rfl, .inr ⟨_, oldest, by simp [other]⟩⟩, ?_⟩
      rintro call' ⟨⟩
      constructor
      · show (call.dst ++ [inp.cell inp.r.toNat]).length + (call.n - 1) = call.target
        rw [List.length_append, List.length_singleton, ← pending.counted]
        omega
      · rw [List.mem_append, List.mem_singleton, not_or]
        exact ⟨pending.noNewline, fun same => notNewline same.symm⟩

/-- The ends of a read that the line discipline promises: a read returns
the count of bytes it wrote, through its first newline at most, or -1 when
killed; a ^D it meets first is consumed and gives 0, and a ^D it meets after
some bytes ends it and stays in the buffer. -/
structure Ends (inp : Input) (call : Call) (killed : Bool) : Prop where
  throughNewline : ∀ inp' v dst, readStep inp call killed = some (inp', .ret v dst) →
    v = -1 ∨ (v = dst.length ∧ nl ∉ dst.dropLast)
  eofFirst : 0 < call.n → call.dst = [] → inp.unread.head? = some (C 'D') →
    ∃ inp', readStep inp call killed = some (inp', .ret 0 []) ∧ inp'.unread = inp.unread.tail
  eofKept : 0 < call.n → call.dst ≠ [] → inp.unread.head? = some (C 'D') →
    readStep inp call killed = some (inp, .ret call.dst.length call.dst)

theorem Iteration.throughNewline (pending : call.Pending) {v : Int} {dst : List UInt8}
    (iteration : Iteration inp call killed inp' (.ret v dst)) :
    v = -1 ∨ (v = dst.length ∧ nl ∉ dst.dropLast) := by
  have counted := pending.counted
  have unchanged : nl ∉ call.dst.dropLast :=
    fun member => pending.noNewline (List.dropLast_subset _ member)
  cases iteration with
  | killed => exact .inl rfl
  | done | eofKept | eofTaken => exact .inr ⟨by omega, unchanged⟩
  | newline active =>
      refine .inr ⟨?_, by rw [List.dropLast_concat]; exact pending.noNewline⟩
      rw [List.length_append, List.length_singleton]
      omega

/-- The oldest unread byte is a ^D exactly when the ring holds one at `r`. -/
theorem eof_at_r (bounded : inp.Bounded) (eof : inp.unread.head? = some (C 'D')) :
    inp.r ≠ inp.w ∧ inp.cell inp.r.toNat = C 'D' ∧ inp.advance.unread = inp.unread.tail := by
  have nonempty : inp.r ≠ inp.w := fun empty => by
    rw [(Input.unread_eq_nil bounded).mpr empty] at eof
    cases eof
  obtain ⟨oldest, _⟩ := Input.advance_parts bounded nonempty
  rw [oldest, List.head?_cons, Option.some_inj] at eof
  exact ⟨nonempty, eof, by rw [oldest, List.tail_cons]⟩

theorem ends (bounded : inp.Bounded) (pending : call.Pending) : Ends inp call killed where
  throughNewline _ _ _ stepped := (readStep_iteration stepped).throughNewline pending
  eofFirst active first eof := by
    obtain ⟨nonempty, atR, tail⟩ := eof_at_r bounded eof
    have whole : call.n = call.target := by
      have counted := pending.counted
      rw [first, List.length_nil] at counted
      omega
    refine ⟨inp.advance, ?_, tail⟩
    rw [readStep_eof (Nat.pos_iff_ne_zero.mp active) nonempty atR, if_neg (by omega), whole,
      Int.sub_self, first]
  eofKept active later eof := by
    obtain ⟨nonempty, atR, _⟩ := eof_at_r bounded eof
    have counted := pending.counted
    have before : call.n < call.target := by
      have := List.length_pos_iff.mpr later
      omega
    rw [readStep_eof (Nat.pos_iff_ne_zero.mp active) nonempty atR, if_pos before]
    congr 3
    omega

end Iteration

/-! ## The invariant over every run -/

/-- The zeroed input holds nothing. -/
theorem bounded_zero : (⟨fun _ => 0, 0, 0, 0⟩ : Input).Bounded :=
  ⟨Nat.le_refl _, by decide⟩

omit [DecidableEq ι] in
theorem inv_initial : Inv (initial : System ι) where
  bounded := bounded_zero
  editing := (Input.editing_eq_nil bounded_zero).mpr rfl
  lineFree := List.not_mem_nil
  taken := ⟨[], List.nil_append _ ▸ (Input.unread_eq_nil bounded_zero).mpr rfl, rfl⟩
  pending _ _ := nofun

theorem pending_update {calls : ι → Option Call}
    (pending : ∀ q call, calls q = some call → call.Pending) (q : ι) {fresh : Option Call}
    (counted : ∀ call, fresh = some call → call.Pending) :
    ∀ q' call, Function.update calls q fresh q' = some call → call.Pending := by
  intro q' call found
  by_cases same : q' = q
  · subst same
    rw [Function.update_self] at found
    exact counted call found
  · rw [Function.update_of_ne same] at found
    exact pending q' call found

omit [DecidableEq ι] in
theorem inv_consoleintr {s : System ι} (invariant : Inv s) (c : UInt8) :
    Inv { s with
      input := s.input.intr c
      line := (edit s.input.unread.length s.line c).1
      committed := s.committed ++ (edit s.input.unread.length s.line c).2 } := by
  have lineFree : nl ∉ s.input.editing := invariant.editing ▸ invariant.lineFree
  obtain ⟨unread, editing, bounded⟩ := s.input.intr_edit invariant.bounded lineFree c
  obtain ⟨taken, committed, delivered⟩ := invariant.taken
  rw [invariant.editing] at unread editing
  refine ⟨bounded, editing, edit_lineFree invariant.lineFree c, ⟨taken, ?_, delivered⟩,
    invariant.pending⟩
  rw [unread, ← List.append_assoc, committed]

theorem inv_readNext {s t : System ι} {q : ι} (invariant : Inv s)
    (stepped : readNext s q = some t) : Inv t := by
  unfold readNext at stepped
  split at stepped
  · cases stepped
  · rename_i call found
    obtain ⟨⟨input, next⟩, read, rfl⟩ := Option.map_eq_some_iff.mp stepped
    have pending := invariant.pending q call found
    obtain ⟨bounded, editing, ⟨written, dst, moved⟩, counted⟩ :=
      (readStep_iteration read).takes invariant.bounded pending
    obtain ⟨taken, committed, delivered⟩ := invariant.taken
    refine ⟨bounded, editing.trans invariant.editing, invariant.lineFree, ?_,
      pending_update invariant.pending q counted⟩
    dsimp only
    rw [dst, List.drop_left]
    rcases moved with ⟨rfl, rfl⟩ | ⟨c, oldest, rfl⟩
    · exact ⟨taken, committed, by rw [List.append_nil, delivered]⟩
    · refine ⟨taken ++ [c], ?_, ?_⟩
      · rw [List.append_assoc, List.singleton_append, ← oldest, committed]
      · rw [delivered, List.filter_append]

/-- Every action of every process keeps the invariant. -/
theorem inv_step {s t : System ι} {action : Action ι} (invariant : Inv s)
    (stepped : step s action = some t) : Inv t := by
  cases action with
  | consoleintr c =>
      cases stepped
      exact inv_consoleintr invariant c
  | consoleread q n =>
      simp only [step] at stepped
      split_ifs at stepped
      cases stepped
      refine ⟨invariant.bounded, invariant.editing, invariant.lineFree, invariant.taken,
        pending_update invariant.pending q ?_⟩
      rintro call ⟨⟩
      exact ⟨List.length_nil ▸ Nat.zero_add n, List.not_mem_nil⟩
  | readNext q => exact inv_readNext invariant stepped
  | kill q =>
      cases stepped
      exact ⟨invariant.bounded, invariant.editing, invariant.lineFree, invariant.taken,
        invariant.pending⟩

theorem inv_reachable {s : System ι} (reachable : Reachable s) : Inv s := by
  refine Machine.Reachable.induction (fun s initial => ?_)
    (fun _ _ _ _ invariant stepped => inv_step invariant stepped) reachable
  rw [initial]
  exact inv_initial

/-- The line discipline under any interleaving of typed characters and
reads: the indices stay in order as unsigned differences, the bytes
`consoleread` writes are the committed input as far as reads have taken it,
less its ^D characters, and every read ends as `Ends` says. -/
theorem console_writes_committed_input_without_eof {s : System ι} (reachable : Reachable s) :
    (gap s.input.r s.input.w ≤ gap s.input.r s.input.e ∧
        gap s.input.r s.input.e ≤ inputBuf) ∧
      (∃ taken, taken ++ s.input.unread = s.committed ∧
        s.delivered = taken.filter (· ≠ C 'D')) ∧
      ∀ q call, s.calls q = some call → Ends s.input call (s.killed q) := by
  have invariant := inv_reachable reachable
  exact ⟨⟨invariant.bounded.committed_le, invariant.bounded.held_le⟩, invariant.taken,
    fun q call found => ends invariant.bounded (invariant.pending q call found)⟩

/-- "ab", a newline and ^D typed; one process reads the line, then starts a
second read. -/
def lineThenEof : List (Action (Fin 1)) :=
  [.consoleintr 'a'.toUInt8, .consoleintr 'b'.toUInt8, .consoleintr nl, .consoleintr (C 'D'),
    .consoleread 0 10, .readNext 0, .readNext 0, .readNext 0, .consoleread 0 10]

/-- The line discipline once a line has been read and a ^D is next: what was
written is the line, the indices are in order, and the second read, which
meets the ^D first, consumes it and returns 0. -/
theorem console_discipline_after_line :
    ∃ s : System (Fin 1), Machine.run step initial lineThenEof = some s ∧
      s.delivered = ['a'.toUInt8, 'b'.toUInt8, nl] ∧ s.input.unread = [C 'D'] ∧
      gap s.input.r s.input.w ≤ gap s.input.r s.input.e ∧
      ∃ inp', readStep s.input ⟨10, 10, []⟩ false = some (inp', .ret 0 []) ∧ inp'.unread = [] := by
  obtain ⟨s, ran⟩ : ∃ s, Machine.run step (initial : System (Fin 1)) lineThenEof = some s :=
    Option.isSome_iff_exists.mp (by decide +kernel)
  have seen : (Machine.run step (initial : System (Fin 1)) lineThenEof).map
      (fun s => (s.delivered, s.input.unread)) = some (['a'.toUInt8, 'b'.toUInt8, nl], [C 'D']) := by
    decide +kernel
  have waiting : (Machine.run step (initial : System (Fin 1)) lineThenEof).map
      (fun s => ((s.calls 0).map fun call => (call.target, call.n, call.dst), s.killed 0)) =
      some (some (10, 10, []), false) := by
    decide +kernel
  rw [ran, Option.map_some, Option.some.injEq, Prod.mk.injEq] at seen waiting
  obtain ⟨delivered, unread⟩ := seen
  obtain ⟨shape, notKilled⟩ := waiting
  obtain ⟨call, pending, shape⟩ := Option.map_eq_some_iff.mp shape
  have called : call = ⟨10, 10, []⟩ := by
    obtain ⟨target, n, dst⟩ := call
    simp only [Prod.mk.injEq] at shape
    rw [shape.1, shape.2.1, shape.2.2]
  obtain ⟨⟨ordered, -⟩, -, ends⟩ :=
    console_writes_committed_input_without_eof (Machine.Reachable.run (Machine.Reachable.initial rfl) ran)
  have eof := (ends 0 call pending).eofFirst
  rw [called, notKilled] at eof
  obtain ⟨inp', consumed, rest⟩ := eof (by decide) rfl (by rw [unread]; rfl)
  refine ⟨s, ran, delivered, unread, ordered, inp', consumed, ?_⟩
  rw [rest, unread]
  rfl

/-- ^D, `b` and a newline typed, then one process reads twice. -/
def eofThenLine : List (Action (Fin 1)) :=
  [.consoleintr (C 'D'), .consoleintr 'b'.toUInt8, .consoleintr nl,
    .consoleread 0 10, .readNext 0, .consoleread 0 10, .readNext 0, .readNext 0]

/-- All the committed input has been read, yet what `consoleread` wrote is
not the committed input: the ^D was taken and never written. -/
theorem eof_taken_not_written :
    (Machine.run step initial eofThenLine).map
        (fun t => (t.input.unread, t.committed, t.delivered)) =
      some ([], [C 'D', 'b'.toUInt8, nl], ['b'.toUInt8, nl]) := by
  decide

end Console
end Xv6
