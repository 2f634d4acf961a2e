import Mathlib.Logic.Function.Basic
import Mathlib.Data.List.TakeDrop
import Xv6.Lib.WrapCounter

/-!
# The console's input buffer

`console.c` keeps typed input in a ring of `INPUT_BUF` bytes driven by three
free-running 32-bit indices: `consoleread` takes bytes at `r`, the bytes from
`r` to `w` are committed and may be read, and the bytes from `w` to `e` are
the line still being edited.  `consoleintr` handles one character per
iteration of its loop and `consoleread` takes one byte per iteration of its
own; both hold `cons.lock`, so each iteration is one atomic step here.  The
echo to the screen (`consputc`) and the deferred `procdump` leave the buffer
alone and are not modelled.

Everything below is read off one list, the bytes from `r` to `e`: the unread
part and the editing part are its two pieces at `w`.  Each index move has one
lemma saying how that list changes, and from these the unread and editing
parts are followed through every branch of both loops.
-/

namespace Xv6
namespace Console

open WrapCounter

/-- `INPUT_BUF`. -/
def inputBuf : Nat := 128

/-- `C(x)`: the byte that Control-x sends. -/
def C (x : Char) : UInt8 := x.toUInt8 - '@'.toUInt8

/-- `'\n'`. -/
def nl : UInt8 := '\n'.toUInt8

/-- `'\r'`. -/
def cr : UInt8 := '\r'.toUInt8

/-- `'\x7f'`, the DEL key. -/
def del : UInt8 := 0x7f

/-- The state of struct input; `cons.lock` is the atomicity of each step. -/
structure Input where
  buf : Fin inputBuf → UInt8
  r : UInt32
  w : UInt32
  e : UInt32

/-- The slot of position `i` of the input stream, `i % INPUT_BUF`. -/
def slotAt (i : Nat) : Fin inputBuf := ⟨i % inputBuf, Nat.mod_lt _ (by decide)⟩

namespace Input

/-- The byte in the slot of position `i`. -/
def cell (inp : Input) (i : Nat) : UInt8 := inp.buf (slotAt i)

/-- The bytes from `r` to `e`, oldest first. -/
def held (inp : Input) : List UInt8 := window inp.cell inp.r.toNat (gap inp.r inp.e)

/-- The committed bytes not yet read, from `r` to `w`. -/
def unread (inp : Input) : List UInt8 := inp.held.take (gap inp.r inp.w)

/-- The line being edited, from `w` to `e`. -/
def editing (inp : Input) : List UInt8 := inp.held.drop (gap inp.r inp.w)

/-- `w` lies between `r` and `e`, and `e` is at most `INPUT_BUF` ahead of `r`,
as unsigned differences. -/
structure Bounded (inp : Input) : Prop where
  committed_le : gap inp.r inp.w ≤ gap inp.r inp.e
  held_le : gap inp.r inp.e ≤ inputBuf

/-- `input.buf[input.e++ % INPUT_BUF] = c`. -/
def store (inp : Input) (c : UInt8) : Input :=
  { inp with buf := Function.update inp.buf (slotAt inp.e.toNat) c, e := inp.e + 1 }

/-- `input.e--`. -/
def erase (inp : Input) : Input := { inp with e := inp.e - 1 }

/-- `input.w = input.e`. -/
def commit (inp : Input) : Input := { inp with w := inp.e }

/-- `input.r++`. -/
def advance (inp : Input) : Input := { inp with r := inp.r + 1 }

theorem gap_erase_lt {inp : Input} (erasing : inp.e ≠ inp.w) :
    gap inp.erase.w inp.erase.e < gap inp.w inp.e := by
  have nonempty : 0 < gap inp.w inp.e :=
    Nat.pos_of_ne_zero fun zero => erasing (gap_eq_zero_iff.mp zero).symm
  show gap inp.w (inp.e - 1) < gap inp.w inp.e
  rw [gap_pred_back nonempty]
  omega

/-- The kill-line loop of `consoleintr`: erase back to `w`, stopping at a
newline. -/
def killLine (inp : Input) : Input :=
  if erasing : inp.e ≠ inp.w ∧ inp.buf (slotAt (inp.e - 1).toNat) ≠ nl then
    have := gap_erase_lt erasing.1
    killLine inp.erase
  else inp
termination_by gap inp.w inp.e

/-- One iteration of `consoleintr`'s loop, on the character `c` that `getc`
returned. -/
def intr (inp : Input) (c : UInt8) : Input :=
  if c = C 'P' then inp
  else if c = C 'U' then killLine inp
  else if c = C 'H' ∨ c = del then
    if inp.e ≠ inp.w then inp.erase else inp
  else if c ≠ 0 ∧ inp.e - inp.r < inputBuf.toUInt32 then
    let c := if c = cr then nl else c
    let inp := inp.store c
    if c = nl ∨ c = C 'D' ∨ inp.e = inp.r + inputBuf.toUInt32 then inp.commit else inp
  else inp

end Input

/-- `consoleintr`: one iteration for each character `getc` returns before it
returns -1. -/
def consoleintr (inp : Input) (getc : List UInt8) : Input := getc.foldl Input.intr inp

/-- A `consoleread` in progress: the count it was asked for, the count still to
go, and the bytes it has written through `dst`. -/
structure Call where
  target : Nat
  n : Nat
  dst : List UInt8

/-- Where `consoleread` goes after one iteration of its loop. -/
inductive Next where
  | loop (call : Call)
  | ret (value : Int) (dst : List UInt8)

/-- One iteration of `consoleread`'s loop, `none` while it sleeps on
`&input.r`.  `killed` is `myproc()->killed`. -/
def readStep (inp : Input) (call : Call) (killed : Bool) : Option (Input × Next) :=
  if call.n = 0 then some (inp, .ret (call.target - call.n : Int) call.dst)
  else if inp.r = inp.w then
    if killed then some (inp, .ret (-1) call.dst) else none
  else
    let c := inp.buf (slotAt inp.r.toNat)
    let inp := inp.advance
    if c = C 'D' then
      -- after some bytes a ^D is given back, so that the next read returns 0
      let inp := if call.n < call.target then { inp with r := inp.r - 1 } else inp
      some (inp, .ret (call.target - call.n : Int) call.dst)
    else
      let call := { call with n := call.n - 1, dst := call.dst ++ [c] }
      if c = nl then some (inp, .ret (call.target - call.n : Int) call.dst)
      else some (inp, .loop call)

namespace Input

variable {inp : Input}

theorem inputBuf_dvd : inputBuf ∣ 2 ^ 32 := by decide

theorem toNat_inputBuf : inputBuf.toUInt32.toNat = inputBuf := by decide

theorem cell_mod (inp : Input) (i : Nat) : inp.cell (i % inputBuf) = inp.cell i := by
  simp only [cell, slotAt, Nat.mod_mod]

theorem gap_pos {a b : UInt32} (apart : a ≠ b) : 0 < gap a b :=
  Nat.pos_of_ne_zero (mt gap_eq_zero_iff.mp apart)

theorem ne_of_gap_pos {a b : UInt32} (positive : 0 < gap a b) : a ≠ b :=
  fun same => Nat.pos_iff_ne_zero.mp positive (gap_eq_zero_iff.mpr same)

@[simp] theorem length_held (inp : Input) : inp.held.length = gap inp.r inp.e :=
  length_window _ _ _

theorem length_unread (bounded : inp.Bounded) : inp.unread.length = gap inp.r inp.w := by
  rw [unread, List.length_take, length_held]
  exact Nat.min_eq_left bounded.committed_le

theorem unread_append_editing (inp : Input) : inp.unread ++ inp.editing = inp.held :=
  List.take_append_drop _ _

theorem length_unread_add_editing (inp : Input) :
    inp.unread.length + inp.editing.length = gap inp.r inp.e := by
  rw [← List.length_append, unread_append_editing, length_held]

/-- Between `r` and `e`, the unsigned distance from `w` to `e` is the rest. -/
theorem gap_editing (bounded : inp.Bounded) :
    gap inp.r inp.e = gap inp.r inp.w + gap inp.w inp.e :=
  gap_split bounded.committed_le

theorem editing_eq_nil (bounded : inp.Bounded) : inp.editing = [] ↔ inp.e = inp.w := by
  rw [editing, List.drop_eq_nil_iff, length_held, gap_editing bounded, eq_comm,
    ← gap_eq_zero_iff]
  omega

theorem unread_eq_nil (bounded : inp.Bounded) : inp.unread = [] ↔ inp.r = inp.w := by
  rw [← List.length_eq_zero_iff, length_unread bounded, gap_eq_zero_iff]

/-- `input.e-input.r < INPUT_BUF`: fewer than `INPUT_BUF` bytes are held. -/
theorem room_iff : inp.e - inp.r < inputBuf.toUInt32 ↔ gap inp.r inp.e < inputBuf := by
  rw [UInt32.lt_iff_toNat_lt, toNat_inputBuf]
  rfl

/-- `input.e == input.r+INPUT_BUF` after a store: the store filled the buffer. -/
theorem store_full_iff (room : gap inp.r inp.e < inputBuf) (c : UInt8) :
    (inp.store c).e = (inp.store c).r + inputBuf.toUInt32 ↔ gap inp.r inp.e + 1 = inputBuf := by
  have grows : gap inp.r (inp.e + 1) = gap inp.r inp.e + 1 :=
    gap_succ_back (by unfold inputBuf at room; omega)
  show inp.e + 1 = inp.r + inputBuf.toUInt32 ↔ _
  rw [eq_add_iff_gap, toNat_inputBuf, grows]

/-! ## One lemma for each index move -/

/-- Storing at `e` with room left appends the byte to what is held. -/
theorem held_store (room : gap inp.r inp.e < inputBuf) (c : UInt8) :
    (inp.store c).held = inp.held ++ [c] := by
  have grows : gap inp.r (inp.e + 1) = gap inp.r inp.e + 1 :=
    gap_succ_back (by unfold inputBuf at room; omega)
  have atBack : slotAt inp.e.toNat = slotAt (inp.r.toNat + gap inp.r inp.e) :=
    Fin.ext (slot_back inputBuf_dvd inp.r inp.e)
  simp only [held, store, cell, grows, window_succ]
  congr 1
  · apply window_congr
    intro k below
    apply Function.update_of_ne
    rw [atBack]
    intro same
    exact slot_ne below room (congrArg Fin.val same)
  · rw [← atBack, Function.update_self]

/-- Erasing at `e` drops the newest byte held. -/
theorem held_erase (nonempty : inp.r ≠ inp.e) : inp.erase.held = inp.held.dropLast := by
  obtain ⟨count, wide⟩ := exists_gap_eq_succ nonempty
  simp only [held, erase, gap_pred_back_eq wide, wide, window_succ, List.dropLast_concat]
  rfl

/-- Advancing `r` drops the oldest byte held. -/
theorem held_advance (nonempty : inp.r ≠ inp.e) :
    inp.held = inp.cell inp.r.toNat :: inp.advance.held := by
  obtain ⟨count, wide⟩ := exists_gap_eq_succ nonempty
  simp only [held, advance]
  rw [wide, gap_succ_front_eq wide, window_succ_front]
  congr 1
  exact window_periodic (cell_mod inp) count (slot_succ inputBuf_dvd inp.r).symm

@[simp] theorem held_commit (inp : Input) : inp.commit.held = inp.held := rfl

/-! ## The unread and editing parts under each index move -/

/-- Committing makes everything held unread and empties the line. -/
theorem commit_parts (inp : Input) : inp.commit.unread = inp.held ∧ inp.commit.editing = [] := by
  have all : gap inp.commit.r inp.commit.w = inp.held.length := (length_held inp).symm
  constructor
  · rw [unread, held_commit, all, List.take_length]
  · rw [editing, held_commit, all, List.drop_length]

section Moves

variable (bounded : inp.Bounded)
include bounded

theorem store_parts (room : gap inp.r inp.e < inputBuf) (c : UInt8) :
    (inp.store c).unread = inp.unread ∧ (inp.store c).editing = inp.editing ++ [c] := by
  have within : gap inp.r inp.w ≤ inp.held.length := by
    rw [length_held]
    exact bounded.committed_le
  constructor
  · show (inp.store c).held.take (gap inp.r inp.w) = inp.held.take (gap inp.r inp.w)
    rw [held_store room, List.take_append_of_le_length within]
  · show (inp.store c).held.drop (gap inp.r inp.w) = inp.held.drop (gap inp.r inp.w) ++ [c]
    rw [held_store room, List.drop_append_of_le_length within]

theorem store_bounded (room : gap inp.r inp.e < inputBuf) (c : UInt8) :
    (inp.store c).Bounded := by
  have grows : gap inp.r (inp.e + 1) = gap inp.r inp.e + 1 :=
    gap_succ_back (by unfold inputBuf at room; omega)
  have committed_le := bounded.committed_le
  constructor
  · show gap inp.r inp.w ≤ gap inp.r (inp.e + 1)
    omega
  · show gap inp.r (inp.e + 1) ≤ inputBuf
    omega

theorem commit_bounded : inp.commit.Bounded :=
  ⟨Nat.le_refl _, bounded.held_le⟩

theorem erase_parts (erasing : inp.e ≠ inp.w) :
    inp.erase.unread = inp.unread ∧ inp.erase.editing = inp.editing.dropLast := by
  have apart := gap_editing bounded
  have positive := gap_pos erasing.symm
  have nonempty : inp.r ≠ inp.e := ne_of_gap_pos (by omega)
  have before : gap inp.r inp.w ≤ inp.held.length - 1 := by
    rw [length_held]
    omega
  constructor
  · show inp.erase.held.take (gap inp.r inp.w) = inp.held.take (gap inp.r inp.w)
    rw [held_erase nonempty, List.dropLast_eq_take, List.take_take, Nat.min_eq_left before]
  · show inp.erase.held.drop (gap inp.r inp.w) = (inp.held.drop (gap inp.r inp.w)).dropLast
    rw [held_erase nonempty, List.dropLast_drop_eq_drop_dropLast]

theorem erase_bounded (erasing : inp.e ≠ inp.w) : inp.erase.Bounded := by
  have apart := gap_editing bounded
  have positive := gap_pos erasing.symm
  have shrinks : gap inp.r (inp.e - 1) = gap inp.r inp.e - 1 :=
    gap_pred_back (by omega)
  have held_le := bounded.held_le
  constructor
  · show gap inp.r inp.w ≤ gap inp.r (inp.e - 1)
    omega
  · show gap inp.r (inp.e - 1) ≤ inputBuf
    omega

/-- Reading at `r` takes the oldest unread byte and leaves the line alone. -/
theorem advance_parts (nonempty : inp.r ≠ inp.w) :
    inp.unread = inp.cell inp.r.toNat :: inp.advance.unread ∧
      inp.advance.editing = inp.editing := by
  have held : inp.held = inp.cell inp.r.toNat :: inp.advance.held := by
    have positive := gap_pos nonempty
    have committed_le := bounded.committed_le
    exact held_advance (ne_of_gap_pos (by omega))
  obtain ⟨count, wide⟩ := exists_gap_eq_succ nonempty
  have shrinks : gap inp.advance.r inp.advance.w = count := gap_succ_front_eq wide
  constructor
  · rw [unread, unread, held, wide, shrinks, List.take_succ_cons]
  · rw [editing, editing, held, wide, shrinks, List.drop_succ_cons]

theorem advance_bounded (nonempty : inp.r ≠ inp.w) : inp.advance.Bounded := by
  have positive := gap_pos nonempty
  have committed_le := bounded.committed_le
  have held_le := bounded.held_le
  have shrinksCommitted : gap (inp.r + 1) inp.w = gap inp.r inp.w - 1 := gap_succ_front positive
  have shrinksHeld : gap (inp.r + 1) inp.e = gap inp.r inp.e - 1 := gap_succ_front (by omega)
  constructor
  · show gap (inp.r + 1) inp.w ≤ gap (inp.r + 1) inp.e
    omega
  · show gap (inp.r + 1) inp.e ≤ inputBuf
    omega

/-- The byte before `e`, which the kill-line loop tests, belongs to the line. -/
theorem newest_mem_editing (erasing : inp.e ≠ inp.w) :
    inp.cell (inp.e - 1).toNat ∈ inp.editing := by
  have apart := gap_editing bounded
  have positive := gap_pos erasing.symm
  obtain ⟨count, wide⟩ := exists_gap_eq_succ (ne_of_gap_pos (show 0 < gap inp.r inp.e by omega))
  have newest : inp.cell (inp.e - 1).toNat = inp.cell (inp.r.toNat + count) := by
    rw [← cell_mod, slot_back inputBuf_dvd inp.r (inp.e - 1), gap_pred_back_eq wide, cell_mod]
  have before : gap inp.r inp.w ≤ (window inp.cell inp.r.toNat count).length := by
    rw [length_window]
    omega
  rw [newest, editing, held, wide, window_succ, List.drop_append_of_le_length before]
  exact List.mem_append_right _ (List.mem_singleton_self _)

/-- The kill-line loop empties a line without newlines and keeps the rest. -/
theorem killLine_parts (lineFree : nl ∉ inp.editing) :
    (killLine inp).unread = inp.unread ∧ (killLine inp).editing = [] ∧
      (killLine inp).Bounded := by
  induction inp using killLine.induct with
  | case1 inp erasing _ inductionHypothesis =>
      rw [killLine, dif_pos erasing]
      obtain ⟨unread, editing⟩ := erase_parts bounded erasing.1
      have rest := inductionHypothesis (erase_bounded bounded erasing.1)
        (by rw [editing]; exact fun member => lineFree (List.dropLast_subset _ member))
      exact ⟨rest.1.trans unread, rest.2⟩
  | case2 inp stopped =>
      rw [killLine, dif_neg stopped]
      refine ⟨rfl, ?_, bounded⟩
      -- the loop only stops early at a newline, and the line has none
      by_cases erasing : inp.e ≠ inp.w
      · have newline : inp.cell (inp.e - 1).toNat = nl := by
          by_contra other
          exact stopped ⟨erasing, other⟩
        exact absurd (newline ▸ newest_mem_editing bounded erasing) lineFree
      · exact (editing_eq_nil bounded).mpr (not_not.mp erasing)

end Moves

end Input

/-! ## One iteration of consoleread -/

section Read

variable {inp : Input} {call : Call} {killed : Bool}

theorem readStep_done (done : call.n = 0) :
    readStep inp call killed = some (inp, .ret call.target call.dst) := by
  simp [readStep, done]

theorem readStep_empty (active : call.n ≠ 0) (empty : inp.r = inp.w) :
    readStep inp call killed = if killed then some (inp, .ret (-1) call.dst) else none := by
  simp only [readStep, if_neg active, if_pos empty]

/-- `input.r--` undoes `input.r++`. -/
theorem restore_advance (inp : Input) : { inp.advance with r := inp.advance.r - 1 } = inp := by
  show { inp with r := inp.r + 1 - 1 } = inp
  rw [UInt32.add_sub_cancel]

/-- A ^D ends the read; it stays in the buffer when bytes came before it. -/
theorem readStep_eof (active : call.n ≠ 0) (nonempty : inp.r ≠ inp.w)
    (eof : inp.cell inp.r.toNat = C 'D') :
    readStep inp call killed =
      some (if call.n < call.target then inp else inp.advance,
        .ret (call.target - call.n : Int) call.dst) := by
  have taken : inp.buf (slotAt inp.r.toNat) = C 'D' := eof
  simp only [readStep, if_neg active, if_neg nonempty, taken, if_true]
  by_cases before : call.n < call.target
  · rw [if_pos before, if_pos before, restore_advance]
  · rw [if_neg before, if_neg before]

/-- Any other byte is written through `dst`; a newline ends the read. -/
theorem readStep_byte (active : call.n ≠ 0) (nonempty : inp.r ≠ inp.w)
    (other : inp.cell inp.r.toNat ≠ C 'D') :
    readStep inp call killed =
      some (inp.advance,
        if inp.cell inp.r.toNat = nl then
          .ret (call.target - (call.n - 1 : Nat) : Int) (call.dst ++ [inp.cell inp.r.toNat])
        else .loop ⟨call.target, call.n - 1, call.dst ++ [inp.cell inp.r.toNat]⟩) := by
  have taken : inp.buf (slotAt inp.r.toNat) ≠ C 'D' := other
  simp only [readStep, if_neg active, if_neg nonempty, if_neg taken]
  by_cases newline : inp.cell inp.r.toNat = nl
  · have taken_newline : inp.buf (slotAt inp.r.toNat) = nl := newline
    rw [if_pos taken_newline, if_pos newline]
    rfl
  · have taken_other : inp.buf (slotAt inp.r.toNat) ≠ nl := newline
    rw [if_neg taken_other, if_neg newline]
    rfl

/-- The ways one iteration of `consoleread` can go, with the buffer and the
result each leaves. -/
inductive Iteration (inp : Input) (call : Call) (killed : Bool) : Input → Next → Prop
  | done : call.n = 0 → Iteration inp call killed inp (.ret call.target call.dst)
  | killed : call.n ≠ 0 → inp.r = inp.w → killed = true →
      Iteration inp call killed inp (.ret (-1) call.dst)
  | eofKept : call.n ≠ 0 → inp.r ≠ inp.w → inp.cell inp.r.toNat = C 'D' →
      call.n < call.target →
      Iteration inp call killed inp (.ret (call.target - call.n : Int) call.dst)
  | eofTaken : call.n ≠ 0 → inp.r ≠ inp.w → inp.cell inp.r.toNat = C 'D' →
      ¬call.n < call.target →
      Iteration inp call killed inp.advance (.ret (call.target - call.n : Int) call.dst)
  | newline : call.n ≠ 0 → inp.r ≠ inp.w → inp.cell inp.r.toNat = nl →
      Iteration inp call killed inp.advance
        (.ret (call.target - (call.n - 1 : Nat) : Int) (call.dst ++ [nl]))
  | byte : call.n ≠ 0 → inp.r ≠ inp.w → inp.cell inp.r.toNat ≠ C 'D' →
      inp.cell inp.r.toNat ≠ nl →
      Iteration inp call killed inp.advance
        (.loop ⟨call.target, call.n - 1, call.dst ++ [inp.cell inp.r.toNat]⟩)

theorem nl_ne_eof : nl ≠ C 'D' := by decide

/-- Every iteration that does not sleep goes one of the ways of `Iteration`. -/
theorem readStep_iteration {inp' : Input} {next : Next}
    (stepped : readStep inp call killed = some (inp', next)) :
    Iteration inp call killed inp' next := by
  by_cases done : call.n = 0
  · rw [readStep_done done, Option.some_inj, Prod.mk.injEq] at stepped
    obtain ⟨rfl, rfl⟩ := stepped
    exact .done done
  by_cases empty : inp.r = inp.w
  · rw [readStep_empty done empty] at stepped
    cases killed
    · cases stepped
    · rw [if_pos rfl, Option.some_inj, Prod.mk.injEq] at stepped
      obtain ⟨rfl, rfl⟩ := stepped
      exact .killed done empty rfl
  by_cases eof : inp.cell inp.r.toNat = C 'D'
  · rw [readStep_eof done empty eof, Option.some_inj, Prod.mk.injEq] at stepped
    obtain ⟨rfl, rfl⟩ := stepped
    by_cases before : call.n < call.target
    · rw [if_pos before]
      exact .eofKept done empty eof before
    · rw [if_neg before]
      exact .eofTaken done empty eof before
  rw [readStep_byte done empty eof, Option.some_inj, Prod.mk.injEq] at stepped
  obtain ⟨rfl, rfl⟩ := stepped
  by_cases newline : inp.cell inp.r.toNat = nl
  · rw [if_pos newline, newline]
    exact .newline done empty newline
  · rw [if_neg newline]
    exact .byte done empty eof newline

end Read

end Console
end Xv6
