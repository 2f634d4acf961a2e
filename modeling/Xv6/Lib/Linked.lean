import Mathlib.Logic.Function.Basic
import Mathlib.Data.List.Basic

/-!
# Singly linked lists through next pointers

A list in memory is a head pointer and a next pointer in every node, null
being `none`.  `Links next p l` says that following `next` from `p` visits the
nodes of `l` in order and then reaches null; such a chain never visits a node
twice (`Links.nodup`).  The pointer-to-pointer walk
`for(pp = &head; *pp; pp = &(*pp)->next)` stops at the null slot at the end
of the list; writing a fresh node there appends it (`links_append`), and
moving the head pointer to the first node's next pops it.  Nothing here
names a particular list.
-/

namespace Linked

variable {β : Type*}

/-- The nodes from `p` on, following `next` to null. -/
inductive Links (next : β → Option β) : Option β → List β → Prop
  | nil : Links next none []
  | cons {x : β} {rest : List β} : Links next (next x) rest → Links next (some x) (x :: rest)

section Links

variable {next : β → Option β} {p : Option β} {l : List β}

theorem Links.unique {l' : List β} (first : Links next p l) (second : Links next p l') : l = l' := by
  induction first generalizing l' with
  | nil =>
      cases second
      rfl
  | cons _ inductionHypothesis =>
      cases second with
      | cons rest => rw [inductionHypothesis rest]

/-- The pointer is the first node of the list. -/
theorem Links.eq_head? (links : Links next p l) : p = l.head? := by
  cases links <;> rfl

/-- The first node, and the chain after it. -/
theorem Links.of_cons {x : β} {rest : List β} (links : Links next p (x :: rest)) :
    p = some x ∧ Links next (next x) rest := by
  cases links with
  | cons tail => exact ⟨rfl, tail⟩

theorem Links.of_nil (links : Links next p []) : p = none := by
  cases links
  rfl

/-- Every suffix of the list is the chain from its own first node. -/
theorem Links.suffix {pre post : List β} (links : Links next p (pre ++ post)) : Links next post.head? post := by
  induction pre generalizing p with
  | nil =>
      rw [List.nil_append] at links
      rwa [← links.eq_head?]
  | cons x pre inductionHypothesis =>
      cases links with
      | cons rest => exact inductionHypothesis rest

/-- A chain that reaches null visits no node twice. -/
theorem Links.nodup (links : Links next p l) : l.Nodup := by
  induction links with
  | nil => exact List.nodup_nil
  | @cons x rest tail inductionHypothesis =>
      refine List.nodup_cons.mpr ⟨fun again => ?_, inductionHypothesis⟩
      -- from its second visit, `x` would lead to a proper suffix of `rest`
      obtain ⟨pre, post, split⟩ := List.append_of_mem again
      have fromSecond : Links next (some x) (x :: post) := by
        rw [split] at tail
        exact tail.suffix
      have same : x :: rest = x :: post := (Links.cons tail).unique fromSecond
      have lengths := congrArg List.length same
      rw [split] at lengths
      simp only [List.length_cons, List.length_append] at lengths
      omega

/-- Next pointers outside the list do not matter. -/
theorem Links.frame {next' : β → Option β} (links : Links next p l) (same : ∀ x ∈ l, next' x = next x) :
    Links next' p l := by
  induction links with
  | nil => exact .nil
  | @cons x rest _ inductionHypothesis =>
      refine .cons ?_
      rw [same x List.mem_cons_self]
      exact inductionHypothesis fun y member => same y (List.mem_cons_of_mem x member)

end Links

/-! ## A list in memory -/

/-- The memory holding a linked list: its head pointer and the next pointer of
every node. -/
structure Memory (β : Type*) where
  head : Option β
  next : β → Option β

/-- A place that holds a pointer: the head, or the next field of a node. -/
inductive Slot (β : Type*)
  | head
  | next (node : β)
  deriving DecidableEq

namespace Memory

/-- `*pp`. -/
def read (c : Memory β) : Slot β → Option β
  | .head => c.head
  | .next x => c.next x

/-- The null slot at the end of the list that starts in slot `pp`. -/
def endSlot : Slot β → List β → Slot β
  | pp, [] => pp
  | _, x :: rest => endSlot (.next x) rest

/-- The end slot of a nonempty list is the next field of one of its nodes. -/
theorem endSlot_cons (x : β) (rest : List β) (pp : Slot β) :
    ∃ y ∈ x :: rest, endSlot pp (x :: rest) = .next y := by
  induction rest generalizing x with
  | nil => exact ⟨x, List.mem_cons_self, rfl⟩
  | cons z rest inductionHypothesis =>
      obtain ⟨y, member, found⟩ := inductionHypothesis z
      exact ⟨y, List.mem_cons_of_mem x member, found⟩

variable [DecidableEq β]

/-- `*pp = p`. -/
def write (c : Memory β) : Slot β → Option β → Memory β
  | .head, p => { c with head := p }
  | .next x, p => { c with next := Function.update c.next x p }

/-- `for(; *pp; pp = &(*pp)->next); *pp = some b;` from the slot `pp`, for at
most `fuel` turns. -/
def appendFrom (c : Memory β) (b : β) : Slot β → Nat → Option (Memory β)
  | _, 0 => none
  | pp, fuel + 1 =>
      match c.read pp with
      | some x => c.appendFrom b (.next x) fuel
      | none => some (c.write pp (some b))

theorem read_write_self (c : Memory β) (pp : Slot β) (p : Option β) : (c.write pp p).read pp = p := by
  cases pp <;> simp [read, write]

theorem read_write_of_ne (c : Memory β) {pp pp' : Slot β} (other : pp' ≠ pp) (p : Option β) :
    (c.write pp p).read pp' = c.read pp' := by
  cases pp <;> cases pp'
  · exact absurd rfl other
  · rfl
  · rfl
  · rename_i x y
    have different : y ≠ x := fun same => other (by rw [same])
    simp only [read, write, Function.update_of_ne different]

/-- The next pointers after a write to the slot `pp`: only a node's own slot
changes its next pointer. -/
theorem next_write_of_ne (c : Memory β) {pp : Slot β} {x : β} (other : Slot.next x ≠ pp) (p : Option β) :
    (c.write pp p).next x = c.next x :=
  read_write_of_ne c other p

/-- The walk stops at the end of the list, within a turn more than its
length, and writes that slot. -/
theorem appendFrom_eq (c : Memory β) (b : β) {pp : Slot β} {l : List β} (links : Links c.next (c.read pp) l)
    {fuel : Nat} (enough : l.length < fuel) : c.appendFrom b pp fuel = some (c.write (endSlot pp l) (some b)) := by
  induction l generalizing pp fuel with
  | nil =>
      obtain ⟨turns, rfl⟩ : ∃ turns, fuel = turns + 1 := ⟨fuel - 1, by omega⟩
      rw [appendFrom, links.of_nil]
      rfl
  | cons x rest inductionHypothesis =>
      obtain ⟨first, tail⟩ := links.of_cons
      obtain ⟨turns, rfl⟩ : ∃ turns, fuel = turns + 1 := ⟨fuel - 1, by omega⟩
      rw [appendFrom, first]
      exact @inductionHypothesis (.next x) tail _ (by simp only [List.length_cons] at enough; omega)

/-- Writing a fresh node `b`, whose next pointer is null, into the end slot
of the list that starts in slot `pp` appends `b` to that list, when `pp` is
not the next field of `b` or of a node of the list. -/
theorem links_append (c : Memory β) {b : β} {pp : Slot β} {l : List β} (links : Links c.next (c.read pp) l)
    (fresh : b ∉ l) (last : c.next b = none) (outside : ∀ y, pp = .next y → y ∉ b :: l) :
    Links (c.write (endSlot pp l) (some b)).next ((c.write (endSlot pp l) (some b)).read pp) (l ++ [b]) := by
  induction l generalizing pp with
  | nil =>
      rw [endSlot, read_write_self]
      refine .cons ?_
      rw [next_write_of_ne c (fun same => outside b same.symm List.mem_cons_self), last]
      exact .nil
  | cons x rest inductionHypothesis =>
      obtain ⟨first, tail⟩ := links.of_cons
      have distinct := List.nodup_cons.mp links.nodup
      -- the slot written is the next field of a node of the list, so not `pp`
      have notFirst : pp ≠ endSlot pp (x :: rest) := by
        obtain ⟨y, member, atEnd⟩ := endSlot_cons x rest pp
        rw [atEnd]
        intro same
        exact outside y same (List.mem_cons_of_mem b member)
      rw [List.cons_append, read_write_of_ne c notFirst, first]
      refine .cons ?_
      refine @inductionHypothesis (.next x) tail (fun member => fresh (List.mem_cons_of_mem x member)) ?_
      intro y same
      cases same
      rintro (_ | ⟨_, inRest⟩)
      · exact fresh List.mem_cons_self
      · exact distinct.1 inRest

end Memory

end Linked
