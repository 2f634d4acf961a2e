import Mathlib.Data.List.Nodup
import Mathlib.Logic.Function.Basic

/-!
# Circular doubly linked lists with a sentinel

The nodes of the list are the values of a type `α`, and one extra node,
`none`, is the sentinel every walk starts and ends at.  The links are two
pointer tables `next` and `prev`; they represent a list `xs` of distinct
values when `next` leads from the sentinel through `xs` and back, and `prev`
through `xs` reversed.  The module gives the two pointer operations a cache
of this shape is built from (unlinking a node and pushing it right after the
sentinel), proves that they act on the represented list as `List.erase` and
`List.cons` do, and that a walk along the links visits the list in order.
-/

namespace CircularList

variable {α : Type*} [DecidableEq α]

/-- The element after `a` in `xs`: `none` when `a` is the last one or
missing. -/
def nextIn : List α → α → Option α
  | [], _ => none
  | x :: rest, a => if x = a then rest.head? else nextIn rest a

@[simp] theorem nextIn_nil (a : α) : nextIn [] a = none := rfl

@[simp] theorem nextIn_cons_self (a : α) (rest : List α) : nextIn (a :: rest) a = rest.head? := by
  simp [nextIn]

theorem nextIn_cons_of_ne {x a : α} (rest : List α) (other : x ≠ a) :
    nextIn (x :: rest) a = nextIn rest a := by
  simp [nextIn, other]

theorem nextIn_append_of_not_mem {a : α} (r : List α) :
    ∀ {l : List α}, a ∉ l → nextIn (l ++ r) a = nextIn r a
  | [], _ => rfl
  | x :: l, missing => by
      have other : x ≠ a := fun same => missing (same ▸ List.mem_cons_self)
      rw [List.cons_append, nextIn_cons_of_ne _ other,
        nextIn_append_of_not_mem r fun found => missing (List.mem_cons_of_mem x found)]

/-- Inside a list of distinct values, the element after `a ∈ l` in `l ++ r`
is the one after it in `l`, or the first of `r` when `a` ends `l`. -/
theorem nextIn_append_of_mem {a : α} (r : List α) :
    ∀ {l : List α}, l.Nodup → a ∈ l →
      nextIn (l ++ r) a = if l.getLast? = some a then r.head? else nextIn l a
  | [], _, found => absurd found List.not_mem_nil
  | [x], _, found => by
      rw [List.mem_singleton] at found
      subst found
      simp
  | x :: y :: l, nodup, found => by
      have tail := nodup.of_cons
      rw [List.getLast?_cons_cons, List.cons_append]
      by_cases first : x = a
      · subst first
        have last : (y :: l).getLast? ≠ some x := by
          intro last
          exact (List.nodup_cons.mp nodup).1 (List.mem_of_getLast? last)
        rw [nextIn_cons_self, nextIn_cons_self, if_neg last]
        rfl
      · rw [nextIn_cons_of_ne _ first, nextIn_cons_of_ne _ first]
        exact nextIn_append_of_mem r tail (List.mem_of_ne_of_mem (Ne.symm first) found)

/-- In a list of distinct values, the element after `a` is the head of what
follows `a`. -/
theorem nextIn_middle {pre rest : List α} {a : α} (nodup : (pre ++ a :: rest).Nodup) :
    nextIn (pre ++ a :: rest) a = rest.head? := by
  have missing : a ∉ pre := (List.nodup_middle.mp nodup |> List.nodup_cons.mp).1 ∘
    fun found => List.mem_append_left rest found
  rw [nextIn_append_of_not_mem _ missing, nextIn_cons_self]

/-- `link` leads from the sentinel through `xs` in order and back. -/
structure Follows (link : Option α → Option α) (xs : List α) : Prop where
  head : link none = xs.head?
  step : ∀ a ∈ xs, link (some a) = nextIn xs a

theorem Follows.middle {link : Option α → Option α} {pre rest : List α} {a : α}
    (follows : Follows link (pre ++ a :: rest)) (nodup : (pre ++ a :: rest).Nodup) :
    link (some a) = rest.head? := by
  rw [follows.step a (List.mem_append_right pre List.mem_cons_self), nextIn_middle nodup]

/-- Pushing `b` right after the sentinel: `b->next = head.next`, then
`head.next = b`. -/
theorem Follows.cons {link : Option α → Option α} {xs : List α} {b : α} (follows : Follows link xs)
    (fresh : b ∉ xs) :
    Follows (Function.update (Function.update link (some b) (link none)) none (some b)) (b :: xs) := by
  refine ⟨by rw [Function.update_self]; rfl, fun a found => ?_⟩
  rw [Function.update_of_ne (Option.some_ne_none a)]
  by_cases same : a = b
  · subst same
    rw [Function.update_self, nextIn_cons_self, follows.head]
  · have old : a ∈ xs := List.mem_of_ne_of_mem same found
    rw [Function.update_of_ne (by simpa using same), nextIn_cons_of_ne _ (Ne.symm same),
      follows.step a old]

/-- Appending `b` after the last node: `b->prev = head`, then the old last
node's link goes to `b`.  Read backwards, this is how the `prev` links see
a push at the front. -/
theorem Follows.concat {link : Option α → Option α} {xs : List α} {b : α} (follows : Follows link xs)
    (nodup : xs.Nodup) (fresh : b ∉ xs) :
    Follows (Function.update (Function.update link (some b) none) xs.getLast? (some b)) (xs ++ [b]) := by
  have notLast : xs.getLast? ≠ some b := fun last => fresh (List.mem_of_getLast? last)
  refine ⟨?_, fun a found => ?_⟩
  · cases xs with
    | nil => rw [List.getLast?_nil, Function.update_self]; rfl
    | cons x rest =>
        have ended : (x :: rest).getLast? ≠ none := by simp
        rw [Function.update_of_ne (Ne.symm ended), Function.update_of_ne (Option.some_ne_none b).symm,
          follows.head]
        rfl
  · rcases List.mem_append.mp found with old | new
    · rw [nextIn_append_of_mem _ nodup old]
      by_cases last : xs.getLast? = some a
      · rw [if_pos last, ← last, Function.update_self]
        rfl
      · have other : a ≠ b := fun same => fresh (same ▸ old)
        rw [Function.update_of_ne (Ne.symm last), Function.update_of_ne (by simpa using other),
          if_neg last, follows.step a old]
    · rw [List.mem_singleton] at new
      subst new
      rw [Function.update_of_ne (Ne.symm notLast), Function.update_self,
        nextIn_append_of_not_mem _ fresh, nextIn_cons_self]
      rfl

/-- Unlinking `b`: the node before it now leads to the node after it. -/
theorem Follows.erase {link : Option α → Option α} {pre rest : List α} {b : α}
    (follows : Follows link (pre ++ b :: rest)) (nodup : (pre ++ b :: rest).Nodup) :
    Follows (Function.update link pre.getLast? rest.head?) (pre ++ rest) := by
  have shorter : (pre ++ rest).Nodup := by
    have := List.nodup_middle.mp nodup
    exact (List.nodup_cons.mp this).2
  have missing : b ∉ pre ++ rest := by
    have := List.nodup_middle.mp nodup
    exact (List.nodup_cons.mp this).1
  have preNodup : pre.Nodup := (List.nodup_append.mp shorter).1
  refine ⟨?_, fun a found => ?_⟩
  · cases pre with
    | nil => rw [List.getLast?_nil, Function.update_self]; rfl
    | cons x pre =>
        have ended : (x :: pre).getLast? ≠ none := by simp
        rw [Function.update_of_ne (Ne.symm ended), follows.head]
        rfl
  · have other : a ≠ b := fun same => missing (same ▸ found)
    rcases List.mem_append.mp found with before | after
    · rw [nextIn_append_of_mem _ preNodup before]
      by_cases last : pre.getLast? = some a
      · rw [if_pos last, ← last, Function.update_self]
      · rw [Function.update_of_ne (Ne.symm last), if_neg last,
          follows.step a (List.mem_append_left _ before), nextIn_append_of_mem _ preNodup before,
          if_neg last]
    · have notPre : a ∉ pre := fun found' =>
        List.disjoint_of_nodup_append shorter found' after
      have notLast : pre.getLast? ≠ some a := fun last => notPre (List.mem_of_getLast? last)
      rw [Function.update_of_ne (Ne.symm notLast),
        follows.step a (List.mem_append_right _ (List.mem_cons_of_mem b after)),
        nextIn_append_of_not_mem _ notPre, nextIn_append_of_not_mem _ notPre,
        nextIn_cons_of_ne _ (Ne.symm other)]

/-- Each of the two links undoes the other on every node of the list. -/
theorem Follows.inverse {f g : Option α → Option α} {xs : List α} (forward : Follows f xs)
    (backward : Follows g xs.reverse) (nodup : xs.Nodup) :
    ∀ u, (∀ a, u = some a → a ∈ xs) → g (f u) = u
  | none, _ => by
      rw [forward.head]
      cases xs with
      | nil => exact backward.head
      | cons x rest =>
          have reversed : (x :: rest).reverse = rest.reverse ++ x :: [] := List.reverse_cons
          rw [List.head?_cons, backward.step x (by simp), reversed,
            nextIn_middle (by rw [← reversed]; exact List.nodup_reverse.mpr nodup)]
          rfl
  | some a, inList => by
      obtain ⟨pre, rest, split⟩ := List.append_of_mem (inList a rfl)
      subst split
      rw [forward.middle nodup]
      cases rest with
      | nil => simp [backward.head]
      | cons c rest =>
          have reversed : (pre ++ a :: c :: rest).reverse = rest.reverse ++ c :: a :: pre.reverse := by
            simp
          have backward' : Follows g (rest.reverse ++ c :: a :: pre.reverse) := reversed ▸ backward
          rw [List.head?_cons, backward'.middle (by rw [← reversed]; exact List.nodup_reverse.mpr nodup)]
          rfl

/-- The two pointers of every node and of the sentinel. -/
structure Links (α : Type*) where
  next : Option α → Option α
  prev : Option α → Option α

/-- The sentinel alone: `head.next = head.prev = &head`. -/
def Links.empty : Links α := ⟨fun _ => none, fun _ => none⟩

/-- Put `b` right after the sentinel, statement by statement:
`b->next = head.next; b->prev = &head; head.next->prev = b; head.next = b`. -/
def Links.pushFront (l : Links α) (b : α) : Links α :=
  let l₁ := { l with next := Function.update l.next (some b) (l.next none) }
  let l₂ := { l₁ with prev := Function.update l₁.prev (some b) none }
  let l₃ := { l₂ with prev := Function.update l₂.prev (l₂.next none) (some b) }
  { l₃ with next := Function.update l₃.next none (some b) }

/-- Take `b` out of the cycle: `b->next->prev = b->prev; b->prev->next = b->next`. -/
def Links.unlink (l : Links α) (b : α) : Links α :=
  let l₁ := { l with prev := Function.update l.prev (l.next (some b)) (l.prev (some b)) }
  { l₁ with next := Function.update l₁.next (l₁.prev (some b)) (l₁.next (some b)) }

/-- The links hold the distinct values `xs`, in order from the sentinel. -/
structure Links.Represents (l : Links α) (xs : List α) : Prop where
  nodup : xs.Nodup
  next : Follows l.next xs
  prev : Follows l.prev xs.reverse

namespace Links

variable {l : Links α} {xs : List α}

theorem represents_empty : (Links.empty : Links α).Represents [] :=
  ⟨List.nodup_nil, ⟨rfl, fun _ found => absurd found List.not_mem_nil⟩,
    ⟨rfl, fun _ found => absurd found List.not_mem_nil⟩⟩

theorem Represents.pushFront (rep : l.Represents xs) {b : α} (fresh : b ∉ xs) :
    (l.pushFront b).Represents (b :: xs) := by
  refine ⟨List.nodup_cons.mpr ⟨fresh, rep.nodup⟩, rep.next.cons fresh, ?_⟩
  have first : (Function.update l.next (some b) (l.next none)) none = xs.reverse.getLast? := by
    rw [Function.update_of_ne (Option.some_ne_none b).symm, rep.next.head, List.getLast?_reverse]
  show Follows (Function.update (Function.update l.prev (some b) none)
    ((Function.update l.next (some b) (l.next none)) none) (some b)) (b :: xs).reverse
  rw [first, List.reverse_cons]
  exact rep.prev.concat (List.nodup_reverse.mpr rep.nodup) (by simpa using fresh)

theorem Represents.unlink (rep : l.Represents xs) {b : α} (found : b ∈ xs) :
    (l.unlink b).Represents (xs.erase b) := by
  obtain ⟨pre, rest, split⟩ := List.append_of_mem found
  subst split
  have nodup := rep.nodup
  have missing : b ∉ pre := fun found' =>
    (List.nodup_cons.mp (List.nodup_middle.mp nodup)).1 (List.mem_append_left rest found')
  have notRest : b ∉ rest := fun found' =>
    (List.nodup_cons.mp (List.nodup_middle.mp nodup)).1 (List.mem_append_right pre found')
  have reversed : (pre ++ b :: rest).reverse = rest.reverse ++ b :: pre.reverse := by simp
  have reversedNodup : (rest.reverse ++ b :: pre.reverse).Nodup := by
    rw [← reversed]
    exact List.nodup_reverse.mpr nodup
  have backward : Follows l.prev (rest.reverse ++ b :: pre.reverse) := reversed ▸ rep.prev
  have after : l.next (some b) = rest.head? := rep.next.middle nodup
  have before : l.prev (some b) = pre.getLast? := by
    rw [backward.middle reversedNodup, List.head?_reverse]
  have stays : Function.update l.prev (l.next (some b)) (l.prev (some b)) (some b) = pre.getLast? := by
    rw [after, Function.update_of_ne, before]
    intro same
    exact notRest (List.mem_of_mem_head? same.symm)
  have erased : (pre ++ b :: rest).erase b = pre ++ rest := by
    rw [List.erase_append_right _ missing, List.erase_cons_head]
  rw [erased]
  refine ⟨(List.nodup_cons.mp (List.nodup_middle.mp nodup)).2, ?_, ?_⟩
  · show Follows (Function.update l.next
      (Function.update l.prev (l.next (some b)) (l.prev (some b)) (some b)) (l.next (some b)))
      (pre ++ rest)
    rw [stays, after]
    exact rep.next.erase nodup
  · show Follows (Function.update l.prev (l.next (some b)) (l.prev (some b))) (pre ++ rest).reverse
    rw [after, before, List.reverse_append]
    have erasedBack := backward.erase reversedNodup
    rwa [List.getLast?_reverse, List.head?_reverse] at erasedBack

/-- Pushing the values of `ys` one after the other. -/
theorem Represents.foldl_pushFront (ys : List α) :
    ∀ {l : Links α} {xs : List α}, l.Represents xs → (ys.reverse ++ xs).Nodup →
      (ys.foldl Links.pushFront l).Represents (ys.reverse ++ xs) := by
  induction ys with
  | nil => exact fun rep _ => rep
  | cons y ys pushed =>
      intro l xs rep nodup
      rw [List.reverse_cons, List.append_assoc, List.singleton_append] at nodup ⊢
      have fresh : y ∉ xs := (List.nodup_cons.mp (List.nodup_middle.mp nodup)).1 ∘
        List.mem_append_right ys.reverse
      exact pushed (rep.pushFront fresh) nodup

/-- `prev` undoes `next` and `next` undoes `prev`, on every node when the
list holds every value. -/
theorem Represents.inverse (rep : l.Represents xs) (complete : ∀ a, a ∈ xs) (u : Option α) :
    l.prev (l.next u) = u ∧ l.next (l.prev u) = u := by
  have inList : ∀ a, u = some a → a ∈ xs := fun a _ => complete a
  refine ⟨rep.next.inverse rep.prev rep.nodup u inList, ?_⟩
  have forward : Follows l.next xs.reverse.reverse := by rw [List.reverse_reverse]; exact rep.next
  exact rep.prev.inverse forward (List.nodup_reverse.mpr rep.nodup) u
    fun a _ => List.mem_reverse.mpr (complete a)

end Links

/-! ## Walking the links -/

/-- Follow `link` from `start` until the sentinel and return the first node
that passes `test`, visiting at most `fuel` nodes. -/
def scan (link : Option α → Option α) (test : α → Bool) : Nat → Option α → Option α
  | _, none => none
  | 0, some _ => none
  | fuel + 1, some a => if test a then some a else scan link test fuel (link (some a))

/-- The nodes met following `link` from `start` until the sentinel, if it is
reached within `fuel` nodes. -/
def walk (link : Option α → Option α) : Nat → Option α → Option (List α)
  | _, none => some []
  | 0, some _ => none
  | fuel + 1, some a => (walk link fuel (link (some a))).map (a :: ·)

variable {link : Option α → Option α} {xs : List α}

theorem Follows.scan_suffix (follows : Follows link xs) (nodup : xs.Nodup) (test : α → Bool)
    (rest : List α) : ∀ pre, pre ++ rest = xs → scan link test rest.length rest.head? = rest.find? test := by
  induction rest with
  | nil => exact fun _ _ => rfl
  | cons a rest later =>
      intro pre split
      have after : link (some a) = rest.head? := by
        subst split
        exact follows.middle nodup
      rw [List.length_cons, List.head?_cons, scan, List.find?_cons, after,
        later (pre ++ [a]) (by rw [← split]; simp)]
      cases test a <;> rfl

/-- bget's loops: walking a represented list from the sentinel visits it in order. -/
theorem Follows.scan (follows : Follows link xs) (nodup : xs.Nodup) (test : α → Bool) :
    scan link test xs.length (link none) = xs.find? test := by
  rw [follows.head]
  exact follows.scan_suffix nodup test xs [] rfl

theorem Follows.walk_suffix (follows : Follows link xs) (nodup : xs.Nodup) (rest : List α) :
    ∀ pre, pre ++ rest = xs → walk link rest.length rest.head? = some rest := by
  induction rest with
  | nil => exact fun _ _ => rfl
  | cons a rest later =>
      intro pre split
      have after : link (some a) = rest.head? := by
        subst split
        exact follows.middle nodup
      rw [List.length_cons, List.head?_cons, walk, after, later (pre ++ [a]) (by rw [← split]; simp)]
      rfl

theorem Follows.walk (follows : Follows link xs) (nodup : xs.Nodup) :
    walk link xs.length (link none) = some xs := by
  rw [follows.head]
  exact follows.walk_suffix nodup xs [] rfl

end CircularList
