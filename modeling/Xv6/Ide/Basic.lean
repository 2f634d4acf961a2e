import Xv6.Param
import Xv6.Lib.Linked
import Xv6.Lib.Transition
import Mathlib.Data.Fintype.Card

/-!
# The IDE driver

ide.c keeps the requests for the disk on `idequeue`, a list of buffers linked
through their `qnext` fields; the disk works on the request at its head.
iderw appends a locked buffer to the queue, starts the disk when the queue
was empty and sleeps until the buffer is `B_VALID` and not `B_DIRTY`.
ideintr, at the disk's interrupt, pops the head, reads its data from the disk
when it was a read and the disk reports no error, marks it `B_VALID` and
clean, wakes its sleeper and starts the disk on the next request.  Each of
them runs under `idelock`, so each is one atomic step here, as is the return
of a sleeper from iderw once its buffer is done.  Around them the file
system takes and releases sleep-locks, fills buffers and marks them
`B_DIRTY`, and recycles them for other blocks.

The buffers are a finite type `β`, each with the fields iderw and ideintr use;
the disk is the contents of every block, with the command it is working on.
There is one disk, so the `havedisk1` check is left out, and `b` is never
null.  Beside the C state, a ghost log numbers the requests in the order
iderw issued them, records those ideintr completed, and whether the disk
reported an error for each buffer's last one.  A panic is `.error` with its
message.
-/

namespace Xv6
namespace Ide

open Linked

/-- The fields of struct buf that iderw and ideintr use; `qnext` lives with
`idequeue` in the queue's memory. -/
structure Buf (δ : Type*) where
  valid : Bool
  dirty : Bool
  blockno : Nat
  data : δ

/-- `(b->flags & (B_VALID|B_DIRTY)) == B_VALID`: the buffer holds its block
and has nothing to write. -/
def Buf.synced {δ : Type*} (x : Buf δ) : Bool := x.valid && !x.dirty

/-- A command in the disk's registers: the buffer idestart issued it for, its
block and, for a write, the data `outsl` sent. -/
structure Command (β δ : Type*) where
  buf : β
  blockno : Nat
  write : Option δ

/-- The driver, the disk, the sleep-locks and the processes inside iderw. -/
structure State (ι β δ : Type*) where
  buf : β → Buf δ
  /-- `idequeue` and the `qnext` field of every buffer. -/
  queue : Memory β
  disk : Nat → δ
  /-- The command the disk is working on. -/
  busy : Option (Command β δ)
  lock : β → Option ι
  /-- The buffer each process inside iderw sleeps on. -/
  sleeping : ι → Option β
  /-- Ghost: the number of each buffer's last request. -/
  request : β → Nat
  /-- Ghost: the requests iderw issued, in order. -/
  issued : List Nat
  /-- Ghost: the requests ideintr completed, in order. -/
  completed : List Nat
  /-- Ghost: whether the disk reported an error for each buffer's last request. -/
  failed : β → Bool

variable {ι β δ : Type*}

/-- The command idestart issues for `b`. -/
def State.command (s : State ι β δ) (b : β) : Command β δ :=
  ⟨b, (s.buf b).blockno, if (s.buf b).dirty then some (s.buf b).data else none⟩

/-- The disk finishing its command: a write reaches its block unless the disk
reports an error. -/
def finish (s : State ι β δ) (err : Bool) : State ι β δ :=
  match s.busy with
  | some ⟨_, blockno, some x⟩ =>
      if err then { s with busy := none } else { s with disk := Function.update s.disk blockno x, busy := none }
  | _ => { s with busy := none }

/-- idestart(b): panic for a block beyond the file system, else the command
for `b` goes to the disk.  (`sector_per_block` is 1.) -/
def idestart (s : State ι β δ) (b : β) : Except String (State ι β δ) :=
  if (s.buf b).blockno ≥ fsSize then .error "incorrect blockno"
  else .ok { s with busy := some (s.command b) }

theorem finish_busy (s : State ι β δ) (err : Bool) : (finish s err).busy = none := by
  unfold finish
  split <;> (try split) <;> rfl

/-- The disk finishing the command idestart issued for `b`. -/
theorem finish_command {s : State ι β δ} {b : β} (busy : s.busy = some (s.command b)) (err : Bool) :
    finish s err = { s with
      disk := if (s.buf b).dirty && !err then Function.update s.disk (s.buf b).blockno (s.buf b).data else s.disk
      busy := none } := by
  unfold finish
  rw [busy]
  unfold State.command
  cases dirty : (s.buf b).dirty <;> cases err <;> simp

/-- An interrupt with no command outstanding changes nothing. -/
theorem finish_idle {s : State ι β δ} (idle : s.busy = none) (err : Bool) : finish s err = s := by
  unfold finish
  rw [idle]
  cases s
  simp only at idle
  rw [idle]

variable [DecidableEq β]

/-- ideintr's work on the head `b` once it is popped: `insl` for a read the
disk reports no error for (`idewait(1) >= 0`), then `B_VALID` set and
`B_DIRTY` cleared. -/
def complete (s : State ι β δ) (b : β) (err : Bool) : State ι β δ :=
  let x := s.buf b
  let data := if !x.dirty && !err then s.disk x.blockno else x.data
  { s with
    queue := s.queue.write .head (s.queue.next b)
    buf := Function.update s.buf b { x with data := data, valid := true, dirty := false }
    completed := s.completed ++ [s.request b]
    failed := Function.update s.failed b err }

/-- ideintr, with `err` the error bits of the disk's status: nothing for an
empty queue; else complete the head and start the disk on the next one.
(`wakeup(b)` makes the sleeper runnable; it returns by its own step.) -/
def ideintr (s : State ι β δ) (err : Bool) : Except String (State ι β δ) :=
  match s.queue.head with
  | none => .ok s
  | some b =>
      let s' := complete s b err
      match s'.queue.head with
      | some next => idestart s' next
      | none => .ok s'

theorem complete_buf_self (s : State ι β δ) (b : β) (err : Bool) :
    (complete s b err).buf b =
      { s.buf b with
        data := if !(s.buf b).dirty && !err then s.disk (s.buf b).blockno else (s.buf b).data
        valid := true
        dirty := false } :=
  Function.update_self ..

theorem complete_buf_of_ne (s : State ι β δ) {b c : β} (other : c ≠ b) (err : Bool) :
    (complete s b err).buf c = s.buf c :=
  Function.update_of_ne other ..

theorem complete_blockno (s : State ι β δ) (b : β) (err : Bool) (c : β) :
    ((complete s b err).buf c).blockno = (s.buf c).blockno := by
  by_cases here : c = b
  · rw [here, complete_buf_self]
  · rw [complete_buf_of_ne s here]

theorem complete_disk (s : State ι β δ) (b : β) (err : Bool) : (complete s b err).disk = s.disk :=
  rfl

theorem complete_failed (s : State ι β δ) (b : β) (err : Bool) :
    (complete s b err).failed = Function.update s.failed b err :=
  rfl

/-- The state once iderw has put `b` on the queue `queue`: its request is
numbered next. -/
def issue (s : State ι β δ) (b : β) (queue : Memory β) : State ι β δ :=
  { s with
    queue := queue
    request := Function.update s.request b s.issued.length
    issued := s.issued ++ [s.issued.length] }

variable [DecidableEq ι] [Fintype β]

/-- iderw(b) by the process `p`, up to its first sleep: the checks, `b->qnext
= 0`, the append by the pointer-to-pointer walk (given a turn for each
buffer and one more), idestart when `b` is the only request, and the sleep.
`none` when the walk runs out of turns, which a queue of distinct buffers
never does. -/
def iderw (s : State ι β δ) (p : ι) (b : β) : Option (Except String (State ι β δ)) :=
  if s.lock b ≠ some p then some (.error "iderw: buf not locked")
  else if (s.buf b).synced then some (.error "iderw: nothing to do")
  else
    ((s.queue.write (.next b) none).appendFrom b .head (Fintype.card β + 1)).map fun queue =>
      let s' := issue s b queue
      (if queue.head = some b then idestart s' b else .ok s').map fun s'' =>
        -- `while((b->flags & (B_VALID|B_DIRTY)) != B_VALID) sleep(b, &idelock);`
        if (s''.buf b).synced then s'' else { s'' with sleeping := Function.update s''.sleeping p (some b) }

/-- The steps of the system. -/
inductive Action (ι β δ : Type*)
  /-- `acquiresleep(&b->lock)`. -/
  | acquire (p : ι) (b : β)
  /-- `releasesleep(&b->lock)`. -/
  | release (p : ι) (b : β)
  /-- The file system fills a locked buffer and marks it `B_DIRTY`. -/
  | write (p : ι) (b : β) (x : δ)
  /-- bget reuses a clean buffer for a block no other buffer holds, with its
  flags cleared. -/
  | recycle (p : ι) (b : β) (blockno : Nat)
  /-- iderw(b), up to its sleep. -/
  | iderw (p : ι) (b : β)
  /-- A process sleeping in iderw returns, its buffer done. -/
  | wake (p : ι)
  /-- The disk finishes its command and interrupts; ideintr runs. -/
  | intr (err : Bool)

/-- The return from iderw: once `B_VALID` is set and `B_DIRTY` clear, release
`idelock` and return; a sleeper woken before goes back to sleep. -/
def wake (s : State ι β δ) (p : ι) : Option (State ι β δ) :=
  match s.sleeping p with
  | some b => if (s.buf b).synced then some { s with sleeping := Function.update s.sleeping p none } else none
  | none => none

/-- One step; `none` when the action is not enabled or panics.  A process
inside iderw takes no other step. -/
def step (s : State ι β δ) : Action ι β δ → Option (State ι β δ)
  | .acquire p b =>
      if s.sleeping p = none ∧ s.lock b = none then some { s with lock := Function.update s.lock b (some p) }
      else none
  | .release p b =>
      if s.sleeping p = none ∧ s.lock b = some p then some { s with lock := Function.update s.lock b none }
      else none
  | .write p b x =>
      if s.sleeping p = none ∧ s.lock b = some p then
        some { s with buf := Function.update s.buf b { s.buf b with data := x, dirty := true } }
      else none
  | .recycle p b blockno =>
      if s.sleeping p = none ∧ s.lock b = some p ∧ (s.buf b).dirty = false ∧
          ∀ c, c ≠ b → (s.buf c).blockno ≠ blockno then
        some { s with buf := Function.update s.buf b { s.buf b with blockno := blockno, valid := false, dirty := false } }
      else none
  | .iderw p b => if s.sleeping p = none then (iderw s p b).bind Except.toOption else none
  | .wake p => wake s p
  | .intr err => (ideintr (finish s err) err).toOption

/-- Before any request: an empty queue, an idle disk, no lock held, nobody
inside iderw and empty logs. -/
structure Initial (s : State ι β δ) : Prop where
  queue : s.queue.head = none
  busy : s.busy = none
  free : ∀ b, s.lock b = none
  awake : ∀ p, s.sleeping p = none
  issued : s.issued = []
  completed : s.completed = []

/-- No two buffers hold the same block, as bget keeps it. -/
def Distinct (s : State ι β δ) : Prop := Function.Injective fun b => (s.buf b).blockno

/-! ## What each step does -/

/-- The queue's memory once iderw has appended `b` to the list `l`. -/
def appended (queue : Memory β) (b : β) (l : List β) : Memory β :=
  (queue.write (.next b) none).write (Memory.endSlot .head l) (some b)

variable {s t : State ι β δ} {p : ι} {b : β} {l : List β}

omit [DecidableEq ι] in
/-- The walk of iderw, over a queue of distinct buffers without `b`, appends
`b` at its end. -/
theorem appendFrom_queue (links : Links s.queue.next s.queue.head l) (fresh : b ∉ l) :
    (s.queue.write (.next b) none).appendFrom b .head (Fintype.card β + 1) = some (appended s.queue b l) ∧
      Links (appended s.queue b l).next (appended s.queue b l).head (l ++ [b]) := by
  have cleared : Links (s.queue.write (.next b) none).next ((s.queue.write (.next b) none).read .head) l :=
    links.frame fun x member =>
      Memory.next_write_of_ne _ (fun same => fresh (by cases same; exact member)) none
  refine ⟨Memory.appendFrom_eq _ b cleared (Nat.lt_succ_of_le links.nodup.length_le_card), ?_⟩
  exact Memory.links_append _ cleared fresh (Memory.read_write_self s.queue (.next b) none)
    (fun _ same => by cases same)

omit [DecidableEq ι] in
/-- The head of the queue after the append is `b` exactly when the queue was
empty. -/
theorem appended_head (links : Links s.queue.next s.queue.head l) (fresh : b ∉ l) :
    (appended s.queue b l).head = some b ↔ l = [] := by
  rw [(appendFrom_queue links fresh).2.eq_head?]
  cases l with
  | nil => simp
  | cons x rest =>
      simp only [List.cons_append, List.head?_cons, Option.some.injEq, reduceCtorEq, iff_false]
      exact fun same => fresh (by rw [same]; exact List.mem_cons_self)

/-- iderw's first atomic part, when it does not panic: `b` was locked by `p`
and not done; it goes to the end of the queue with the next request number,
the disk starts on it when the queue was empty, and `p` sleeps on it. -/
theorem iderw_ok (links : Links s.queue.next s.queue.head l) (fresh : b ∉ l) (ran : iderw s p b = some (.ok t)) :
    s.lock b = some p ∧ (s.buf b).synced = false ∧
      t = { issue s b (appended s.queue b l) with
        busy := if l = [] then some (s.command b) else s.busy
        sleeping := Function.update s.sleeping p (some b) } := by
  unfold iderw at ran
  by_cases locked : s.lock b = some p
  swap
  · rw [if_pos locked] at ran
    cases ran
  rw [if_neg (not_not.mpr locked)] at ran
  cases pending : (s.buf b).synced
  swap
  · rw [if_pos pending] at ran
    cases ran
  rw [if_neg (by rw [pending]; exact Bool.false_ne_true), (appendFrom_queue links fresh).1, Option.map_some,
    Option.some.injEq] at ran
  dsimp only at ran
  refine ⟨locked, rfl, ?_⟩
  by_cases empty : l = []
  · rw [if_pos ((appended_head links fresh).mpr empty)] at ran
    unfold idestart at ran
    split at ran
    · cases ran
    · simp only [Except.map, issue, pending, Bool.false_eq_true, if_false, Except.ok.injEq] at ran
      rw [← ran, if_pos empty]
      rfl
  · rw [if_neg (fun head => empty ((appended_head links fresh).mp head))] at ran
    simp only [Except.map, issue, pending, Bool.false_eq_true, if_false, Except.ok.injEq] at ran
    rw [← ran, if_neg empty]
    rfl

omit [DecidableEq β] [Fintype β] in
/-- A sleeper returns from iderw only with its buffer done. -/
theorem wake_ok (ran : wake s p = some t) :
    ∃ b, s.sleeping p = some b ∧ (s.buf b).synced = true ∧
      t = { s with sleeping := Function.update s.sleeping p none } := by
  unfold wake at ran
  split at ran
  case h_1 b asleep =>
    obtain ⟨done, made⟩ := Option.ite_none_right_eq_some.mp ran
    cases made
    exact ⟨b, asleep, done, rfl⟩
  case h_2 => cases ran

/-- The step of iderw, when it does not panic. -/
theorem step_iderw_ok (stepped : step s (.iderw p b) = some t) : s.sleeping p = none ∧ iderw s p b = some (.ok t) := by
  rw [step] at stepped
  obtain ⟨awake, made⟩ := Option.ite_none_right_eq_some.mp stepped
  refine ⟨awake, ?_⟩
  rcases result : iderw s p b with _ | (_ | t')
  · rw [result] at made
    cases made
  · rw [result] at made
    cases made
  · rw [result] at made
    cases made
    rfl

/-- The step of an interrupt, when ideintr does not panic. -/
theorem step_intr_ok {err : Bool} (stepped : step s (.intr err) = some t) : ideintr (finish s err) err = .ok t := by
  rw [step] at stepped
  rcases result : ideintr (finish s err) err with _ | t'
  · rw [result] at stepped
    cases stepped
  · rw [result] at stepped
    cases stepped
    rfl

omit [DecidableEq ι] [Fintype β] in
/-- ideintr after the disk finished the head's command, when it does not
panic: the head is completed and the disk starts on the next request. -/
theorem ideintr_ok {rest : List β} (links : Links s.queue.next s.queue.head (b :: rest)) {err : Bool}
    (ran : ideintr (finish s err) err = .ok t) :
    t = { complete (finish s err) b err with busy := rest.head?.map (complete (finish s err) b err).command } := by
  obtain ⟨first, tail⟩ := links.of_cons
  have head : (finish s err).queue.head = some b := by
    unfold finish
    split <;> (try split) <;> exact first
  have next : (complete (finish s err) b err).queue.head = rest.head? := by
    rw [← tail.eq_head?]
    unfold finish
    split <;> (try split) <;> rfl
  unfold ideintr at ran
  rw [head] at ran
  dsimp only at ran
  rw [next] at ran
  cases rest with
  | nil =>
      cases ran
      have idle : (complete (finish s err) b err).busy = none := finish_busy s err
      rw [List.head?_nil, Option.map_none, ← idle]
  | cons c rest =>
      rw [List.head?_cons] at ran
      dsimp only at ran
      unfold idestart at ran
      split at ran
      · cases ran
      · cases ran
        rfl

end Ide
end Xv6
