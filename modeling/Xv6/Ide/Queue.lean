import Xv6.Ide.Basic

/-!
# The IDE request queue

Along every run of iderw calls, disk interrupts and the file system's steps
around them, idequeue is a null-terminated list of distinct buffers; the disk
works on the command of its head and on nothing else; the requests complete
in the order iderw issued them, each once; and a process returns from iderw
only after its own request completed, with its buffer `B_VALID` and clean.
That is `Inv`, with `l` the buffers on the queue.

Whether the returned buffer holds its block depends on the disk: a read the
disk reports an error for is still marked `B_VALID`, with whatever data the
buffer held before (`intr_error_marks_valid`).  Every other completed
request leaves the buffer equal to its block on the disk (`Synced`), as long
as no two buffers hold the same block.
-/

namespace Xv6
namespace Ide

open Linked

variable {ι β δ : Type*} [DecidableEq ι] [DecidableEq β] [Fintype β]
variable {s t : State ι β δ} {l : List β}

/-- What holds between steps, with `l` the buffers on idequeue. -/
structure Inv (s : State ι β δ) (l : List β) : Prop where
  /-- idequeue is the list `l`, ending in null. -/
  links : Links s.queue.next s.queue.head l
  /-- The disk works on the head's command, and on nothing when the queue is empty. -/
  busy : s.busy = l.head?.map s.command
  /-- The completed requests, then those on the queue, are the issued ones in order. -/
  fifo : s.completed ++ l.map s.request = s.issued
  /-- Requests are numbered in the order they are issued. -/
  numbered : s.issued = List.range s.issued.length
  /-- Every buffer on the queue has its caller sleeping on it. -/
  queued : ∀ b ∈ l, ∃ p, s.sleeping p = some b
  /-- A process inside iderw holds its buffer's sleep-lock. -/
  locked : ∀ p b, s.sleeping p = some b → s.lock b = some p
  /-- A buffer on the queue is not done. -/
  pending : ∀ b ∈ l, (s.buf b).synced = false
  /-- A sleeper whose buffer has left the queue has its request completed and
  its buffer done. -/
  done : ∀ p b, s.sleeping p = some b → b ∉ l → (s.buf b).synced = true ∧ s.request b ∈ s.completed

/-- Completed requests hold their buffers' blocks, unless the disk reported an
error; no two buffers hold the same block. -/
structure Synced (s : State ι β δ) (l : List β) : Prop where
  distinct : Distinct s
  data : ∀ p b, s.sleeping p = some b → b ∉ l → s.failed b = false → (s.buf b).data = s.disk (s.buf b).blockno

omit [DecidableEq ι] [DecidableEq β] [Fintype β] in
theorem Inv.initial (initial : Initial s) : Inv s [] where
  links := by
    rw [initial.queue]
    exact .nil
  busy := initial.busy
  fifo := by rw [initial.completed, initial.issued]; rfl
  numbered := by rw [initial.issued]; rfl
  queued := fun _ member => by cases member
  locked := fun p b sleeping => by rw [initial.awake p] at sleeping; cases sleeping
  pending := fun _ member => by cases member
  done := fun p b sleeping => by rw [initial.awake p] at sleeping; cases sleeping

omit [DecidableEq ι] [DecidableEq β] [Fintype β] in
theorem Synced.initial (initial : Initial s) (distinct : Distinct s) : Synced s [] where
  distinct := distinct
  data := fun p b sleeping => by rw [initial.awake p] at sleeping; cases sleeping

/-! ## Steps of the file system -/

section Holder

variable {p : ι} {b : β}

omit [DecidableEq ι] [DecidableEq β] [Fintype β] in
/-- A buffer whose lock holder is not inside iderw is no sleeper's buffer,
and so not on the queue. -/
theorem Inv.not_sleeping (inv : Inv s l) (holder : s.lock b = some p) (awake : s.sleeping p = none) :
    (∀ q, s.sleeping q ≠ some b) ∧ b ∉ l := by
  have none : ∀ q, s.sleeping q ≠ some b := by
    intro q sleeping
    have same : some q = some p := by rw [← inv.locked q b sleeping, holder]
    rw [Option.some.inj same, awake] at sleeping
    cases sleeping
  refine ⟨none, fun member => ?_⟩
  obtain ⟨q, sleeping⟩ := inv.queued b member
  exact none q sleeping

omit [DecidableEq ι] [DecidableEq β] [Fintype β] in
/-- A step that changes only sleep-locks not held inside iderw and the
buffers nobody sleeps on keeps `Inv`. -/
theorem Inv.frame (inv : Inv s l) (queue : t.queue = s.queue) (busy : t.busy = s.busy)
    (sleeping : t.sleeping = s.sleeping) (request : t.request = s.request) (issued : t.issued = s.issued)
    (completed : t.completed = s.completed) (buf : ∀ q b, s.sleeping q = some b → t.buf b = s.buf b)
    (lock : ∀ q b, s.sleeping q = some b → t.lock b = s.lock b) : Inv t l := by
  have onQueue : ∀ b ∈ l, t.buf b = s.buf b := fun b member => by
    obtain ⟨q, asleep⟩ := inv.queued b member
    exact buf q b asleep
  refine ⟨by rw [queue]; exact inv.links, ?_, by rw [completed, request, issued]; exact inv.fifo,
    by rw [issued]; exact inv.numbered, fun b member => by rw [sleeping]; exact inv.queued b member,
    fun q b asleep => ?_, fun b member => by rw [onQueue b member]; exact inv.pending b member,
    fun q b asleep outside => ?_⟩
  · rw [busy, inv.busy]
    cases first : l.head? with
    | none => rfl
    | some b =>
        simp only [Option.map_some, State.command, onQueue b (List.mem_of_head? first)]
  · rw [sleeping] at asleep
    rw [lock q b asleep]
    exact inv.locked q b asleep
  · rw [sleeping] at asleep
    rw [buf q b asleep, request, completed]
    exact inv.done q b asleep outside

omit [DecidableEq ι] [DecidableEq β] [Fintype β] in
/-- The same for the data: such a step that leaves the disk, the error log
and every buffer's block alone keeps `Synced`. -/
theorem Synced.frame (synced : Synced s l) (disk : t.disk = s.disk) (sleeping : t.sleeping = s.sleeping)
    (failed : t.failed = s.failed) (distinct : Distinct t) (buf : ∀ q b, s.sleeping q = some b → t.buf b = s.buf b) :
    Synced t l := by
  refine ⟨distinct, fun q b asleep outside fine => ?_⟩
  rw [sleeping] at asleep
  rw [failed] at fine
  rw [buf q b asleep, disk]
  exact synced.data q b asleep outside fine

omit [DecidableEq ι] [DecidableEq β] [Fintype β] in
/-- A buffer whose lock is free or held outside iderw is no sleeper's. -/
theorem Inv.not_slept (inv : Inv s l) (outside : ∀ q, s.lock b = some q → s.sleeping q = none) :
    ∀ q, s.sleeping q ≠ some b := by
  intro q asleep
  rw [outside q (inv.locked q b asleep)] at asleep
  cases asleep

omit [DecidableEq ι] [Fintype β] in
theorem update_of_unslept {γ : Type*} {f : β → γ} {x : γ} (unslept : ∀ q, s.sleeping q ≠ some b) :
    ∀ q c, s.sleeping q = some c → Function.update f b x c = f c :=
  fun q c asleep => Function.update_of_ne (fun same : c = b => unslept q (by rw [← same]; exact asleep)) _ _

/-- acquiresleep on a free lock. -/
theorem step_acquire (inv : Inv s l) (stepped : step s (.acquire p b) = some t) :
    Inv t l ∧ (Synced s l → Synced t l) := by
  rw [step] at stepped
  obtain ⟨guard, made⟩ := Option.ite_none_right_eq_some.mp stepped
  cases made
  have unslept := inv.not_slept fun q held => by rw [guard.2] at held; cases held
  exact ⟨inv.frame rfl rfl rfl rfl rfl rfl (fun _ _ _ => rfl) (update_of_unslept unslept),
    fun synced => synced.frame rfl rfl rfl synced.distinct fun _ _ _ => rfl⟩

/-- releasesleep by a holder outside iderw. -/
theorem step_release (inv : Inv s l) (stepped : step s (.release p b) = some t) :
    Inv t l ∧ (Synced s l → Synced t l) := by
  rw [step] at stepped
  obtain ⟨guard, made⟩ := Option.ite_none_right_eq_some.mp stepped
  cases made
  have unslept := (inv.not_sleeping guard.2 guard.1).1
  exact ⟨inv.frame rfl rfl rfl rfl rfl rfl (fun _ _ _ => rfl) (update_of_unslept unslept),
    fun synced => synced.frame rfl rfl rfl synced.distinct fun _ _ _ => rfl⟩

/-- The holder outside iderw fills its buffer and marks it `B_DIRTY`. -/
theorem step_write {x : δ} (inv : Inv s l) (stepped : step s (.write p b x) = some t) :
    Inv t l ∧ (Synced s l → Synced t l) := by
  rw [step] at stepped
  obtain ⟨guard, made⟩ := Option.ite_none_right_eq_some.mp stepped
  cases made
  have unslept := (inv.not_sleeping guard.2 guard.1).1
  refine ⟨inv.frame rfl rfl rfl rfl rfl rfl (update_of_unslept unslept) (fun _ _ _ => rfl), fun synced => ?_⟩
  refine synced.frame rfl rfl rfl (fun c c' same => synced.distinct ?_) (update_of_unslept unslept)
  -- filling a buffer leaves every buffer's block as it was
  have blocks : ∀ c, (Function.update s.buf b { s.buf b with data := x, dirty := true } c).blockno = (s.buf c).blockno := by
    intro c
    by_cases here : c = b
    · rw [here, Function.update_self]
    · rw [Function.update_of_ne here]
  simpa only [blocks] using same

/-- bget reuses the holder's clean buffer for a block no other buffer holds. -/
theorem step_recycle {n : Nat} (inv : Inv s l) (stepped : step s (.recycle p b n) = some t) :
    Inv t l ∧ (Synced s l → Synced t l) := by
  rw [step] at stepped
  obtain ⟨⟨awake, holder, -, unused⟩, made⟩ := Option.ite_none_right_eq_some.mp stepped
  cases made
  have unslept := (inv.not_sleeping holder awake).1
  refine ⟨inv.frame rfl rfl rfl rfl rfl rfl (update_of_unslept unslept) (fun _ _ _ => rfl), fun synced => ?_⟩
  refine synced.frame rfl rfl rfl (fun c c' same => ?_) (update_of_unslept unslept)
  -- the new block is no other buffer's, and the others keep theirs
  simp only at same
  by_cases here : c = b <;> by_cases here' : c' = b
  · rw [here, here']
  · rw [here, Function.update_self, Function.update_of_ne here'] at same
    exact absurd same.symm (unused c' here')
  · rw [here', Function.update_self, Function.update_of_ne here] at same
    exact absurd same (unused c here)
  · rw [Function.update_of_ne here, Function.update_of_ne here'] at same
    exact synced.distinct same

end Holder

/-! ## iderw, its return and ideintr -/

section Driver

variable {p : ι} {b : β}

omit [DecidableEq β] [Fintype β] in
/-- After a process starts or stops sleeping, every sleeper is that process
or one that slept before. -/
theorem sleeping_update {x : Option β} {q : ι} {c : β} (asleep : Function.update s.sleeping p x q = some c) :
    (q = p ∧ x = some c) ∨ (q ≠ p ∧ s.sleeping q = some c) := by
  by_cases here : q = p
  · rw [here, Function.update_self] at asleep
    exact .inl ⟨here, asleep⟩
  · rw [Function.update_of_ne here] at asleep
    exact .inr ⟨here, asleep⟩

/-- A process returns from iderw: it no longer sleeps, and its buffer, being
done, was not on the queue. -/
theorem step_wake (inv : Inv s l) (stepped : step s (.wake p) = some t) :
    Inv t l ∧ (Synced s l → Synced t l) := by
  rw [step] at stepped
  obtain ⟨b, asleep, done, rfl⟩ := wake_ok stepped
  have before : ∀ q c, Function.update s.sleeping p none q = some c → s.sleeping q = some c := by
    intro q c asleep'
    rcases sleeping_update asleep' with ⟨-, never⟩ | ⟨-, old⟩
    · cases never
    · exact old
  refine ⟨⟨inv.links, inv.busy, inv.fifo, inv.numbered, fun c member => ?_,
    fun q c asleep' => inv.locked q c (before q c asleep'), inv.pending,
    fun q c asleep' => inv.done q c (before q c asleep')⟩,
    fun synced => ⟨synced.distinct, fun q c asleep' => synced.data q c (before q c asleep')⟩⟩
  obtain ⟨q, asleepQ⟩ := inv.queued c member
  have other : q ≠ p := by
    rintro rfl
    have same : b = c := Option.some.inj (asleep.symm.trans asleepQ)
    rw [same, inv.pending c member] at done
    cases done
  exact ⟨q, (Function.update_of_ne other _ _).trans asleepQ⟩

/-- iderw appends `b` to the queue, and its caller sleeps on it. -/
theorem step_iderw (inv : Inv s l) (stepped : step s (.iderw p b) = some t) :
    Inv t (l ++ [b]) ∧ (Synced s l → Synced t (l ++ [b])) := by
  obtain ⟨awake, ran⟩ := step_iderw_ok stepped
  have holder : s.lock b = some p := by
    by_contra other
    unfold iderw at ran
    rw [if_pos other] at ran
    cases ran
  have fresh := (inv.not_sleeping holder awake).2
  obtain ⟨-, pending, rfl⟩ := iderw_ok inv.links fresh ran
  -- the sleepers are `p`, on `b`, and those before, not on `b`
  have sleepers : ∀ q c, Function.update s.sleeping p (some b) q = some c →
      (q = p ∧ c = b) ∨ (q ≠ p ∧ s.sleeping q = some c ∧ c ≠ b) := by
    intro q c asleep
    rcases sleeping_update asleep with ⟨here, made⟩ | ⟨other, old⟩
    · exact .inl ⟨here, (Option.some.inj made).symm⟩
    · exact .inr ⟨other, old, fun same => (inv.not_sleeping holder awake).1 q (same ▸ old)⟩
  refine ⟨⟨(appendFrom_queue inv.links fresh).2, ?_, ?_, ?_, fun c member => ?_, fun q c asleep => ?_,
    fun c member => ?_, fun q c asleep outside => ?_⟩, fun synced => ⟨synced.distinct, fun q c asleep outside => ?_⟩⟩
  · -- the disk starts on `b` only when the queue was empty
    show (if l = [] then some (s.command b) else s.busy) = (l ++ [b]).head?.map s.command
    cases l with
    | nil => rfl
    | cons x rest =>
        rw [if_neg (List.cons_ne_nil x rest), inv.busy]
        rfl
  · -- `b`'s request is numbered after every request before it
    show s.completed ++ (l ++ [b]).map (Function.update s.request b s.issued.length) =
      s.issued ++ [s.issued.length]
    have kept : l.map (Function.update s.request b s.issued.length) = l.map s.request :=
      List.map_congr_left fun c member => Function.update_of_ne (fun same : c = b => fresh (same ▸ member)) _ _
    rw [List.map_append, kept, List.map_singleton, Function.update_self, ← List.append_assoc, inv.fifo]
  · show s.issued ++ [s.issued.length] = List.range (s.issued ++ [s.issued.length]).length
    rw [List.length_append, List.length_singleton, List.range_succ, ← inv.numbered]
  · rcases List.mem_append.mp member with old | last
    · obtain ⟨q, asleep⟩ := inv.queued c old
      have other : q ≠ p := fun same => by rw [same, awake] at asleep; cases asleep
      exact ⟨q, (Function.update_of_ne other _ _).trans asleep⟩
    · rw [List.mem_singleton.mp last]
      exact ⟨p, Function.update_self ..⟩
  · rcases sleepers q c asleep with ⟨rfl, rfl⟩ | ⟨-, old, -⟩
    · exact holder
    · exact inv.locked q c old
  · rcases List.mem_append.mp member with old | last
    · exact inv.pending c old
    · rw [List.mem_singleton.mp last]
      exact pending
  · rcases sleepers q c asleep with ⟨-, rfl⟩ | ⟨-, old, other⟩
    · exact absurd (List.mem_append_right l (List.mem_singleton_self _)) outside
    · obtain ⟨done, completed⟩ := inv.done q c old fun member => outside (List.mem_append_left _ member)
      refine ⟨done, ?_⟩
      show Function.update s.request b s.issued.length c ∈ s.completed
      rw [Function.update_of_ne other]
      exact completed
  · rcases sleepers q c asleep with ⟨-, rfl⟩ | ⟨-, old, -⟩
    · exact absurd (List.mem_append_right l (List.mem_singleton_self _)) outside
    · exact synced.data q c old fun member => outside (List.mem_append_left _ member)

omit [DecidableEq ι] [DecidableEq β] [Fintype β] in
/-- What the disk holds once it has finished the command for `b`: the block
of any other buffer is as it was. -/
theorem disk_of_ne {err : Bool} {n : Nat} (other : n ≠ (s.buf b).blockno) :
    (if (s.buf b).dirty && !err then Function.update s.disk (s.buf b).blockno (s.buf b).data else s.disk) n =
      s.disk n := by
  split_ifs
  · exact Function.update_of_ne other _ _
  · rfl

/-- An interrupt completes the head of the queue, if any, and the disk goes
on with the next request. -/
theorem step_intr {err : Bool} (inv : Inv s l) (stepped : step s (.intr err) = some t) :
    Inv t l.tail ∧ (Synced s l → Synced t l.tail) := by
  have ran := step_intr_ok stepped
  cases l with
  | nil =>
      -- no request: nothing happens
      rw [finish_idle inv.busy] at ran
      unfold ideintr at ran
      rw [inv.links.of_nil] at ran
      cases ran
      exact ⟨inv, id⟩
  | cons b rest =>
      obtain ⟨-, tail⟩ := inv.links.of_cons
      have fresh := (List.nodup_cons.mp inv.links.nodup).1
      have busy : s.busy = some (s.command b) := inv.busy
      obtain rfl := ideintr_ok inv.links ran
      rw [finish_command busy]
      dsimp only
      -- the buffers left on the queue are not the one completed
      have onQueue : ∀ c ∈ rest, c ≠ b := fun c member same => fresh (same ▸ member)
      have offQueue : ∀ c, c ∉ rest → c ≠ b → c ∉ b :: rest := by
        rintro c outside other (_ | ⟨_, member⟩)
        · exact other rfl
        · exact outside member
      refine ⟨⟨tail, rfl, ?_, inv.numbered, fun c member => inv.queued c (List.mem_cons_of_mem b member),
        inv.locked, fun c member => ?_, fun q c asleep outside => ?_⟩,
        fun synced => ⟨fun c c' same => ?_, fun q c asleep outside fine => ?_⟩⟩
      · show s.completed ++ [s.request b] ++ rest.map s.request = s.issued
        rw [List.append_assoc, List.singleton_append, ← List.map_cons]
        exact inv.fifo
      · rw [complete_buf_of_ne _ (onQueue c member)]
        exact inv.pending c (List.mem_cons_of_mem b member)
      · by_cases here : c = b
        · -- the request just completed
          rw [here, complete_buf_self]
          exact ⟨rfl, List.mem_append_right _ (List.mem_singleton_self _)⟩
        · obtain ⟨done, completed⟩ := inv.done q c asleep (offQueue c outside here)
          rw [complete_buf_of_ne _ here]
          exact ⟨done, List.mem_append_left _ completed⟩
      · -- ideintr keeps every buffer's block
        simp only [complete_blockno] at same
        exact synced.distinct same
      · rw [complete_failed] at fine
        rw [complete_disk]
        by_cases here : c = b
        · -- the request just completed, which the disk reported no error for
          rw [here, Function.update_self] at fine
          subst fine
          rw [here, complete_buf_self]
          show (if !(s.buf b).dirty && !false then _ else (s.buf b).data) =
            (if (s.buf b).dirty && !false then Function.update s.disk (s.buf b).blockno (s.buf b).data else s.disk)
              (s.buf b).blockno
          cases (s.buf b).dirty <;> simp
        · rw [Function.update_of_ne here] at fine
          rw [complete_buf_of_ne _ here]
          show (s.buf c).data = (if (s.buf b).dirty && !err then _ else s.disk) (s.buf c).blockno
          rw [disk_of_ne fun same => here (synced.distinct same)]
          exact synced.data q c asleep (offQueue c outside here) fine

end Driver

/-! ## Every run -/

/-- A step of any kind keeps both invariants, with the queue it leaves. -/
theorem inv_step (inv : Inv s l) {a : Action ι β δ} (stepped : step s a = some t) :
    ∃ l', Inv t l' ∧ (Synced s l → Synced t l') := by
  cases a with
  | acquire p b => exact ⟨l, step_acquire inv stepped⟩
  | release p b => exact ⟨l, step_release inv stepped⟩
  | write p b x => exact ⟨l, step_write inv stepped⟩
  | recycle p b n => exact ⟨l, step_recycle inv stepped⟩
  | iderw p b => exact ⟨l ++ [b], step_iderw inv stepped⟩
  | wake p => exact ⟨l, step_wake inv stepped⟩
  | intr err => exact ⟨l.tail, step_intr inv stepped⟩

theorem inv_reachable (reachable : Machine.Reachable Initial step s) : ∃ l, Inv s l :=
  Machine.Reachable.induction (P := fun s => ∃ l, Inv s l) (fun _ initial => ⟨[], Inv.initial initial⟩)
    (fun _ _ _ _ ⟨_, inv⟩ stepped => (inv_step inv stepped).imp fun _ kept => kept.1) reachable

theorem synced_reachable (reachable : Machine.Reachable (fun s => Initial s ∧ Distinct s) step s) :
    ∃ l, Inv s l ∧ Synced s l :=
  Machine.Reachable.induction (P := fun s => ∃ l, Inv s l ∧ Synced s l)
    (fun _ initial => ⟨[], Inv.initial initial.1, Synced.initial initial.1 initial.2⟩)
    (fun _ _ _ _ ⟨_, inv, synced⟩ stepped => (inv_step inv stepped).imp fun _ kept => ⟨kept.1, kept.2 synced⟩)
    reachable

/-- Along every run: idequeue is a null-terminated list of distinct buffers;
the disk works on the command of its head and on nothing else; the requests
complete in the order iderw issued them, each once; and a process returns
from iderw only after its own request completed, with its buffer `B_VALID`
and clean and, when the run began with no block in two buffers and the disk
reported no error, equal to its block. -/
theorem ide_requests_complete_in_order (reachable : Machine.Reachable Initial step s) :
    ∃ l, Links s.queue.next s.queue.head l ∧ l.Nodup ∧ s.busy = l.head?.map s.command ∧
      s.completed ++ l.map s.request = s.issued ∧ s.issued.Nodup ∧
      ∀ p b t, s.sleeping p = some b → step s (.wake p) = some t →
        b ∉ l ∧ (s.buf b).valid = true ∧ (s.buf b).dirty = false ∧ s.request b ∈ s.completed ∧
        (Machine.Reachable (fun s => Initial s ∧ Distinct s) step s → s.failed b = false →
          (s.buf b).data = s.disk (s.buf b).blockno) := by
  obtain ⟨l, inv⟩ := inv_reachable reachable
  refine ⟨l, inv.links, inv.links.nodup, inv.busy, inv.fifo, by rw [inv.numbered]; exact List.nodup_range, ?_⟩
  intro p b t asleep stepped
  rw [step] at stepped
  obtain ⟨b', asleep', done, -⟩ := wake_ok stepped
  obtain rfl : b = b' := Option.some.inj (asleep.symm.trans asleep')
  have offQueue : b ∉ l := fun member => by
    rw [inv.pending b member] at done
    cases done
  have flags : (s.buf b).valid = true ∧ (s.buf b).dirty = false := by
    unfold Buf.synced at done
    simpa using done
  refine ⟨offQueue, flags.1, flags.2, (inv.done p b asleep offQueue).2, fun fromDistinct fine => ?_⟩
  -- the invariant of runs from distinct blocks is about the same queue
  obtain ⟨l', inv', synced⟩ := synced_reachable fromDistinct
  rw [inv'.links.unique inv.links] at synced
  exact synced.data p b asleep offQueue fine

/-- An interrupt for a request that the disk reports an error for, in any
reachable state: ideintr skips `insl` for a read but still marks the head
`B_VALID` and clean, so it keeps the data it held (for a write, the data the
disk did not take), and every process sleeping on it can return from iderw
with that data. -/
theorem intr_error_marks_valid {b : β} (reachable : Machine.Reachable Initial step s)
    (head : s.queue.head = some b) (stepped : step s (.intr true) = some t) :
    (t.buf b).valid = true ∧ (t.buf b).dirty = false ∧ (t.buf b).data = (s.buf b).data ∧
      ∀ p, s.sleeping p = some b → ∃ u, step t (.wake p) = some u := by
  obtain ⟨l, inv⟩ := inv_reachable reachable
  cases l with
  | nil => rw [inv.links.of_nil] at head; cases head
  | cons c rest =>
      obtain ⟨first, -⟩ := inv.links.of_cons
      obtain rfl : b = c := Option.some.inj (head.symm.trans first)
      obtain rfl := ideintr_ok inv.links (step_intr_ok stepped)
      -- the disk's finishing keeps the buffers and the sleepers
      have finished : (finish s true).buf = s.buf ∧ (finish s true).sleeping = s.sleeping := by
        rw [finish_command inv.busy]
        exact ⟨rfl, rfl⟩
      -- the completed head: `B_VALID`, clean, and the data it held
      have completed := complete_buf_self (finish s true) b true
      simp only [finished.1, Bool.not_true, Bool.and_false, Bool.false_eq_true, if_false] at completed
      refine ⟨by rw [completed], by rw [completed], by rw [completed], fun p asleep => ?_⟩
      simp only [step, wake]
      rw [show (complete (finish s true) b true).sleeping = s.sleeping from finished.2, asleep]
      simp [completed, Buf.synced]

/-- One process and one buffer, holding block 0 unread, over a disk whose
block 0 holds 1. -/
def oneBuffer : State (Fin 1) (Fin 1) Nat where
  buf := fun _ => ⟨false, false, 0, 0⟩
  queue := ⟨none, fun _ => none⟩
  disk := fun _ => 1
  busy := none
  lock := fun _ => none
  sleeping := fun _ => none
  request := fun _ => 0
  issued := []
  completed := []
  failed := fun _ => false

theorem oneBuffer_initial : Initial oneBuffer := ⟨rfl, rfl, fun _ => rfl, fun _ => rfl, rfl, rfl⟩

/-- The process reads block 0 into the buffer and the disk completes the read:
the request is done, and the process returns from iderw with the buffer
holding the block. -/
theorem one_read_completes :
    ∃ s t, Machine.run step oneBuffer [.acquire 0 0, .iderw 0 0, .intr false] = some s ∧
      s.sleeping 0 = some 0 ∧ step s (.wake 0) = some t ∧ s.completed = s.issued ∧
      (s.buf 0).valid = true ∧ (s.buf 0).data = s.disk (s.buf 0).blockno := by
  obtain ⟨s, ran⟩ : ∃ s, Machine.run step oneBuffer [.acquire 0 0, .iderw 0 0, .intr false] = some s := ⟨_, rfl⟩
  have asleep : s.sleeping 0 = some 0 := by rw [Option.some.inj ran.symm]; rfl
  obtain ⟨t, woke⟩ : ∃ t, step s (.wake 0) = some t := by rw [Option.some.inj ran.symm]; exact ⟨_, rfl⟩
  have reachable := Machine.Reachable.run (Machine.Reachable.initial oneBuffer_initial) ran
  have fromDistinct : Machine.Reachable (fun s => Initial s ∧ Distinct s) step s :=
    Machine.Reachable.run (Machine.Reachable.initial ⟨oneBuffer_initial, fun a b _ => Subsingleton.elim a b⟩) ran
  obtain ⟨l, links, -, -, fifo, -, returns⟩ := ide_requests_complete_in_order reachable
  obtain ⟨-, valid, -, -, data⟩ := returns 0 0 t asleep woke
  -- the queue is empty again
  have idle : s.queue.head = none := by rw [Option.some.inj ran.symm]; rfl
  rw [idle] at links
  have empty : l = [] := links.unique .nil
  rw [empty, List.map_nil, List.append_nil] at fifo
  exact ⟨s, t, ran, asleep, woke, fifo, valid, data fromDistinct (by rw [Option.some.inj ran.symm]; rfl)⟩

/-- The process reads block 0 into the buffer and the disk reports an error:
iderw returns with the buffer `B_VALID` and clean, still holding 0 where the
block holds 1. -/
theorem read_error_returns_stale_data :
    ∃ s t u, Machine.run step oneBuffer [.acquire 0 0, .iderw 0 0] = some s ∧ step s (.intr true) = some t ∧
      s.sleeping 0 = some 0 ∧ step t (.wake 0) = some u ∧
      (t.buf 0).valid = true ∧ (t.buf 0).dirty = false ∧ (t.buf 0).data ≠ t.disk (t.buf 0).blockno := by
  obtain ⟨s, ran⟩ : ∃ s, Machine.run step oneBuffer [.acquire 0 0, .iderw 0 0] = some s := ⟨_, rfl⟩
  obtain ⟨t, stepped⟩ : ∃ t, step s (.intr true) = some t := by rw [Option.some.inj ran.symm]; exact ⟨_, rfl⟩
  have asleep : s.sleeping 0 = some 0 := by rw [Option.some.inj ran.symm]; rfl
  obtain ⟨valid, clean, data, returns⟩ := intr_error_marks_valid
    (Machine.Reachable.run (Machine.Reachable.initial oneBuffer_initial) ran)
    (by rw [Option.some.inj ran.symm]; rfl) stepped
  obtain ⟨u, woke⟩ := returns 0 asleep
  refine ⟨s, t, u, ran, stepped, asleep, woke, valid, clean, ?_⟩
  -- the buffer still holds 0; block 0 holds 1
  rw [data]
  obtain rfl := Option.some.inj ran.symm
  obtain rfl := Option.some.inj stepped.symm
  decide

end Ide
end Xv6
