import Mathlib.Data.Fintype.Card
import Xv6.Lib.Fallible
import Xv6.Lib.Mutex
import Xv6.Proc.Cli

/-!
# Spin-locks

spinlock.c's acquire and release, run by every CPU at once on a finite set of
locks, one access to shared memory per step (the `holding` tests, each `xchg`
of the spin loop, the stores of `lk->cpu` and the `movl` that clears
`lk->locked`), with pushcli and popcli as `Cli` has them.  In every reachable
state (`inv_reachable`) a lock is locked exactly when one CPU owns it, and
`ncli` counts the locks a CPU owns, plus one inside acquire or release, with
interrupts off while it is positive; so acquire and release panic exactly on
misuse, no interrupt is taken while a spin-lock is held, and the protocol
implements the atomic lock of `Mutex` (`refines_atomic`).
-/

namespace Xv6
namespace Spinlocks

open Function (update)

/-- What acquire, release and holding read and write of struct spinlock. -/
structure Spinlock (κ : Type) where
  locked : Bool
  cpu : Option κ
deriving DecidableEq

/-- initlock: `lk->locked = 0; lk->cpu = 0;`. -/
def initlock {κ : Type} : Spinlock κ := ⟨false, none⟩

/-- `xchg(&lk->locked, 1)`: the old value, and the lock with 1 written. -/
def xchg {κ : Type} (lock : Spinlock κ) : Bool × Spinlock κ :=
  (lock.locked, { lock with locked := true })

/-- holding: `lock->locked && lock->cpu == mycpu()`, between a pushcli and a
popcli of the asking CPU. -/
def holding {κ : Type} [DecidableEq κ] (lock : Spinlock κ) (self : κ) (c : Cli.Cpu) :
    Except String (Bool × Cli.Cpu) :=
  (Cli.popcli (Cli.pushcli c)).map fun c' => (lock.locked && decide (lock.cpu = some self), c')

/-- Where a CPU stands in acquire or release of one lock. -/
inductive Pc (L : Type) where
  /-- Outside acquire and release. -/
  | running
  /-- acquire: pushcli done, holding not yet tested. -/
  | pushed (lock : L)
  /-- acquire: in the `xchg` loop. -/
  | spinning (lock : L)
  /-- acquire: `xchg` returned 0, `lk->cpu` not yet written. -/
  | acquired (lock : L)
  /-- release: holding tested, `lk->cpu = 0` not yet done. -/
  | tested (lock : L)
  /-- release: `lk->cpu = 0` done, `lk->locked` not yet cleared. -/
  | cleared (lock : L)
  /-- release: `lk->locked` cleared, popcli not yet done. -/
  | unlocked (lock : L)
deriving DecidableEq

/-- Every lock, and every CPU with its interrupt state and its position. -/
structure State (κ L : Type) where
  lock : L → Spinlock κ
  cpu : κ → Cli.Cpu
  pc : κ → Pc L

inductive Action (κ L : Type) where
  | acquire (c : κ) (lock : L)
  | release (c : κ) (lock : L)
  /-- The CPU's next step inside acquire or release. -/
  | next (c : κ)
  /-- `sti()` or `cli()` outside pushcli: the scheduler's, a trap's `iret`. -/
  | setInterrupts (c : κ) (on : Bool)

variable {κ L : Type} [DecidableEq κ] [DecidableEq L]

namespace State

/-- CPU `c` with new `ncli`, `intena` and FL_IF, now at `pc`. -/
def setCpu (s : State κ L) (c : κ) (cpu : Cli.Cpu) (pc : Pc L) : State κ L :=
  { s with cpu := update s.cpu c cpu, pc := update s.pc c pc }

/-- Lock `lk` written by CPU `c`, which is now at `pc`. -/
def setLock (s : State κ L) (c : κ) (lk : L) (lock : Spinlock κ) (pc : Pc L) : State κ L :=
  { s with lock := update s.lock lk lock, pc := update s.pc c pc }

variable (s : State κ L) (c : κ) (lk : L) (cpu : Cli.Cpu) (lock : Spinlock κ) (pc : Pc L)

omit [DecidableEq L] in
@[simp] theorem setCpu_lock : (s.setCpu c cpu pc).lock = s.lock := rfl
omit [DecidableEq L] in
@[simp] theorem setCpu_cpu : (s.setCpu c cpu pc).cpu = update s.cpu c cpu := rfl
omit [DecidableEq L] in
@[simp] theorem setCpu_pc : (s.setCpu c cpu pc).pc = update s.pc c pc := rfl
@[simp] theorem setLock_lock : (s.setLock c lk lock pc).lock = update s.lock lk lock := rfl
@[simp] theorem setLock_cpu : (s.setLock c lk lock pc).cpu = s.cpu := rfl
@[simp] theorem setLock_pc : (s.setLock c lk lock pc).pc = update s.pc c pc := rfl

end State

/-- acquire's `if(holding(lk)) panic("acquire")` and release's
`if(!holding(lk)) panic("release")`: CPU `c` tests `lk`, panics with `msg`
when holding answers `panicIf`, and goes on to `next` otherwise. -/
def test (s : State κ L) (c : κ) (lk : L) (panicIf : Bool) (msg : String) (next : Pc L) :
    Except String (State κ L) :=
  holding (s.lock lk) c (s.cpu c) >>= fun r =>
    if r.1 = panicIf then .error msg else .ok (s.setCpu c r.2 next)

/-- One step of one CPU: `none` when the CPU is not where the action starts,
an error when it panics. -/
def exec (s : State κ L) : Action κ L → Option (Except String (State κ L))
  | .acquire c lk =>
      if s.pc c = .running then some (.ok (s.setCpu c (Cli.pushcli (s.cpu c)) (.pushed lk)))
      else none
  | .release c lk =>
      if s.pc c = .running then some (test s c lk false "release" (.tested lk)) else none
  | .next c =>
      match s.pc c with
      | .running => none
      | .pushed lk => some (test s c lk true "acquire" (.spinning lk))
      | .spinning lk =>
          -- `while(xchg(&lk->locked, 1) != 0)`: the exchange writes 1 either way
          some (.ok (s.setLock c lk (xchg (s.lock lk)).2
            (if (xchg (s.lock lk)).1 then .spinning lk else .acquired lk)))
      | .acquired lk => some (.ok (s.setLock c lk { s.lock lk with cpu := some c } .running))
      | .tested lk => some (.ok (s.setLock c lk { s.lock lk with cpu := none } (.cleared lk)))
      | .cleared lk => some (.ok (s.setLock c lk { s.lock lk with locked := false } (.unlocked lk)))
      | .unlocked _ => some ((Cli.popcli (s.cpu c)).map fun cpu => s.setCpu c cpu .running)
  | .setInterrupts c on =>
      if (s.cpu c).ncli = 0 then
        some (.ok (s.setCpu c { s.cpu c with interruptible := on } (s.pc c)))
      else none

/-- A panic halts the machine. -/
def step (s : State κ L) (action : Action κ L) : Option (State κ L) :=
  (exec s action).bind Except.toOption

/-- Every lock as initlock left it, and no CPU inside acquire, release or a pushcli. -/
def Initial (s : State κ L) : Prop :=
  (∀ lk, s.lock lk = initlock) ∧ ∀ c, s.pc c = .running ∧ (s.cpu c).ncli = 0

def Reachable (s : State κ L) : Prop := Machine.Reachable Initial step s

theorem step_eq_some {s s' : State κ L} {action : Action κ L} :
    step s action = some s' ↔ exec s action = some (.ok s') := by
  unfold step
  constructor
  · intro stepped
    obtain ⟨r, ran, ok⟩ := Option.bind_eq_some_iff.mp stepped
    cases r with
    | error e => cases ok
    | ok t =>
        cases ok
        exact ran
  · intro ran
    rw [ran]
    rfl

/-! ## Ownership -/

/-- The lock a position is inside acquire or release of. -/
def Pc.lockOf : Pc L → Option L
  | .running => none
  | .pushed lk => some lk
  | .spinning lk => some lk
  | .acquired lk => some lk
  | .tested lk => some lk
  | .cleared lk => some lk
  | .unlocked lk => some lk

/-- The lock a CPU owns by its position alone: after acquire's `xchg` and
before its store of `lk->cpu`, and after release's `lk->cpu = 0` and before
its `movl`. -/
def Pc.taking : Pc L → Option L
  | .acquired lk => some lk
  | .cleared lk => some lk
  | _ => none

/-- 1 while the CPU is inside acquire or release without owning the lock it
works on: the pushcli of acquire is done, the popcli of release is not. -/
def Pc.inside : Pc L → Nat
  | .pushed _ => 1
  | .spinning _ => 1
  | .unlocked _ => 1
  | _ => 0

omit [DecidableEq L] in
theorem Pc.lockOf_of_taking {pc : Pc L} {lk : L} (taking : pc.taking = some lk) :
    pc.lockOf = some lk := by
  cases pc <;> simp_all [Pc.taking, Pc.lockOf]

/-- CPU `c` has taken `lk` with `xchg` and not yet cleared `lk->locked`. -/
def Owns (s : State κ L) (c : κ) (lk : L) : Prop :=
  (s.lock lk).cpu = some c ∨ (s.pc c).taking = some lk

instance (s : State κ L) (c : κ) (lk : L) : Decidable (Owns s c lk) :=
  inferInstanceAs (Decidable (_ ∨ _))

variable {s s' : State κ L} {c : κ} {lk : L}

/-! ## The invariant -/

/-- What holds of each lock in every reachable state. -/
structure LockInv (s : State κ L) (lk : L) : Prop where
  locked : (s.lock lk).locked = true ↔ ∃ c, Owns s c lk
  exclusive : ∀ c c', Owns s c lk → Owns s c' lk → c = c'
  /-- release's holding test passed, so its CPU had recorded itself. -/
  recorded : ∀ c, s.pc c = .tested lk → (s.lock lk).cpu = some c
  unrecorded : ∀ c, (s.pc c).taking = some lk → (s.lock lk).cpu = none

section LockInv

omit [DecidableEq κ] [DecidableEq L] in
theorem LockInv.not_owns (inv : LockInv s lk) (free : (s.lock lk).locked = false) (c' : κ) :
    ¬ Owns s c' lk := fun owns => by
  have locked := inv.locked.mpr ⟨c', owns⟩
  rw [free] at locked
  cases locked

omit [DecidableEq κ] [DecidableEq L] in
theorem LockInv.locked_of_recorded (inv : LockInv s lk) (recorded : (s.lock lk).cpu = some c) :
    (s.lock lk).locked = true :=
  inv.locked.mpr ⟨c, .inl recorded⟩

omit [DecidableEq κ] [DecidableEq L] in
theorem owns_congr (lock : s'.lock lk = s.lock lk)
    (taking : (s'.pc c).taking = some lk ↔ (s.pc c).taking = some lk) : Owns s' c lk ↔ Owns s c lk := by
  unfold Owns
  rw [lock, taking]

omit [DecidableEq κ] [DecidableEq L] in
/-- A step that leaves a lock and every CPU's ownership of it by position as
they are keeps what holds of the lock; a CPU it moves to release's `tested`
must have recorded itself. -/
theorem LockInv.congr (inv : LockInv s lk) (lock : s'.lock lk = s.lock lk)
    (taking : ∀ c, (s'.pc c).taking = some lk ↔ (s.pc c).taking = some lk)
    (tested : ∀ c, s'.pc c = .tested lk → s.pc c = .tested lk ∨ (s.lock lk).cpu = some c) :
    LockInv s' lk := by
  have owns : ∀ c, Owns s' c lk ↔ Owns s c lk := fun c => owns_congr lock (taking c)
  refine ⟨?_, fun c c' => ?_, fun c pos => ?_, fun c pos => ?_⟩
  · simp only [lock, owns]
    exact inv.locked
  · simp only [owns]
    exact inv.exclusive c c'
  · rw [lock]
    rcases tested c pos with before | recorded
    · exact inv.recorded c before
    · exact recorded
  · rw [lock]
    exact inv.unrecorded c ((taking c).mp pos)

omit [DecidableEq L] in
theorem taking_ne_of_lockOf {pc : Pc L} {lk' : L} (other : pc.lockOf ≠ some lk') : pc.taking ≠ some lk' :=
  fun taking => other (Pc.lockOf_of_taking taking)

omit [DecidableEq L] in
theorem tested_ne_of_lockOf {pc : Pc L} {lk' : L} (other : pc.lockOf ≠ some lk') : pc ≠ .tested lk' := by
  rintro rfl
  exact other rfl

/-- A CPU's store to one lock, from a position inside acquire or release of
it to another such position or out, leaves every other lock as it was. -/
theorem LockInv.setLock_of_ne {lock : Spinlock κ} {pc : Pc L} {lk' : L} (inv : LockInv s lk')
    (here : lk' ≠ lk) (old : (s.pc c).lockOf ≠ some lk') (new : pc.lockOf ≠ some lk') :
    LockInv (s.setLock c lk lock pc) lk' := by
  refine inv.congr (by simp [Function.update_of_ne here]) (fun c' => ?_) (fun c' pos => .inl ?_)
  · by_cases self : c' = c
    · subst self
      simp [taking_ne_of_lockOf old, taking_ne_of_lockOf new]
    · simp [Function.update_of_ne self]
  · by_cases self : c' = c
    · subst self
      simp [tested_ne_of_lockOf new] at pos
    · simpa [Function.update_of_ne self] using pos

theorem owns_setLock_of_ne {lock : Spinlock κ} {pc : Pc L} {lk' : L} (here : lk' ≠ lk)
    (old : (s.pc c).lockOf ≠ some lk') (new : pc.lockOf ≠ some lk') (c' : κ) :
    Owns (s.setLock c lk lock pc) c' lk' ↔ Owns s c' lk' := by
  refine owns_congr (by simp [Function.update_of_ne here]) ?_
  by_cases self : c' = c
  · subst self
    simp [taking_ne_of_lockOf old, taking_ne_of_lockOf new]
  · simp [Function.update_of_ne self]

end LockInv

section LockSteps

variable (inv : LockInv s lk)
include inv

omit [DecidableEq κ] [DecidableEq L] in
/-- A lock step that leaves ownership of `lk` and its `locked` as they were
keeps what holds of `lk` when it keeps the two facts about `lk->cpu`. -/
theorem LockInv.of_owns {s' : State κ L} (owns : ∀ c', Owns s' c' lk ↔ Owns s c' lk)
    (locked : (s'.lock lk).locked = (s.lock lk).locked)
    (recorded : ∀ c, s'.pc c = .tested lk → (s'.lock lk).cpu = some c)
    (unrecorded : ∀ c, (s'.pc c).taking = some lk → (s'.lock lk).cpu = none) : LockInv s' lk := by
  refine ⟨?_, fun c c' => ?_, recorded, unrecorded⟩
  · simp only [locked, owns]
    exact inv.locked
  · simp only [owns]
    exact inv.exclusive c c'

/-- acquire's `xchg` finds the lock free: its CPU owns it, and no other. -/
theorem LockInv.take (spinning : s.pc c = .spinning lk) (free : (s.lock lk).locked = false) :
    LockInv (s.setLock c lk (xchg (s.lock lk)).2 (.acquired lk)) lk ∧
      ∀ c', Owns (s.setLock c lk (xchg (s.lock lk)).2 (.acquired lk)) c' lk ↔ c' = c := by
  have nobody := inv.not_owns free
  have unrecorded : (s.lock lk).cpu = none := by
    cases recorded : (s.lock lk).cpu with
    | none => rfl
    | some c' => exact absurd (.inl recorded) (nobody c')
  have owns : ∀ c', Owns (s.setLock c lk (xchg (s.lock lk)).2 (.acquired lk)) c' lk ↔ c' = c := by
    intro c'
    by_cases self : c' = c
    · subst self
      simp [Owns, Pc.taking]
    · have other : (s.pc c').taking ≠ some lk := fun taking => nobody c' (.inr taking)
      simp [Owns, xchg, unrecorded, other, self]
  refine ⟨⟨⟨fun _ => ⟨c, (owns c).mpr rfl⟩, fun _ => by simp [xchg]⟩, fun c₁ c₂ first second => ?_,
    fun c' pos => ?_, fun c' _ => ?_⟩, owns⟩
  · rw [(owns c₁).mp first, (owns c₂).mp second]
  · by_cases self : c' = c
    · subst self
      simp at pos
    · simp only [State.setLock_pc, Function.update_of_ne self] at pos
      exact absurd (.inl (inv.recorded c' pos)) (nobody c')
  · simp [xchg, unrecorded]

/-- acquire's `lk->cpu = mycpu()`: its CPU now owns the lock through `lk->cpu`. -/
theorem LockInv.record (acquired : s.pc c = .acquired lk) :
    LockInv (s.setLock c lk { s.lock lk with cpu := some c } .running) lk ∧
      ∀ c', Owns (s.setLock c lk { s.lock lk with cpu := some c } .running) c' lk ↔ Owns s c' lk := by
  have owner : Owns s c lk := .inr (by rw [acquired]; rfl)
  have unrecorded : (s.lock lk).cpu = none := inv.unrecorded c (by rw [acquired]; rfl)
  have owns : ∀ c', Owns (s.setLock c lk { s.lock lk with cpu := some c } .running) c' lk ↔ Owns s c' lk := by
    intro c'
    by_cases self : c' = c
    · subst self
      exact ⟨fun _ => owner, fun _ => .inl (by simp)⟩
    · simp [Owns, Function.update_of_ne self, unrecorded, Ne.symm self]
  refine ⟨inv.of_owns owns (by simp) (fun c' pos => ?_) (fun c' pos => ?_), owns⟩
  · by_cases self : c' = c
    · subst self
      simp at pos
    · simp only [State.setLock_pc, Function.update_of_ne self] at pos
      rw [inv.recorded c' pos] at unrecorded
      cases unrecorded
  · by_cases self : c' = c
    · subst self
      simp [Pc.taking] at pos
    · simp only [State.setLock_pc, Function.update_of_ne self] at pos
      exact absurd (inv.exclusive c' c (.inr pos) owner) self

/-- release's `lk->cpu = 0`: its CPU still owns the lock, now by its position. -/
theorem LockInv.clear (tested : s.pc c = .tested lk) :
    LockInv (s.setLock c lk { s.lock lk with cpu := none } (.cleared lk)) lk ∧
      ∀ c', Owns (s.setLock c lk { s.lock lk with cpu := none } (.cleared lk)) c' lk ↔ Owns s c' lk := by
  have recorded := inv.recorded c tested
  have owns : ∀ c', Owns (s.setLock c lk { s.lock lk with cpu := none } (.cleared lk)) c' lk ↔ Owns s c' lk := by
    intro c'
    by_cases self : c' = c
    · subst self
      simp [Owns, Pc.taking, recorded]
    · simp [Owns, Function.update_of_ne self, recorded, Ne.symm self]
  refine ⟨inv.of_owns owns (by simp) (fun c' pos => ?_) (fun _ _ => by simp), owns⟩
  by_cases self : c' = c
  · subst self
    simp at pos
  · simp only [State.setLock_pc, Function.update_of_ne self] at pos
    rw [inv.recorded c' pos, Option.some.injEq] at recorded
    exact absurd recorded self

/-- release's `movl`: nobody owns the lock any more. -/
theorem LockInv.unlock (cleared : s.pc c = .cleared lk) :
    LockInv (s.setLock c lk { s.lock lk with locked := false } (.unlocked lk)) lk ∧
      ∀ c', ¬ Owns (s.setLock c lk { s.lock lk with locked := false } (.unlocked lk)) c' lk := by
  have owner : Owns s c lk := .inr (by rw [cleared]; rfl)
  have unrecorded : (s.lock lk).cpu = none := inv.unrecorded c (by rw [cleared]; rfl)
  have nobody : ∀ c', ¬ Owns (s.setLock c lk { s.lock lk with locked := false } (.unlocked lk)) c' lk := by
    intro c' owns
    by_cases self : c' = c
    · subst self
      simp [Owns, Pc.taking, unrecorded] at owns
    · simp only [Owns, State.setLock_lock, Function.update_self, unrecorded, State.setLock_pc,
        Function.update_of_ne self] at owns
      rcases owns with recorded | taking
      · cases recorded
      · exact self (inv.exclusive c' c (.inr taking) owner)
  refine ⟨⟨by simp [nobody], fun c₁ _ first => absurd first (nobody c₁), fun c' pos => ?_,
    fun _ _ => by simp [unrecorded]⟩, nobody⟩
  by_cases self : c' = c
  · subst self
    simp at pos
  · simp only [State.setLock_pc, Function.update_of_ne self] at pos
    rw [inv.recorded c' pos] at unrecorded
    cases unrecorded

end LockSteps

/-- An `xchg` that finds the lock taken writes back the 1 it read. -/
theorem setLock_spin (spinning : s.pc c = .spinning lk) (taken : (s.lock lk).locked = true) :
    s.setLock c lk (xchg (s.lock lk)).2 (.spinning lk) = s := by
  have same : (xchg (s.lock lk)).2 = s.lock lk := by
    simp only [xchg]
    rw [← taken]
  rw [same, ← spinning]
  simp [State.setLock, Function.update_eq_self]

/-! ## Every step keeps the invariant -/

section Global

variable [Fintype L]

/-- The locks CPU `c` owns. -/
def owned (s : State κ L) (c : κ) : Finset L :=
  Finset.univ.filter (Owns s c)

section Owned

theorem owned_congr (same : ∀ lk', Owns s' c lk' ↔ Owns s c lk') : owned s' c = owned s c :=
  Finset.filter_congr fun lk' _ => same lk'

theorem card_owned_gain (gained : ∀ lk', Owns s' c lk' ↔ Owns s c lk' ∨ lk' = lk)
    (fresh : ¬ Owns s c lk) : (owned s' c).card = (owned s c).card + 1 := by
  have inserted : owned s' c = insert lk (owned s c) := by
    ext lk'
    simp [owned, gained, or_comm]
  rw [inserted, Finset.card_insert_of_notMem (by simpa [owned] using fresh)]

theorem card_owned_lose (lost : ∀ lk', Owns s' c lk' ↔ Owns s c lk' ∧ lk' ≠ lk)
    (owns : Owns s c lk) : (owned s' c).card + 1 = (owned s c).card := by
  have erased : owned s' c = (owned s c).erase lk := by
    ext lk'
    simp [owned, lost, and_comm]
  have member : lk ∈ owned s c := by simpa [owned] using owns
  rw [erased, Finset.card_erase_of_mem member]
  have := Finset.card_pos.mpr ⟨lk, member⟩
  omega

end Owned

/-- What holds in every reachable state. -/
structure Inv (s : State κ L) : Prop where
  lock : ∀ lk, LockInv s lk
  ncli : ∀ c, (s.cpu c).ncli = (((owned s c).card + (s.pc c).inside : Nat) : Int)
  masked : ∀ c, 0 < (s.cpu c).ncli → (s.cpu c).interruptible = false

omit [DecidableEq κ] [DecidableEq L] [Fintype L] in
theorem not_owns_initial (initial : Initial s) (c : κ) (lk : L) : ¬ Owns s c lk := by
  simp [Owns, initial.1 lk, initlock, (initial.2 c).1, Pc.taking]

theorem inv_initial (initial : Initial s) : Inv s where
  lock lk := by
    have running : ∀ c, s.pc c = .running := fun c => (initial.2 c).1
    have nobody : ∀ c, ¬ Owns s c lk := fun c => not_owns_initial initial c lk
    refine ⟨?_, fun c _ owns => absurd owns (nobody c), fun c pos => ?_, fun c pos => ?_⟩
    · simp [initial.1 lk, initlock, nobody]
    · rw [running] at pos
      cases pos
    · rw [running] at pos
      cases pos
  ncli c := by
    have none : owned s c = ∅ := by
      ext lk
      simpa [owned] using not_owns_initial initial c lk
    rw [(initial.2 c).2, none, (initial.2 c).1]
    rfl
  masked c positive := by
    rw [(initial.2 c).2] at positive
    cases positive

/-! ### Steps of one CPU that write no lock -/

omit [Fintype L] in
omit [DecidableEq L] in
/-- A CPU step that moves between positions owning the same lock leaves every
CPU's ownership as it is. -/
theorem owns_setCpu {cpu : Cli.Cpu} {pc : Pc L} (same : pc.taking = (s.pc c).taking) (c' : κ) (lk' : L) :
    Owns (s.setCpu c cpu pc) c' lk' ↔ Owns s c' lk' := by
  refine owns_congr rfl ?_
  by_cases self : c' = c
  · subst self
    simp [same]
  · simp [Function.update_of_ne self]

theorem inv_setCpu {cpu : Cli.Cpu} {pc : Pc L} (inv : Inv s) (same : pc.taking = (s.pc c).taking)
    (recorded : ∀ lk, pc = .tested lk → (s.lock lk).cpu = some c)
    (ncli : cpu.ncli = (((owned s c).card + pc.inside : Nat) : Int))
    (masked : 0 < cpu.ncli → cpu.interruptible = false) : Inv (s.setCpu c cpu pc) := by
  refine ⟨fun lk => (inv.lock lk).congr rfl (fun c' => ?_) (fun c' pos => ?_), fun c' => ?_, fun c' => ?_⟩
  · by_cases self : c' = c
    · subst self
      simp [same]
    · simp [Function.update_of_ne self]
  · by_cases self : c' = c
    · subst self
      simp only [State.setCpu_pc, Function.update_self] at pos
      exact .inr (recorded lk pos)
    · simp only [State.setCpu_pc, Function.update_of_ne self] at pos
      exact .inl pos
  · rw [owned_congr (owns_setCpu same c')]
    by_cases self : c' = c
    · subst self
      simpa using ncli
    · simpa [Function.update_of_ne self] using inv.ncli c'
  · by_cases self : c' = c
    · subst self
      simpa using masked
    · simpa [Function.update_of_ne self] using inv.masked c'

/-- The CPU after holding's pushcli and popcli. -/
def afterHolding (cpu : Cli.Cpu) : Cli.Cpu :=
  { cpu with intena := if cpu.ncli = 0 then cpu.interruptible else cpu.intena }

/-- The pushcli and popcli around holding's test change nothing a CPU's
later steps read: `ncli` and FL_IF stay, and `intena` changes only when
`ncli` is zero, where nothing reads it. -/
theorem popcli_pushcli {cpu : Cli.Cpu} (nonneg : 0 ≤ cpu.ncli)
    (masked : 0 < cpu.ncli → cpu.interruptible = false) :
    Cli.popcli (Cli.pushcli cpu) = .ok (afterHolding cpu) := by
  obtain ⟨ncli, intena, interruptible⟩ := cpu
  simp only at nonneg masked
  rw [Cli.popcli_ok rfl (by simp only [Cli.pushcli]; omega)]
  have back : ncli + 1 - 1 = ncli := by omega
  simp only [Cli.pushcli, afterHolding, back]
  by_cases zero : ncli = 0
  · cases interruptible <;> simp [zero]
  · simp [zero, masked (by omega)]

/-- holding answers whether the asking CPU has recorded itself in `lk->cpu`. -/
theorem holding_eq (inv : Inv s) (c : κ) (lk : L) :
    holding (s.lock lk) c (s.cpu c) = .ok (decide ((s.lock lk).cpu = some c), afterHolding (s.cpu c)) := by
  have nonneg : 0 ≤ (s.cpu c).ncli := by
    rw [inv.ncli c]
    omega
  unfold holding
  rw [popcli_pushcli nonneg (inv.masked c)]
  refine congrArg (fun held => Except.ok (held, afterHolding (s.cpu c))) ?_
  by_cases recorded : (s.lock lk).cpu = some c
  · simp [recorded, (inv.lock lk).locked_of_recorded recorded]
  · simp [recorded]

theorem test_eq (inv : Inv s) (panicIf : Bool) (msg : String) (next : Pc L) :
    test s c lk panicIf msg next =
      if decide ((s.lock lk).cpu = some c) = panicIf then .error msg
      else .ok (s.setCpu c (afterHolding (s.cpu c)) next) := by
  unfold test
  rw [holding_eq inv c lk]
  rfl

theorem inv_pushcli (inv : Inv s) (running : s.pc c = .running) (lk : L) :
    Inv (s.setCpu c (Cli.pushcli (s.cpu c)) (.pushed lk)) := by
  refine inv_setCpu inv (by rw [running]; rfl) (fun _ pushed => by cases pushed) ?_ fun _ => rfl
  simp only [Cli.pushcli, inv.ncli c, running, Pc.inside]
  omega

theorem inv_popcli {cpu : Cli.Cpu} (inv : Inv s) (unlocked : s.pc c = .unlocked lk)
    (popped : Cli.popcli (s.cpu c) = .ok cpu) : Inv (s.setCpu c cpu .running) := by
  obtain ⟨masked, positive, rfl⟩ := Cli.popcli_eq_ok popped
  have count := inv.ncli c
  rw [unlocked] at count
  refine inv_setCpu inv (by rw [unlocked]; rfl) (fun _ tested => by cases tested) ?_ fun stillPositive => ?_
  · simp only [count, Pc.inside]
    omega
  · -- a popcli that leaves `ncli` positive does not `sti()`
    simp only at stillPositive ⊢
    rw [if_neg (by omega)]
    exact masked

theorem inv_setInterrupts (inv : Inv s) (idle : (s.cpu c).ncli = 0) (on : Bool) :
    Inv (s.setCpu c { s.cpu c with interruptible := on } (s.pc c)) :=
  inv_setCpu inv rfl (fun lk tested => (inv.lock lk).recorded c tested) (inv.ncli c)
    fun positive => absurd idle (by simp only at positive; omega)

/-! ### Steps that write a lock -/

section Store

variable {lock : Spinlock κ} {pc : Pc L}

omit [DecidableEq L] [Fintype L] in
theorem lockOf_ne_of_ne {pc : Pc L} (about : pc.lockOf = some lk ∨ pc.lockOf = none) {lk' : L}
    (other : lk' ≠ lk) : pc.lockOf ≠ some lk' := by
  rcases about with about | about <;> rw [about]
  · exact fun same => other (Option.some.inj same).symm
  · exact Option.some_ne_none lk' ∘ Eq.symm

variable (old : (s.pc c).lockOf = some lk) (new : pc.lockOf = some lk ∨ pc.lockOf = none)
include old new

omit [Fintype L] in
/-- Whether `c` owns another lock does not change when it writes `lk`. -/
theorem owns_setLock_of_about {lk' : L} (other : lk' ≠ lk) (c' : κ) :
    Owns (s.setLock c lk lock pc) c' lk' ↔ Owns s c' lk' :=
  owns_setLock_of_ne other (lockOf_ne_of_ne (.inl old) other) (lockOf_ne_of_ne new other) c'

theorem owned_setLock_of_iff {c' : κ} (same : Owns (s.setLock c lk lock pc) c' lk ↔ Owns s c' lk) :
    owned (s.setLock c lk lock pc) c' = owned s c' :=
  owned_congr fun lk' => by
    by_cases here : lk' = lk
    · subst here
      exact same
    · exact owns_setLock_of_about old new here c'

theorem card_owned_setLock_gain (gained : Owns (s.setLock c lk lock pc) c lk) (fresh : ¬ Owns s c lk) :
    (owned (s.setLock c lk lock pc) c).card = (owned s c).card + 1 := by
  refine card_owned_gain (fun lk' => ?_) fresh
  by_cases here : lk' = lk
  · subst here
    simp [gained]
  · simp [owns_setLock_of_about old new here, here]

theorem card_owned_setLock_lose (lost : ¬ Owns (s.setLock c lk lock pc) c lk) (owner : Owns s c lk) :
    (owned (s.setLock c lk lock pc) c).card + 1 = (owned s c).card := by
  refine card_owned_lose (fun lk' => ?_) owner
  by_cases here : lk' = lk
  · subst here
    simp [lost]
  · simp [owns_setLock_of_about old new here, here]

/-- A store to `lk` keeps the invariant when it keeps what holds of `lk`,
leaves every other CPU's ownership of it as it was, and keeps the count of
its own CPU. -/
theorem inv_setLock (inv : Inv s) (here : LockInv (s.setLock c lk lock pc) lk)
    (others : ∀ c', c' ≠ c → (Owns (s.setLock c lk lock pc) c' lk ↔ Owns s c' lk))
    (count : (owned (s.setLock c lk lock pc) c).card + pc.inside = (owned s c).card + (s.pc c).inside) :
    Inv (s.setLock c lk lock pc) := by
  refine ⟨fun lk' => ?_, fun c' => ?_, fun c' => inv.masked c'⟩
  · by_cases same : lk' = lk
    · subst same
      exact here
    · exact (inv.lock lk').setLock_of_ne same (lockOf_ne_of_ne (.inl old) same) (lockOf_ne_of_ne new same)
  · by_cases self : c' = c
    · subst self
      simp only [State.setLock_cpu, State.setLock_pc, Function.update_self, inv.ncli c']
      omega
    · simp only [State.setLock_cpu, State.setLock_pc, Function.update_of_ne self,
        owned_setLock_of_iff old new (others c' self)]
      exact inv.ncli c'

end Store

theorem inv_take (inv : Inv s) (spinning : s.pc c = .spinning lk) (free : (s.lock lk).locked = false) :
    Inv (s.setLock c lk (xchg (s.lock lk)).2 (.acquired lk)) := by
  have old : (s.pc c).lockOf = some lk := by rw [spinning]; rfl
  obtain ⟨here, owns⟩ := (inv.lock lk).take spinning free
  have nobody := (inv.lock lk).not_owns free
  refine inv_setLock old (.inl rfl) inv here (fun c' self => ?_) ?_
  · simp only [owns c', self, false_iff]
    exact nobody c'
  · rw [card_owned_setLock_gain old (.inl rfl) ((owns c).mpr rfl) (nobody c), spinning]
    rfl

theorem inv_record (inv : Inv s) (acquired : s.pc c = .acquired lk) :
    Inv (s.setLock c lk { s.lock lk with cpu := some c } .running) := by
  have old : (s.pc c).lockOf = some lk := by rw [acquired]; rfl
  obtain ⟨here, owns⟩ := (inv.lock lk).record acquired
  refine inv_setLock old (.inr rfl) inv here (fun c' _ => owns c') ?_
  rw [owned_setLock_of_iff old (.inr rfl) (owns c), acquired]
  rfl

theorem inv_clear (inv : Inv s) (tested : s.pc c = .tested lk) :
    Inv (s.setLock c lk { s.lock lk with cpu := none } (.cleared lk)) := by
  have old : (s.pc c).lockOf = some lk := by rw [tested]; rfl
  obtain ⟨here, owns⟩ := (inv.lock lk).clear tested
  refine inv_setLock old (.inl rfl) inv here (fun c' _ => owns c') ?_
  rw [owned_setLock_of_iff old (.inl rfl) (owns c), tested]
  rfl

theorem inv_unlock (inv : Inv s) (cleared : s.pc c = .cleared lk) :
    Inv (s.setLock c lk { s.lock lk with locked := false } (.unlocked lk)) := by
  have old : (s.pc c).lockOf = some lk := by rw [cleared]; rfl
  obtain ⟨here, nobody⟩ := (inv.lock lk).unlock cleared
  have owner : Owns s c lk := .inr (by rw [cleared]; rfl)
  refine inv_setLock old (.inl rfl) inv here (fun c' self => ?_) ?_
  · simp only [nobody c', false_iff]
    exact fun owns => self ((inv.lock lk).exclusive c' c owns owner)
  · have lost := card_owned_setLock_lose old (.inl rfl) (nobody c) owner
    rw [cleared]
    simp only [Pc.inside]
    omega

/-! ### What one step can do -/

/-- Every step that does not panic, in a state with the invariant. -/
theorem exec_ok_cases (inv : Inv s) {action : Action κ L} (stepped : exec s action = some (.ok s')) :
    (∃ c lk, s.pc c = .running ∧ s' = s.setCpu c (Cli.pushcli (s.cpu c)) (.pushed lk)) ∨
    (∃ c lk, s.pc c = .pushed lk ∧ (s.lock lk).cpu ≠ some c ∧
      s' = s.setCpu c (afterHolding (s.cpu c)) (.spinning lk)) ∨
    (∃ c lk, s.pc c = .running ∧ (s.lock lk).cpu = some c ∧
      s' = s.setCpu c (afterHolding (s.cpu c)) (.tested lk)) ∨
    (∃ c lk, s.pc c = .spinning lk ∧ (s.lock lk).locked = true ∧ s' = s) ∨
    (∃ c lk, s.pc c = .spinning lk ∧ (s.lock lk).locked = false ∧
      s' = s.setLock c lk (xchg (s.lock lk)).2 (.acquired lk)) ∨
    (∃ c lk, s.pc c = .acquired lk ∧ s' = s.setLock c lk { s.lock lk with cpu := some c } .running) ∨
    (∃ c lk, s.pc c = .tested lk ∧ s' = s.setLock c lk { s.lock lk with cpu := none } (.cleared lk)) ∨
    (∃ c lk, s.pc c = .cleared lk ∧ s' = s.setLock c lk { s.lock lk with locked := false } (.unlocked lk)) ∨
    (∃ c lk cpu, s.pc c = .unlocked lk ∧ Cli.popcli (s.cpu c) = .ok cpu ∧ s' = s.setCpu c cpu .running) ∨
    (∃ c on, (s.cpu c).ncli = 0 ∧ s' = s.setCpu c { s.cpu c with interruptible := on } (s.pc c)) := by
  cases action with
  | acquire c lk =>
      simp only [exec] at stepped
      split at stepped
      case isTrue running =>
        cases stepped
        exact .inl ⟨c, lk, running, rfl⟩
      case isFalse => cases stepped
  | release c lk =>
      simp only [exec] at stepped
      split at stepped
      case isTrue running =>
        rw [Option.some.injEq, test_eq inv] at stepped
        split at stepped
        case isTrue => cases stepped
        case isFalse answered =>
          cases stepped
          exact .inr (.inr (.inl ⟨c, lk, running, by simpa using answered, rfl⟩))
      case isFalse => cases stepped
  | next c =>
      simp only [exec] at stepped
      split at stepped
      case h_1 => cases stepped
      case h_2 lk pushed =>
        rw [Option.some.injEq, test_eq inv] at stepped
        split at stepped
        case isTrue => cases stepped
        case isFalse answered =>
          cases stepped
          exact .inr (.inl ⟨c, lk, pushed, by simpa using answered, rfl⟩)
      case h_3 lk spinning =>
        cases stepped
        cases taken : (s.lock lk).locked
        · refine .inr (.inr (.inr (.inr (.inl ⟨c, lk, spinning, taken, ?_⟩))))
          rw [show (xchg (s.lock lk)).1 = false from taken, if_neg Bool.false_ne_true]
        · refine .inr (.inr (.inr (.inl ⟨c, lk, spinning, taken, ?_⟩)))
          rw [show (xchg (s.lock lk)).1 = true from taken, if_pos rfl, setLock_spin spinning taken]
      case h_4 lk acquired =>
        cases stepped
        exact .inr (.inr (.inr (.inr (.inr (.inl ⟨c, lk, acquired, rfl⟩)))))
      case h_5 lk tested =>
        cases stepped
        exact .inr (.inr (.inr (.inr (.inr (.inr (.inl ⟨c, lk, tested, rfl⟩))))))
      case h_6 lk cleared =>
        cases stepped
        exact .inr (.inr (.inr (.inr (.inr (.inr (.inr (.inl ⟨c, lk, cleared, rfl⟩)))))))
      case h_7 lk unlocked =>
        obtain ⟨cpu, popped, rfl⟩ := Fallible.map_eq_ok (Option.some.inj stepped)
        exact .inr (.inr (.inr (.inr (.inr (.inr (.inr (.inr (.inl ⟨c, lk, cpu, unlocked, popped, rfl⟩))))))))
  | setInterrupts c on =>
      simp only [exec] at stepped
      split at stepped
      case isTrue idle =>
        cases stepped
        exact .inr (.inr (.inr (.inr (.inr (.inr (.inr (.inr (.inr ⟨c, on, idle, rfl⟩))))))))
      case isFalse => cases stepped

theorem inv_step {action : Action κ L} (inv : Inv s) (stepped : exec s action = some (.ok s')) : Inv s' := by
  rcases exec_ok_cases inv stepped with
    ⟨c, lk, running, rfl⟩ | ⟨c, lk, pushed, unrecorded, rfl⟩ | ⟨c, lk, running, recorded, rfl⟩ |
    ⟨c, lk, spinning, taken, rfl⟩ | ⟨c, lk, spinning, free, rfl⟩ | ⟨c, lk, acquired, rfl⟩ |
    ⟨c, lk, tested, rfl⟩ | ⟨c, lk, cleared, rfl⟩ | ⟨c, lk, cpu, unlocked, popped, rfl⟩ | ⟨c, on, idle, rfl⟩
  · exact inv_pushcli inv running lk
  · have count := inv.ncli c
    rw [pushed] at count
    exact inv_setCpu inv (by rw [pushed]; rfl) (fun _ tested => by cases tested) count (inv.masked c)
  · have count := inv.ncli c
    rw [running] at count
    exact inv_setCpu inv (by rw [running]; rfl) (fun _ tested => by cases tested; exact recorded) count
      (inv.masked c)
  · exact inv
  · exact inv_take inv spinning free
  · exact inv_record inv acquired
  · exact inv_clear inv tested
  · exact inv_unlock inv cleared
  · exact inv_popcli inv unlocked popped
  · exact inv_setInterrupts inv idle on

theorem inv_reachable (reachable : Reachable s) : Inv s :=
  Machine.Reachable.induction (fun _ initial => inv_initial initial)
    (fun _ _ _ _ inv stepped => inv_step inv (step_eq_some.mp stepped)) reachable

/-! ## Two CPUs on one lock -/

/-- Two CPUs with interrupts on and one lock, as at boot. -/
def boot : State (Fin 2) Unit := ⟨fun _ => initlock, fun _ => ⟨0, false, true⟩, fun _ => .running⟩

def cpu₀ : Fin 2 := ⟨0, by decide⟩

def cpu₁ : Fin 2 := ⟨1, by decide⟩

/-- CPU 0 takes the lock; CPU 1 then calls acquire and spins on it. -/
def contention : List (Action (Fin 2) Unit) :=
  [.acquire cpu₀ (), .next cpu₀, .next cpu₀, .next cpu₀, .acquire cpu₁ (), .next cpu₁, .next cpu₁]

def contended : State (Fin 2) Unit := (Machine.run step boot contention).getD boot

theorem contended_reachable : Reachable contended :=
  Machine.Reachable.run (Machine.Reachable.initial ⟨fun _ => rfl, fun _ => ⟨rfl, rfl⟩⟩)
    (show Machine.run step boot contention = some contended from rfl)

/-! ## Panics -/

/-- The popcli at the end of release finds `ncli` positive and interrupts off. -/
theorem popcli_unlocked (inv : Inv s) (unlocked : s.pc c = .unlocked lk) :
    ∃ cpu, Cli.popcli (s.cpu c) = .ok cpu := by
  have positive : 0 < (s.cpu c).ncli := by
    rw [inv.ncli c, unlocked]
    simp only [Pc.inside]
    omega
  exact ⟨_, Cli.popcli_ok (inv.masked c positive) positive⟩

/-- The panics of a step: acquire's on a lock its CPU has recorded itself as
holding, and release's on a lock it has not; the popcli at the end of
release never panics. -/
theorem exec_error_iff (inv : Inv s) (action : Action κ L) (msg : String) :
    exec s action = some (.error msg) ↔ ∃ c lk,
      (action = .next c ∧ s.pc c = .pushed lk ∧ (s.lock lk).cpu = some c ∧ msg = "acquire") ∨
      (action = .release c lk ∧ s.pc c = .running ∧ (s.lock lk).cpu ≠ some c ∧ msg = "release") := by
  constructor
  · intro failed
    cases action with
    | acquire c lk =>
        simp only [exec] at failed
        split at failed <;> cases failed
    | release c lk =>
        simp only [exec] at failed
        split at failed
        case isTrue running =>
          rw [Option.some.injEq, test_eq inv] at failed
          split at failed
          case isTrue answered =>
            cases failed
            exact ⟨c, lk, .inr ⟨rfl, running, by simpa using answered, rfl⟩⟩
          case isFalse => cases failed
        case isFalse => cases failed
    | next c =>
        simp only [exec] at failed
        split at failed
        case h_2 lk pushed =>
          rw [Option.some.injEq, test_eq inv] at failed
          split at failed
          case isTrue answered =>
            cases failed
            exact ⟨c, lk, .inl ⟨rfl, pushed, by simpa using answered, rfl⟩⟩
          case isFalse => cases failed
        case h_7 lk unlocked =>
          obtain ⟨cpu, popped⟩ := popcli_unlocked inv unlocked
          rw [popped] at failed
          cases failed
        all_goals cases failed
    | setInterrupts c on =>
        simp only [exec] at failed
        split at failed <;> cases failed
  · rintro ⟨c, lk, ⟨rfl, pushed, recorded, rfl⟩ | ⟨rfl, running, unrecorded, rfl⟩⟩
    · simp only [exec, pushed]
      rw [test_eq inv, if_pos (by simp [recorded])]
    · simp only [exec, if_pos running]
      rw [test_eq inv, if_pos (by simp [unrecorded])]

/-- Over every interleaving of acquire and release, the only panics are
acquire's on a lock its CPU has recorded itself as holding, and release's on a
lock it has not; holding answers exactly whether the asking CPU is recorded,
and its pushcli and popcli leave `ncli` and FL_IF as they were. -/
theorem spinlock_panics_exactly (reachable : Reachable s) :
    (∀ action msg, exec s action = some (.error msg) ↔ ∃ c lk,
      (action = .next c ∧ s.pc c = .pushed lk ∧ (s.lock lk).cpu = some c ∧ msg = "acquire") ∨
      (action = .release c lk ∧ s.pc c = .running ∧ (s.lock lk).cpu ≠ some c ∧ msg = "release")) ∧
    ∀ c lk, ∃ cpu, holding (s.lock lk) c (s.cpu c) = .ok (decide ((s.lock lk).cpu = some c), cpu) ∧
      cpu.ncli = (s.cpu c).ncli ∧ cpu.interruptible = (s.cpu c).interruptible := by
  have inv := inv_reachable reachable
  exact ⟨exec_error_iff inv, fun c lk => ⟨_, holding_eq inv c lk, rfl, rfl⟩⟩

/-- While CPU 0 holds the lock and CPU 1 spins on it, CPU 1's next step does
not panic, and CPU 0's holding answers yes and leaves its `ncli` and FL_IF. -/
theorem spinlock_panics_exactly_contended :
    (∀ msg, exec contended (.next cpu₁) ≠ some (.error msg)) ∧
      ∃ cpu, holding (contended.lock ()) cpu₀ (contended.cpu cpu₀) = .ok (true, cpu) ∧
        cpu.ncli = (contended.cpu cpu₀).ncli ∧ cpu.interruptible = (contended.cpu cpu₀).interruptible := by
  obtain ⟨panics, holds⟩ := spinlock_panics_exactly contended_reachable
  have spinning : contended.pc cpu₁ = .spinning () := by decide
  have recorded : decide ((contended.lock ()).cpu = some cpu₀) = true := by decide
  refine ⟨fun msg failed => ?_, ?_⟩
  · obtain ⟨c, lk, ⟨same, pushed, -⟩ | ⟨same, -⟩⟩ := (panics _ msg).mp failed
    · cases same
      rw [spinning] at pushed
      cases pushed
    · cases same
  · obtain ⟨cpu, held, ncli, interruptible⟩ := holds cpu₀ ()
    rw [recorded] at held
    exact ⟨cpu, held, ncli, interruptible⟩

/-! ## The atomic lock it implements -/

/-- How one step changes who owns which lock. -/
inductive Change (s s' : State κ L) : Prop
  | same (owns : ∀ c lk, Owns s' c lk ↔ Owns s c lk)
  | take (c : κ) (lk : L) (free : ∀ c', ¬ Owns s c' lk)
      (owns : ∀ c' lk', Owns s' c' lk' ↔ Owns s c' lk' ∨ (c' = c ∧ lk' = lk))
  | give (c : κ) (lk : L) (owner : Owns s c lk)
      (owns : ∀ c' lk', Owns s' c' lk' ↔ Owns s c' lk' ∧ ¬ (c' = c ∧ lk' = lk))

section Change

variable {lock : Spinlock κ} {pc : Pc L} (old : (s.pc c).lockOf = some lk)
  (new : pc.lockOf = some lk ∨ pc.lockOf = none)
include old new

omit [Fintype L] in
theorem change_setLock_same (same : ∀ c', Owns (s.setLock c lk lock pc) c' lk ↔ Owns s c' lk) :
    Change s (s.setLock c lk lock pc) :=
  .same fun c' lk' => by
    by_cases here : lk' = lk
    · subst here
      exact same c'
    · exact owns_setLock_of_about old new here c'

omit [Fintype L] in
theorem change_setLock_take (free : ∀ c', ¬ Owns s c' lk)
    (taken : ∀ c', Owns (s.setLock c lk lock pc) c' lk ↔ c' = c) : Change s (s.setLock c lk lock pc) :=
  .take c lk free fun c' lk' => by
    by_cases here : lk' = lk
    · subst here
      simp [taken c', free c']
    · simp [owns_setLock_of_about old new here c', here]

omit [Fintype L] in
theorem change_setLock_give (owner : Owns s c lk) (nobody : ∀ c', ¬ Owns (s.setLock c lk lock pc) c' lk)
    (exclusive : ∀ c', Owns s c' lk → c' = c) : Change s (s.setLock c lk lock pc) :=
  .give c lk owner fun c' lk' => by
    by_cases here : lk' = lk
    · subst here
      simp only [nobody c', false_iff, and_true, not_and, not_not]
      exact exclusive c'
    · simp [owns_setLock_of_about old new here c', here]

end Change

theorem change_step (inv : Inv s) {action : Action κ L} (stepped : exec s action = some (.ok s')) :
    Change s s' := by
  rcases exec_ok_cases inv stepped with
    ⟨c, lk, running, rfl⟩ | ⟨c, lk, pushed, _, rfl⟩ | ⟨c, lk, running, _, rfl⟩ |
    ⟨c, lk, _, _, rfl⟩ | ⟨c, lk, spinning, free, rfl⟩ | ⟨c, lk, acquired, rfl⟩ |
    ⟨c, lk, tested, rfl⟩ | ⟨c, lk, cleared, rfl⟩ | ⟨c, lk, cpu, unlocked, _, rfl⟩ | ⟨c, on, _, rfl⟩
  · exact .same (owns_setCpu (by rw [running]; rfl))
  · exact .same (owns_setCpu (by rw [pushed]; rfl))
  · exact .same (owns_setCpu (by rw [running]; rfl))
  · exact .same fun _ _ => Iff.rfl
  · exact change_setLock_take (by rw [spinning]; rfl) (.inl rfl) ((inv.lock lk).not_owns free)
      ((inv.lock lk).take spinning free).2
  · exact change_setLock_same (by rw [acquired]; rfl) (.inr rfl) ((inv.lock lk).record acquired).2
  · exact change_setLock_same (by rw [tested]; rfl) (.inl rfl) ((inv.lock lk).clear tested).2
  · have owner : Owns s c lk := .inr (by rw [cleared]; rfl)
    exact change_setLock_give (by rw [cleared]; rfl) (.inl rfl) owner ((inv.lock lk).unlock cleared).2
      fun c' owns => (inv.lock lk).exclusive c' c owns owner
  · exact .same (owns_setCpu (by rw [unlocked]; rfl))
  · exact .same (owns_setCpu rfl)

/-- The holders of an atomic lock are the owners of a state. -/
def Implements (s : State κ L) (t : Mutex.State κ L) : Prop :=
  ∀ c lk, t.holder lk = some c ↔ Owns s c lk

/-- Every step is a step of the atomic lock, or leaves its holders as they were. -/
theorem step_simulates (inv : Inv s) {t : Mutex.State κ L} (implements : Implements s t)
    {action : Action κ L} (stepped : exec s action = some (.ok s')) :
    ∃ t', Relation.ReflGen (Machine.Step Mutex.step) t t' ∧ Implements s' t' := by
  cases change_step inv stepped with
  | same owns => exact ⟨t, .refl, fun c lk => (implements c lk).trans (owns c lk).symm⟩
  | take c lk free owns =>
      have held : t.holder lk = none := by
        cases holder : t.holder lk with
        | none => rfl
        | some c' => exact absurd ((implements c' lk).mp holder) (free c')
      refine ⟨_, .single ⟨.take c lk, Mutex.step_take held⟩, fun c' lk' => ?_⟩
      rw [owns c' lk', ← implements c' lk']
      by_cases here : lk' = lk
      · subst here
        simp only [Function.update_self, held, Option.some.injEq, reduceCtorEq, false_or, and_true]
        exact eq_comm
      · simp [here]
  | give c lk owner owns =>
      have held : t.holder lk = some c := (implements c lk).mpr owner
      refine ⟨_, .single ⟨.give c lk, Mutex.step_give held⟩, fun c' lk' => ?_⟩
      rw [owns c' lk', ← implements c' lk']
      by_cases here : lk' = lk
      · subst here
        simp only [Function.update_self, held, Option.some.injEq, reduceCtorEq, and_true, false_iff]
        intro same
        exact same.2 same.1.symm
      · simp [here]

/-- A CPU that owns a lock runs with interrupts off. -/
theorem masked_of_owns (inv : Inv s) (owns : Owns s c lk) : (s.cpu c).interruptible = false := by
  apply inv.masked c
  have member : lk ∈ owned s c := by simpa [owned] using owns
  have nonempty := Finset.card_pos.mpr ⟨lk, member⟩
  rw [inv.ncli c]
  omega

/-! ## Over every interleaving -/

/-- Over every interleaving of acquire and release by any CPUs on any of the
locks: no two CPUs own one lock, a lock is locked exactly while some CPU owns
it, `ncli` counts the locks a CPU owns plus one while it is inside acquire or
release without owning its lock, and a CPU that owns a lock runs with
interrupts off. -/
theorem spinlock_mutual_exclusion (reachable : Reachable s) :
    (∀ lk c c', Owns s c lk → Owns s c' lk → c = c') ∧
      (∀ lk, (s.lock lk).locked = true ↔ ∃ c, Owns s c lk) ∧
      (∀ c, (s.cpu c).ncli = (((owned s c).card + (s.pc c).inside : Nat) : Int)) ∧
      ∀ c lk, Owns s c lk → (s.cpu c).interruptible = false := by
  have inv := inv_reachable reachable
  exact ⟨fun lk => (inv.lock lk).exclusive, fun lk => (inv.lock lk).locked, inv.ncli,
    fun _ _ owns => masked_of_owns inv owns⟩

theorem spinlock_mutual_exclusion_contended :
    Reachable contended ∧
      (∀ lk c c', Owns contended c lk → Owns contended c' lk → c = c') ∧
      (∀ lk, (contended.lock lk).locked = true ↔ ∃ c, Owns contended c lk) ∧
      (∀ c, (contended.cpu c).ncli = (((owned contended c).card + (contended.pc c).inside : Nat) : Int)) ∧
      ∀ c lk, Owns contended c lk → (contended.cpu c).interruptible = false :=
  ⟨contended_reachable, spinlock_mutual_exclusion contended_reachable⟩

/-- Every reachable state implements a reachable state of the atomic lock:
the spin on `xchg` and the stores around it take each lock and give it back
in one step, as `Mutex` does, and only its owner gives it back. -/
theorem spinlock_refines_atomic_lock (reachable : Reachable s) :
    (∃ t, Mutex.Reachable t ∧ Implements s t) ∧
      ∀ t, Implements s t → ∀ action s', exec s action = some (.ok s') →
        ∃ t', Relation.ReflGen (Machine.Step Mutex.step) t t' ∧ Implements s' t' := by
  refine ⟨?_, fun t implements action s' stepped => step_simulates (inv_reachable reachable) implements stepped⟩
  exact Machine.Reachable.simulation Implements
    (fun _ initial => ⟨⟨fun _ => none⟩, fun _ => rfl,
      fun c lk => ⟨(fun held => by cases held), fun owns => absurd owns (not_owns_initial initial c lk)⟩⟩)
    (fun _ _ _ _ before _ implements stepped =>
      step_simulates (inv_reachable before) implements (step_eq_some.mp stepped))
    reachable

theorem spinlock_refines_atomic_lock_contended :
    Reachable contended ∧ (∃ t, Mutex.Reachable t ∧ Implements contended t) ∧
      ∀ t, Implements contended t → ∀ action s', exec contended action = some (.ok s') →
        ∃ t', Relation.ReflGen (Machine.Step Mutex.step) t t' ∧ Implements s' t' :=
  ⟨contended_reachable, spinlock_refines_atomic_lock contended_reachable⟩

end Global

end Spinlocks
end Xv6
