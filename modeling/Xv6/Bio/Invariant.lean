import Xv6.Bio.System
import Xv6.Lib.Count
import Xv6.Lib.Scan

/-!
# The buffer-cache invariant

What holds in every reachable state of the cache.  The links hold the ghost
list, which names every buffer once.  A buffer's `refcnt` counts the
processes using it: those waiting in `bread` for its sleep-lock and its
holder; a held buffer is `B_VALID`, and so is a `B_DIRTY` one.  A buffer in
use, that is not as `binit` left it, is the first one the list gives for its
block, so no two buffers in use cache the same block.  A `B_VALID` buffer
holds what the block store holds for its block, and a block where the store
and the disk differ is cached in a `B_DIRTY` buffer.  Among the buffers
nobody uses, the list runs from the most recently released to the least.
-/

namespace Xv6
namespace Bio

open CircularList

variable {ι β : Type*} [Fintype ι] [DecidableEq ι]

/-- The processes using `b`: those waiting in bread for its sleep-lock, and
its holder. -/
def users (s : System ι β) (b : Fin nBuf) : Nat :=
  Count.count s.pending (· = some b) + if s.cache.lock b = none then 0 else 1

/-- The buffer the list gives first for the block `b` caches. -/
def firstFor (s : System ι β) (b : Fin nBuf) : Option (Fin nBuf) :=
  s.order.find? (s.cache.caches (s.cache.buf b).dev (s.cache.buf b).blockno)

/-- `a` ahead of `b` in the list is LRU order: of two buffers nobody uses,
the one released later is ahead, and never-released ones come last. -/
def Recent (s : System ι β) (a b : Fin nBuf) : Prop :=
  (s.cache.buf a).refcnt = 0 → (s.cache.buf b).refcnt = 0 →
    s.released b < s.released a ∨ s.released a = 0 ∧ s.released b = 0

structure Inv (s : System ι β) : Prop where
  links : s.cache.links.Represents s.order
  complete : ∀ b, b ∈ s.order
  refcnt : ∀ b, (s.cache.buf b).refcnt = users s b
  held_valid : ∀ b q, s.cache.lock b = some q → (s.cache.buf b).valid = true
  dirty_valid : ∀ b, (s.cache.buf b).dirty = true → (s.cache.buf b).valid = true
  first : ∀ b, ¬ (s.cache.buf b).Pristine → firstFor s b = some b
  coherent : ∀ b, (s.cache.buf b).valid = true → (s.cache.buf b).data = s.store (s.cache.buf b).key
  pinned : ∀ key, s.store key ≠ s.cache.disk key →
    ∃ b, (s.cache.buf b).dirty = true ∧ (s.cache.buf b).key = key
  lru : s.order.Pairwise (Recent s)
  clock : ∀ b, s.released b < s.clock

variable {s s' : System ι β}

theorem Buf.not_pristine_of_used {x : Buf β} (used : 0 < x.refcnt) : ¬ x.Pristine :=
  fun pristine => by
    have zero := pristine.1
    omega

theorem Buf.not_pristine_of_valid {x : Buf β} (valid : x.valid = true) : ¬ x.Pristine :=
  fun pristine => by
    rw [pristine.2.1] at valid
    cases valid

/-- bget's first loop reads only the blocks the buffers cache. -/
theorem caches_congr {c c' : Bcache ι β} (sameBlocks : ∀ x, (c'.buf x).key = (c.buf x).key) :
    c'.caches = c.caches := by
  funext dev blockno x
  have same := sameBlocks x
  simp only [Buf.key, Prod.mk.injEq] at same
  simp only [Bcache.caches, same.1, same.2]

theorem firstFor_congr (order : s'.order = s.order)
    (sameBlocks : ∀ x, (s'.cache.buf x).key = (s.cache.buf x).key) (b : Fin nBuf) :
    firstFor s' b = firstFor s b := by
  have same := sameBlocks b
  simp only [Buf.key, Prod.mk.injEq] at same
  unfold firstFor
  rw [order, caches_congr sameBlocks, same.1, same.2]

namespace Inv

variable (inv : Inv s)
include inv

theorem length : s.order.length = nBuf := by
  have perm : s.order.Perm (List.finRange nBuf) :=
    (List.perm_ext_iff_of_nodup inv.links.nodup (List.nodup_finRange nBuf)).mpr
      fun b => ⟨fun _ => List.mem_finRange b, fun _ => inv.complete b⟩
  rw [perm.length_eq, List.length_finRange]

theorem used_of_pending {q : ι} {b : Fin nBuf} (waiting : s.pending q = some b) :
    0 < (s.cache.buf b).refcnt := by
  have counted : Count.count s.pending (· = some b) ≠ 0 := fun zero =>
    Count.count_eq_zero.mp zero q waiting
  rw [inv.refcnt b, users]
  omega

theorem used_of_held {q : ι} {b : Fin nBuf} (held : s.cache.lock b = some q) :
    0 < (s.cache.buf b).refcnt := by
  rw [inv.refcnt b, users, held, if_neg (Option.some_ne_none q)]
  omega

theorem free_of_unused {b : Fin nBuf} (unused : (s.cache.buf b).refcnt = 0) :
    s.cache.lock b = none ∧ ∀ q, s.pending q ≠ some b := by
  refine ⟨?_, fun q waiting => ?_⟩
  · cases held : s.cache.lock b with
    | none => rfl
    | some q =>
        have used := inv.used_of_held held
        omega
  · have used := inv.used_of_pending waiting
    omega

/-- Two buffers in use cache different blocks. -/
theorem unique {a b : Fin nBuf} (inUse : ¬ (s.cache.buf a).Pristine) (inUse' : ¬ (s.cache.buf b).Pristine)
    (same : (s.cache.buf a).key = (s.cache.buf b).key) : a = b := by
  have firstA := inv.first a inUse
  have firstB := inv.first b inUse'
  simp only [Buf.key, Prod.mk.injEq] at same
  unfold firstFor at firstA firstB
  rw [same.1, same.2, firstB] at firstA
  exact (Option.some.inj firstA).symm

/-- The search of bget's first loop for the block of a buffer in use finds
that buffer. -/
theorem cached_of_in_use {b : Fin nBuf} (inUse : ¬ (s.cache.buf b).Pristine) :
    s.cache.cached (s.cache.buf b).dev (s.cache.buf b).blockno = some b := by
  rw [Bcache.cached_eq inv.links inv.length]
  exact inv.first b inUse

/-- bget's first loop finds a buffer for the block it looks for... -/
theorem key_of_cached {dev blockno : Nat} {b : Fin nBuf} (hit : s.cache.cached dev blockno = some b) :
    (s.cache.buf b).key = (dev, blockno) := by
  rw [Bcache.cached_eq inv.links inv.length] at hit
  exact (Bcache.caches_iff dev blockno b).mp (List.find?_some hit)

/-- ... and misses only a block no buffer caches. -/
theorem uncached_of_miss {dev blockno : Nat} (miss : s.cache.cached dev blockno = none) (x : Fin nBuf) :
    (s.cache.buf x).key ≠ (dev, blockno) := by
  intro owns
  rw [Bcache.cached_eq inv.links inv.length, List.find?_eq_none] at miss
  exact miss x (inv.complete x) ((Bcache.caches_iff dev blockno x).mpr owns)

/-- bget's second loop takes a buffer nobody uses that is not `B_DIRTY`. -/
theorem reusable_of_recyclable {v : Fin nBuf} (victim : s.cache.recyclable = some v) :
    (s.cache.buf v).refcnt = 0 ∧ (s.cache.buf v).dirty = false := by
  rw [Bcache.recyclable_eq inv.links inv.length] at victim
  exact (Bcache.reusable_iff v).mp (List.find?_some victim)

/-- The block of a clean buffer in use holds on the disk what the store
holds: a block the store changed is cached `B_DIRTY`, in the one buffer in
use for it. -/
theorem disk_eq_store {b : Fin nBuf} (inUse : ¬ (s.cache.buf b).Pristine)
    (clean : (s.cache.buf b).dirty = false) :
    s.cache.disk (s.cache.buf b).key = s.store (s.cache.buf b).key := by
  by_contra differs
  obtain ⟨y, dirty, owns⟩ := inv.pinned _ (Ne.symm differs)
  have same := inv.unique (Buf.not_pristine_of_valid (inv.dirty_valid y dirty)) inUse owns
  rw [same, clean] at dirty
  cases dirty

/-- A state with the same list and blocks keeps the first-buffer property
for every buffer that was in use, or that the list already gives first. -/
theorem first_keep (order : s'.order = s.order)
    (sameBlocks : ∀ x, (s'.cache.buf x).key = (s.cache.buf x).key)
    (inUse : ∀ x, ¬ (s'.cache.buf x).Pristine → ¬ (s.cache.buf x).Pristine ∨ firstFor s x = some x) :
    ∀ x, ¬ (s'.cache.buf x).Pristine → firstFor s' x = some x := by
  intro x inUse'
  rw [firstFor_congr order sameBlocks]
  rcases inUse x inUse' with old | found
  · exact inv.first x old
  · exact found

/-- The same list and release times, and no buffer newly unused. -/
theorem lru_keep (order : s'.order = s.order)
    (unused : ∀ x, (s'.cache.buf x).refcnt = 0 →
      (s.cache.buf x).refcnt = 0 ∧ s'.released x = s.released x) :
    s'.order.Pairwise (Recent s') := by
  rw [order]
  refine inv.lru.imp fun {a b} recent zero zero' => ?_
  obtain ⟨old, releasedA⟩ := unused a zero
  obtain ⟨old', releasedB⟩ := unused b zero'
  rw [releasedA, releasedB]
  exact recent old old'

end Inv

end Bio
end Xv6
