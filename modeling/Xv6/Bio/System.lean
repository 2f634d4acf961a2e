import Xv6.Bio.Basic
import Xv6.Lib.Transition

/-!
# Runs of the buffer cache

Processes call `bread`, `bwrite`, `log_write` and `brelse` in any order and
interleaving.  `bread` is two steps: bget under `bcache.lock`, then, once
the sleep-lock is free, the rest under it; in between the process waits with
its reference counted.  A caller changes `b->data` only while it holds `b`
and then calls `bwrite` or `log_write`, so the new contents come with the
call that publishes them.

Four ghost fields record what the cache is meant to be.  `order` is the list
the links hold, front first; `store` is the block store the cache implements,
the disk overwritten by every block a caller published; `released` is when
each buffer last dropped to no reference, on the clock `clock`.
-/

namespace Xv6
namespace Bio

open CircularList

structure System (ι β : Type*) where
  cache : Bcache ι β
  pending : ι → Option (Fin nBuf)
  order : List (Fin nBuf)
  store : Nat × Nat → β
  released : Fin nBuf → Nat
  clock : Nat

inductive Action (ι β : Type*) where
  | bget (q : ι) (dev blockno : Nat)
  | acquire (q : ι)
  | bwrite (q : ι) (b : Fin nBuf) (d : β)
  | logWrite (q : ι) (b : Fin nBuf) (d : β)
  | brelse (q : ι) (b : Fin nBuf)

variable {ι β : Type*} [DecidableEq ι]

/-- After binit, over the disk `disk`. -/
def initial [Inhabited β] (disk : Nat × Nat → β) : System ι β :=
  ⟨Bcache.binit disk, fun _ => none, (List.finRange nBuf).reverse, disk, fun _ => 0, 1⟩

def step (s : System ι β) : Action ι β → Option (System ι β)
  | .bget q dev blockno =>
      if s.pending q = none then
        (s.cache.bget dev blockno).map fun r =>
          { s with cache := r.1, pending := Function.update s.pending q (some r.2) }
      else none
  | .acquire q =>
      (s.pending q).bind fun b =>
        (s.cache.acquire q b).map fun c => { s with cache := c, pending := Function.update s.pending q none }
  | .bwrite q b d =>
      ((s.cache.put b d).bwrite q b).map fun c =>
        { s with cache := c, store := Function.update s.store (s.cache.buf b).key d }
  | .logWrite q b d =>
      if s.cache.lock b = some q then
        some { s with
          cache := (s.cache.put b d).logWrite b
          store := Function.update s.store (s.cache.buf b).key d }
      else none
  | .brelse q b =>
      (s.cache.brelse q b).map fun c =>
        if (c.buf b).refcnt = 0 then
          { s with
            cache := c
            order := b :: s.order.erase b
            released := Function.update s.released b s.clock
            clock := s.clock + 1 }
        else { s with cache := c }

def Reachable [Inhabited β] (disk : Nat × Nat → β) (s : System ι β) : Prop :=
  Machine.Reachable (fun s => s = initial disk) step s

variable {s s' : System ι β}

theorem step_bget {q : ι} {dev blockno : Nat} (stepped : step s (.bget q dev blockno) = some s') :
    s.pending q = none ∧ ∃ r, s.cache.bget dev blockno = some r ∧
      s' = { s with cache := r.1, pending := Function.update s.pending q (some r.2) } := by
  simp only [step] at stepped
  split_ifs at stepped with idle
  obtain ⟨r, got, rfl⟩ := Option.map_eq_some_iff.mp stepped
  exact ⟨idle, r, got, rfl⟩

theorem step_acquire {q : ι} (stepped : step s (.acquire q) = some s') :
    ∃ b c, s.pending q = some b ∧ s.cache.acquire q b = some c ∧
      s' = { s with cache := c, pending := Function.update s.pending q none } := by
  simp only [step, Option.bind_eq_some_iff, Option.map_eq_some_iff] at stepped
  obtain ⟨b, waiting, c, acquired, rfl⟩ := stepped
  exact ⟨b, c, waiting, acquired, rfl⟩

theorem step_bwrite {q : ι} {b : Fin nBuf} {d : β} (stepped : step s (.bwrite q b d) = some s') :
    s.cache.lock b = some q ∧
      s' = { s with
        cache := { s.cache with
          disk := Function.update s.cache.disk (s.cache.buf b).key d
          buf := Function.update s.cache.buf b
            { s.cache.buf b with data := d, valid := true, dirty := false } }
        store := Function.update s.store (s.cache.buf b).key d } := by
  simp only [step, Option.map_eq_some_iff] at stepped
  obtain ⟨c, written, rfl⟩ := stepped
  obtain ⟨held, rfl⟩ := Bcache.bwrite_eq written
  refine ⟨held, ?_⟩
  simp only [Bcache.put, Function.update_self, Function.update_idem]
  rfl

theorem step_logWrite {q : ι} {b : Fin nBuf} {d : β} (stepped : step s (.logWrite q b d) = some s') :
    s.cache.lock b = some q ∧
      s' = { s with
        cache := { s.cache with
          buf := Function.update s.cache.buf b { s.cache.buf b with data := d, dirty := true } }
        store := Function.update s.store (s.cache.buf b).key d } := by
  simp only [step] at stepped
  split_ifs at stepped with held
  cases stepped
  refine ⟨held, ?_⟩
  simp only [Bcache.put, Bcache.logWrite, Function.update_self, Function.update_idem]

theorem step_brelse {q : ι} {b : Fin nBuf} (stepped : step s (.brelse q b) = some s') :
    s.cache.lock b = some q ∧
      ((s.cache.buf b).refcnt - 1 = 0 ∧
        s' = { s with
          cache := { s.cache with
            lock := Function.update s.cache.lock b none
            buf := Function.update s.cache.buf b { s.cache.buf b with refcnt := (s.cache.buf b).refcnt - 1 }
            links := (s.cache.links.unlink b).pushFront b }
          order := b :: s.order.erase b
          released := Function.update s.released b s.clock
          clock := s.clock + 1 } ∨
       (s.cache.buf b).refcnt - 1 ≠ 0 ∧
        s' = { s with
          cache := { s.cache with
            lock := Function.update s.cache.lock b none
            buf := Function.update s.cache.buf b
              { s.cache.buf b with refcnt := (s.cache.buf b).refcnt - 1 } } }) := by
  simp only [step, Option.map_eq_some_iff] at stepped
  obtain ⟨c, released, rfl⟩ := stepped
  obtain ⟨held, ⟨last, rfl⟩ | ⟨more, rfl⟩⟩ := Bcache.brelse_cases released
  · refine ⟨held, .inl ⟨last, ?_⟩⟩
    rw [if_pos (by dsimp only; rw [Function.update_self]; exact last)]
  · refine ⟨held, .inr ⟨more, ?_⟩⟩
    rw [if_neg (by dsimp only; rw [Function.update_self]; exact more)]

end Bio
end Xv6
