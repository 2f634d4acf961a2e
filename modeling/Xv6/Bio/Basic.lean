import Xv6.Param
import Xv6.Lib.CircularList

/-!
# The buffer cache

`bio.c`'s `bcache`: `NBUF` buffers on a circular doubly linked list through
`bcache.head`, each with the block it caches, the flag bits `B_VALID` and
`B_DIRTY`, a reference count and a sleep-lock.  The list nodes are the
buffers and, as `none`, the head.  Block contents are values of an arbitrary
type: the cache copies them and never looks inside.  A sleep-lock is modelled
by the caller holding it, and the disk by the contents of every
`(dev, blockno)`.

Each function below is one of the cache's critical sections: `bget` under
`bcache.lock`; the rest of `bread`, `bwrite` and the `B_DIRTY` pin of
`log_write` under the buffer's sleep-lock; and `brelse`.  The loops of `bget`
walk the list with a bound of `NBUF` buffers, which a list of `NBUF` buffers
never reaches.  A panic is `none`.
-/

namespace Xv6
namespace Bio

open CircularList

/-- struct buf: its flag bits, the block it caches, the reference count and
the contents of `data`. -/
structure Buf (β : Type*) where
  valid : Bool
  dirty : Bool
  dev : Nat
  blockno : Nat
  refcnt : Nat
  data : β

/-- The block a buffer caches. -/
def Buf.key {β : Type*} (x : Buf β) : Nat × Nat := (x.dev, x.blockno)

/-- A buffer as `binit` finds it in the zeroed bss: no block read, nobody
using it. -/
def Buf.Pristine {β : Type*} (x : Buf β) : Prop := x.refcnt = 0 ∧ x.valid = false ∧ x.dirty = false

/-- bcache, the sleep-lock holders and the disk. -/
structure Bcache (ι β : Type*) where
  buf : Fin nBuf → Buf β
  links : Links (Fin nBuf)
  lock : Fin nBuf → Option ι
  disk : Nat × Nat → β

namespace Bcache

variable {ι β : Type*}

/-- binit: every buffer goes to the front of the list, `buf[0]` first. -/
def binit [Inhabited β] (disk : Nat × Nat → β) : Bcache ι β where
  buf := fun _ => ⟨false, false, 0, 0, 0, default⟩
  links := (List.finRange nBuf).foldl Links.pushFront Links.empty
  lock := fun _ => none
  disk := disk

/-- The test of bget's first loop: `b->dev == dev && b->blockno == blockno`. -/
def caches (c : Bcache ι β) (dev blockno : Nat) (b : Fin nBuf) : Bool :=
  (c.buf b).dev == dev && (c.buf b).blockno == blockno

/-- The test of bget's second loop: `b->refcnt == 0 && (b->flags & B_DIRTY) == 0`. -/
def reusable (c : Bcache ι β) (b : Fin nBuf) : Bool :=
  (c.buf b).refcnt == 0 && !(c.buf b).dirty

/-- bget's first loop: from `head.next`, the first buffer for `(dev, blockno)`. -/
def cached (c : Bcache ι β) (dev blockno : Nat) : Option (Fin nBuf) :=
  scan c.links.next (c.caches dev blockno) nBuf (c.links.next none)

/-- bget's second loop: from `head.prev`, the first reusable buffer. -/
def recyclable (c : Bcache ι β) : Option (Fin nBuf) :=
  scan c.links.prev c.reusable nBuf (c.links.prev none)

/-- bget: take another reference to the cached buffer, or recycle one for
the block with its flags cleared; panic when every buffer is in use. -/
def bget (c : Bcache ι β) (dev blockno : Nat) : Option (Bcache ι β × Fin nBuf) :=
  match c.cached dev blockno with
  | some b => some ({ c with buf := Function.update c.buf b { c.buf b with refcnt := (c.buf b).refcnt + 1 } }, b)
  | none =>
      match c.recyclable with
      | some b =>
          some ({ c with
            buf := Function.update c.buf b
              { c.buf b with dev := dev, blockno := blockno, valid := false, dirty := false, refcnt := 1 } },
            b)
      | none => none

/-- A caller's change to `b->data`. -/
def put (c : Bcache ι β) (b : Fin nBuf) (d : β) : Bcache ι β :=
  { c with buf := Function.update c.buf b { c.buf b with data := d } }

/-- log_write's pin: `b->flags |= B_DIRTY`. -/
def logWrite (c : Bcache ι β) (b : Fin nBuf) : Bcache ι β :=
  { c with buf := Function.update c.buf b { c.buf b with dirty := true } }

section Locked

variable [DecidableEq ι]

/-- iderw for the holder `q` of `b`: write a `B_DIRTY` buffer to its block,
or read a buffer that is not `B_VALID`; either way it ends `B_VALID` and
clean.  Panics unless `q` holds `b` and there is something to do. -/
def iderw (c : Bcache ι β) (q : ι) (b : Fin nBuf) : Option (Bcache ι β) :=
  if c.lock b ≠ some q then none
  else if (c.buf b).valid && !(c.buf b).dirty then none
  else if (c.buf b).dirty then
    some { c with
      disk := Function.update c.disk (c.buf b).key (c.buf b).data
      buf := Function.update c.buf b { c.buf b with valid := true, dirty := false } }
  else
    some { c with buf := Function.update c.buf b { c.buf b with data := c.disk (c.buf b).key, valid := true } }

/-- The rest of bread for the process `q` that bget handed `b`: take the
sleep-lock, then read the block unless the buffer is `B_VALID`.  No step
while another process holds `b`. -/
def acquire (c : Bcache ι β) (q : ι) (b : Fin nBuf) : Option (Bcache ι β) :=
  if c.lock b = none then
    let c' := { c with lock := Function.update c.lock b (some q) }
    if (c'.buf b).valid then some c' else c'.iderw q b
  else none

/-- bwrite by `q`: panic unless `q` holds `b`, set `B_DIRTY` and write. -/
def bwrite (c : Bcache ι β) (q : ι) (b : Fin nBuf) : Option (Bcache ι β) :=
  if c.lock b = some q then
    { c with buf := Function.update c.buf b { c.buf b with dirty := true } }.iderw q b
  else none

/-- brelse by `q`: panic unless `q` holds `b`; release the sleep-lock, drop
the reference, and with no reference left move `b` to the front. -/
def brelse (c : Bcache ι β) (q : ι) (b : Fin nBuf) : Option (Bcache ι β) :=
  if c.lock b = some q then
    let c₁ := { c with lock := Function.update c.lock b none }
    let c₂ := { c₁ with buf := Function.update c₁.buf b { c₁.buf b with refcnt := (c₁.buf b).refcnt - 1 } }
    if (c₂.buf b).refcnt = 0 then some { c₂ with links := (c₂.links.unlink b).pushFront b }
    else some c₂
  else none

end Locked

/-! ## One lemma per critical section -/

variable {c c' : Bcache ι β} {order : List (Fin nBuf)}

theorem caches_iff (dev blockno : Nat) (b : Fin nBuf) :
    c.caches dev blockno b = true ↔ (c.buf b).key = (dev, blockno) := by
  simp [caches, Buf.key]

theorem reusable_iff (b : Fin nBuf) :
    c.reusable b = true ↔ (c.buf b).refcnt = 0 ∧ (c.buf b).dirty = false := by
  simp [reusable]

/-- With the links holding all `NBUF` buffers, bget's first loop searches
the list from the front. -/
theorem cached_eq (rep : c.links.Represents order) (length : order.length = nBuf) (dev blockno : Nat) :
    c.cached dev blockno = order.find? (c.caches dev blockno) := by
  have scanned := rep.next.scan rep.nodup (c.caches dev blockno)
  rwa [length] at scanned

/-- ... and the second loop searches it from the back. -/
theorem recyclable_eq (rep : c.links.Represents order) (length : order.length = nBuf) :
    c.recyclable = order.reverse.find? c.reusable := by
  have scanned := rep.prev.scan (List.nodup_reverse.mpr rep.nodup) c.reusable
  rwa [List.length_reverse, length] at scanned

theorem bget_cases {dev blockno : Nat} {r : Bcache ι β × Fin nBuf} (got : c.bget dev blockno = some r) :
    (c.cached dev blockno = some r.2 ∧
      r.1 = { c with buf := Function.update c.buf r.2 { c.buf r.2 with refcnt := (c.buf r.2).refcnt + 1 } }) ∨
    (c.cached dev blockno = none ∧ c.recyclable = some r.2 ∧
      r.1 = { c with
        buf := Function.update c.buf r.2
          { c.buf r.2 with dev := dev, blockno := blockno, valid := false, dirty := false, refcnt := 1 } }) := by
  unfold bget at got
  split at got
  · rename_i b found
    cases got
    exact .inl ⟨found, rfl⟩
  · rename_i missing
    split at got
    · rename_i b found
      cases got
      exact .inr ⟨missing, found, rfl⟩
    · cases got

section Locked

variable [DecidableEq ι]

/-- The rest of bread: the buffer was free, and is read unless it is
`B_VALID` (a `B_DIRTY` buffer that is not `B_VALID` would be written). -/
theorem acquire_cases {q : ι} {b : Fin nBuf} (acquired : c.acquire q b = some c') :
    c.lock b = none ∧
      ((c.buf b).valid = true ∧ c' = { c with lock := Function.update c.lock b (some q) } ∨
       (c.buf b).valid = false ∧ (c.buf b).dirty = false ∧
        c' = { c with
          lock := Function.update c.lock b (some q)
          buf := Function.update c.buf b { c.buf b with data := c.disk (c.buf b).key, valid := true } } ∨
       (c.buf b).valid = false ∧ (c.buf b).dirty = true ∧
        c' = { c with
          lock := Function.update c.lock b (some q)
          disk := Function.update c.disk (c.buf b).key (c.buf b).data
          buf := Function.update c.buf b { c.buf b with valid := true, dirty := false } }) := by
  unfold acquire at acquired
  dsimp only at acquired
  split_ifs at acquired with free valid
  · cases acquired
    exact ⟨free, .inl ⟨valid, rfl⟩⟩
  · refine ⟨free, .inr ?_⟩
    rw [Bool.not_eq_true] at valid
    unfold iderw at acquired
    dsimp only at acquired
    simp only [Function.update_self, ne_eq, not_true_eq_false, ↓reduceIte] at acquired
    split_ifs at acquired with nothing dirty
    · cases acquired
      exact .inr ⟨valid, dirty, rfl⟩
    · cases acquired
      exact .inl ⟨valid, by simpa using dirty, rfl⟩

/-- A free buffer can always be taken: iderw never panics inside bread. -/
theorem acquire_of_free {q : ι} {b : Fin nBuf} (free : c.lock b = none) : ∃ c', c.acquire q b = some c' := by
  unfold acquire iderw
  simp only [free, if_true, Function.update_self, ne_eq, not_true_eq_false, if_false]
  cases (c.buf b).valid <;> cases (c.buf b).dirty <;> simp

theorem bwrite_eq {q : ι} {b : Fin nBuf} (written : c.bwrite q b = some c') :
    c.lock b = some q ∧
      c' = { c with
        disk := Function.update c.disk (c.buf b).key (c.buf b).data
        buf := Function.update c.buf b { c.buf b with valid := true, dirty := false } } := by
  unfold bwrite at written
  split_ifs at written with held
  unfold iderw at written
  simp only [Function.update_self, held, ne_eq, not_true_eq_false, if_false, Bool.not_true,
    Bool.and_false, Bool.false_eq_true, if_true, Function.update_idem] at written
  cases written
  exact ⟨held, rfl⟩

theorem brelse_cases {q : ι} {b : Fin nBuf} (released : c.brelse q b = some c') :
    c.lock b = some q ∧
      ((c.buf b).refcnt - 1 = 0 ∧
        c' = { c with
          lock := Function.update c.lock b none
          buf := Function.update c.buf b { c.buf b with refcnt := (c.buf b).refcnt - 1 }
          links := (c.links.unlink b).pushFront b } ∨
       (c.buf b).refcnt - 1 ≠ 0 ∧
        c' = { c with
          lock := Function.update c.lock b none
          buf := Function.update c.buf b { c.buf b with refcnt := (c.buf b).refcnt - 1 } }) := by
  unfold brelse at released
  dsimp only at released
  split_ifs at released with held last
  · cases released
    refine ⟨held, .inl ⟨?_, rfl⟩⟩
    simpa using last
  · cases released
    refine ⟨held, .inr ⟨?_, rfl⟩⟩
    simpa using last

end Locked

end Bcache

end Bio
end Xv6
