import Xv6.Bio.Preservation

/-!
# What the buffer cache guarantees

Read off the invariant in every reachable state: the links form one cycle
through the head and all `NBUF` buffers, `prev` undoing `next`; buffers in use
cache distinct blocks and bget finds the one in use for its block; bget
recycles only an unused clean buffer, the least recently released one, as
the list is in LRU order; and `bread` returns what the block store holds,
the disk overwritten by every block published through `bwrite` or
`log_write`, since a published block that the disk lacks stays pinned.
-/

namespace Xv6
namespace Bio

open CircularList

variable {ι β : Type*} [Fintype ι] [DecidableEq ι]
variable {s s' : System ι β}

/-- bget's second loop takes the last unused clean buffer in the list, which
was released before every other unused clean one. -/
theorem Inv.recyclable_lru (inv : Inv s) {v : Fin nBuf} (victim : s.cache.recyclable = some v) :
    (s.cache.buf v).refcnt = 0 ∧ (s.cache.buf v).dirty = false ∧
      ∀ x, x ≠ v → (s.cache.buf x).refcnt = 0 → (s.cache.buf x).dirty = false →
        s.released v < s.released x ∨ s.released x = 0 ∧ s.released v = 0 := by
  obtain ⟨unused, clean⟩ := inv.reusable_of_recyclable victim
  refine ⟨unused, clean, fun x other zero clean' => ?_⟩
  rw [Bcache.recyclable_eq inv.links inv.length] at victim
  obtain ⟨_, front, back, split, later⟩ := List.find?_eq_some_iff_append.mp victim
  have ordered : s.order = back.reverse ++ v :: front.reverse := by
    rw [← List.reverse_reverse s.order, split]
    simp
  have before : x ∈ back.reverse := by
    have member := inv.complete x
    rw [ordered, List.mem_append, List.mem_cons] at member
    rcases member with early | same | late
    · exact early
    · exact absurd same other
    · have fails := later x (List.mem_reverse.mp late)
      rw [(Bcache.reusable_iff x).mpr ⟨zero, clean'⟩] at fails
      cases fails
  have lru := inv.lru
  rw [ordered, List.pairwise_append] at lru
  exact lru.2.2 x before v List.mem_cons_self zero unused

/-- bget hands out a buffer for the block asked for. -/
theorem Inv.bget_key (inv : Inv s) {dev blockno : Nat} {r : Bcache ι β × Fin nBuf}
    (got : s.cache.bget dev blockno = some r) : (r.1.buf r.2).key = (dev, blockno) := by
  rcases Bcache.bget_cases got with ⟨hit, found⟩ | ⟨_, _, found⟩
  · rw [found]
    dsimp only
    rw [Function.update_self]
    exact inv.key_of_cached hit
  · rw [found]
    dsimp only
    rw [Function.update_self]
    rfl

/-- No step changes the block of a buffer in use: bget recycles only a
buffer nobody uses, and every other section keeps `dev` and `blockno`. -/
theorem Inv.key_step (inv : Inv s) {a : Action ι β} (stepped : step s a = some s') {b : Fin nBuf}
    (used : 0 < (s.cache.buf b).refcnt) : (s'.cache.buf b).key = (s.cache.buf b).key := by
  cases a with
  | bget q dev blockno =>
      obtain ⟨_, ⟨c, v⟩, got, rfl⟩ := step_bget stepped
      rcases Bcache.bget_cases got with ⟨_, found⟩ | ⟨_, victim, found⟩
      · dsimp only at found ⊢
        subst found
        exact field_update Buf.key (by rfl) b
      · dsimp only at victim found ⊢
        subst found
        have other : b ≠ v := by
          rintro rfl
          rw [(inv.reusable_of_recyclable victim).1] at used
          cases used
        dsimp only
        rw [Function.update_of_ne other]
  | acquire q =>
      obtain ⟨b', c, _, acquired, rfl⟩ := step_acquire stepped
      obtain ⟨_, ⟨_, rfl⟩ | ⟨_, _, rfl⟩ | ⟨_, _, rfl⟩⟩ := Bcache.acquire_cases acquired
      · rfl
      · exact field_update Buf.key (by rfl) b
      · exact field_update Buf.key (by rfl) b
  | bwrite q b' d =>
      obtain ⟨_, rfl⟩ := step_bwrite stepped
      exact field_update Buf.key (by rfl) b
  | logWrite q b' d =>
      obtain ⟨_, rfl⟩ := step_logWrite stepped
      exact field_update Buf.key (by rfl) b
  | brelse q b' =>
      obtain ⟨_, ⟨_, rfl⟩ | ⟨_, rfl⟩⟩ := step_brelse stepped
      · exact field_update Buf.key (by rfl) b
      · exact field_update Buf.key (by rfl) b

/-- bread returns what the block store holds for the block. -/
theorem Inv.acquire_data (inv : Inv s) {q : ι} {b : Fin nBuf} (waiting : s.pending q = some b)
    (stepped : step s (.acquire q) = some s') :
    (s'.cache.buf b).data = s.store (s.cache.buf b).key := by
  obtain ⟨b', c, waiting', acquired, rfl⟩ := step_acquire stepped
  rw [waiting] at waiting'
  cases waiting'
  have used := inv.used_of_pending waiting
  obtain ⟨_, ⟨valid, rfl⟩ | ⟨_, clean, rfl⟩ | ⟨notValid, dirty, _⟩⟩ := Bcache.acquire_cases acquired
  · exact inv.coherent b valid
  · show (Function.update s.cache.buf b _ b).data = _
    rw [Function.update_self]
    exact inv.disk_eq_store (Buf.not_pristine_of_used used) clean
  · rw [inv.dirty_valid b dirty] at notValid
    cases notValid

theorem buffer_cache_representation [Inhabited β] (disk : Nat × Nat → β) :
    ∀ s : System ι β, Reachable disk s →
      (walk s.cache.links.next nBuf (s.cache.links.next none) = some s.order ∧ s.order.Nodup ∧
        (∀ b, b ∈ s.order) ∧
        ∀ u, s.cache.links.prev (s.cache.links.next u) = u ∧ s.cache.links.next (s.cache.links.prev u) = u) ∧
      (∀ a b, ((s.cache.buf a).valid = true ∨ 0 < (s.cache.buf a).refcnt) →
        ((s.cache.buf b).valid = true ∨ 0 < (s.cache.buf b).refcnt) →
        (s.cache.buf a).key = (s.cache.buf b).key → a = b) ∧
      (∀ b, ((s.cache.buf b).valid = true ∨ 0 < (s.cache.buf b).refcnt) →
        s.cache.cached (s.cache.buf b).dev (s.cache.buf b).blockno = some b) ∧
      (∀ dev blockno c b, s.cache.bget dev blockno = some (c, b) → (c.buf b).key = (dev, blockno)) ∧
      (∀ dev blockno c v, s.cache.cached dev blockno = none → s.cache.bget dev blockno = some (c, v) →
        (s.cache.buf v).refcnt = 0 ∧ (s.cache.buf v).dirty = false ∧
        ∀ x, x ≠ v → (s.cache.buf x).refcnt = 0 → (s.cache.buf x).dirty = false →
          s.released v < s.released x ∨ s.released x = 0 ∧ s.released v = 0) ∧
      s.order.Pairwise (fun a b => (s.cache.buf a).refcnt = 0 → (s.cache.buf b).refcnt = 0 →
        s.released b < s.released a ∨ s.released a = 0 ∧ s.released b = 0) ∧
      (∀ a s' q b, s.pending q = some b → step s a = some s' →
        (s'.cache.buf b).key = (s.cache.buf b).key) ∧
      (∀ q b s', s.pending q = some b → step s (.acquire q) = some s' →
        (s'.cache.buf b).data = s.store (s.cache.buf b).key) ∧
      (∀ q b, s.pending q = some b → s.cache.lock b = none → ∃ s', step s (.acquire q) = some s') ∧
      (∀ key, s.store key ≠ s.cache.disk key →
        ∃ b, (s.cache.buf b).dirty = true ∧ (s.cache.buf b).key = key) := by
  intro s reachable
  have inv := inv_reachable reachable
  have inUse : ∀ b, ((s.cache.buf b).valid = true ∨ 0 < (s.cache.buf b).refcnt) →
      ¬ (s.cache.buf b).Pristine := by
    rintro b (valid | used)
    · exact Buf.not_pristine_of_valid valid
    · exact Buf.not_pristine_of_used used
  have walked := inv.links.next.walk inv.links.nodup
  rw [inv.length] at walked
  refine ⟨⟨walked, inv.links.nodup, inv.complete, inv.links.inverse inv.complete⟩,
    fun a b usedA usedB same => inv.unique (inUse a usedA) (inUse b usedB) same,
    fun b used => inv.cached_of_in_use (inUse b used), fun dev blockno c b got => inv.bget_key got,
    fun dev blockno c v miss got => ?_, inv.lru,
    fun a s' q b waiting stepped => inv.key_step stepped (inv.used_of_pending waiting),
    fun q b s' waiting stepped => inv.acquire_data waiting stepped, fun q b waiting free => ?_, inv.pinned⟩
  · rcases Bcache.bget_cases got with ⟨hit, _⟩ | ⟨_, victim, _⟩
    · rw [miss] at hit
      cases hit
    · exact inv.recyclable_lru victim
  · obtain ⟨c, acquired⟩ := Bcache.acquire_of_free (q := q) free
    refine ⟨{ s with cache := c, pending := Function.update s.pending q none }, ?_⟩
    simp only [step, waiting, Option.bind_some, acquired, Option.map_some]

/-- The buffer bget recycles first after binit. -/
def buf₀ : Fin nBuf := ⟨0, by decide⟩

/-- The two processes of the run below. -/
def proc₀ : Fin 2 := ⟨0, Nat.zero_lt_two⟩

def proc₁ : Fin 2 := ⟨1, Nat.one_lt_two⟩

/-- Process 0 reads block 5 of device 1, changes it to 7 through log_write
and releases it; then process 1 asks bget for the same block. -/
def logThenReread : List (Action (Fin 2) Nat) :=
  [.bget proc₀ 1 5, .acquire proc₀, .logWrite proc₀ buf₀ 7, .brelse proc₀ buf₀, .bget proc₁ 1 5]

/-- The representation invariant after a logged change has been released:
the block is still found in its one buffer, which log_write's pin keeps from
being recycled while the disk holds the old contents, and the second reader's
bread returns the logged 7. -/
theorem buffer_cache_representation_after_log_write :
    ∃ s : System (Fin 2) Nat, Machine.run step (initial fun _ => 0) logThenReread = some s ∧
      s.cache.cached 1 5 = some buf₀ ∧ s.cache.disk (1, 5) = 0 ∧
      (∃ b, (s.cache.buf b).dirty = true ∧ (s.cache.buf b).key = (1, 5)) ∧
      ∃ s', step s (.acquire 1) = some s' ∧ (s'.cache.buf buf₀).data = 7 := by
  obtain ⟨s, ran⟩ : ∃ s, Machine.run step (initial fun _ => 0 : System (Fin 2) Nat) logThenReread = some s :=
    Option.isSome_iff_exists.mp (by decide +kernel)
  have seen : (Machine.run step (initial fun _ => 0 : System (Fin 2) Nat) logThenReread).map
      (fun s => (s.pending 1, (s.cache.buf buf₀).key, (s.cache.buf buf₀).valid)) = some (some buf₀, (1, 5), true) := by
    decide +kernel
  have stored : (Machine.run step (initial fun _ => 0 : System (Fin 2) Nat) logThenReread).map
      (fun s => (s.store (1, 5), s.cache.disk (1, 5), s.cache.lock buf₀)) = some (7, 0, none) := by
    decide +kernel
  rw [ran, Option.map_some, Option.some.injEq, Prod.mk.injEq, Prod.mk.injEq] at seen stored
  obtain ⟨pending, key, valid⟩ := seen
  obtain ⟨logged, disk, free⟩ := stored
  have reachable : Reachable (fun _ => 0) s := Machine.Reachable.run (Machine.Reachable.initial rfl) ran
  obtain ⟨-, -, found, -, -, -, -, reread, acquirable, pinned⟩ :=
    buffer_cache_representation (ι := Fin 2) (fun _ => 0) s reachable
  have cached := found buf₀ (.inl valid)
  rw [show (s.cache.buf buf₀).dev = 1 from congrArg Prod.fst key,
    show (s.cache.buf buf₀).blockno = 5 from congrArg Prod.snd key] at cached
  obtain ⟨s', acquired⟩ := acquirable 1 buf₀ pending free
  refine ⟨s, ran, cached, disk, pinned (1, 5) (by rw [logged, disk]; decide), s', acquired, ?_⟩
  rw [reread 1 buf₀ s' pending acquired, key, logged]

end Bio
end Xv6
