import Xv6.Bio.Invariant

/-!
# Every step of the cache keeps the invariant

One lemma per critical section, then the step lemma by cases on the action
and the run lemma by induction over the run.  Most sections rewrite one
buffer; `field_update` says which fields of the others they leave alone.
-/

namespace Xv6
namespace Bio

open CircularList

variable {ι β : Type*} [Fintype ι] [DecidableEq ι]
variable {s s' : System ι β}

/-- A field that an update of slot `b` leaves alone is the same at every slot. -/
theorem field_update {γ : Type*} (f : Buf β → γ) {buf : Fin nBuf → Buf β} {b : Fin nBuf} {X : Buf β}
    (same : f X = f (buf b)) (x : Fin nBuf) : f (Function.update buf b X x) = f (buf x) := by
  rw [Function.apply_update (fun _ => f), same, Function.update_eq_self]

/-! ## bget -/

/-- bget finds the block cached in `b`. -/
theorem inv_hit {q : ι} {dev blockno : Nat} {b : Fin nBuf} (inv : Inv s) (idle : s.pending q = none)
    (hit : s.cache.cached dev blockno = some b) :
    Inv { s with
      cache := { s.cache with
        buf := Function.update s.cache.buf b { s.cache.buf b with refcnt := (s.cache.buf b).refcnt + 1 } }
      pending := Function.update s.pending q (some b) } := by
  have block := inv.key_of_cached hit
  set X : Buf β := { s.cache.buf b with refcnt := (s.cache.buf b).refcnt + 1 } with hX
  refine ⟨inv.links, inv.complete, fun x => ?_, fun x q' held => ?_, fun x dirty => ?_,
    inv.first_keep rfl (field_update (X := X) Buf.key rfl) fun x inUse => ?_, fun x valid => ?_,
    fun key differs => ?_, inv.lru_keep rfl fun x zero => ?_, inv.clock⟩
  · dsimp only [users]
    by_cases here : x = b
    · subst here
      rw [Function.update_self, Count.count_update_of_not_of (P := fun p => p = some x)
        (by rw [idle]; exact (Option.some_ne_none x).symm) rfl]
      show (s.cache.buf x).refcnt + 1 = _
      rw [inv.refcnt x, users]
      omega
    · rw [Function.update_of_ne here, Count.count_update_of_iff (P := fun p => p = some x), inv.refcnt x,
        users]
      rw [idle]
      exact iff_of_false (Option.some_ne_none x).symm fun same => here (Option.some.inj same).symm
  · dsimp only at held ⊢
    rw [field_update (X := X) Buf.valid rfl]
    exact inv.held_valid x q' held
  · dsimp only at dirty ⊢
    rw [field_update (X := X) Buf.dirty rfl] at dirty
    rw [field_update (X := X) Buf.valid rfl]
    exact inv.dirty_valid x dirty
  · by_cases here : x = b
    · subst here
      right
      unfold firstFor
      simp only [Buf.key, Prod.mk.injEq] at block
      rw [block.1, block.2, ← Bcache.cached_eq inv.links inv.length]
      exact hit
    · left
      dsimp only at inUse
      rwa [Function.update_of_ne here] at inUse
  · dsimp only at valid ⊢
    rw [field_update (X := X) Buf.valid rfl] at valid
    rw [field_update (X := X) Buf.data rfl, field_update (X := X) Buf.key rfl]
    exact inv.coherent x valid
  · obtain ⟨x, dirty, owns⟩ := inv.pinned key differs
    refine ⟨x, ?_, ?_⟩
    · dsimp only
      rw [field_update (X := X) Buf.dirty rfl]
      exact dirty
    · dsimp only
      rw [field_update (X := X) Buf.key rfl]
      exact owns
  · have other : x ≠ b := by
      rintro rfl
      dsimp only at zero
      rw [Function.update_self] at zero
      exact Nat.succ_ne_zero _ zero
    dsimp only at zero
    rw [Function.update_of_ne other] at zero
    exact ⟨zero, rfl⟩

/-- bget recycles `v` for a block no buffer caches. -/
theorem inv_recycle {q : ι} {dev blockno : Nat} {v : Fin nBuf} (inv : Inv s) (idle : s.pending q = none)
    (miss : s.cache.cached dev blockno = none) (victim : s.cache.recyclable = some v) :
    Inv { s with
      cache := { s.cache with
        buf := Function.update s.cache.buf v
          { s.cache.buf v with dev := dev, blockno := blockno, valid := false, dirty := false, refcnt := 1 } }
      pending := Function.update s.pending q (some v) } := by
  have uncached := inv.uncached_of_miss miss
  have reusable := inv.reusable_of_recyclable victim
  obtain ⟨free, noWaiter⟩ := inv.free_of_unused reusable.1
  set X : Buf β :=
    { s.cache.buf v with dev := dev, blockno := blockno, valid := false, dirty := false, refcnt := 1 } with hX
  refine ⟨inv.links, inv.complete, fun x => ?_, fun x q' held => ?_, fun x dirty => ?_, fun x inUse => ?_,
    fun x valid => ?_, fun key differs => ?_, inv.lru_keep rfl fun x zero => ?_, inv.clock⟩
  · dsimp only [users]
    by_cases here : x = v
    · subst here
      have waiting : Count.count s.pending (fun p => p = some x) = 0 := by
        have counted := inv.refcnt x
        rw [users, reusable.1] at counted
        omega
      rw [Function.update_self, Count.count_update_of_not_of (P := fun p => p = some x)
        (by rw [idle]; exact (Option.some_ne_none x).symm) rfl, waiting, free]
      rfl
    · rw [Function.update_of_ne here, Count.count_update_of_iff (P := fun p => p = some x), inv.refcnt x,
        users]
      rw [idle]
      exact iff_of_false (Option.some_ne_none x).symm fun same => here (Option.some.inj same).symm
  · dsimp only at held ⊢
    have other : x ≠ v := by
      rintro rfl
      rw [free] at held
      cases held
    rw [Function.update_of_ne other]
    exact inv.held_valid x q' held
  · dsimp only at dirty ⊢
    have other : x ≠ v := by
      rintro rfl
      rw [Function.update_self] at dirty
      cases dirty
    rw [Function.update_of_ne other] at dirty ⊢
    exact inv.dirty_valid x dirty
  · unfold firstFor
    dsimp only at inUse ⊢
    by_cases here : x = v
    · subst here
      rw [Function.update_self]
      refine Scan.find?_eq_of_unique (inv.complete x) ?_ fun y _ passes => ?_
      · simp [Bcache.caches, hX]
      · by_contra other
        dsimp only [Bcache.caches] at passes
        rw [Function.update_of_ne other] at passes
        exact uncached y ((Bcache.caches_iff dev blockno y).mp passes)
    · rw [Function.update_of_ne here] at inUse ⊢
      refine Scan.find?_of_fail_at (inv.first x inUse) (Ne.symm here) (fun y other => ?_) ?_
      · simp only [Bcache.caches, Function.update_of_ne other]
      · rw [Bool.eq_false_iff]
        intro passes
        rw [Bcache.caches_iff] at passes
        dsimp only at passes
        rw [Function.update_self] at passes
        exact uncached x passes.symm
  · dsimp only at valid ⊢
    have other : x ≠ v := by
      rintro rfl
      rw [Function.update_self] at valid
      cases valid
    rw [Function.update_of_ne other] at valid ⊢
    exact inv.coherent x valid
  · obtain ⟨x, dirty, owns⟩ := inv.pinned key differs
    have other : x ≠ v := by
      rintro rfl
      rw [reusable.2] at dirty
      cases dirty
    refine ⟨x, ?_, ?_⟩
    · dsimp only
      rw [Function.update_of_ne other]
      exact dirty
    · dsimp only
      rw [Function.update_of_ne other]
      exact owns
  · have other : x ≠ v := by
      rintro rfl
      dsimp only at zero
      rw [Function.update_self] at zero
      cases zero
    dsimp only at zero
    rw [Function.update_of_ne other] at zero
    exact ⟨zero, rfl⟩

/-! ## Under the sleep-lock -/

/-- Taking the sleep-lock moves one user of `b` from waiting to holding. -/
theorem Inv.users_acquire {q : ι} {b : Fin nBuf} (inv : Inv s) (waiting : s.pending q = some b)
    (free : s.cache.lock b = none) (x : Fin nBuf) :
    (s.cache.buf x).refcnt = Count.count (Function.update s.pending q none) (· = some x) +
      if Function.update s.cache.lock b (some q) x = none then 0 else 1 := by
  by_cases here : x = b
  · subst here
    have dropped : Count.count (Function.update s.pending q none) (· = some x) + 1 =
        Count.count s.pending (· = some x) :=
      Count.count_update_of_of_not waiting (Option.some_ne_none x).symm
    have counted := inv.refcnt x
    simp only [users, free, ↓reduceIte] at counted
    simp only [Function.update_self, reduceCtorEq, ↓reduceIte]
    omega
  · rw [Count.count_update_of_iff (P := fun p => p = some x), inv.refcnt x, users]
    · simp only [Function.update_of_ne here]
    · rw [waiting]
      exact iff_of_false (fun same => here (Option.some.inj same).symm) (Option.some_ne_none x).symm

/-- The rest of bread on a `B_VALID` buffer: only the sleep-lock changes
hands. -/
theorem inv_acquire_valid {q : ι} {b : Fin nBuf} (inv : Inv s) (waiting : s.pending q = some b)
    (free : s.cache.lock b = none) (valid : (s.cache.buf b).valid = true) :
    Inv { s with
      cache := { s.cache with lock := Function.update s.cache.lock b (some q) }
      pending := Function.update s.pending q none } := by
  refine ⟨inv.links, inv.complete, fun x => ?_, fun x q' held => ?_, inv.dirty_valid,
    inv.first_keep rfl (fun _ => rfl) fun x inUse => .inl inUse, inv.coherent, inv.pinned,
    inv.lru_keep rfl fun x zero => ⟨zero, rfl⟩, inv.clock⟩
  · exact inv.users_acquire waiting free x
  · dsimp only at held
    by_cases here : x = b
    · subst here
      exact valid
    · rw [Function.update_of_ne here] at held
      exact inv.held_valid x q' held

/-- The rest of bread on a buffer that is not `B_VALID`: take the sleep-lock
and read the block, which the store holds unchanged. -/
theorem inv_acquire_read {q : ι} {b : Fin nBuf} (inv : Inv s) (waiting : s.pending q = some b)
    (free : s.cache.lock b = none) (notValid : (s.cache.buf b).valid = false)
    (clean : (s.cache.buf b).dirty = false) :
    Inv { s with
      cache := { s.cache with
        lock := Function.update s.cache.lock b (some q)
        buf := Function.update s.cache.buf b
          { s.cache.buf b with data := s.cache.disk (s.cache.buf b).key, valid := true } }
      pending := Function.update s.pending q none } := by
  have used := inv.used_of_pending waiting
  have unchanged := inv.disk_eq_store (Buf.not_pristine_of_used used) clean
  set X : Buf β := { s.cache.buf b with data := s.cache.disk (s.cache.buf b).key, valid := true } with hX
  refine ⟨inv.links, inv.complete, fun x => ?_, fun x q' held => ?_, fun x dirty => ?_,
    inv.first_keep rfl (field_update (X := X) Buf.key rfl) fun x inUse => .inl ?_, fun x valid => ?_,
    fun key differs => ?_, inv.lru_keep rfl fun x zero => ⟨?_, rfl⟩, inv.clock⟩
  · dsimp only [users]
    rw [field_update (X := X) Buf.refcnt rfl]
    exact inv.users_acquire waiting free x
  · dsimp only at held ⊢
    by_cases here : x = b
    · subst here
      rw [Function.update_self]
    · rw [Function.update_of_ne here] at held ⊢
      exact inv.held_valid x q' held
  · dsimp only at dirty ⊢
    by_cases here : x = b
    · subst here
      rw [Function.update_self]
    · rw [Function.update_of_ne here] at dirty ⊢
      exact inv.dirty_valid x dirty
  · dsimp only at inUse
    by_cases here : x = b
    · subst here
      exact Buf.not_pristine_of_used used
    · rwa [Function.update_of_ne here] at inUse
  · dsimp only at valid ⊢
    rw [field_update (X := X) Buf.key rfl]
    by_cases here : x = b
    · subst here
      rw [Function.update_self]
      exact unchanged
    · rw [Function.update_of_ne here] at valid ⊢
      exact inv.coherent x valid
  · obtain ⟨x, dirty, owns⟩ := inv.pinned key differs
    refine ⟨x, ?_, ?_⟩
    · dsimp only
      rw [field_update (X := X) Buf.dirty rfl]
      exact dirty
    · dsimp only
      rw [field_update (X := X) Buf.key rfl]
      exact owns
  · dsimp only at zero
    rwa [field_update (X := X) Buf.refcnt rfl] at zero

/-- The holder of `b` publishes `d` for its block: through `bwrite`, which
writes it to the disk and leaves the buffer clean, or through `log_write`,
which pins the buffer `B_DIRTY`. -/
theorem inv_publish {q : ι} {b : Fin nBuf} {d : β} (inv : Inv s) (held : s.cache.lock b = some q)
    (Y : Buf β) (block : Y.key = (s.cache.buf b).key) (refcnt : Y.refcnt = (s.cache.buf b).refcnt)
    (valid : Y.valid = true) (data : Y.data = d) (disk : Nat × Nat → β)
    (written : Y.dirty = true ∧ disk = s.cache.disk ∨
      disk = Function.update s.cache.disk (s.cache.buf b).key d) :
    Inv { s with
      cache := { s.cache with disk := disk, buf := Function.update s.cache.buf b Y }
      store := Function.update s.store (s.cache.buf b).key d } := by
  have inUse : ¬ (s.cache.buf b).Pristine := Buf.not_pristine_of_used (inv.used_of_held held)
  refine ⟨inv.links, inv.complete, fun x => ?_, fun x q' held' => ?_, fun x dirty => ?_,
    inv.first_keep rfl (field_update Buf.key block) fun x inUse' => .inl ?_, fun x valid' => ?_,
    fun key differs => ?_, inv.lru_keep rfl fun x zero => ⟨?_, rfl⟩, inv.clock⟩
  · dsimp only [users]
    rw [field_update Buf.refcnt refcnt, inv.refcnt x, users]
  · dsimp only at held' ⊢
    by_cases here : x = b
    · subst here
      rw [Function.update_self]
      exact valid
    · rw [Function.update_of_ne here]
      exact inv.held_valid x q' held'
  · dsimp only at dirty ⊢
    by_cases here : x = b
    · subst here
      rw [Function.update_self]
      exact valid
    · rw [Function.update_of_ne here] at dirty ⊢
      exact inv.dirty_valid x dirty
  · dsimp only at inUse'
    by_cases here : x = b
    · subst here
      exact inUse
    · rwa [Function.update_of_ne here] at inUse'
  · dsimp only at valid' ⊢
    by_cases here : x = b
    · subst here
      rw [Function.update_self, block, Function.update_self]
      exact data
    · rw [Function.update_of_ne here] at valid' ⊢
      have other : (s.cache.buf x).key ≠ (s.cache.buf b).key := fun same =>
        here (inv.unique (Buf.not_pristine_of_valid valid') inUse same)
      rw [Function.update_of_ne other]
      exact inv.coherent x valid'
  · dsimp only at differs
    by_cases here : key = (s.cache.buf b).key
    · subst here
      rcases written with ⟨dirty, rfl⟩ | rfl
      · refine ⟨b, ?_, ?_⟩
        · dsimp only
          rw [Function.update_self]
          exact dirty
        · dsimp only
          rw [Function.update_self]
          exact block
      · rw [Function.update_self, Function.update_self] at differs
        exact absurd rfl differs
    · have sameDisk : disk key = s.cache.disk key := by
        rcases written with ⟨_, rfl⟩ | rfl
        · rfl
        · exact Function.update_of_ne here _ _
      rw [Function.update_of_ne here, sameDisk] at differs
      obtain ⟨x, dirty, owns⟩ := inv.pinned key differs
      have other : x ≠ b := by
        rintro rfl
        exact here owns.symm
      refine ⟨x, ?_, ?_⟩
      · dsimp only
        rw [Function.update_of_ne other]
        exact dirty
      · dsimp only
        rw [Function.update_of_ne other]
        exact owns
  · dsimp only at zero
    rwa [field_update Buf.refcnt refcnt] at zero

theorem inv_bwrite {q : ι} {b : Fin nBuf} {d : β} (inv : Inv s) (stepped : step s (.bwrite q b d) = some s') :
    Inv s' := by
  obtain ⟨held, rfl⟩ := step_bwrite stepped
  exact inv_publish inv held { s.cache.buf b with data := d, valid := true, dirty := false } rfl rfl rfl rfl
    _ (.inr rfl)

theorem inv_logWrite {q : ι} {b : Fin nBuf} {d : β} (inv : Inv s)
    (stepped : step s (.logWrite q b d) = some s') : Inv s' := by
  obtain ⟨held, rfl⟩ := step_logWrite stepped
  exact inv_publish inv held { s.cache.buf b with data := d, dirty := true } rfl rfl
    (inv.held_valid b q held) rfl _ (.inl ⟨rfl, rfl⟩)

/-! ## brelse -/

/-- brelse: the holder lets go of `b`; with no user left, `b` moves to the
front of the list and is stamped with the clock. -/
theorem inv_brelse {q : ι} {b : Fin nBuf} (inv : Inv s) (stepped : step s (.brelse q b) = some s') :
    Inv s' := by
  obtain ⟨held, moved⟩ := step_brelse stepped
  have inUse : ¬ (s.cache.buf b).Pristine := Buf.not_pristine_of_valid (inv.held_valid b q held)
  set Y : Buf β := { s.cache.buf b with refcnt := (s.cache.buf b).refcnt - 1 } with hY
  have refcnt : ∀ x, (Function.update s.cache.buf b Y x).refcnt =
      Count.count s.pending (· = some x) + if Function.update s.cache.lock b none x = none then 0 else 1 := by
    intro x
    by_cases here : x = b
    · subst here
      have counted := inv.refcnt x
      simp only [users, held, reduceCtorEq, ↓reduceIte] at counted
      simp only [Function.update_self, ↓reduceIte, hY]
      omega
    · simp only [Function.update_of_ne here]
      exact inv.refcnt x
  have heldValid : ∀ x q', Function.update s.cache.lock b none x = some q' →
      (Function.update s.cache.buf b Y x).valid = true := by
    intro x q' held'
    have other : x ≠ b := by
      rintro rfl
      rw [Function.update_self] at held'
      cases held'
    rw [Function.update_of_ne other] at held' ⊢
    exact inv.held_valid x q' held'
  have dirtyValid : ∀ x, (Function.update s.cache.buf b Y x).dirty = true →
      (Function.update s.cache.buf b Y x).valid = true := by
    intro x dirty
    rw [field_update (X := Y) Buf.dirty rfl] at dirty
    rw [field_update (X := Y) Buf.valid rfl]
    exact inv.dirty_valid x dirty
  have inUse' : ∀ x, ¬ (Function.update s.cache.buf b Y x).Pristine → ¬ (s.cache.buf x).Pristine := by
    intro x inUse'
    by_cases here : x = b
    · subst here
      exact inUse
    · rwa [Function.update_of_ne here] at inUse'
  have coherent : ∀ x, (Function.update s.cache.buf b Y x).valid = true →
      (Function.update s.cache.buf b Y x).data = s.store (Function.update s.cache.buf b Y x).key := by
    intro x valid
    rw [field_update (X := Y) Buf.valid rfl] at valid
    rw [field_update (X := Y) Buf.data rfl, field_update (X := Y) Buf.key rfl]
    exact inv.coherent x valid
  have pinned : ∀ key, s.store key ≠ s.cache.disk key →
      ∃ x, (Function.update s.cache.buf b Y x).dirty = true ∧ (Function.update s.cache.buf b Y x).key = key := by
    intro key differs
    obtain ⟨x, dirty, owns⟩ := inv.pinned key differs
    exact ⟨x, by rw [field_update (X := Y) Buf.dirty rfl]; exact dirty,
      by rw [field_update (X := Y) Buf.key rfl]; exact owns⟩
  rcases moved with ⟨last, rfl⟩ | ⟨more, rfl⟩
  · have nodup := inv.links.nodup
    have erased : ∀ x, x ∈ s.order.erase b ↔ x ≠ b := fun x =>
      (nodup.mem_erase_iff).trans (and_iff_left (inv.complete x))
    refine ⟨inv.links.unlink (inv.complete b) |>.pushFront (nodup.not_mem_erase), fun x => ?_, refcnt,
      heldValid, dirtyValid, fun x inUse'' => ?_, coherent, pinned, ?_, fun x => ?_⟩
    · by_cases here : x = b
      · rw [here]
        exact List.mem_cons_self
      · exact List.mem_cons_of_mem b ((erased x).mpr here)
    · have old := inv.first x (inUse' x inUse'')
      unfold firstFor at old ⊢
      dsimp only
      have blocks : Bcache.caches { s.cache with
          lock := Function.update s.cache.lock b none
          buf := Function.update s.cache.buf b Y
          links := (s.cache.links.unlink b).pushFront b } = s.cache.caches :=
        caches_congr (field_update (X := Y) Buf.key rfl)
      rw [blocks]
      have sameBlock := field_update (X := Y) Buf.key rfl x
      simp only [Buf.key, Prod.mk.injEq] at sameBlock
      rw [sameBlock.1, sameBlock.2]
      by_cases here : x = b
      · subst here
        rw [List.find?_cons_of_pos]
        exact (Bcache.caches_iff _ _ _).mpr rfl
      · have differ : (s.cache.buf b).key ≠ (s.cache.buf x).key := fun same =>
          here (inv.unique (inUse' x inUse'') inUse same.symm)
        have fails : s.cache.caches (s.cache.buf x).dev (s.cache.buf x).blockno b = false := by
          rw [Bool.eq_false_iff]
          intro passes
          exact differ ((Bcache.caches_iff _ _ _).mp passes)
        rw [List.find?_cons_of_neg (by rw [fails]; decide), Scan.find?_erase_of_false fails]
        exact old
    · refine List.pairwise_cons.mpr ⟨fun y member _ zero => ?_, ?_⟩
      · have other := (erased y).mp member
        dsimp only at zero ⊢
        rw [Function.update_self, Function.update_of_ne other]
        exact .inl (inv.clock y)
      · refine (inv.lru.sublist List.erase_sublist).imp_of_mem fun {a c} memberA memberC recent => ?_
        have otherA := (erased a).mp memberA
        have otherC := (erased c).mp memberC
        intro zero zero'
        dsimp only at zero zero' ⊢
        rw [Function.update_of_ne otherA] at zero ⊢
        rw [Function.update_of_ne otherC] at zero' ⊢
        exact recent zero zero'
    · dsimp only
      by_cases here : x = b
      · subst here
        rw [Function.update_self]
        exact Nat.lt_succ_self _
      · rw [Function.update_of_ne here]
        exact Nat.lt_succ_of_lt (inv.clock x)
  · refine ⟨inv.links, inv.complete, refcnt, heldValid, dirtyValid,
      inv.first_keep rfl (field_update (X := Y) Buf.key rfl) fun x inUse'' => .inl (inUse' x inUse''),
      coherent, pinned, inv.lru_keep rfl fun x zero => ⟨?_, rfl⟩, inv.clock⟩
    have other : x ≠ b := by
      rintro rfl
      dsimp only at zero
      rw [Function.update_self] at zero
      exact more zero
    dsimp only at zero
    rwa [Function.update_of_ne other] at zero

/-! ## Runs -/

theorem inv_step {a : Action ι β} (inv : Inv s) (stepped : step s a = some s') : Inv s' := by
  cases a with
  | bget q dev blockno =>
      obtain ⟨idle, ⟨c, b⟩, got, rfl⟩ := step_bget stepped
      rcases Bcache.bget_cases got with ⟨hit, found⟩ | ⟨miss, victim, found⟩
      · dsimp only at hit found ⊢
        subst found
        exact inv_hit inv idle hit
      · dsimp only at victim found ⊢
        subst found
        exact inv_recycle inv idle miss victim
  | acquire q =>
      obtain ⟨b, c, waiting, acquired, rfl⟩ := step_acquire stepped
      obtain ⟨free, ⟨valid, rfl⟩ | ⟨notValid, clean, rfl⟩ | ⟨notValid, dirty, _⟩⟩ :=
        Bcache.acquire_cases acquired
      · exact inv_acquire_valid inv waiting free valid
      · exact inv_acquire_read inv waiting free notValid clean
      · rw [inv.dirty_valid b dirty] at notValid
        cases notValid
  | bwrite q b d => exact inv_bwrite inv stepped
  | logWrite q b d => exact inv_logWrite inv stepped
  | brelse q b => exact inv_brelse inv stepped

/-- After binit nothing is in use and the list runs from `buf[NBUF-1]` to
`buf[0]`. -/
theorem inv_initial [Inhabited β] (disk : Nat × Nat → β) : Inv (initial (ι := ι) disk) := by
  have links : (Bcache.binit (ι := ι) disk).links.Represents ((List.finRange nBuf).reverse ++ []) :=
    Links.represents_empty.foldl_pushFront (List.finRange nBuf)
      (by rw [List.append_nil]; exact List.nodup_reverse.mpr (List.nodup_finRange nBuf))
  rw [List.append_nil] at links
  refine ⟨links, fun b => List.mem_reverse.mpr (List.mem_finRange b), fun b => ?_, fun b q held => ?_,
    fun b dirty => ?_, fun b inUse => ?_, fun b valid => ?_, fun key differs => ?_,
    List.pairwise_of_forall fun a b _ _ => .inr ⟨rfl, rfl⟩, fun b => Nat.one_pos⟩
  · show 0 = Count.count (fun _ => none) (· = some b) + 0
    rw [Nat.add_zero, eq_comm, Count.count_eq_zero]
    exact fun _ => (Option.some_ne_none b).symm
  · cases held
  · cases dirty
  · exact absurd ⟨rfl, rfl, rfl⟩ inUse
  · cases valid
  · exact absurd rfl differs

theorem inv_reachable [Inhabited β] {disk : Nat × Nat → β} (reachable : Reachable disk s) : Inv s :=
  Machine.Reachable.induction (fun _ initial => initial ▸ inv_initial disk)
    (fun _ _ _ _ inv stepped => inv_step inv stepped) reachable

end Bio
end Xv6
