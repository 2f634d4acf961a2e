import Xv6.Fs.System

/-!
# Uniqueness and write-through coherence of the inode cache

The invariant of the inode cache over every run: two entries in use never
hold the same inode; an entry in use that was read holds, with a type, the
dinode the disk has now; the holder of a sleep-lock holds a reference to an
entry that was read; every allocated dinode has all its blocks below its
size; and block 0 stays in use on every device.

The last two facts carry coherence.  bmap changes `ip->addrs` without
iupdate, and writei writes the copy through only when the size grows; but
within the size every block is there, so readi and writei allocate nothing
there, and block 0, which `addrs` uses for "no block", is never allocated.

An entry whose reference count falls to 0 keeps `valid` and its copy, and is
not covered: another entry may be recycled for the same inode and change it
on the disk.
-/

namespace Xv6
namespace Fs

/-- Every block of the file below its size is there: the entry of `addrs`
that bmap reads first for it is filled. -/
def Dinode.Full (x : Dinode) : Prop := ∀ bn, bn * bSize < x.size → x.addrs (slot bn) ≠ 0

@[simp] theorem Change.apply_type (ch : Change) (x : Dinode) : (ch.apply x).type = x.type := by
  cases ch <;> rfl

@[simp] theorem Change.apply_size (ch : Change) (x : Dinode) : (ch.apply x).size = x.size := by
  cases ch <;> rfl

@[simp] theorem Change.apply_addrs (ch : Change) (x : Dinode) : (ch.apply x).addrs = x.addrs := by
  cases ch <;> rfl

theorem Dinode.Full.change {x : Dinode} (full : x.Full) (ch : Change) : (ch.apply x).Full := by
  intro bn below
  rw [Change.apply_addrs]
  exact full bn (by rwa [Change.apply_size] at below)

theorem Dinode.full_of_size (x : Dinode) (empty : x.size = 0) : x.Full := by
  intro bn below
  omega

/-- A loop over bytes below the size of a complete copy allocates nothing. -/
theorem Dinode.Full.rwLoop_eq {x x' : Dinode} {d d' : Disk} {dev : Nat}
    {put : Nat → Nat → Disk → Disk} {off left : Nat} (full : x.Full)
    (puts : ∀ bn addr (d : Disk), d.Grows (put bn addr d)) (boot : d.bitmap (dev, 0) = true)
    (ran : rwLoop dev put d x off left = .ok (d', x')) (inside : off + left ≤ x.size) :
    d.Grows d' ∧ x' = x := by
  obtain ⟨grows, -, -, stable⟩ := rwLoop_spec puts ran boot
  exact ⟨grows, stable fun bn touched => full bn (by have := touched.2.2; omega)⟩

/-- writei's growth keeps the copy complete: the blocks below the old size
stay, and the loop filled those up to the new end. -/
theorem Dinode.Full.grow {x x' : Dinode} {off n : Nat} (full : x.Full) (extended : x.Extends x')
    (inside : off ≤ x.size) (positive : 0 < n)
    (filled : ∀ bn, Touches off n bn → x'.addrs (slot bn) ≠ 0) :
    ({ x' with size := off + n } : Dinode).Full := by
  intro bn below
  by_cases old : bn * bSize < x.size
  · rw [extended.addrs _ (full bn old)]
    exact full bn old
  · refine filled bn ⟨positive, ?_, below⟩
    simp only [bSize] at old ⊢
    omega

namespace System

variable {ι : Type}

/-- Replacing entry `i` by one for the same inode keeps every entry's inode. -/
theorem set_key (c : System ι) {i : Fin nInode} {e : Inode} (sameKey : e.key = (c.inode i).key)
    (j : Fin nInode) : ((c.set i e).inode j).key = (c.inode j).key := by
  by_cases same : j = i
  · subst same
    rw [set_inode_self, sameKey]
  · rw [set_inode_of_ne _ _ same]

/-- The invariant of the inode cache. -/
structure Inv (c : System ι) : Prop where
  unique : ∀ i j, 0 < (c.inode i).ref → 0 < (c.inode j).ref →
    (c.inode i).key = (c.inode j).key → i = j
  coherent : ∀ i, 0 < (c.inode i).ref → (c.inode i).valid = true →
    (c.inode i).copy = c.disk.dinode (c.inode i).key
  typed : ∀ i, 0 < (c.inode i).ref → (c.inode i).valid = true → (c.inode i).copy.type ≠ 0
  locked : ∀ i q, c.lock i = some q → 0 < (c.inode i).ref ∧ (c.inode i).valid = true
  full : ∀ key, (c.disk.dinode key).type ≠ 0 → (c.disk.dinode key).Full
  boot : ∀ dev, c.disk.bitmap (dev, 0) = true

variable {c c' : System ι} {i : Fin nInode}

namespace Inv

/-- The copy of a read entry in use has all its blocks. -/
theorem copy_full (inv : Inv c) (used : 0 < (c.inode i).ref) (valid : (c.inode i).valid = true) :
    (c.inode i).copy.Full := by
  rw [inv.coherent i used valid]
  exact inv.full _ (by rw [← inv.coherent i used valid]; exact inv.typed i used valid)

/-- Two entries in use with one of them `i`: the other holds another inode. -/
theorem key_ne (inv : Inv c) (used : 0 < (c.inode i).ref) {j : Fin nInode}
    (usedJ : 0 < (c.inode j).ref) (other : j ≠ i) : (c.inode j).key ≠ (c.inode i).key :=
  fun same => other (inv.unique j i usedJ used same)

/-- Replacing entry `i` by one for the same inode, in use only if `i` was,
keeps the entries in use apart. -/
theorem unique_set (inv : Inv c) {e : Inode} (sameKey : e.key = (c.inode i).key)
    (usedOld : 0 < e.ref → 0 < (c.inode i).ref) (j k : Fin nInode)
    (usedJ : 0 < ((c.set i e).inode j).ref) (usedK : 0 < ((c.set i e).inode k).ref)
    (same : ((c.set i e).inode j).key = ((c.set i e).inode k).key) : j = k := by
  have refs : ∀ l, 0 < ((c.set i e).inode l).ref → 0 < (c.inode l).ref := by
    intro l usedL
    by_cases here : l = i
    · subst here
      exact usedOld (by simpa using usedL)
    · rwa [set_inode_of_ne _ _ here] at usedL
  rw [set_key c sameKey, set_key c sameKey] at same
  exact inv.unique j k (refs j usedJ) (refs k usedK) same

/-- An update of entry `i` alone keeps an entry's copy its dinode, once the
new entry `i` has it. -/
theorem coherent_set (inv : Inv c) {e : Inode}
    (self : 0 < e.ref → e.valid = true → e.copy = c.disk.dinode e.key) (j : Fin nInode)
    (usedJ : 0 < ((c.set i e).inode j).ref) (valid : ((c.set i e).inode j).valid = true) :
    ((c.set i e).inode j).copy = (c.set i e).disk.dinode ((c.set i e).inode j).key := by
  by_cases same : j = i
  · subst same
    simp only [set_inode_self, set_disk] at usedJ valid ⊢
    exact self usedJ valid
  · simp only [set_inode_of_ne _ _ same, set_disk] at usedJ valid ⊢
    exact inv.coherent j usedJ valid

/-- An update of entry `i` alone keeps a read entry's copy typed, once the
new entry `i` is: the frame of the invariant's `typed`. -/
theorem typed_set {e : Inode}
    (typedAll : ∀ j, 0 < (c.inode j).ref → (c.inode j).valid = true → (c.inode j).copy.type ≠ 0)
    (self : 0 < e.ref → e.valid = true → e.copy.type ≠ 0) (j : Fin nInode)
    (usedJ : 0 < ((c.set i e).inode j).ref) (valid : ((c.set i e).inode j).valid = true) :
    ((c.set i e).inode j).copy.type ≠ 0 := by
  by_cases same : j = i
  · subst same
    simp only [set_inode_self] at usedJ valid ⊢
    exact self usedJ valid
  · simp only [set_inode_of_ne _ _ same] at usedJ valid ⊢
    exact typedAll j usedJ valid

/-- An update of entry `i` alone keeps a locked entry in use and read, once
the new entry `i` is whenever it is locked: the frame of `locked`. -/
theorem locked_set {e : Inode}
    (lockedAll : ∀ j q, c.lock j = some q → 0 < (c.inode j).ref ∧ (c.inode j).valid = true)
    (self : ∀ q, c.lock i = some q → 0 < e.ref ∧ e.valid = true) (j : Fin nInode) (q : ι)
    (held : (c.set i e).lock j = some q) :
    0 < ((c.set i e).inode j).ref ∧ ((c.set i e).inode j).valid = true := by
  rw [set_lock] at held
  by_cases same : j = i
  · subst same
    simpa using self q held
  · simpa [set_inode_of_ne _ _ same] using lockedAll j q held

theorem grow {d : Disk} (inv : Inv c) (grows : c.disk.Grows d) : Inv { c with disk := d } where
  unique := inv.unique
  coherent j used valid := by
    rw [inv.coherent j used valid]
    exact congrFun grows.dinode.symm _
  typed := inv.typed
  locked := inv.locked
  full key typed := by
    simp only [grows.dinode] at typed ⊢
    exact inv.full key typed
  boot dev := grows.bitmap _ (inv.boot dev)

theorem lock (inv : Inv c) (used : 0 < (c.inode i).ref) (valid : (c.inode i).valid = true)
    (q : ι) : Inv { c with lock := Function.update c.lock i (some q) } where
  unique := inv.unique
  coherent := inv.coherent
  typed := inv.typed
  locked j q' held := by
    by_cases same : j = i
    · subst same
      exact ⟨used, valid⟩
    · dsimp only at held ⊢
      rw [Function.update_of_ne same] at held
      exact inv.locked j q' held
  full := inv.full
  boot := inv.boot

theorem unlock (inv : Inv c) : Inv { c with lock := Function.update c.lock i none } where
  unique := inv.unique
  coherent := inv.coherent
  typed := inv.typed
  locked j q held := by
    by_cases same : j = i
    · subst same
      simp at held
    · dsimp only at held ⊢
      rw [Function.update_of_ne same] at held
      exact inv.locked j q held
  full := inv.full
  boot := inv.boot

/-- A change to the reference count of an entry in use, which leaves it in
use; or its drop to 0 once its sleep-lock is free. -/
theorem setRef (inv : Inv c) (used : 0 < (c.inode i).ref) {r : Nat}
    (stillUsed : 0 < r ∨ c.lock i = none) : Inv (c.set i { c.inode i with ref := r }) where
  unique := inv.unique_set rfl fun _ => used
  coherent := inv.coherent_set fun _ valid => inv.coherent i used valid
  typed := typed_set inv.typed fun _ valid => inv.typed i used valid
  locked := locked_set inv.locked fun q held => by
    -- a locked entry keeps a reference: the count only drops to 0 unlocked
    rcases stillUsed with positive | free
    · exact ⟨positive, (inv.locked i q held).2⟩
    · rw [free] at held
      cases held
  full := inv.full
  boot := inv.boot

/-- iget's recycling of a free entry for an inode no entry in use holds. -/
theorem recycle (inv : Inv c) (free : (c.inode i).ref = 0) {dev inum : Nat}
    (missing : ∀ j, 0 < (c.inode j).ref → (c.inode j).key ≠ (dev, inum)) :
    Inv (c.set i { c.inode i with dev := dev, inum := inum, ref := 1, valid := false }) where
  unique j k usedJ usedK same := by
    by_cases hj : j = i <;> by_cases hk : k = i
    · rw [hj, hk]
    · subst hj
      simp only [set_inode_self, set_inode_of_ne _ _ hk] at usedK same
      exact absurd same.symm (missing k usedK)
    · subst hk
      simp only [set_inode_self, set_inode_of_ne _ _ hj] at usedJ same
      exact absurd same (missing j usedJ)
    · simp only [set_inode_of_ne _ _ hj, set_inode_of_ne _ _ hk] at usedJ usedK same
      exact inv.unique j k usedJ usedK same
  -- the recycled entry is not valid, and was free so not locked
  coherent := inv.coherent_set fun _ valid => by cases valid
  typed := typed_set inv.typed fun _ valid => by cases valid
  locked := locked_set inv.locked fun q held => absurd (inv.locked i q held).1 (by omega)
  full := inv.full
  boot := inv.boot

theorem iget (inv : Inv c) {dev inum : Nat} (got : c.iget dev inum = .ok (c', i)) : Inv c' := by
  rcases iget_cases got with ⟨used, -, rfl⟩ | ⟨free, missing, rfl⟩
  · exact inv.setRef used (.inl (by omega))
  · exact inv.recycle free missing

/-- ilock reading the dinode of an entry in use. -/
theorem read (inv : Inv c) (used : 0 < (c.inode i).ref)
    (typed : (c.disk.dinode (c.inode i).key).type ≠ 0) :
    Inv (c.set i { c.inode i with copy := c.disk.dinode (c.inode i).key, valid := true }) where
  unique := inv.unique_set rfl fun _ => used
  coherent := inv.coherent_set fun _ _ => rfl
  typed := typed_set inv.typed fun _ _ => typed
  locked := locked_set inv.locked fun _ _ => ⟨used, rfl⟩
  full := inv.full
  boot := inv.boot

/-- A new copy of a read entry in use, written through to a disk that the
step grew: the copy keeps a type and all its blocks. -/
theorem writeThrough {d : Disk} (inv : Inv c) (used : 0 < (c.inode i).ref)
    (valid : (c.inode i).valid = true) (grows : c.disk.Grows d) {x : Dinode}
    (typed : x.type ≠ 0) (full : x.Full) :
    Inv (({ c with disk := d }.set i { c.inode i with copy := x }).iupdate i) := by
  have grown := inv.grow grows
  set c' := (({ c with disk := d } : System ι).set i { c.inode i with copy := x }).iupdate i
  have entry : c'.inode i = ⟨(c.inode i).dev, (c.inode i).inum, (c.inode i).ref, (c.inode i).valid, x⟩ := by
    simp [c']
  have others : ∀ j, j ≠ i → c'.inode j = c.inode j := by
    intro j other
    simp [c', set_inode_of_ne _ _ other]
  have dinodes : c'.disk.dinode = Function.update d.dinode (c.inode i).key x := by
    simp only [c', iupdate_dinode, set_inode_self]
    rfl
  refine ⟨fun j k usedJ usedK same => ?_, fun j usedJ validJ => ?_, fun j usedJ validJ => ?_,
    fun j q held => ?_, fun key typedKey => ?_, fun dev => grown.boot dev⟩
  · exact grown.unique_set (e := { c.inode i with copy := x }) rfl (fun _ => used) j k usedJ usedK same
  · rw [dinodes]
    by_cases same : j = i
    · subst same
      rw [entry]
      exact (Function.update_self (c.inode j).key x d.dinode).symm
    · rw [others j same] at usedJ validJ ⊢
      rw [Function.update_of_ne (inv.key_ne used usedJ same)]
      exact grown.coherent j usedJ validJ
  · by_cases same : j = i
    · subst same
      rw [entry]
      exact typed
    · rw [others j same] at usedJ validJ ⊢
      exact inv.typed j usedJ validJ
  · by_cases same : j = i
    · subst same
      rw [entry]
      exact inv.locked j q held
    · rw [others j same]
      exact inv.locked j q held
  · rw [dinodes] at typedKey ⊢
    by_cases here : key = (c.inode i).key
    · subst here
      rw [Function.update_self]
      exact full
    · rw [Function.update_of_ne here] at typedKey ⊢
      exact grown.full key typedKey

theorem change (inv : Inv c) {q : ι} (held : c.lock i = some q) (ch : Change) :
    Inv (c.change i ch) := by
  obtain ⟨used, valid⟩ := inv.locked i q held
  exact inv.writeThrough used valid (Disk.Grows.refl _)
    (by rw [Change.apply_type]; exact inv.typed i used valid) ((inv.copy_full used valid).change ch)

/-- ialloc's write of a new dinode over a free one, which no read entry in
use holds. -/
theorem allocate (inv : Inv c) {dev inum : Nat} (free : (c.disk.dinode (dev, inum)).type = 0)
    (type : Int) :
    Inv ({ c with disk := { c.disk with
      dinode := Function.update c.disk.dinode (dev, inum) { Dinode.zero with type := type } } } :
        System ι) where
  unique := inv.unique
  coherent j used valid := by
    have other : (c.inode j).key ≠ (dev, inum) := by
      intro same
      apply inv.typed j used valid
      rw [inv.coherent j used valid, same, free]
    simp only [Function.update_of_ne other]
    exact inv.coherent j used valid
  typed := inv.typed
  locked := inv.locked
  full key typed := by
    by_cases here : key = (dev, inum)
    · subst here
      simp only [Function.update_self]
      exact Dinode.full_of_size _ rfl
    · simp only [Function.update_of_ne here] at typed ⊢
      exact inv.full key typed
  boot := inv.boot

theorem ialloc (inv : Inv c) {dev : Nat} {type : Int} (allocated : c.ialloc dev type = .ok (c', i)) :
    Inv c' := by
  obtain ⟨inum, -, -, free, got⟩ := ialloc_cases allocated
  exact (inv.allocate free type).iget got

theorem ilock (inv : Inv c) {q : ι} (locked : c.ilock q i = .ok c') :
    Inv c' := by
  obtain ⟨used, ⟨valid, rfl⟩ | ⟨-, typed, rfl⟩⟩ := ilock_eq locked
  · exact inv.lock used valid q
  · -- the lock and the read are independent updates of the state
    exact (inv.read used typed).lock (by simpa using used) (by simp) q

theorem iunlock [DecidableEq ι] (inv : Inv c) {q : ι} (unlocked : c.iunlock q i = .ok c') : Inv c' := by
  obtain ⟨-, -, rfl⟩ := iunlock_eq unlocked
  exact inv.unlock

/-- iput freeing an inode on its last reference: no other entry in use holds
it, so only its dinode changes on the disk. -/
theorem free (inv : Inv c) (used : 0 < (c.inode i).ref) (unlocked : c.lock i = none) {d : Disk}
    (frees : c.disk.Frees (c.inode i).dev d) :
    Inv ({ c with disk := { d with
        dinode := Function.update d.dinode (c.inode i).key (freed (c.inode i).copy) } }.set i
      { c.inode i with copy := freed (c.inode i).copy, valid := false, ref := 0 }) where
  unique j k usedJ usedK same := by
    by_cases hj : j = i
    · subst hj
      simp at usedJ
    · by_cases hk : k = i
      · subst hk
        simp at usedK
      · simp only [set_inode_of_ne _ _ hj, set_inode_of_ne _ _ hk] at usedJ usedK same
        exact inv.unique j k usedJ usedK same
  coherent j usedJ valid := by
    by_cases same : j = i
    · subst same
      simp at valid
    · simp only [set_inode_of_ne _ _ same, set_disk] at usedJ valid ⊢
      rw [Function.update_of_ne (inv.key_ne used usedJ same), frees.dinode]
      exact inv.coherent j usedJ valid
  typed := typed_set inv.typed fun _ valid => by cases valid
  locked := locked_set inv.locked fun q held => by
    rw [unlocked] at held
    cases held
  full key typed := by
    simp only [set_disk] at typed ⊢
    by_cases here : key = (c.inode i).key
    · subst here
      simp [freed] at typed
    · rw [Function.update_of_ne here, frees.dinode] at typed ⊢
      exact inv.full key typed
  boot dev := by
    simp only [set_disk]
    rw [frees.boot dev]
    exact inv.boot dev

theorem iput (inv : Inv c) (unlocked : c.lock i = none) (used : 0 < (c.inode i).ref)
    (put : c.iput i = .ok c') : Inv c' := by
  rcases iput_cases put with ⟨-, -, -, d, frees, rfl⟩ | ⟨-, rfl⟩
  · exact inv.free used unlocked frees
  · exact inv.setRef used (.inr unlocked)

theorem readi (inv : Inv c) {q : ι} (held : c.lock i = some q) {off n : Nat}
    (read : c.readi i off n = .ok c') : Inv c' := by
  obtain ⟨used, valid⟩ := inv.locked i q held
  rcases readi_cases read with rfl | ⟨left, inside, d, x, ran, rfl⟩
  · exact inv
  · obtain ⟨grows, rfl⟩ := (inv.copy_full used valid).rwLoop_eq (fun _ _ d => Disk.Grows.refl d)
      (inv.boot _) ran inside
    rw [set_self]
    exact inv.grow grows

theorem writei (inv : Inv c) {q : ι} (held : c.lock i = some q) {off n : Nat}
    {src : Nat → Fin nIndirect → Nat} (written : c.writei i off n src = .ok c') : Inv c' := by
  obtain ⟨used, valid⟩ := inv.locked i q held
  have full := inv.copy_full used valid
  have puts : ∀ bn addr (d : Disk), d.Grows (store (c.inode i).dev src bn addr d) :=
    fun bn addr d => Disk.grows_block d _ _
  rcases writei_cases written with rfl | ⟨inside, d, x, ran, ⟨positive, past, rfl⟩ | ⟨within, rfl⟩⟩
  · exact inv
  · -- the write ends past the size: the copy grows and is written through
    obtain ⟨grows, extended, filled, -⟩ := rwLoop_spec puts ran (inv.boot _)
    refine inv.writeThrough used valid grows ?_ (full.grow extended inside positive filled)
    rw [extended.fields]
    exact inv.typed i used valid
  · -- the write ends within the size: every block it maps is there
    have extended := (rwLoop_spec puts ran (inv.boot _)).2.1
    have unchangedSize : x.size = (c.inode i).copy.size := by rw [extended.fields]
    have inside' : off + n ≤ (c.inode i).copy.size ∨ n = 0 := by omega
    rcases inside' with inside' | empty
    · obtain ⟨grows, rfl⟩ := full.rwLoop_eq puts (inv.boot _) ran inside'
      rw [set_self]
      exact inv.grow grows
    · subst empty
      obtain ⟨grows, rfl⟩ := full.rwLoop_eq puts (inv.boot _) ran (by omega)
      rw [set_self]
      exact inv.grow grows

theorem step [DecidableEq ι] (inv : Inv c) {a : Action ι} (stepped : c.step a = some c') : Inv c' := by
  cases a with
  | iget dev inum =>
      obtain ⟨i, got⟩ := step_iget stepped
      exact inv.iget got
  | idup i =>
      obtain ⟨used, rfl⟩ := step_idup stepped
      exact inv.setRef used (.inl (by omega))
  | ilock q i =>
      exact inv.ilock (step_ilock stepped).2
  | iunlock q i => exact inv.iunlock (step_iunlock stepped)
  | iput i =>
      obtain ⟨unlocked, used, put⟩ := step_iput stepped
      exact inv.iput unlocked used put
  | ialloc dev type =>
      obtain ⟨i, allocated⟩ := step_ialloc stepped
      exact inv.ialloc allocated
  | change q i ch =>
      obtain ⟨held, rfl⟩ := step_change stepped
      exact inv.change held ch
  | readi q i off n =>
      obtain ⟨held, read⟩ := step_readi stepped
      exact inv.readi held read
  | writei q i off n src =>
      obtain ⟨held, written⟩ := step_writei stepped
      exact inv.writei held written

end Inv

/-- The boot state over a disk whose allocated dinodes have all their blocks
and whose block 0 is in use. -/
theorem inv_initial {disk : Disk} (full : ∀ key, (disk.dinode key).type ≠ 0 → (disk.dinode key).Full)
    (boot : ∀ dev, disk.bitmap (dev, 0) = true) : Inv (initial disk : System ι) where
  unique i j used := by simp [initial] at used
  coherent i used := by simp [initial] at used
  typed i used := by simp [initial] at used
  locked i q held := by simp [initial] at held
  full := full
  boot := boot

theorem inv_reachable [DecidableEq ι] {disk : Disk}
    (full : ∀ key, (disk.dinode key).type ≠ 0 → (disk.dinode key).Full)
    (boot : ∀ dev, disk.bitmap (dev, 0) = true) (reachable : Reachable disk c) : Inv c :=
  Machine.Reachable.induction (fun _ initial => initial ▸ inv_initial full boot)
    (fun _ _ _ _ inv stepped => inv.step stepped) reachable

/-! ## Which steps give an entry another inode -/

section Reuse

theorem idup_key (j : Fin nInode) : ((c.idup i).inode j).key = (c.inode j).key :=
  set_key c (by rfl) j

theorem ilock_key {q : ι} (locked : c.ilock q i = .ok c') (j : Fin nInode) :
    (c'.inode j).key = (c.inode j).key := by
  obtain ⟨-, ⟨-, rfl⟩ | ⟨-, -, rfl⟩⟩ := ilock_eq locked
  · rfl
  · exact set_key _ (by rfl) j

theorem iunlock_key [DecidableEq ι] {q : ι} (unlocked : c.iunlock q i = .ok c') (j : Fin nInode) :
    (c'.inode j).key = (c.inode j).key := by
  obtain ⟨-, -, rfl⟩ := iunlock_eq unlocked
  rfl

theorem iput_key (put : c.iput i = .ok c') (j : Fin nInode) :
    (c'.inode j).key = (c.inode j).key := by
  rcases iput_cases put with ⟨-, -, -, d, -, rfl⟩ | ⟨-, rfl⟩
  · exact set_key _ (by rfl) j
  · exact set_key c (by rfl) j

theorem change_key (ch : Change) (j : Fin nInode) : ((c.change i ch).inode j).key = (c.inode j).key :=
  set_key c (by rfl) j

theorem readi_key {off n : Nat} (read : c.readi i off n = .ok c') (j : Fin nInode) :
    (c'.inode j).key = (c.inode j).key := by
  rcases readi_cases read with rfl | ⟨left, -, d, x, -, rfl⟩
  · rfl
  · exact set_key _ (by rfl) j

theorem writei_key {off n : Nat} {src : Nat → Fin nIndirect → Nat}
    (written : c.writei i off n src = .ok c') (j : Fin nInode) :
    (c'.inode j).key = (c.inode j).key := by
  rcases writei_cases written with rfl | ⟨-, d, x, -, ⟨-, -, rfl⟩ | ⟨-, rfl⟩⟩
  · rfl
  · exact set_key _ (by rfl) j
  · exact set_key _ (by rfl) j

/-- iget gives an entry another inode only when the entry was free, and then
hands it out with one reference and not valid. -/
theorem iget_reuse {dev inum : Nat} {j : Fin nInode} (got : c.iget dev inum = .ok (c', j))
    (i : Fin nInode) (moved : (c'.inode i).key ≠ (c.inode i).key) :
    (c.inode i).ref = 0 ∧ (c'.inode i).ref = 1 ∧ (c'.inode i).valid = false := by
  have here : i = j := by
    by_contra other
    rcases iget_cases got with ⟨-, -, rfl⟩ | ⟨-, -, rfl⟩ <;>
      exact moved (by rw [set_inode_of_ne _ _ other])
  subst here
  rcases iget_cases got with ⟨-, -, rfl⟩ | ⟨free, -, rfl⟩
  · exact absurd (set_key c (by rfl) i) moved
  · exact ⟨free, by simp, by simp⟩

/-- Over any step, an entry comes to hold another inode only if it was free,
and it is then handed out with one reference and `valid` cleared, so that
ilock reads the dinode from the disk. -/
theorem reuse_of_step [DecidableEq ι] {a : Action ι} (stepped : c.step a = some c')
    (i : Fin nInode) (moved : (c'.inode i).key ≠ (c.inode i).key) :
    (c.inode i).ref = 0 ∧ (c'.inode i).ref = 1 ∧ (c'.inode i).valid = false := by
  cases a with
  | iget dev inum =>
      obtain ⟨j, got⟩ := step_iget stepped
      exact iget_reuse got i moved
  | ialloc dev type =>
      -- ialloc changes only the disk before its iget
      obtain ⟨j, allocated⟩ := step_ialloc stepped
      obtain ⟨inum, -, -, -, got⟩ := ialloc_cases allocated
      exact iget_reuse got i moved
  | idup j =>
      obtain ⟨-, rfl⟩ := step_idup stepped
      exact absurd (idup_key i) moved
  | ilock q j => exact absurd (ilock_key (step_ilock stepped).2 i) moved
  | iunlock q j => exact absurd (iunlock_key (step_iunlock stepped) i) moved
  | iput j => exact absurd (iput_key (step_iput stepped).2.2 i) moved
  | change q j ch =>
      obtain ⟨-, rfl⟩ := step_change stepped
      exact absurd (change_key ch i) moved
  | readi q j off n => exact absurd (readi_key (step_readi stepped).2 i) moved
  | writei q j off n src => exact absurd (writei_key (step_writei stepped).2 i) moved

end Reuse

/-- A disk with two empty files, inodes 2 and 3 of device 1 with one link
each, and blocks 0 to 58 in use, as mkfs leaves its metadata. -/
def twoFiles : Disk where
  dinode key := if key = (1, 2) ∨ key = (1, 3) then { Dinode.zero with type := 2, nlink := 1 }
    else Dinode.zero
  bitmap key := decide (key.2 < 59)
  block _ _ := 0

/-- The first two entries of the icache. -/
def entry₀ : Fin nInode := ⟨0, Nat.zero_lt_of_lt one_lt_nInode⟩

def entry₁ : Fin nInode := ⟨1, one_lt_nInode⟩

/-- One process opens file 2, links it once more and unlocks it, and opens it
a second time. -/
def linkRun : List (Action (Fin 1)) :=
  let p₀ : Fin 1 := ⟨0, Nat.one_pos⟩
  [.iget 1 2, .ilock p₀ entry₀, .change p₀ entry₀ .nlinkUp, .iunlock p₀ entry₀, .iget 1 2]

/-- One process opens file 2 and drops it, then file 3 and drops it, then
opens file 3 again and links it: iget recycles entry 0 for it, and entry 1,
free, unlocked and valid, keeps the old link count. -/
def staleRun : List (Action (Fin 1)) :=
  let p₀ : Fin 1 := ⟨0, Nat.one_pos⟩
  [.iget 1 2, .ilock p₀ entry₀, .iunlock p₀ entry₀, .iget 1 3, .ilock p₀ entry₁, .iunlock p₀ entry₁,
    .iput entry₀, .iput entry₁, .iget 1 3, .ilock p₀ entry₀, .change p₀ entry₀ .nlinkUp,
    .iunlock p₀ entry₀]

/-- The coherence of (b) fails for an entry whose reference count is 0: after
`staleRun`, entry 1 is valid with its sleep-lock free, and its copy is not the
dinode on the disk. -/
theorem stale_entry_incoherent :
    ∃ c : System (Fin 1), Reachable twoFiles c ∧ ∃ i, (c.inode i).ref = 0 ∧
      (c.inode i).valid = true ∧ c.lock i = none ∧ (c.inode i).copy ≠ c.disk.dinode (c.inode i).key := by
  obtain ⟨c, ran⟩ : ∃ c, Machine.run step (initial twoFiles : System (Fin 1)) staleRun = some c :=
    Option.isSome_iff_exists.mp (by decide +kernel)
  have seen : (Machine.run step (initial twoFiles : System (Fin 1)) staleRun).map
      (fun c => ((c.inode entry₁).ref, (c.inode entry₁).valid, decide (c.lock entry₁ = none),
        (c.inode entry₁).copy.nlink, (c.disk.dinode (c.inode entry₁).key).nlink)) =
      some (0, true, true, 1, 2) := by
    decide +kernel
  rw [ran, Option.map_some, Option.some.injEq] at seen
  simp only [Prod.mk.injEq, decide_eq_true_eq] at seen
  obtain ⟨free, valid, unlocked, old, new⟩ := seen
  refine ⟨c, Machine.Reachable.run (Machine.Reachable.initial rfl) ran, entry₁, free, valid,
    unlocked, fun same => ?_⟩
  have links := congrArg Dinode.nlink same
  rw [old, new] at links
  cases links

/-- A disk whose file 2 of device 1 has 512 bytes and no block for them: a
hole below the size. -/
def holeFile : Disk where
  dinode key := if key = (1, 2) then { Dinode.zero with type := 2, nlink := 1, size := 512 } else Dinode.zero
  bitmap key := decide (key.2 < 59)
  block _ _ := 0

/-- One process opens file 2, reads its first byte and unlocks it. -/
def holeReadRun : List (Action (Fin 1)) :=
  let p₀ : Fin 1 := ⟨0, Nat.one_pos⟩
  [.iget 1 2, .ilock p₀ entry₀, .readi p₀ entry₀ 0 1, .iunlock p₀ entry₀]

/-- The coherence of (b) fails over a disk with a hole: readi's bmap
allocates the missing block into the copy and nothing writes the copy back,
so after `holeReadRun` the entry in use, valid and unlocked, maps block 0 of
the file where the disk's dinode still has no block. -/
theorem hole_read_incoherent :
    (holeFile.dinode (1, 2)).type ≠ 0 ∧ ¬ (holeFile.dinode (1, 2)).Full ∧
      ∃ c : System (Fin 1), Reachable holeFile c ∧ ∃ i, 0 < (c.inode i).ref ∧
        (c.inode i).valid = true ∧ c.lock i = none ∧ (c.inode i).copy ≠ c.disk.dinode (c.inode i).key := by
  refine ⟨by decide, fun full => full 0 (by decide) rfl, ?_⟩
  obtain ⟨c, ran⟩ : ∃ c, Machine.run step (initial holeFile : System (Fin 1)) holeReadRun = some c :=
    Option.isSome_iff_exists.mp (by decide +kernel)
  have seen : (Machine.run step (initial holeFile : System (Fin 1)) holeReadRun).map
      (fun c => ((c.inode entry₀).ref, (c.inode entry₀).valid, decide (c.lock entry₀ = none),
        (c.inode entry₀).copy.addrs 0, (c.disk.dinode (c.inode entry₀).key).addrs 0)) =
      some (1, true, true, 59, 0) := by
    decide +kernel
  rw [ran, Option.map_some, Option.some.injEq] at seen
  simp only [Prod.mk.injEq, decide_eq_true_eq] at seen
  obtain ⟨ref, valid, unlocked, mapped, hole⟩ := seen
  refine ⟨c, Machine.Reachable.run (Machine.Reachable.initial rfl) ran, entry₀, by rw [ref]; decide, valid,
    unlocked, fun same => ?_⟩
  have block := congrArg (fun x : Dinode => x.addrs 0) same
  simp only [mapped, hole] at block
  cases block

end System

end Fs
end Xv6
