import Xv6.Fs.Vol
import Mathlib.Data.Fintype.Card

/-!
# Path resolution

namex against what a path means.  A path with no NUL names the list of its
`components`, and namex walks them from the root or from the working
directory, looking each up as `lookup` does in the directory reached so far
(`walk`), one level short for nameiparent (`parentWalk`).

The walk holds one reference at a time, besides the caller's, and one more
while it takes the next inode: `Walking` is that bookkeeping against the
state the walk started from, kept by every call namex makes, and
`namexLoop_spec` is the run of the loop, one turn per component.  The walk
needs a tree to walk (`Tree`: directories of whole entries whose entries in
use name inodes that have a type and a link), no sleep-lock held, and two
free entries in the icache; without free entries, iget panics.
-/
namespace Xv6
namespace Fs

/-- The inode reached from `inum` through `names`, each looked up, as
`lookup` finds it, in the directory reached before it: `none` when a name is
missing or is looked up in an inode that is not a directory. -/
def walk (node : Nat → Node) : Nat → List (List UInt8) → Option Nat
  | inum, [] => some inum
  | inum, name :: names =>
      if (node inum).type ≠ tDir then none
      else
        match lookup name (entries (node inum).data) 0 with
        | none => none
        | some (next, _) => walk node next names

/-- The parent a path names: the inode reached through every component but
the last, when that is a directory; `none` for a path with no component. -/
def parentWalk (node : Nat → Node) (inum : Nat) (names : List (List UInt8)) : Option Nat :=
  if names = [] then none
  else (walk node inum names.dropLast).filter fun parent => (node parent).type = tDir

/-- The directory tree namex walks: every directory of whole entries within
`MAXFILE` blocks, each entry in use naming an inode that has a type and a
link, and a root that has both. -/
structure Tree (node : Nat → Node) : Prop where
  aligned : ∀ inum, (node inum).type = tDir → (node inum).data.length % direntSize = 0
  fits : ∀ inum, (node inum).type = tDir → (node inum).data.length ≤ maxFile * bSize
  named : ∀ inum, (node inum).type = tDir → ∀ de ∈ entries (node inum).data, de.inum ≠ 0 →
    (node de.inum).type ≠ 0 ∧ (node de.inum).nlink ≠ 0
  root : (node rootIno).type ≠ 0 ∧ (node rootIno).nlink ≠ 0

/-- What namex's loop is meant to return from `inum` for the components
`names`: nameiparent's parent, or namei's walk. -/
def resolve (node : Nat → Node) (parent : Bool) (inum : Nat) (names : List (List UInt8)) : Option Nat :=
  if parent then parentWalk node inum names else walk node inum names

section Resolve

variable {node : Nat → Node} {parent : Bool} {inum : Nat} {name : List UInt8} {names : List (List UInt8)}

theorem resolve_nil : resolve node parent inum [] = if parent then none else some inum := by
  cases parent <;> rfl

theorem resolve_not_dir (notDir : (node inum).type ≠ tDir) : resolve node parent inum (name :: names) = none := by
  cases parent
  · simp [resolve, walk, notDir]
  · unfold resolve parentWalk
    cases names with
    | nil => simp [walk, notDir]
    | cons next rest => simp [walk, notDir]

theorem resolve_last (isDir : (node inum).type = tDir) : resolve node true inum [name] = some inum := by
  simp [resolve, parentWalk, walk, isDir]

theorem resolve_missing (isDir : (node inum).type = tDir)
    (missing : lookup name (entries (node inum).data) 0 = none) (more : parent = true → names ≠ []) :
    resolve node parent inum (name :: names) = none := by
  cases parent
  · simp [resolve, walk, isDir, missing]
  · obtain ⟨next, rest, rfl⟩ := List.exists_cons_of_ne_nil (more rfl)
    simp [resolve, parentWalk, walk, isDir, missing]

theorem resolve_next (isDir : (node inum).type = tDir) {next off : Nat}
    (found : lookup name (entries (node inum).data) 0 = some (next, off))
    (more : parent = true → names ≠ []) :
    resolve node parent inum (name :: names) = resolve node parent next names := by
  cases parent
  · simp [resolve, walk, isDir, found]
  · obtain ⟨later, rest, rfl⟩ := List.exists_cons_of_ne_nil (more rfl)
    simp [resolve, parentWalk, walk, isDir, found]

end Resolve

namespace Vol

/-- The entries of the icache that no reference holds. -/
def freeSlots (v : Vol) : Finset (Fin nInode) := Finset.univ.filter fun j => (v.slot j).ref = 0

/-- A state of namex against the state `v` it started from: the inodes as
they were, `extra j` more references on entry `j`, the entries in use at the
start holding what they held, and only `lk`'s sleep-lock held. -/
structure Walking (v w : Vol) (extra : Fin nInode → Nat) (lk : Option (Fin nInode)) : Prop where
  node : w.node = v.node
  ref : ∀ j, (w.slot j).ref = (v.slot j).ref + extra j
  inum : ∀ j, 0 < (v.slot j).ref → (w.slot j).inum = (v.slot j).inum
  locked : ∀ j, (w.slot j).locked = decide (lk = some j)

/-- One reference on `r`'s entry, none on the others. -/
def mark (r : Option (Fin nInode)) (j : Fin nInode) : Nat := if r = some j then 1 else 0

theorem mark_release (ip : Fin nInode) :
    Function.update (mark (some ip)) ip (mark (some ip) ip - 1) = mark none := by
  funext k
  by_cases same : k = ip
  · subst same
    simp [mark]
  · simp [mark, same, Ne.symm same]

theorem mark_move (ip j : Fin nInode) :
    Function.update (Function.update (mark (some ip)) j (mark (some ip) j + 1)) ip
      (Function.update (mark (some ip)) j (mark (some ip) j + 1) ip - 1) = mark (some j) := by
  funext k
  by_cases here : k = ip
  · subst here
    by_cases same : j = k
    · subst same
      simp [mark]
    · simp [mark, same, Ne.symm same]
  · by_cases there : k = j
    · subst there
      simp [mark, here, Ne.symm here]
    · simp [mark, here, there, Ne.symm here, Ne.symm there]


section Walking

variable {v w : Vol} {extra : Fin nInode → Nat} {lk : Option (Fin nInode)} {ip : Fin nInode}

/-- A walking state after entry `ip` changes: the new entry's references are
the start's and `extra' ip`, it holds the same inode if it was in use at the
start, and its lock is `lk'`'s; the other entries keep their references and
locks. -/
theorem Walking.setSlot (walking : Walking v w extra lk) {e : Slot}
    (inum : 0 < (v.slot ip).ref → e.inum = (w.slot ip).inum) {extra' : Fin nInode → Nat}
    (refs : e.ref = (v.slot ip).ref + extra' ip) (others : ∀ j ≠ ip, extra' j = extra j)
    {lk' : Option (Fin nInode)} (locks : e.locked = decide (lk' = some ip))
    (otherLocks : ∀ j ≠ ip, decide (lk = some j) = decide (lk' = some j)) :
    Walking v (w.setSlot ip e) extra' lk' where
  node := walking.node
  ref j := by
    by_cases same : j = ip
    · subst same
      simpa using refs
    · rw [setSlot_slot_of_ne _ _ same, walking.ref, others j same]
  inum j used := by
    by_cases same : j = ip
    · subst same
      rw [setSlot_slot_self, inum used, walking.inum j used]
    · rw [setSlot_slot_of_ne _ _ same, walking.inum j used]
  locked j := by
    by_cases same : j = ip
    · subst same
      simpa using locks
    · rw [setSlot_slot_of_ne _ _ same, walking.locked, otherLocks j same]

theorem Walking.ilock (walking : Walking v w extra none) (used : 0 < (w.slot ip).ref)
    (typed : (w.inode ip).type ≠ 0) :
    w.ilock ip = .ok (w.setSlot ip { w.slot ip with locked := true, valid := true }) ∧
      Walking v (w.setSlot ip { w.slot ip with locked := true, valid := true }) extra (some ip) := by
  refine ⟨ilock_of_typed used (by rw [walking.locked]; simp) typed, ?_⟩
  apply walking.setSlot (e := { w.slot ip with locked := true, valid := true }) (fun _ => rfl)
    (walking.ref ip) (fun _ _ => rfl) (by simp)
  intro j other
  simp [Ne.symm other]

theorem Walking.iunlock (walking : Walking v w extra (some ip)) (used : 0 < (w.slot ip).ref) :
    w.iunlock ip = .ok (w.setSlot ip { w.slot ip with locked := false }) ∧
      Walking v (w.setSlot ip { w.slot ip with locked := false }) extra none := by
  refine ⟨iunlock_of_locked (by rw [walking.locked]; simp) used, ?_⟩
  apply walking.setSlot (e := { w.slot ip with locked := false }) (fun _ => rfl) (walking.ref ip)
    (fun _ _ => rfl) (by simp)
  intro j other
  simp [Ne.symm other]

theorem Walking.iput (walking : Walking v w extra none) (held : 0 < extra ip)
    (kept : (w.inode ip).nlink ≠ 0 ∨ 2 ≤ (w.slot ip).ref) :
    w.iput ip = .ok (w.setSlot ip { w.slot ip with ref := (w.slot ip).ref - 1 }) ∧
      Walking v (w.setSlot ip { w.slot ip with ref := (w.slot ip).ref - 1 })
        (Function.update extra ip (extra ip - 1)) none := by
  refine ⟨iput_of_kept (by rw [walking.locked]; simp) kept, ?_⟩
  apply walking.setSlot (e := { w.slot ip with ref := (w.slot ip).ref - 1 }) (fun _ => rfl)
    (by simp [walking.ref ip]; omega)
    (fun j other => Function.update_of_ne other ..) (by simp [walking.locked])
  intro j _
  rfl

theorem Walking.iget (walking : Walking v w extra lk) (room : ∃ j, (w.slot j).ref = 0) (inum : Nat) :
    ∃ w' j, w.iget inum = .ok (w', j) ∧ Walking v w' (Function.update extra j (extra j + 1)) lk ∧
      (w'.slot j).inum = inum ∧ ∀ k, 0 < (w.slot k).ref → (w'.slot k).inum = (w.slot k).inum := by
  obtain ⟨w', j, got⟩ := iget_ok_of_free room inum
  refine ⟨w', j, got, ?_, (iget_spec got).2.1, fun k used => ?_⟩
  · rcases iget_cases got with ⟨_, _, rfl⟩ | ⟨unused, _, rfl⟩
    · apply walking.setSlot (e := { w.slot j with ref := (w.slot j).ref + 1 }) (fun _ => rfl)
        (by simp [walking.ref j]; omega) (fun k other => Function.update_of_ne other ..)
        (by simp [walking.locked])
      intro k _
      rfl
    · have start : (v.slot j).ref = 0 ∧ extra j = 0 := by
        rw [walking.ref j] at unused
        omega
      apply walking.setSlot (e := { w.slot j with inum := inum, ref := 1, valid := false })
        (fun used => absurd start.1 (by omega)) (by simp [start.1, start.2])
        (fun k other => Function.update_of_ne other ..) (by simp [walking.locked])
      intro k _
      rfl
  · by_cases same : k = j
    · subst same
      exact (iget_spec got).2.2.2.2.1 used
    · rw [(iget_spec got).2.2.2.2.2 k same]

theorem Walking.iunlockput (walking : Walking v w extra (some ip)) (held : 0 < extra ip)
    (kept : (w.inode ip).nlink ≠ 0 ∨ 2 ≤ (w.slot ip).ref) :
    ∃ w', w.iunlockput ip = .ok w' ∧ Walking v w' (Function.update extra ip (extra ip - 1)) none ∧
      ∀ k, (w'.slot k).inum = (w.slot k).inum := by
  have used : 0 < (w.slot ip).ref := by rw [walking.ref]; omega
  obtain ⟨unlocked, walking₁⟩ := walking.iunlock used
  obtain ⟨put, walking₂⟩ := walking₁.iput held (by simpa [inode] using kept)
  refine ⟨_, by rw [Vol.iunlockput, unlocked, Fallible.ok_bind, put], walking₂, fun k => ?_⟩
  by_cases same : k = ip
  · subst same
    simp
  · simp [same]

end Walking

/-! ## The loop -/

theorem namexLoop_exit {parent : Bool} {fuel : Nat} {w : Vol} {path name : List UInt8}
    {ip : Fin nInode} (exits : fuel = 0 ∨ skipelem path = none) :
    namexLoop parent fuel w path name ip =
      if parent then w.iput ip >>= fun w => .ok (w, none, name) else .ok (w, some ip, name) := by
  unfold namexLoop
  split
  · -- a turn of the loop: neither exit holds
    rcases exits with zero | none <;> simp_all
  · rfl

variable {v : Vol}

/-- Two entries free at the start leave one free, other than the one the
walk holds, at every turn. -/
theorem Walking.room {w : Vol} {ip : Fin nInode} {lk : Option (Fin nInode)}
    (walking : Walking v w (mark (some ip)) lk) (free : 2 ≤ (freeSlots v).card) :
    ∃ j, (w.slot j).ref = 0 := by
  obtain ⟨a, b, aFree, bFree, differ⟩ := Finset.one_lt_card_iff.mp free
  simp only [freeSlots, Finset.mem_filter, Finset.mem_univ, true_and] at aFree bFree
  by_cases held : a = ip
  · refine ⟨b, ?_⟩
    rw [walking.ref, bFree]
    simp [mark]
    intro same
    exact differ (held.trans same)
  · refine ⟨a, ?_⟩
    rw [walking.ref, aFree]
    simp [mark, Ne.symm held]

/-- The exit of namex's loop: nameiparent drops the walk's reference and
returns 0, namei returns the inode reached. -/
theorem namexLoop_exit_spec (parent : Bool) (name : List UInt8) {fuel : Nat} {w : Vol}
    {ip : Fin nInode} {path : List UInt8} (walking : Walking v w (mark (some ip)) none)
    (kept : (v.node (w.slot ip).inum).nlink ≠ 0 ∨ 0 < (v.slot ip).ref)
    (exits : fuel = 0 ∨ skipelem path = none) :
    ∃ w' r, namexLoop parent fuel w path name ip = .ok (w', r, name) ∧ Walking v w' (mark r) none ∧
      r.map (fun j => (w'.slot j).inum) = resolve v.node parent (w.slot ip).inum [] ∧
      (parent = true → r ≠ none → False) := by
  rw [namexLoop_exit exits]
  cases parent with
  | false =>
      exact ⟨w, some ip, rfl, walking, by simp [resolve_nil], fun no => nomatch no⟩
  | true =>
      have held : 0 < mark (some ip) ip := by simp [mark]
      have stays : (w.inode ip).nlink ≠ 0 ∨ 2 ≤ (w.slot ip).ref := by
        rw [inode, walking.node, walking.ref ip]
        simp only [mark, if_true]
        omega
      obtain ⟨put, dropped⟩ := walking.iput held stays
      rw [mark_release] at dropped
      exact ⟨_, none, by rw [if_pos rfl, put]; rfl, dropped, by simp [resolve_nil],
        fun _ none => none rfl⟩

/-- namex's loop from the entry `ip`, which the walk holds: it returns what
`resolve` says, with the references as at the start but one on the entry
returned, and for nameiparent the last component's name. -/
theorem namexLoop_spec (tree : Tree v.node) (free : 2 ≤ (freeSlots v).card) (parent : Bool)
    (fuel : Nat) :
    ∀ {w : Vol} {ip : Fin nInode} {path : List UInt8} (name : List UInt8),
      Walking v w (mark (some ip)) none → 0 ∉ path → path.length ≤ fuel →
      (v.node (w.slot ip).inum).type ≠ 0 →
      ((v.node (w.slot ip).inum).nlink ≠ 0 ∨ 0 < (v.slot ip).ref) →
      ∃ w' r name', namexLoop parent fuel w path name ip = .ok (w', r, name') ∧
        Walking v w' (mark r) none ∧
        r.map (fun j => (w'.slot j).inum) = resolve v.node parent (w.slot ip).inum (components path) ∧
        (parent = true → r ≠ none →
          (components path).getLast?.map (List.take dirSiz) = some (cname dirSiz name')) := by
  induction fuel with
  | zero =>
      intro w ip path name walking noNul enough typed kept
      obtain rfl : path = [] := List.eq_nil_of_length_eq_zero (by omega)
      obtain ⟨w', r, ran, walked, resolved, named⟩ :=
        namexLoop_exit_spec parent name walking kept (.inl rfl)
      exact ⟨w', r, name, ran, walked, resolved, fun isParent found => (named isParent found).elim⟩
  | succ fuel inductionHypothesis =>
      intro w ip path name walking noNul enough typed kept
      cases skipped : skipelem path with
      | none =>
          have empty := (skipelem_eq_none_iff noNul).mp skipped
          obtain ⟨w', r, ran, walked, resolved, named⟩ :=
            namexLoop_exit_spec parent name walking kept (.inr skipped)
          refine ⟨w', r, name, ran, walked, by rw [empty]; exact resolved,
            fun isParent found => (named isParent found).elim⟩
      | some taken =>
          obtain ⟨name', rest⟩ := taken
          obtain ⟨word, split, wordNoNul, named, restNoNul, shorter⟩ := skipelem_eq_some noNul skipped
          have lastTest := skipelem_rest_headD noNul skipped
          have sameName : cname dirSiz name' = cname dirSiz word := by
            rw [named, cname_of_nul_not_mem wordNoNul]
          have held : 0 < (w.slot ip).ref := by
            rw [walking.ref]
            simp [mark]
          obtain ⟨locked, walking₁⟩ := walking.ilock held (by rw [inode, walking.node]; exact typed)
          -- the entry the walk holds keeps its inode through the turn
          have node₁ : (w.setSlot ip { w.slot ip with locked := true, valid := true }).inode ip =
              v.node (w.slot ip).inum := by
            simp [inode, walking.node]
          unfold namexLoop
          rw [skipped]
          dsimp only
          rw [locked, Fallible.ok_bind]
          by_cases isDir : (v.node (w.slot ip).inum).type = tDir
          · rw [if_neg (by rw [node₁]; exact fun differ => differ isDir)]
            by_cases stop : parent = true ∧ rest.headD 0 = 0
            · -- nameiparent stops one level early, at the last element
              rw [if_pos stop]
              obtain ⟨unlocked, walking₂⟩ := walking₁.iunlock (by simpa using held)
              have last : components path = [word] := by rw [split, lastTest.mp stop.2]
              refine ⟨_, some ip, name', by rw [unlocked]; rfl, walking₂, ?_, fun _ _ => ?_⟩
              · rw [last, stop.1, resolve_last isDir]
                simp
              · rw [last, named]
                rfl
            · rw [if_neg stop]
              have more : parent = true → components rest ≠ [] :=
                fun isParent empty => stop ⟨isParent, lastTest.mpr empty⟩
              have small : (v.node (w.slot ip).inum).data.length < 2 ^ 32 := by
                have bound : maxFile * bSize < 2 ^ 32 := by decide
                have := tree.fits _ isDir
                omega
              rw [dirlookup_eq (by rw [node₁]; exact isDir) (by rw [node₁]; exact tree.aligned _ isDir)
                (by rw [node₁]; exact small), node₁,
                lookup_congr sameName]
              cases found : lookup word (entries (v.node (w.slot ip).inum).data) 0 with
              | none =>
                  dsimp only
                  rw [Fallible.ok_bind]
                  dsimp only
                  obtain ⟨w₃, put, walking₃, _⟩ := walking₁.iunlockput (by simp [mark])
                    (by simp [inode, walking.node, walking.ref, mark]; omega)
                  rw [mark_release] at walking₃
                  rw [put, Fallible.ok_bind]
                  refine ⟨w₃, none, name', rfl, walking₃, ?_, fun _ none => (none rfl).elim⟩
                  rw [split, resolve_missing isDir found more]
                  rfl
              | some entry =>
                  obtain ⟨next, off⟩ := entry
                  obtain ⟨w₂, j, got, walking₂, holds, keeps⟩ := walking₁.iget (walking₁.room free) next
                  have heldOn : (w₂.slot ip).inum = (w.slot ip).inum := by
                    rw [keeps ip (by simpa using held)]
                    simp
                  obtain ⟨w₃, put, walking₃, inums⟩ := walking₂.iunlockput
                    (by simp [Function.update_apply, mark]; split <;> omega)
                    (by
                      rw [inode, heldOn, walking₂.node, walking₂.ref]
                      simp [Function.update_apply, mark]
                      split <;> omega)
                  rw [mark_move] at walking₃
                  dsimp only
                  rw [got, Fallible.ok_bind]
                  dsimp only
                  rw [Fallible.ok_bind]
                  dsimp only
                  rw [put, Fallible.ok_bind]
                  -- the next inode: named by an entry in use, so it has a type and a link
                  obtain ⟨de, member, deInum, used⟩ := lookup_mem found
                  have nextOk := tree.named _ isDir de member (deInum ▸ used)
                  rw [deInum] at nextOk
                  have atNext : (w₃.slot j).inum = next := by rw [inums, holds]
                  obtain ⟨w', r, name'', ran, walked, resolved, lastNamed⟩ :=
                    inductionHypothesis name' walking₃ restNoNul (by omega)
                      (by rw [atNext]; exact nextOk.1) (.inl (by rw [atNext]; exact nextOk.2))
                  refine ⟨w', r, name'', ran, walked, ?_, fun isParent returned => ?_⟩
                  · rw [resolved, atNext, split, resolve_next isDir found more]
                  · obtain ⟨later, others, restIs⟩ := List.exists_cons_of_ne_nil (more isParent)
                    have lastOf := lastNamed isParent returned
                    rw [restIs] at lastOf
                    rw [split, restIs, List.getLast?_cons_cons]
                    exact lastOf
          · -- not a directory: the walk lets it go and returns 0
            rw [if_pos (by rw [node₁]; exact isDir)]
            obtain ⟨w₃, put, walking₃, _⟩ := walking₁.iunlockput (by simp [mark])
              (by simp [inode, walking.node, walking.ref, mark]; omega)
            rw [mark_release] at walking₃
            rw [put, Fallible.ok_bind]
            refine ⟨w₃, none, name', rfl, walking₃, ?_, fun _ none => (none rfl).elim⟩
            rw [split, resolve_not_dir isDir]
            rfl

theorem Walking.start (unlocked : ∀ j, (v.slot j).locked = false) : Walking v v (fun _ => 0) none where
  node := rfl
  ref _ := rfl
  inum _ _ := rfl
  locked j := by simp [unlocked]

theorem mark_some (j : Fin nInode) : Function.update (fun _ => 0) j (0 + 1) = mark (some j) := by
  funext k
  by_cases same : k = j
  · subst same
    simp [mark]
  · simp [mark, same, Ne.symm same]

/-- namex from a state between system calls, on a tree, with two icache
entries free and the caller's working directory held: it returns what
`resolve` says from the root or from the working directory, with every
reference it took released but one on the entry returned, and the inodes
unchanged. -/
theorem namex_spec (tree : Tree v.node) (free : 2 ≤ (freeSlots v).card)
    (unlocked : ∀ j, (v.slot j).locked = false) {cwd : Fin nInode} (cwdHeld : 0 < (v.slot cwd).ref)
    (cwdTyped : (v.inode cwd).type ≠ 0) {path : List UInt8} (noNul : 0 ∉ path) (parent : Bool) :
    ∃ v' r name, v.namex cwd path parent = .ok (v', r, name) ∧ Walking v v' (mark r) none ∧
      r.map (fun j => (v'.slot j).inum) =
        resolve v.node parent (if path.headD 0 = slash then rootIno else (v.slot cwd).inum)
          (components path) ∧
      (parent = true → r ≠ none →
        (components path).getLast?.map (List.take dirSiz) = some (cname dirSiz name)) := by
  have start := Walking.start unlocked
  unfold namex
  by_cases fromRoot : path.headD 0 = slash
  · rw [if_pos fromRoot, if_pos fromRoot]
    have room : ∃ j, (v.slot j).ref = 0 := by
      obtain ⟨j, member⟩ := Finset.card_pos.mp (by omega : 0 < (freeSlots v).card)
      exact ⟨j, by simpa [freeSlots] using member⟩
    obtain ⟨v₁, j, got, walking, holds, _⟩ := start.iget room rootIno
    rw [mark_some] at walking
    rw [got, Fallible.ok_bind]
    dsimp only
    obtain ⟨v', r, name, ran, walked, resolved, named⟩ := namexLoop_spec tree free parent path.length []
      walking noNul le_rfl (by rw [holds]; exact tree.root.1) (.inl (by rw [holds]; exact tree.root.2))
    exact ⟨v', r, name, ran, walked, by rw [resolved, holds], named⟩
  · rw [if_neg fromRoot, if_neg fromRoot]
    have walking : Walking v (v.idup cwd) (mark (some cwd)) none := by
      apply start.setSlot (e := { v.slot cwd with ref := (v.slot cwd).ref + 1 }) (fun _ => rfl)
        (by simp [mark]) (fun j other => by simp [mark, Ne.symm other]) (by simp [unlocked])
      intro j _
      rfl
    rw [pure_bind]
    dsimp only
    obtain ⟨v', r, name, ran, walked, resolved, named⟩ := namexLoop_spec tree free parent path.length []
      walking noNul le_rfl (by simpa [idup, inode] using cwdTyped) (.inr cwdHeld)
    exact ⟨v', r, name, ran, walked, by rw [resolved]; simp [idup], named⟩

/-- Path resolution: skipelem takes off a path the components it is made of,
each cut to `DIRSIZ` bytes, and none once none is left; namei returns an
entry holding the inode the walk through them reaches, nameiparent one
holding the parent of the last and that last name; and both release every
reference they take but one on the entry they return, changing no inode. -/
theorem path_resolution (tree : Tree v.node) (free : 2 ≤ (freeSlots v).card)
    (unlocked : ∀ j, (v.slot j).locked = false) {cwd : Fin nInode} (cwdHeld : 0 < (v.slot cwd).ref)
    (cwdTyped : (v.inode cwd).type ≠ 0) {path : List UInt8} (noNul : 0 ∉ path) :
    (elems path.length path).map (cname dirSiz) = (components path).map (List.take dirSiz) ∧
    (skipelem path = none ↔ components path = []) ∧
    (∃ v' r, v.namei cwd path = .ok (v', r) ∧ v'.node = v.node ∧
      (∀ j, (v'.slot j).ref = (v.slot j).ref + if r = some j then 1 else 0) ∧
      r.map (fun j => (v'.slot j).inum) =
        walk v.node (if path.headD 0 = slash then rootIno else (v.slot cwd).inum) (components path)) ∧
    (∃ v' r name, v.nameiparent cwd path = .ok (v', r, name) ∧ v'.node = v.node ∧
      (∀ j, (v'.slot j).ref = (v.slot j).ref + if r = some j then 1 else 0) ∧
      r.map (fun j => (v'.slot j).inum) =
        parentWalk v.node (if path.headD 0 = slash then rootIno else (v.slot cwd).inum)
          (components path) ∧
      (r ≠ none → (components path).getLast?.map (List.take dirSiz) = some (cname dirSiz name))) := by
  refine ⟨elems_eq path.length noNul le_rfl, skipelem_eq_none_iff noNul, ?_, ?_⟩
  · obtain ⟨v', r, name, ran, walked, resolved, _⟩ :=
      namex_spec tree free unlocked cwdHeld cwdTyped noNul false
    refine ⟨v', r, by rw [namei, ran, Fallible.ok_bind]; rfl, walked.node, walked.ref, resolved⟩
  · obtain ⟨v', r, name, ran, walked, resolved, named⟩ :=
      namex_spec tree free unlocked cwdHeld cwdTyped noNul true
    exact ⟨v', r, name, ran, walked.node, walked.ref, resolved, named rfl⟩

/-- "README". -/
def readme : List UInt8 := [82, 69, 65, 68, 77, 69]

/-- The first process on a fresh image holding README: entry 0 of the
icache holds the root, its working directory, as `namei("/")` left it. -/
def readmeVol : Vol := (mkfs [(readme, [104, 105])]).setSlot slot₀ ⟨rootIno, 1, false, false⟩

theorem tree_readmeVol : Tree readmeVol.node := by
  refine ⟨fun inum isDir => ?_, fun inum isDir => ?_, fun inum isDir => ?_, by decide +kernel⟩
  · obtain rfl := mkfs_dir isDir
    decide +kernel
  · obtain rfl := mkfs_dir isDir
    decide +kernel
  · obtain rfl := mkfs_dir isDir
    decide +kernel

/-- namei("/README") and nameiparent("/README") on the fresh image. -/
theorem path_resolution_readme :
    Tree readmeVol.node ∧ 2 ≤ (freeSlots readmeVol).card ∧
      (∀ j, (readmeVol.slot j).locked = false) ∧ 0 < (readmeVol.slot slot₀).ref ∧
      (readmeVol.inode slot₀).type ≠ 0 ∧ 0 ∉ slash :: readme ∧
      ((elems (slash :: readme).length (slash :: readme)).map (cname dirSiz) =
          (components (slash :: readme)).map (List.take dirSiz) ∧
        (skipelem (slash :: readme) = none ↔ components (slash :: readme) = []) ∧
        (∃ v' r, readmeVol.namei slot₀ (slash :: readme) = .ok (v', r) ∧ v'.node = readmeVol.node ∧
          (∀ j, (v'.slot j).ref = (readmeVol.slot j).ref + if r = some j then 1 else 0) ∧
          r.map (fun j => (v'.slot j).inum) =
            walk readmeVol.node
              (if (slash :: readme).headD 0 = slash then rootIno else (readmeVol.slot slot₀).inum)
              (components (slash :: readme))) ∧
        (∃ v' r name, readmeVol.nameiparent slot₀ (slash :: readme) = .ok (v', r, name) ∧
          v'.node = readmeVol.node ∧
          (∀ j, (v'.slot j).ref = (readmeVol.slot j).ref + if r = some j then 1 else 0) ∧
          r.map (fun j => (v'.slot j).inum) =
            parentWalk readmeVol.node
              (if (slash :: readme).headD 0 = slash then rootIno else (readmeVol.slot slot₀).inum)
              (components (slash :: readme)) ∧
          (r ≠ none → (components (slash :: readme)).getLast?.map (List.take dirSiz) =
            some (cname dirSiz name)))) := by
  have free : 2 ≤ (freeSlots readmeVol).card := by
    apply Finset.one_lt_card.mpr
    refine ⟨⟨1, by decide⟩, ?_, ⟨2, by decide⟩, ?_, by decide⟩ <;> simp [freeSlots] <;> decide +kernel
  have unlocked : ∀ j, (readmeVol.slot j).locked = false := by decide +kernel
  have held : 0 < (readmeVol.slot slot₀).ref := by decide +kernel
  have typed : (readmeVol.inode slot₀).type ≠ 0 := by decide +kernel
  have noNul : 0 ∉ slash :: readme := by decide
  exact ⟨tree_readmeVol, free, unlocked, held, typed, noNul,
    path_resolution tree_readmeVol free unlocked held typed noNul⟩

/-- The names of 50 files, "a00" to "a49". -/
def fileName (k : Nat) : List UInt8 := [97, UInt8.ofNat (48 + k / 10), UInt8.ofNat (48 + k % 10)]

/-- A fresh image with 50 empty files and an icache whose 50 entries are all
in use: the root as a working directory, and 49 of the files, open. -/
def busyVol : Vol :=
  { mkfs ((List.range 50).map fun k => (fileName k, [])) with
    slot := fun j => if j.val = 0 then ⟨rootIno, 1, true, false⟩ else ⟨j.val + 1, 1, true, false⟩ }

theorem tree_busyVol : Tree busyVol.node := by
  refine ⟨fun inum isDir => ?_, fun inum isDir => ?_, fun inum isDir => ?_, by decide +kernel⟩
  · obtain rfl := mkfs_dir isDir
    decide +kernel
  · obtain rfl := mkfs_dir isDir
    decide +kernel
  · obtain rfl := mkfs_dir isDir
    decide +kernel

/-- With no free icache entry, namei of the one file no entry holds panics
instead of returning it: the tree, the locks and the working directory are
as path resolution needs them, and "/a49" names inode 51. -/
theorem namei_panics_on_full_icache :
    Tree busyVol.node ∧ (∀ j, (busyVol.slot j).locked = false) ∧ 0 < (busyVol.slot slot₀).ref ∧
      (busyVol.inode slot₀).type ≠ 0 ∧ 0 ∉ slash :: fileName 49 ∧
      walk busyVol.node rootIno (components (slash :: fileName 49)) = some 51 ∧
      busyVol.namei slot₀ (slash :: fileName 49) = .error (.panic "iget: no inodes") := by
  refine ⟨tree_busyVol, by decide +kernel, by decide +kernel, by decide +kernel, by decide, ?_, ?_⟩
  · decide +kernel
  · apply Fallible.eq_error_of_errorOf
    decide +kernel

end Vol

end Fs
end Xv6
