import Mathlib.Data.List.Nodup
import Mathlib.Logic.Function.Basic

/-!
# Allocation ledgers

An allocator that hands out fresh numbers from a counter, to entries of a
table that hold them, and records every number given back in a free list.
The ledger invariant says that the numbers held are distinct, below the
counter and not yet freed, and that the free list names each number at most
once, never a null handle, and only numbers already handed out.  The three
lemmas below are the three things a step can do: keep the holders' handles,
give one new entry the next number, or free the handle of one holder.
-/

namespace Ledger

variable {ι : Type*}

/-- The holders' handles are live, distinct allocations; `freed` lists
past allocations, each once. -/
structure Inv (holds : ι → Prop) (handle : ι → Option Nat) (next : Nat)
    (freed : List (Option Nat)) : Prop where
  live : ∀ j, holds j → ∃ a, handle j = some a ∧ a < next ∧ some a ∉ freed
  distinct : ∀ j j' a, holds j → holds j' → handle j = some a → handle j' = some a → j = j'
  nodup : freed.Nodup
  null : none ∉ freed
  bounded : ∀ a, some a ∈ freed → a < next

variable {holds holds' : ι → Prop} {handle handle' : ι → Option Nat} {next next' : Nat}
  {freed : List (Option Nat)}

/-- Nothing is held and nothing has been freed. -/
theorem Inv.empty (nobody : ∀ j, ¬ holds j) : Inv holds handle next [] :=
  ⟨fun j held => absurd held (nobody j), fun j _ _ held => absurd held (nobody j), List.nodup_nil,
    List.not_mem_nil, fun _ freedA => absurd freedA List.not_mem_nil⟩

/-- Fewer holders, the same handles, a counter that has not gone back. -/
theorem Inv.congr (inv : Inv holds handle next freed) (shrink : ∀ j, holds' j → holds j)
    (sameHandle : ∀ j, holds' j → handle' j = handle j) (grows : next ≤ next') :
    Inv holds' handle' next' freed := by
  refine ⟨fun j held => ?_, fun j j' a held held' owned owned' => ?_, inv.nodup, inv.null,
    fun a freedA => Nat.lt_of_lt_of_le (inv.bounded a freedA) grows⟩
  · obtain ⟨a, owned, below, notFreed⟩ := inv.live j (shrink j held)
    exact ⟨a, (sameHandle j held).trans owned, Nat.lt_of_lt_of_le below grows, notFreed⟩
  · rw [sameHandle j held] at owned
    rw [sameHandle j' held'] at owned'
    exact inv.distinct j j' a (shrink j held) (shrink j' held') owned owned'

/-- One entry receives the next number. -/
theorem Inv.alloc [DecidableEq ι] (inv : Inv holds handle next freed) {j : ι}
    (grow : ∀ j', holds' j' → holds j' ∨ j' = j)
    (newHandle : ∀ j', holds' j' → handle' j' = if j' = j then some next else handle j') :
    Inv holds' handle' (next + 1) freed := by
  have old : ∀ j', holds' j' → j' ≠ j → holds j' ∧ handle' j' = handle j' := by
    intro j' held other
    refine ⟨(grow j' held).resolve_right other, ?_⟩
    rw [newHandle j' held, if_neg other]
  have newest : ∀ j', holds' j' → ∀ a, handle' j' = some a → (j' = j ↔ a = next) := by
    intro j' held a owned
    by_cases same : j' = j
    · rw [newHandle j' held, if_pos same] at owned
      exact ⟨fun _ => (Option.some.inj owned).symm, fun _ => same⟩
    · obtain ⟨oldHeld, oldHandle⟩ := old j' held same
      obtain ⟨b, ownedB, below, _⟩ := inv.live j' oldHeld
      rw [oldHandle, ownedB] at owned
      cases owned
      exact ⟨fun equal => absurd equal same, fun equal => by omega⟩
  refine ⟨fun j' held => ?_, fun j₁ j₂ a held₁ held₂ owned₁ owned₂ => ?_, inv.nodup, inv.null,
    fun a freedA => Nat.lt_succ_of_lt (inv.bounded a freedA)⟩
  · by_cases same : j' = j
    · rw [newHandle j' held, if_pos same]
      exact ⟨next, rfl, Nat.lt_succ_self next,
        fun freedNext => Nat.lt_irrefl next (inv.bounded next freedNext)⟩
    · obtain ⟨oldHeld, oldHandle⟩ := old j' held same
      obtain ⟨a, owned, below, notFreed⟩ := inv.live j' oldHeld
      exact ⟨a, oldHandle.trans owned, Nat.lt_succ_of_lt below, notFreed⟩
  · by_cases first : j₁ = j
    · have second : j₂ = j := (newest j₂ held₂ a owned₂).mpr ((newest j₁ held₁ a owned₁).mp first)
      rw [first, second]
    · have second : j₂ ≠ j := fun equal =>
        first ((newest j₁ held₁ a owned₁).mpr ((newest j₂ held₂ a owned₂).mp equal))
      obtain ⟨oldHeld₁, oldHandle₁⟩ := old j₁ held₁ first
      obtain ⟨oldHeld₂, oldHandle₂⟩ := old j₂ held₂ second
      rw [oldHandle₁] at owned₁
      rw [oldHandle₂] at owned₂
      exact inv.distinct j₁ j₂ a oldHeld₁ oldHeld₂ owned₁ owned₂

/-- One holder gives its handle back and holds nothing after. -/
theorem Inv.free (inv : Inv holds handle next freed) {j : ι} (held : holds j)
    (shrink : ∀ j', holds' j' → holds j' ∧ j' ≠ j)
    (sameHandle : ∀ j', holds' j' → handle' j' = handle j') :
    Inv holds' handle' next (freed ++ [handle j]) := by
  obtain ⟨a, owned, below, notFreed⟩ := inv.live j held
  refine ⟨fun j' held' => ?_, fun j₁ j₂ b held₁ held₂ owned₁ owned₂ => ?_, ?_, ?_, ?_⟩
  · obtain ⟨oldHeld, other⟩ := shrink j' held'
    obtain ⟨b, ownedB, belowB, notFreedB⟩ := inv.live j' oldHeld
    refine ⟨b, (sameHandle j' held').trans ownedB, belowB, ?_⟩
    rw [owned, List.mem_append, List.mem_singleton]
    rintro (freedB | same)
    · exact notFreedB freedB
    · exact other (inv.distinct j' j a oldHeld held (ownedB.trans same) owned)
  · rw [sameHandle j₁ held₁] at owned₁
    rw [sameHandle j₂ held₂] at owned₂
    exact inv.distinct j₁ j₂ b (shrink j₁ held₁).1 (shrink j₂ held₂).1 owned₁ owned₂
  · rw [owned]
    exact List.nodup_append.mpr ⟨inv.nodup, List.nodup_singleton _,
      fun x freedX y single => by
        rw [List.mem_singleton] at single
        rintro rfl
        exact notFreed (single ▸ freedX)⟩
  · rw [owned, List.mem_append, List.mem_singleton]
    rintro (freedNull | nullSome)
    · exact inv.null freedNull
    · cases nullSome
  · intro b freedB
    rw [owned, List.mem_append, List.mem_singleton] at freedB
    rcases freedB with freedB | same
    · exact inv.bounded b freedB
    · cases same
      exact below

/-! ## Tables

The holders are the entries of a table whose value passes `P`, and a handle
is read off an entry by `h`.  Changing one entry is one of the three steps
above. -/

section Table

variable {α : Type*} (P : α → Prop) (h : α → Option Nat) {table : ι → α} {j : ι} {x : α}

theorem Inv.update_keep [DecidableEq ι]
    (inv : Inv (fun i => P (table i)) (fun i => h (table i)) next freed)
    (keep : P x → P (table j) ∧ h x = h (table j)) :
    Inv (fun i => P (Function.update table j x i)) (fun i => h (Function.update table j x i))
      next freed := by
  refine inv.congr (fun i held => ?_) (fun i held => ?_) (Nat.le_refl next)
  · by_cases same : i = j
    · subst same
      rw [Function.update_self] at held
      exact (keep held).1
    · rwa [Function.update_of_ne same] at held
  · by_cases same : i = j
    · subst same
      rw [Function.update_self] at held ⊢
      exact (keep held).2
    · rw [Function.update_of_ne same]

theorem Inv.update_alloc [DecidableEq ι]
    (inv : Inv (fun i => P (table i)) (fun i => h (table i)) next freed)
    (notHeld : ¬ P (table j)) (fresh : P x → h x = some next) :
    Inv (fun i => P (Function.update table j x i)) (fun i => h (Function.update table j x i))
      (next + 1) freed := by
  refine inv.alloc (j := j) (fun i held => ?_) (fun i held => ?_)
  · by_cases same : i = j
    · exact .inr same
    · rw [Function.update_of_ne same] at held
      exact .inl held
  · by_cases same : i = j
    · subst same
      rw [Function.update_self] at held ⊢
      rw [if_pos rfl]
      exact fresh held
    · rw [Function.update_of_ne same, if_neg same]

theorem Inv.update_free [DecidableEq ι]
    (inv : Inv (fun i => P (table i)) (fun i => h (table i)) next freed)
    (held : P (table j)) (dropped : ¬ P x) :
    Inv (fun i => P (Function.update table j x i)) (fun i => h (Function.update table j x i))
      next (freed ++ [h (table j)]) := by
  refine inv.free (j := j) held (fun i held' => ?_) (fun i held' => ?_)
  · by_cases same : i = j
    · subst same
      rw [Function.update_self] at held'
      exact absurd held' dropped
    · rw [Function.update_of_ne same] at held'
      exact ⟨held', same⟩
  · by_cases same : i = j
    · subst same
      rw [Function.update_self] at held'
      exact absurd held' dropped
    · rw [Function.update_of_ne same]

end Table

end Ledger
