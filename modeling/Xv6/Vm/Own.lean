import Xv6.Vm.Basic
import Mathlib.Data.List.Nodup
import Mathlib.Data.List.Perm.Basic

/-!
# Who owns each page

Between them the free list, a caller that holds pages it took from kalloc
and has not yet mapped or freed, the user pages of a page directory and its
page tables hold each page at most once, and each of those is a page kfree
takes back.  Every primitive moves one page from one holder to another:
kalloc from the free list to the caller, kfree back, mapping a held page
into a PTE, clearing a PTE into the caller's hands, and walkpgdir's new page
table.  So each keeps `Owns` and leaves `Pool`, the set of pages held at
all, as it was: no page is lost and none is handed out twice.
-/

namespace Xv6
namespace Vm

/-- A page kfree accepts: aligned, at or above `end`, below `P2V(PHYSTOP)`. -/
def Kmem.Page (m : Kmem) (v : Nat) : Prop := v % pgSize = 0 ∧ m.kend ≤ v ∧ v2p v < phyStop

instance (m : Kmem) (v : Nat) : Decidable (m.Page v) :=
  inferInstanceAs (Decidable (_ ∧ _ ∧ _))

/-- Every PTE lies in a page table that exists. -/
def Pgdir.Tabled (d : Pgdir) : Prop :=
  ∀ u e, d.entries u = some e → ∃ t, d.tables (u / nPtEntries) = some t

structure Owns (m : Kmem) (d : Pgdir) (held : List Nat) : Prop where
  nodup : (m.freelist ++ held).Nodup
  spare : ∀ v ∈ m.freelist ++ held, m.Page v
  user : ∀ u e, d.entries u = some e → m.Page (p2v e.addr) ∧ p2v e.addr ∉ m.freelist ++ held
  table : ∀ i t, d.tables i = some t → m.Page (p2v t) ∧ p2v t ∉ m.freelist ++ held
  userInj : ∀ u w e f, d.entries u = some e → d.entries w = some f → e.addr = f.addr → u = w
  tableInj : ∀ i j t t', d.tables i = some t → d.tables j = some t' → t = t' → i = j
  apart : ∀ i t u e, d.tables i = some t → d.entries u = some e → t ≠ e.addr

/-- The pages the free list, the caller and `d` hold. -/
def Pool (m : Kmem) (d : Pgdir) (held : List Nat) (v : Nat) : Prop :=
  v ∈ m.freelist ++ held ∨ (∃ u e, d.entries u = some e ∧ v = p2v e.addr) ∨
    ∃ i t, d.tables i = some t ∧ v = p2v t

variable {m m' : Kmem} {d : Pgdir} {held held' : List Nat}

/-! ## The functions -/

theorem kfree_eq (m : Kmem) (v : Nat) :
    kfree m v = if m.Page v then .ok { m with freelist := v :: m.freelist } else .error "kfree" := by
  rw [kfree_def]
  by_cases page : m.Page v
  · rw [if_pos page]
    obtain ⟨aligned, above, below⟩ := page
    rw [if_neg (by omega)]
  · rw [if_neg page]
    unfold Kmem.Page at page
    rw [if_pos (by omega)]

theorem kalloc_cases (m : Kmem) :
    m.freelist = [] ∧ kalloc m = (none, m) ∨
      ∃ r rest, m.freelist = r :: rest ∧ kalloc m = (some r, { m with freelist := rest }) := by
  unfold kalloc
  cases list : m.freelist with
  | nil => exact .inl ⟨rfl, rfl⟩
  | cons r rest => exact .inr ⟨r, rest, rfl, rfl⟩

theorem Kmem.Page.p2v_v2p {v : Nat} (page : m.Page v) : p2v (v2p v) = v := by
  have above := m.above
  unfold p2v v2p
  have := page.2.1
  omega

theorem Kmem.Page.ne_zero {a : Nat} (page : m.Page (p2v a)) : a ≠ 0 := by
  rintro rfl
  have above := m.above
  have low := page.2.1
  unfold p2v at low
  omega

@[simp] theorem Pgdir.set_tables (d : Pgdir) (u : Nat) (x : Option Pte) : (d.set u x).tables = d.tables :=
  rfl

theorem Pgdir.set_entries (d : Pgdir) (u : Nat) (x : Option Pte) :
    (d.set u x).entries = Function.update d.entries u x :=
  rfl

/-- A new page table is zeroed, which changes no PTE where none existed. -/
theorem Pgdir.Tabled.addTable_entries {i t : Nat} (tabled : d.Tabled) (absent : d.tables i = none) :
    (d.addTable i t).entries = d.entries := by
  funext u
  show (if u / nPtEntries = i then none else d.entries u) = d.entries u
  split_ifs with inTable
  · cases entry : d.entries u with
    | none => rfl
    | some e =>
        obtain ⟨t', found⟩ := tabled u e entry
        rw [inTable, absent] at found
        cases found
  · rfl

theorem Pgdir.Tabled.set_none (tabled : d.Tabled) (u : Nat) : (d.set u none).Tabled := by
  intro w e entry
  by_cases here : w = u
  · rw [here, set_entries, Function.update_self] at entry
    cases entry
  · rw [set_entries, Function.update_of_ne here] at entry
    exact tabled w e entry

theorem Pgdir.Tabled.set_some (tabled : d.Tabled) {u : Nat} {x : Pte}
    (inTable : ∃ t, d.tables (u / nPtEntries) = some t) : (d.set u (some x)).Tabled := by
  intro w e entry
  by_cases here : w = u
  · rw [here]
    exact inTable
  · rw [set_entries, Function.update_of_ne here] at entry
    exact tabled w e entry

theorem Pgdir.Tabled.addTable {i t : Nat} (tabled : d.Tabled) (absent : d.tables i = none) :
    (d.addTable i t).Tabled := by
  intro u e entry
  rw [tabled.addTable_entries absent] at entry
  obtain ⟨t', found⟩ := tabled u e entry
  refine ⟨t', ?_⟩
  show Function.update d.tables i (some t) (u / nPtEntries) = some t'
  rw [Function.update_of_ne]
  · exact found
  · rintro rfl
    rw [absent] at found
    cases found

/-! ## Moving pages between holders -/

/-- Owns sees the free list and the held pages only through their union,
with its repeats. -/
theorem Owns.of_perm (owns : Owns m d held) (kend : m'.kend = m.kend)
    (perm : (m'.freelist ++ held').Perm (m.freelist ++ held)) : Owns m' d held' where
  nodup := perm.nodup_iff.mpr owns.nodup
  spare v spare := by
    have page := owns.spare v (perm.mem_iff.mp spare)
    unfold Kmem.Page at page ⊢
    rwa [kend]
  user u e entry := by
    obtain ⟨page, notSpare⟩ := owns.user u e entry
    unfold Kmem.Page at page ⊢
    rw [kend]
    exact ⟨page, fun spare => notSpare (perm.mem_iff.mp spare)⟩
  table i t found := by
    obtain ⟨page, notSpare⟩ := owns.table i t found
    unfold Kmem.Page at page ⊢
    rw [kend]
    exact ⟨page, fun spare => notSpare (perm.mem_iff.mp spare)⟩
  userInj := owns.userInj
  tableInj := owns.tableInj
  apart := owns.apart

theorem pool_of_perm (perm : (m'.freelist ++ held').Perm (m.freelist ++ held)) :
    Pool m' d held' = Pool m d held := by
  funext v
  unfold Pool
  rw [perm.mem_iff]

/-- kalloc hands the first free page to the caller. -/
theorem Owns.kalloc {r : Nat} (owns : Owns m d held) (got : kalloc m = (some r, m')) :
    Owns m' d (r :: held) ∧ Pool m' d (r :: held) = Pool m d held := by
  rcases kalloc_cases m with ⟨_, empty⟩ | ⟨r', rest, list, found⟩
  · rw [empty] at got
    cases got
  · rw [found] at got
    cases got
    have perm : (rest ++ r :: held).Perm (m.freelist ++ held) := by
      rw [list]
      exact List.perm_middle
    exact ⟨owns.of_perm rfl perm, pool_of_perm perm⟩

/-- kfree takes back a page the caller holds. -/
theorem Owns.kfree {v : Nat} (owns : Owns m d (v :: held)) :
    kfree m v = .ok { m with freelist := v :: m.freelist } ∧
      Owns { m with freelist := v :: m.freelist } d held ∧
      Pool { m with freelist := v :: m.freelist } d held = Pool m d (v :: held) := by
  have page := owns.spare v (List.mem_append_right _ List.mem_cons_self)
  have perm : (v :: m.freelist ++ held).Perm (m.freelist ++ v :: held) := List.perm_middle.symm
  rw [kfree_eq, if_pos page]
  exact ⟨rfl, owns.of_perm rfl perm, pool_of_perm perm⟩

theorem Owns.not_spare_of_held {r : Nat} (owns : Owns m d (r :: held)) : r ∉ m.freelist ++ held :=
  (List.nodup_cons.mp (List.nodup_middle.mp owns.nodup)).1

theorem Owns.drop_held {r : Nat} (owns : Owns m d (r :: held)) :
    (m.freelist ++ held).Nodup ∧ ∀ v ∈ m.freelist ++ held, v ∈ m.freelist ++ r :: held := by
  refine ⟨(List.nodup_cons.mp (List.nodup_middle.mp owns.nodup)).2, fun v spare => ?_⟩
  rw [List.mem_append] at spare ⊢
  rcases spare with free | kept
  · exact .inl free
  · exact .inr (List.mem_cons_of_mem r kept)

/-- Mapping a held page at a virtual page with no PTE makes it a user page. -/
theorem Owns.map {r u : Nat} (owns : Owns m d (r :: held)) (empty : d.entries u = none)
    (writable user : Bool) :
    Owns m (d.set u (some ⟨v2p r, writable, user⟩)) held ∧
      Pool m (d.set u (some ⟨v2p r, writable, user⟩)) held = Pool m d (r :: held) := by
  have page := owns.spare r (List.mem_append_right _ List.mem_cons_self)
  have fresh := owns.not_spare_of_held
  have back : p2v (v2p r) = r := page.p2v_v2p
  obtain ⟨nodup, widen⟩ := owns.drop_held
  -- the page `r` is neither a user page nor a page table yet
  have notUser : ∀ w f, d.entries w = some f → f.addr ≠ v2p r := fun w f entry same => by
    have notSpare := (owns.user w f entry).2
    rw [same, back] at notSpare
    exact notSpare (List.mem_append_right _ List.mem_cons_self)
  have notTable : ∀ i t, d.tables i = some t → t ≠ v2p r := fun i t found same => by
    have notSpare := (owns.table i t found).2
    rw [same, back] at notSpare
    exact notSpare (List.mem_append_right _ List.mem_cons_self)
  refine ⟨⟨nodup, fun v spare => owns.spare v (widen v spare), fun w f entry => ?_,
    fun i t found => ?_, fun w w' f f' entry entry' same => ?_, owns.tableInj,
    fun i t w f found entry => ?_⟩, ?_⟩
  · by_cases here : w = u
    · rw [here, Pgdir.set_entries, Function.update_self] at entry
      obtain rfl := Option.some.inj entry
      rw [back]
      exact ⟨page, fresh⟩
    · rw [Pgdir.set_entries, Function.update_of_ne here] at entry
      obtain ⟨page', notSpare⟩ := owns.user w f entry
      exact ⟨page', fun spare => notSpare (widen _ spare)⟩
  · obtain ⟨page', notSpare⟩ := owns.table i t found
    exact ⟨page', fun spare => notSpare (widen _ spare)⟩
  · by_cases here : w = u <;> by_cases here' : w' = u
    · rw [here, here']
    · rw [here, Pgdir.set_entries, Function.update_self] at entry
      rw [Pgdir.set_entries, Function.update_of_ne here'] at entry'
      obtain rfl := Option.some.inj entry
      exact absurd same.symm (notUser w' f' entry')
    · rw [here', Pgdir.set_entries, Function.update_self] at entry'
      rw [Pgdir.set_entries, Function.update_of_ne here] at entry
      obtain rfl := Option.some.inj entry'
      exact absurd same (notUser w f entry)
    · rw [Pgdir.set_entries, Function.update_of_ne here] at entry
      rw [Pgdir.set_entries, Function.update_of_ne here'] at entry'
      exact owns.userInj w w' f f' entry entry' same
  · by_cases here : w = u
    · rw [here, Pgdir.set_entries, Function.update_self] at entry
      obtain rfl := Option.some.inj entry
      exact notTable i t found
    · rw [Pgdir.set_entries, Function.update_of_ne here] at entry
      exact owns.apart i t w f found entry
  · funext v
    unfold Pool
    simp only [Pgdir.set_tables, Pgdir.set_entries]
    apply propext
    constructor
    · rintro (spare | ⟨w, f, entry, rfl⟩ | table)
      · exact .inl (widen v spare)
      · by_cases here : w = u
        · rw [here, Function.update_self] at entry
          obtain rfl := Option.some.inj entry
          rw [back]
          exact .inl (List.mem_append_right _ List.mem_cons_self)
        · rw [Function.update_of_ne here] at entry
          exact .inr (.inl ⟨w, f, entry, rfl⟩)
      · exact .inr (.inr table)
    · rintro (spare | ⟨w, f, entry, rfl⟩ | table)
      · rw [List.mem_append, List.mem_cons] at spare
        rcases spare with free | rfl | kept
        · exact .inl (List.mem_append_left _ free)
        · refine .inr (.inl ⟨u, _, Function.update_self .., ?_⟩)
          exact back.symm
        · exact .inl (List.mem_append_right _ kept)
      · have other : w ≠ u := by
          rintro rfl
          rw [empty] at entry
          cases entry
        exact .inr (.inl ⟨w, f, by rw [Function.update_of_ne other]; exact entry, rfl⟩)
      · exact .inr (.inr table)

/-- Clearing a present PTE leaves its page with the caller. -/
theorem Owns.unmap {u : Nat} {e : Pte} (owns : Owns m d held) (present : d.entries u = some e) :
    Owns m (d.set u none) (p2v e.addr :: held) ∧
      Pool m (d.set u none) (p2v e.addr :: held) = Pool m d held := by
  obtain ⟨page, notSpare⟩ := owns.user u e present
  have widen : ∀ v ∈ m.freelist ++ p2v e.addr :: held, v = p2v e.addr ∨ v ∈ m.freelist ++ held := by
    intro v spare
    rw [List.mem_append, List.mem_cons] at spare
    rcases spare with free | rfl | kept
    · exact .inr (List.mem_append_left _ free)
    · exact .inl rfl
    · exact .inr (List.mem_append_right _ kept)
  have p2vInj : ∀ a b : Nat, p2v a = p2v b → a = b := fun a b same => by
    unfold p2v at same
    omega
  refine ⟨⟨List.nodup_middle.mpr (List.nodup_cons.mpr ⟨notSpare, owns.nodup⟩), fun v spare => ?_,
    fun w f entry => ?_, fun i t found => ?_, fun w w' f f' entry entry' same => ?_, owns.tableInj,
    fun i t w f found entry => ?_⟩, ?_⟩
  · rcases widen v spare with rfl | old
    · exact page
    · exact owns.spare v old
  · have other : w ≠ u := by
      rintro rfl
      rw [Pgdir.set_entries, Function.update_self] at entry
      cases entry
    rw [Pgdir.set_entries, Function.update_of_ne other] at entry
    obtain ⟨page', notSpare'⟩ := owns.user w f entry
    refine ⟨page', fun spare => ?_⟩
    rcases widen _ spare with same | old
    · exact other (owns.userInj w u f e entry present (p2vInj _ _ same))
    · exact notSpare' old
  · obtain ⟨page', notSpare'⟩ := owns.table i t found
    refine ⟨page', fun spare => ?_⟩
    rcases widen _ spare with same | old
    · exact owns.apart i t u e found present (p2vInj _ _ same)
    · exact notSpare' old
  · have other : ∀ {x g}, (d.set u none).entries x = some g → d.entries x = some g := fun {x g} entry => by
      by_cases here : x = u
      · rw [here, Pgdir.set_entries, Function.update_self] at entry
        cases entry
      · rwa [Pgdir.set_entries, Function.update_of_ne here] at entry
    exact owns.userInj w w' f f' (other entry) (other entry') same
  · have other : w ≠ u := by
      rintro rfl
      rw [Pgdir.set_entries, Function.update_self] at entry
      cases entry
    rw [Pgdir.set_entries, Function.update_of_ne other] at entry
    exact owns.apart i t w f found entry
  · funext v
    unfold Pool
    simp only [Pgdir.set_tables, Pgdir.set_entries]
    apply propext
    constructor
    · rintro (spare | ⟨w, f, entry, rfl⟩ | table)
      · rcases widen v spare with rfl | old
        · exact .inr (.inl ⟨u, e, present, rfl⟩)
        · exact .inl old
      · have other : w ≠ u := by
          rintro rfl
          rw [Function.update_self] at entry
          cases entry
        rw [Function.update_of_ne other] at entry
        exact .inr (.inl ⟨w, f, entry, rfl⟩)
      · exact .inr (.inr table)
    · rintro (spare | ⟨w, f, entry, rfl⟩ | table)
      · rw [List.mem_append] at spare ⊢
        rcases spare with free | kept
        · exact .inl (.inl free)
        · exact .inl (.inr (List.mem_cons_of_mem _ kept))
      · by_cases here : w = u
        · rw [here, present] at entry
          cases entry
          exact .inl (List.mem_append_right _ List.mem_cons_self)
        · exact .inr (.inl ⟨w, f, by rw [Function.update_of_ne here]; exact entry, rfl⟩)
      · exact .inr (.inr table)

/-- walkpgdir's new page table takes a page the caller holds. -/
theorem Owns.addTable {t i : Nat} (owns : Owns m d (t :: held)) (tabled : d.Tabled)
    (absent : d.tables i = none) :
    Owns m (d.addTable i (v2p t)) held ∧ Pool m (d.addTable i (v2p t)) held = Pool m d (t :: held) := by
  have page := owns.spare t (List.mem_append_right _ List.mem_cons_self)
  have fresh := owns.not_spare_of_held
  have back : p2v (v2p t) = t := page.p2v_v2p
  obtain ⟨nodup, widen⟩ := owns.drop_held
  have entries := tabled.addTable_entries (t := v2p t) absent
  have notUser : ∀ w f, d.entries w = some f → f.addr ≠ v2p t := fun w f entry same => by
    have notSpare := (owns.user w f entry).2
    rw [same, back] at notSpare
    exact notSpare (List.mem_append_right _ List.mem_cons_self)
  have notTable : ∀ j t', d.tables j = some t' → t' ≠ v2p t := fun j t' found same => by
    have notSpare := (owns.table j t' found).2
    rw [same, back] at notSpare
    exact notSpare (List.mem_append_right _ List.mem_cons_self)
  have tables : ∀ {j t'}, (d.addTable i (v2p t)).tables j = some t' →
      j = i ∧ t' = v2p t ∨ j ≠ i ∧ d.tables j = some t' := fun {j t'} found => by
    by_cases here : j = i
    · rw [here] at found
      have found : Function.update d.tables i (some (v2p t)) i = some t' := found
      rw [Function.update_self] at found
      exact .inl ⟨here, (Option.some.inj found).symm⟩
    · have found : Function.update d.tables i (some (v2p t)) j = some t' := found
      rw [Function.update_of_ne here] at found
      exact .inr ⟨here, found⟩
  refine ⟨⟨nodup, fun v spare => owns.spare v (widen v spare), fun w f entry => ?_,
    fun j t' found => ?_, fun w w' f f' entry entry' same => ?_, fun j j' t₁ t₂ found found' same => ?_,
    fun j t' w f found entry => ?_⟩, ?_⟩
  · rw [entries] at entry
    obtain ⟨page', notSpare⟩ := owns.user w f entry
    exact ⟨page', fun spare => notSpare (widen _ spare)⟩
  · rcases tables found with ⟨_, new⟩ | ⟨_, old⟩
    · rw [new, back]
      exact ⟨page, fresh⟩
    · obtain ⟨page', notSpare⟩ := owns.table j t' old
      exact ⟨page', fun spare => notSpare (widen _ spare)⟩
  · rw [entries] at entry entry'
    exact owns.userInj w w' f f' entry entry' same
  · rcases tables found with ⟨here, new⟩ | ⟨_, old⟩ <;> rcases tables found' with ⟨here', new'⟩ | ⟨_, old'⟩
    · rw [here, here']
    · rw [new] at same
      exact absurd same.symm (notTable j' t₂ old')
    · rw [new'] at same
      exact absurd same (notTable j t₁ old)
    · exact owns.tableInj j j' t₁ t₂ old old' same
  · rw [entries] at entry
    rcases tables found with ⟨_, new⟩ | ⟨_, old⟩
    · rw [new]
      exact (notUser w f entry).symm
    · exact owns.apart j t' w f old entry
  · funext v
    unfold Pool
    rw [entries]
    apply propext
    constructor
    · rintro (spare | user | ⟨j, t', found, rfl⟩)
      · exact .inl (widen v spare)
      · exact .inr (.inl user)
      · rcases tables found with ⟨_, new⟩ | ⟨_, old⟩
        · rw [new, back]
          exact .inl (List.mem_append_right _ List.mem_cons_self)
        · exact .inr (.inr ⟨j, t', old, rfl⟩)
    · rintro (spare | user | ⟨j, t', found, rfl⟩)
      · rw [List.mem_append, List.mem_cons] at spare
        rcases spare with free | rfl | kept
        · exact .inl (List.mem_append_left _ free)
        · exact .inr (.inr ⟨i, v2p v, Function.update_self .., back.symm⟩)
        · exact .inl (List.mem_append_right _ kept)
      · exact .inr (.inl user)
      · have other : j ≠ i := by
          rintro rfl
          rw [absent] at found
          cases found
        exact .inr (.inr ⟨j, t', by
          show Function.update d.tables i (some (v2p t)) j = some t'
          rw [Function.update_of_ne other]
          exact found, rfl⟩)

end Vm
end Xv6
