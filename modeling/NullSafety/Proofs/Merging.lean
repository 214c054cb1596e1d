import Mathlib.Order.Bounds.Basic
import NullSafety.Proofs.Notes

/-!
# Merging as a join

States are ordered entry by entry: a name that is not tracked is below everything, a variable that
is no pointer below one that is, and values are ordered as the diagram of `Nullability` has it.
Merging two states is their join in this order.

But a state also lists its entries, and the laws of merging hold of the lists. A state is determined
by its names, in order, and by what it says about each of them. So every law comes in two parts,
one about names and one about entries.
-/

namespace NullSafety

namespace Nullability

theorem le_refl (a : Nullability) : a ≤ a := Or.inr (Or.inr rfl)

theorem le_trans {a b c : Nullability} (hab : a ≤ b) (hbc : b ≤ c) : a ≤ c := by
  revert hab hbc
  cases a <;> cases b <;> cases c <;> decide

theorem le_antisymm {a b : Nullability} (hab : a ≤ b) (hba : b ≤ a) : a = b := by
  revert hab hba
  cases a <;> cases b <;> decide

end Nullability

/-! ## Entries -/

/-- The order of the entries that two states may have for the same name. -/
inductive Below : Option Variable → Option Variable → Prop
  | absent {e : Option Variable} : Below none e
  | present {v w : Variable} (hpointer : v.isPointer ≤ w.isPointer)
      (hvalue : v.nullability ≤ w.nullability) : Below (some v) (some w)

namespace Below

variable {d e f : Option Variable} {v w : Variable}

theorem refl (e : Option Variable) : Below e e := by
  cases e with
  | none => exact .absent
  | some v => exact .present (le_refl v.isPointer) (Nullability.le_refl v.nullability)

theorem trans (hde : Below d e) (hef : Below e f) : Below d f := by
  cases hde with
  | absent => exact .absent
  | present hp hn =>
      cases hef with
      | present hp' hn' => exact .present (le_trans hp hp') (Nullability.le_trans hn hn')

theorem antisymm (hvw : Below (some v) (some w)) (hwv : Below (some w) (some v))
    (hname : v.name = w.name) : v = w := by
  obtain ⟨x, p, k⟩ := v
  obtain ⟨y, q, l⟩ := w
  cases hvw with
  | present hp hn =>
      cases hwv with
      | present hp' hn' =>
          cases hname
          cases le_antisymm hp hp'
          cases Nullability.le_antisymm hn hn'
          rfl

theorem join_iff : Below (joinEntries d e) f ↔ Below d f ∧ Below e f := by
  cases d with
  | none =>
      show Below e f ↔ _
      exact (and_iff_right .absent).symm
  | some v =>
      cases e with
      | none =>
          show Below (some v) f ↔ _
          exact (and_iff_left .absent).symm
      | some w =>
          show Below (some (v.join w)) f ↔ _
          constructor
          · rintro ⟨⟩
            rename_i u hp hn
            obtain ⟨hn, hn'⟩ := Nullability.join_le_iff.mp hn
            have hp : v.isPointer ≤ u.isPointer ∧ w.isPointer ≤ u.isPointer := sup_le_iff.mp hp
            exact ⟨.present hp.1 hn, .present hp.2 hn'⟩
          · rintro ⟨⟨⟩, ⟨⟩⟩
            rename_i u hp hn hp' hn'
            exact .present (sup_le hp hp') (Nullability.join_le_iff.mpr ⟨hn, hn'⟩)

end Below

theorem Variable.join_assoc (u v w : Variable) : (u.join v).join w = u.join (v.join w) := by
  unfold Variable.join
  rw [Bool.or_assoc, Nullability.join_assoc]

theorem joinEntries_assoc (d e f : Option Variable) :
    joinEntries (joinEntries d e) f = joinEntries d (joinEntries e f) := by
  cases d with
  | none => rfl
  | some u =>
      cases e with
      | none => rfl
      | some v =>
          cases f with
          | none => rfl
          | some w => exact congrArg some (u.join_assoc v w)

namespace State

variable {s t : State}

/-! ## Names and entries together -/

/-- A state lists what it says about its names. -/
theorem filterMap_get?_names (s : State) : s.names.filterMap s.get? = s.entries := by
  have hget : ∀ v ∈ s.entries, s.get? v.name = some v := fun v hv => find_of_mem s.nodup hv
  unfold names
  rw [List.filterMap_map]
  calc s.entries.filterMap (s.get? ∘ Variable.name)
      = s.entries.filterMap some := List.filterMap_congr hget
    _ = s.entries := List.filterMap_some

theorem ext_of_same (hnames : s.names = t.names) (hsame : s.Same t) : s = t := by
  apply State.ext
  rw [← s.filterMap_get?_names, ← t.filterMap_get?_names, hnames]
  exact List.filterMap_congr fun x _ => hsame x

theorem same_of_sameEntries (h : s.sameEntries t = true) : s.Same t := by
  unfold sameEntries at h
  rw [Bool.and_eq_true, decide_eq_true_iff, List.all_eq_true] at h
  obtain ⟨hsize, hall⟩ := h
  have hget : ∀ v ∈ s.entries, t.get? v.name = some v := fun v hv => of_decide_eq_true (hall v hv)
  have hsub : s.names ⊆ t.names := by
    intro x hx
    obtain ⟨v, hv, rfl⟩ := List.mem_map.mp hx
    by_contra hnot
    rw [← get?_eq_none_iff, hget v hv] at hnot
    cases hnot
  -- as many names, all of them found on the other side: none is left over there
  have hperm : s.names.Perm t.names := by
    refine (List.subperm_of_subset s.nodup hsub).perm_of_length_le ?_
    unfold names
    rw [List.length_map, List.length_map]
    exact hsize.ge
  intro x
  cases hx : s.get? x with
  | none => rw [get?_eq_none_iff.mpr fun hmem => get?_eq_none_iff.mp hx (hperm.mem_iff.mpr hmem)]
  | some v =>
      have hv := hget v (List.mem_of_find?_eq_some hx)
      rw [name_of_get? hx] at hv
      exact hv.symm

theorem sameEntries_iff_same : s.sameEntries t = true ↔ s.Same t :=
  ⟨same_of_sameEntries, Same.sameEntries⟩

/-! ## The laws of merging -/

theorem empty_merge (s : State) : empty.merge s = s := by
  apply ext_of_same
  · rw [names_merge]
    show [] ++ s.names.filter (fun x => x ∉ []) = s.names
    rw [List.nil_append, List.filter_eq_self]
    intro x _
    simp
  · intro x
    rw [get?_merge_eq_joinEntries]
    rfl

theorem merge_empty (s : State) : s.merge empty = s := by
  apply ext_of_same
  · rw [names_merge]
    exact List.append_nil s.names
  · intro x
    rw [get?_merge_eq_joinEntries]
    show joinEntries (s.get? x) none = _
    cases s.get? x <;> rfl

theorem merge_assoc (s t u : State) : (s.merge t).merge u = s.merge (t.merge u) := by
  apply ext_of_same
  · simp only [names_merge, List.filter_append, List.append_assoc, List.filter_filter]
    congr 2
    apply List.filter_congr
    intro x _
    rw [Bool.eq_iff_iff]
    simp only [Bool.and_eq_true, decide_eq_true_iff, List.mem_append, List.mem_filter]
    tauto
  · intro x
    simp only [get?_merge_eq_joinEntries]
    exact joinEntries_assoc _ _ _

/-! ## Rebuilding a state from its entries -/

theorem put_of_not_mem {v : Variable} {vars : List Variable}
    (h : v.name ∉ vars.map Variable.name) : put v vars = vars ++ [v] := by
  induction vars with
  | nil => rfl
  | cons w ws ih =>
      rw [List.map_cons, List.mem_cons, not_or] at h
      rw [put, if_neg (Ne.symm h.1), ih h.2, List.cons_append]

theorem entries_foldl_insert {vars : List Variable} (s : State)
    (h : ((s.entries ++ vars).map Variable.name).Nodup) :
    (vars.foldl insert s).entries = s.entries ++ vars := by
  induction vars generalizing s with
  | nil => exact (List.append_nil _).symm
  | cons v vars ih =>
      have hnew : v.name ∉ s.entries.map Variable.name := by
        rw [List.map_append, List.map_cons, List.nodup_append] at h
        intro hmem
        exact h.2.2 _ hmem _ List.mem_cons_self rfl
      have hput : (s.insert v).entries = s.entries ++ [v] := put_of_not_mem hnew
      rw [List.append_cons] at h
      rw [List.foldl_cons, ih (s.insert v) (hput ▸ h), hput, ← List.append_cons]

/-- Entries with different names all stay, in the order in which they are given. -/
theorem entries_ofList {vars : List Variable} (h : (vars.map Variable.name).Nodup) :
    (ofList vars).entries = vars :=
  entries_foldl_insert empty h

/-! ## The order of states -/

/-- A state is below another if each of its entries is. -/
instance : Preorder State where
  le s t := ∀ x, Below (s.get? x) (t.get? x)
  le_refl _ _ := .refl _
  le_trans _ _ _ hst htu x := (hst x).trans (htu x)

theorem le_iff : s ≤ t ↔ ∀ x, Below (s.get? x) (t.get? x) := Iff.rfl

/-- States on both sides of each other hold the same entries. -/
theorem antisymm_iff : s ≤ t ∧ t ≤ s ↔ s.Same t := by
  constructor
  · rintro ⟨hst, hts⟩ x
    have hst := hst x
    have hts := hts x
    cases hs : s.get? x with
    | none =>
        rw [hs] at hts
        cases ht : t.get? x with
        | none => rfl
        | some w =>
            rw [ht] at hts
            cases hts
    | some v =>
        rw [hs] at hst hts
        cases ht : t.get? x with
        | none =>
            rw [ht] at hst
            cases hst
        | some w =>
            rw [ht] at hst hts
            exact congrArg some
              (hst.antisymm hts ((name_of_get? hs).trans (name_of_get? ht).symm))
  · intro h
    constructor
    · intro x
      rw [h x]
      exact .refl _
    · intro x
      rw [h x]
      exact .refl _

theorem merge_le_iff {s t u : State} : s.merge t ≤ u ↔ s ≤ u ∧ t ≤ u := by
  simp only [le_iff, get?_merge_eq_joinEntries, Below.join_iff, forall_and]

theorem isLUB_merge (s t : State) : IsLUB {s, t} (s.merge t) := by
  rw [isLUB_iff_le_iff]
  intro u
  rw [merge_le_iff]
  simp [upperBounds]

end State

/-- **Merging is a join.** It lists the names of the left side and then those that only the right
side has, each once, and no entry is lost when the state is put together. As lists of entries, it is
associative and idempotent, and the empty state is neutral on both sides; the two sides may change
places as far as the entries themselves go. And in the order of states, where two states are below
each other exactly if they hold the same entries, it is the least state above both sides. -/
theorem merge_semilattice (s t u : State) :
    ((s.merge t).names = s.names ++ t.names.filter (fun x => x ∉ s.names) ∧
      (s.merge t).names.Nodup ∧
      State.ofList (State.mergeList s.entries t.entries) = s.merge t) ∧
    ((s.merge t).merge u = s.merge (t.merge u) ∧ s.merge s = s ∧
      State.empty.merge s = s ∧ s.merge State.empty = s) ∧
    (s.merge t).sameEntries (t.merge s) = true ∧
    IsLUB {s, t} (s.merge t) ∧ (s ≤ t ∧ t ≤ s ↔ s.sameEntries t = true) := by
  refine ⟨⟨s.names_merge t, (s.merge t).nodup, ?_⟩, ?_, ?_, s.isLUB_merge t, ?_⟩
  · apply State.ext
    exact State.entries_ofList (s.merge t).nodup
  · exact ⟨s.merge_assoc t u, s.merge_self, s.empty_merge, s.merge_empty⟩
  · exact (State.same_merge_comm s t).sameEntries
  · rw [State.antisymm_iff, State.sameEntries_iff_same]

-- which side is which shows in the order of the entries
example :
    let s := State.ofList [⟨"p", true, .null⟩, ⟨"q", false, .assigned⟩]
    let t := State.ofList [⟨"r", true, .null⟩, ⟨"p", false, .assigned⟩]
    (s.merge t).entries =
      [⟨"p", true, .potentiallyNull⟩, ⟨"q", false, .assigned⟩, ⟨"r", true, .null⟩] ∧
    (t.merge s).names = ["r", "p", "q"] := by
  decide

end NullSafety
