import NullSafety.Proofs.Equations
import NullSafety.Proofs.Merging

/-!
# Entries of states

On a graph with cycles the pass takes what it has when it comes to a node, and statements may be
anything at all. What holds of the states all the same is a matter of their entries. Every entry has
a value, and the value of a variable that is no pointer is never one that may be null. This is kept
by statements, and by merging, which may make a pointer of such a variable: that the pointer may be
null it then has from a pointer.
-/

namespace NullSafety

/-! ## What a statement does to a state -/

namespace Statement

variable {stmt : Statement} {s : State} {v : Variable}

/-- The variable whose entry a statement may touch. -/
def target? (stmt : Statement) : Option String := if stmt.updatesState then stmt.name else none

/-- The entry a statement makes is that of its target, and there are two kinds of it. -/
theorem update?_eq_some (h : stmt.update? s = some v) :
    stmt.target? = some v.name ∧
      (v.isPointer = false ∧ v.nullability = .assigned ∨
        v.isPointer = true ∧ v.nullability = .ofStored stmt.isNull) := by
  unfold update? at h
  unfold target? updatesState
  split at h
  · rename_i x hkind hname
    cases h
    rw [hkind, hname]
    cases stmt.isPointer with
    | true => exact ⟨rfl, .inr ⟨rfl, rfl⟩⟩
    | false => exact ⟨rfl, .inl ⟨rfl, rfl⟩⟩
  · rename_i x hkind hname
    rw [hkind, hname]
    split at h
    · cases h
      exact ⟨rfl, .inl ⟨rfl, rfl⟩⟩
    · rename_i w hw
      split at h
      · rename_i hpointer
        cases h
        exact ⟨congrArg some (State.name_of_get? hw).symm, .inr ⟨hpointer, rfl⟩⟩
      · cases h
  · cases h

/-- A statement with a target makes no entry only where the target has one. -/
theorem mem_names_of_update?_eq_none (h : stmt.update? s = none) {x : String}
    (hx : stmt.target? = some x) : x ∈ s.names := by
  unfold target? updatesState at hx
  unfold update? at h
  split at h
  · cases h
  · rename_i y hkind hname
    rw [hkind, hname] at hx
    cases hx
    by_contra hnot
    rw [State.get?_eq_none_iff.mpr hnot] at h
    cases h
  · rename_i hdeclaration hassignment
    split at hx
    · rename_i hkind
      rcases (Bool.or_eq_true _ _).mp hkind with hkind | hkind
      · exact absurd hx (hdeclaration x (of_decide_eq_true hkind))
      · exact absurd hx (hassignment x (of_decide_eq_true hkind))
    · cases hx

end Statement

/-! ## Entries -/

namespace Nullability

variable {a b : Nullability}

theorem join_ne_unassigned (ha : a ≠ .unassigned) : a.join b ≠ .unassigned := by
  revert ha
  cases a <;> cases b <;> decide

/-- Values that are known are joined to one that may be null exactly if one of them may be. -/
theorem mayBeNull_join (ha : a ≠ .unassigned) (hb : b ≠ .unassigned) :
    (a.join b).mayBeNull = (a.mayBeNull || b.mayBeNull) := by
  revert ha hb
  cases a <;> cases b <;> decide

end Nullability

/-- An entry as the analysis makes it. -/
structure Variable.WellFormed (v : Variable) : Prop where
  known : v.nullability ≠ .unassigned
  scalar : v.isPointer = false → v.nullability = .assigned

namespace Variable.WellFormed

variable {v w : Variable}

theorem isPointer_of_mayBeNull (hv : v.WellFormed) (h : v.nullability.mayBeNull = true) :
    v.isPointer = true := by
  cases hpointer : v.isPointer with
  | true => rfl
  | false =>
      rw [hv.scalar hpointer] at h
      cases h

theorem join (hv : v.WellFormed) (hw : w.WellFormed) : (v.join w).WellFormed where
  known := Nullability.join_ne_unassigned hv.known
  scalar h := by
    -- neither side is a pointer, so both have the value that is kept
    obtain ⟨hpv, hpw⟩ := Bool.or_eq_false_iff.mp h
    show v.nullability.join w.nullability = .assigned
    rw [hv.scalar hpv, hw.scalar hpw]
    rfl

end Variable.WellFormed

theorem Statement.wellFormed_update {stmt : Statement} {s : State} {v : Variable}
    (h : stmt.update? s = some v) : v.WellFormed := by
  obtain ⟨-, ⟨hpointer, hvalue⟩ | ⟨hpointer, hvalue⟩⟩ := Statement.update?_eq_some h
  · refine ⟨?_, fun _ => hvalue⟩
    rw [hvalue]
    decide
  · refine ⟨?_, fun hscalar => absurd (hscalar.symm.trans hpointer) Bool.false_ne_true⟩
    rw [hvalue]
    cases stmt.isNull <;> decide

/-! ## States -/

namespace State

/-- The states that meet may be merged one at a time, with nothing known at first. -/
theorem mergeAll_concat (states : List State) (t : State) :
    mergeAll (states ++ [t]) = (mergeAll states).merge t := by
  cases states with
  | nil => exact (empty_merge t).symm
  | cons s rest => exact List.foldl_concat ..

/-- All entries of the state are well formed. -/
def WellFormed (s : State) : Prop := ∀ x v, s.get? x = some v → v.WellFormed

namespace WellFormed

variable {s t : State}

theorem empty : WellFormed empty := fun _ _ h => by cases h

theorem of_mem (hs : s.WellFormed) {v : Variable} (hv : v ∈ s.entries) : v.WellFormed :=
  hs v.name v (find_of_mem s.nodup hv)

theorem insert (hs : s.WellFormed) {v : Variable} (hv : v.WellFormed) :
    (s.insert v).WellFormed := by
  intro x w hw
  rw [get?_insert] at hw
  split at hw
  · cases hw
    exact hv
  · exact hs x w hw

theorem transfer (hs : s.WellFormed) (stmt : Statement) : (stmt.transfer s).WellFormed := by
  unfold Statement.transfer
  split
  · rename_i v hv
    exact hs.insert (Statement.wellFormed_update hv)
  · exact hs

theorem merge (hs : s.WellFormed) (ht : t.WellFormed) : (s.merge t).WellFormed := by
  intro x v hv
  rw [get?_merge_eq_joinEntries] at hv
  cases hu : s.get? x with
  | none =>
      rw [hu] at hv
      exact ht x v hv
  | some u =>
      cases hw : t.get? x with
      | none =>
          rw [hu, hw] at hv
          exact hs x v (hu.trans hv)
      | some w =>
          rw [hu, hw] at hv
          cases hv
          exact (hs x u hu).join (ht x w hw)

theorem mergeAll {states : List State} (h : ∀ t ∈ states, t.WellFormed) :
    (State.mergeAll states).WellFormed := by
  induction states using List.reverseRecOn with
  | nil => exact empty
  | append_singleton states t ih =>
      rw [List.forall_mem_append, List.forall_mem_singleton] at h
      rw [mergeAll_concat]
      exact (ih h.1).merge h.2

end WellFormed

/-! ### Pointers that may be null -/

/-- The state knows the variable for a pointer that may be null. -/
def HoldsNullable (s : State) (x : String) : Prop :=
  ∃ v, s.get? x = some v ∧ v.isPointer = true ∧ v.nullability.mayBeNull = true

variable {s t : State} {x : String}

theorem WellFormed.holdsNullable_iff (hs : s.WellFormed) :
    s.HoldsNullable x ↔ (s.nullabilityOf x).mayBeNull = true := by
  unfold HoldsNullable nullabilityOf
  cases hv : s.get? x with
  | none =>
      constructor
      · rintro ⟨v, hv, -⟩
        cases hv
      · rintro ⟨⟩
  | some v =>
      constructor
      · rintro ⟨w, hw, -, hnull⟩
        cases hw
        exact hnull
      · intro hnull
        exact ⟨v, rfl, (hs x v hv).isPointer_of_mayBeNull hnull, hnull⟩

theorem WellFormed.holdsNullable_merge (hs : s.WellFormed) (ht : t.WellFormed) :
    (s.merge t).HoldsNullable x ↔ s.HoldsNullable x ∨ t.HoldsNullable x := by
  rw [(hs.merge ht).holdsNullable_iff, hs.holdsNullable_iff, ht.holdsNullable_iff]
  unfold nullabilityOf
  rw [get?_merge_eq_joinEntries]
  cases hu : s.get? x with
  | none =>
      show _ ↔ Nullability.mayBeNull .unassigned = true ∨ _
      rw [or_iff_right (by decide)]
      rfl
  | some u =>
      cases hw : t.get? x with
      | none =>
          show _ ↔ _ ∨ Nullability.mayBeNull .unassigned = true
          rw [or_iff_left (by decide)]
          rfl
      | some w =>
          show (u.nullability.join w.nullability).mayBeNull = true ↔ _
          rw [Nullability.mayBeNull_join (hs x u hu).known (ht x w hw).known, Bool.or_eq_true]

/-- Where states meet, a pointer may be null exactly if it comes as one in one of them. -/
theorem holdsNullable_mergeAll {states : List State} (h : ∀ t ∈ states, t.WellFormed) :
    (mergeAll states).HoldsNullable x ↔ ∃ t ∈ states, t.HoldsNullable x := by
  induction states using List.reverseRecOn with
  | nil =>
      constructor
      · rintro ⟨v, hv, -⟩
        cases hv
      · rintro ⟨t, ht, -⟩
        cases ht
  | append_singleton states t ih =>
      rw [List.forall_mem_append, List.forall_mem_singleton] at h
      have hstates : (mergeAll states).WellFormed := .mergeAll h.1
      rw [mergeAll_concat, hstates.holdsNullable_merge h.2, ih h.1]
      simp only [List.mem_append, List.mem_singleton, or_and_right, exists_or, exists_eq_left]

end State

/-! ## The pass -/

/-- All states of the visit are well formed. -/
structure Visit.WellFormed (v : Visit) : Prop where
  incoming : ∀ s ∈ v.incoming, s.WellFormed
  before : v.before.WellFormed
  after : v.after.WellFormed

namespace Analysis

theorem wellFormed_visit (edges : List Edge) (done : List Visit) (n : Node)
    (h : ∀ v ∈ done, v.WellFormed) : (visit edges done n).WellFormed := by
  have hincoming : ∀ s ∈ (visit edges done n).incoming, s.WellFormed := by
    intro s hs
    obtain ⟨p, -, hp⟩ := List.mem_filterMap.mp hs
    obtain ⟨v, hv, rfl⟩ := Option.map_eq_some_iff.mp hp
    exact (h v (List.mem_of_find?_eq_some hv)).after
  have hbefore : (visit edges done n).before.WellFormed := State.WellFormed.mergeAll hincoming
  exact ⟨hincoming, hbefore, hbefore.transfer n.stmt⟩

/-- What holds of a visit whenever it holds of the visits before it holds of all visits. -/
theorem forall_mem_pass {P : Visit → Prop} {edges : List Edge}
    (h : ∀ done n, (∀ v ∈ done, P v) → P (visit edges done n)) (order : List Node) :
    ∀ v ∈ pass edges order, P v := by
  induction order using List.reverseRecOn with
  | nil => exact fun v hv => absurd hv List.not_mem_nil
  | append_singleton order n ih =>
      intro v hv
      rw [pass_concat, List.mem_append, List.mem_singleton] at hv
      rcases hv with hv | rfl
      · exact ih v hv
      · exact h _ n ih

end Analysis

/-- **States are well formed on every graph.** Control may run in cycles, nodes may be out of its
reach, and statements may be anything. In each state that the pass finds before or after a node,
every entry is found under its own name and there is no other of that name; every entry has a value,
and the value of a variable that is no pointer is `assigned`. So where ways meet, a variable may be
null exactly if one of them brings it along as a pointer that may be null. -/
theorem states_wellFormed (f : Flow) (v : Visit) (hv : v ∈ (Analysis.ofFlow f).visits) :
    (∀ s ∈ [v.before, v.after],
      (∀ x w, s.get? x = some w → w.name = x) ∧ (∀ w ∈ s.entries, s.get? w.name = some w) ∧
      s.names.Nodup ∧
      ∀ w ∈ s.entries,
        w.nullability ≠ .unassigned ∧ (w.isPointer = false → w.nullability = .assigned)) ∧
    ∀ x, (v.before.nullabilityOf x).mayBeNull = true ↔ ∃ s ∈ v.incoming, s.HoldsNullable x := by
  have hwell : v.WellFormed :=
    Analysis.forall_mem_pass (Analysis.wellFormed_visit f.edges) f.reversePostorder v hv
  have hmerge : v.before = State.mergeAll v.incoming :=
    Analysis.forall_mem_pass (P := fun v => v.before = State.mergeAll v.incoming)
      (fun _ _ _ => rfl) f.reversePostorder v hv
  constructor
  · intro s hs
    have hstate : s.WellFormed := by
      rcases List.mem_pair.mp hs with rfl | rfl
      · exact hwell.before
      · exact hwell.after
    refine ⟨fun x w => State.name_of_get?, fun w hw => State.find_of_mem s.nodup hw, s.nodup, ?_⟩
    intro w hw
    exact ⟨(hstate.of_mem hw).known, (hstate.of_mem hw).scalar⟩
  · intro x
    rw [← hwell.before.holdsNullable_iff, hmerge]
    exact State.holdsNullable_mergeAll hwell.incoming

/-- A loop around a meeting point. On the way there `p` is a null pointer on one side and is
declared again, as no pointer, on the other; in the loop it is assigned to. There is also a node
that control cannot get to. -/
def mixedLoop : Graph :=
  let pointer : Node := ⟨0, 0, .declaration "int *p = 0;" (some "p") true true true [] {}⟩
  let condition : Node := ⟨0, 1, .condition "c" [] {}⟩
  let number : Node := ⟨0, 2, .declaration "int p;" (some "p") false true true [] {}⟩
  let meeting : Node := ⟨0, 3, .marker .join⟩
  let assignment : Node := ⟨0, 4, .assignment "p = q;" (some "p") false [] {}⟩
  let lost : Node := ⟨0, 5, .declaration "int *p = 0;" (some "p") true true true [] {}⟩
  { nodes := [pointer, condition, number, meeting, assignment, lost]
    edges := [⟨pointer, condition, .fallThrough⟩, ⟨condition, number, .branchTrue⟩,
      ⟨number, meeting, .fallThrough⟩, ⟨condition, meeting, .branchFalse⟩,
      ⟨meeting, assignment, .fallThrough⟩, ⟨assignment, meeting, .fallThrough⟩,
      ⟨lost, meeting, .fallThrough⟩] }

/-- The pass comes to the meeting point before the loop has been gone through. -/
theorem states_wellFormed_mixedLoop :
    ∃ v ∈ (Analysis.ofFlow mixedLoop.flow).visits, v.node.id = 3 ∧
      v.incoming.map State.entries = [[⟨"p", false, .assigned⟩], [⟨"p", true, .null⟩]] ∧
      v.before.entries = [⟨"p", true, .potentiallyNull⟩] ∧ v.before.names.Nodup ∧
      ∃ s ∈ v.incoming, s.HoldsNullable "p" := by
  have hmeeting : ∃ v ∈ (Analysis.ofFlow mixedLoop.flow).visits, v.node.id = 3 ∧
      v.incoming.map State.entries = [[⟨"p", false, .assigned⟩], [⟨"p", true, .null⟩]] ∧
      v.before.entries = [⟨"p", true, .potentiallyNull⟩] := by
    decide +kernel
  obtain ⟨v, hv, hid, hincoming, hbefore⟩ := hmeeting
  obtain ⟨hstates, hnullable⟩ := states_wellFormed mixedLoop.flow v hv
  refine ⟨v, hv, hid, hincoming, hbefore, (hstates v.before List.mem_cons_self).2.2.1,
    (hnullable "p").mp ?_⟩
  unfold State.nullabilityOf State.get?
  rw [hbefore]
  rfl

end NullSafety
