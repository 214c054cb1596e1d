import NullSafety.Nullability

/-!
The variables known at a point of the program, in the order in which they became known. A name
occurs at most once, and that is part of the type. Two states may hold the same entries in a
different order: `sameEntries` does not see the order, `entries` does.
-/

namespace NullSafety

/-- What is known about one variable. -/
structure Variable where
  name : String
  isPointer : Bool
  nullability : Nullability := .unassigned
  deriving DecidableEq, Repr

namespace Variable

/-- Knowledge from two sides, under the name on the left. -/
def join (a b : Variable) : Variable :=
  ⟨a.name, a.isPointer || b.isPointer, a.nullability.join b.nullability⟩

def describe (v : Variable) : String :=
  v.name ++ (if v.isPointer then ":ptr=" else ":val=") ++ v.nullability.name

end Variable

namespace State

/-- Replaces the entry of the same name where it stands; a new name goes last. -/
def put (v : Variable) : List Variable → List Variable
  | [] => [v]
  | w :: ws => if w.name = v.name then v :: ws else w :: put v ws

def find (name : String) (vars : List Variable) : Option Variable :=
  vars.find? fun v => v.name = name

theorem find_eq_none_iff {name : String} {vars : List Variable} :
    find name vars = none ↔ name ∉ vars.map Variable.name := by
  simp [find]

theorem name_of_find {name : String} {vars : List Variable} {v : Variable}
    (h : find name vars = some v) : v.name = name := by
  simpa using List.find?_some h

theorem map_name_put (v : Variable) (vars : List Variable) :
    (put v vars).map Variable.name =
      if v.name ∈ vars.map Variable.name then vars.map Variable.name
      else vars.map Variable.name ++ [v.name] := by
  induction vars with
  | nil => simp [put]
  | cons w ws ih =>
    by_cases h : w.name = v.name
    · simp [put, h]
    · have h' : ¬ v.name = w.name := fun e => h e.symm
      simp only [put, h, if_false, List.map_cons, ih, List.mem_cons, h', false_or]
      split <;> simp

theorem nodup_put {v : Variable} {vars : List Variable}
    (h : (vars.map Variable.name).Nodup) : ((put v vars).map Variable.name).Nodup := by
  rw [map_name_put]
  split
  · exact h
  · rename_i hv
    exact List.nodup_append.mpr ⟨h, by simp, by
      intro a ha b hb
      rw [List.mem_singleton] at hb
      subst hb
      exact fun e => hv (e ▸ ha)⟩

theorem find_put (name : String) (v : Variable) (vars : List Variable) :
    find name (put v vars) = if v.name = name then some v else find name vars := by
  induction vars with
  | nil => by_cases h : v.name = name <;> simp [put, find, h]
  | cons w ws ih =>
    simp only [find] at ih
    by_cases hw : w.name = v.name
    · by_cases h : v.name = name <;> simp [put, find, hw, h]
    · by_cases h : w.name = name
      · have hv : ¬ v.name = name := fun e => hw (h.trans e.symm)
        rw [put, if_neg hw]
        simp [find, h, hv]
      · simp [put, find, hw, h, ih]

/-- The entries of the left side, each joined with the entry of the same name on the right, and
then the entries only the right side has. -/
def mergeList (left right : List Variable) : List Variable :=
  (left.map fun v =>
    match find v.name right with
    | none => v
    | some w => v.join w) ++
  right.filter fun v => (find v.name left).isNone

theorem find_mergeList (name : String) (left right : List Variable) :
    find name (mergeList left right) =
      match find name left, find name right with
      | some v, some w => some (v.join w)
      | some v, none => some v
      | none, w => w := by
  have hleft : ∀ vars : List Variable, find name (vars.map fun v =>
      match find v.name right with
      | none => v
      | some w => v.join w) =
      (find name vars).map fun v =>
        match find name right with
        | none => v
        | some w => v.join w := by
    intro vars
    induction vars with
    | nil => rfl
    | cons v vs ih =>
      have hname : (match find v.name right with
          | none => v
          | some w => v.join w).name = v.name := by split <;> rfl
      simp only [find] at ih hname ⊢
      rw [List.map_cons, List.find?_cons, List.find?_cons, hname]
      by_cases h : v.name = name
      · simp [h]
      · simpa [h] using ih
  have hright : find name left = none →
      find name (right.filter fun v => (find v.name left).isNone) = find name right := by
    intro hn
    rw [find, find, List.find?_filter]
    congr 1
    funext v
    by_cases h : v.name = name
    · simp [h, hn]
    · simp [h]
  rw [mergeList]
  rw [find, List.find?_append]
  change (find name _).or (find name _) = _
  rw [hleft]
  cases hl : find name left with
  | none =>
    rw [hright hl]
    rfl
  | some v => cases hr : find name right <;> rfl

theorem map_name_mergeList (left right : List Variable) :
    (mergeList left right).map Variable.name =
      left.map Variable.name ++
        (right.map Variable.name).filter fun name => name ∉ left.map Variable.name := by
  have hleft : (left.map fun v =>
      match find v.name right with
      | none => v
      | some w => v.join w).map Variable.name = left.map Variable.name := by
    rw [List.map_map]
    apply List.map_congr_left
    intro v _
    simp only [Function.comp]
    split <;> rfl
  have hright : (right.filter fun v => (find v.name left).isNone).map Variable.name =
      (right.map Variable.name).filter fun name => name ∉ left.map Variable.name := by
    rw [List.filter_map]
    congr 1
    apply List.filter_congr
    intro v _
    rw [Bool.eq_iff_iff]
    simp only [Option.isNone_iff_eq_none, find_eq_none_iff, Function.comp, decide_eq_true_eq]
  rw [mergeList, List.map_append, hleft, hright]

theorem nodup_mergeList {left right : List Variable}
    (hl : (left.map Variable.name).Nodup) (hr : (right.map Variable.name).Nodup) :
    ((mergeList left right).map Variable.name).Nodup := by
  rw [map_name_mergeList]
  refine List.nodup_append.mpr ⟨hl, hr.filter _, ?_⟩
  intro a ha b hb hab
  subst hab
  simp only [List.mem_filter, decide_eq_true_eq] at hb
  exact hb.2 ha

end State

/-- The variables known at a point of the program. -/
structure State where
  entries : List Variable
  nodup : (entries.map Variable.name).Nodup
  deriving DecidableEq

namespace State

@[ext]
theorem ext {s t : State} (h : s.entries = t.entries) : s = t := by
  cases s
  cases t
  cases h
  rfl

def empty : State := ⟨[], List.nodup_nil⟩

/-- The state with the entry of a variable replaced, or added at the end. -/
def insert (s : State) (v : Variable) : State := ⟨put v s.entries, nodup_put s.nodup⟩

/-- Entries given later replace earlier ones of the same name. -/
def ofList (vars : List Variable) : State := vars.foldl insert empty

def get? (s : State) (name : String) : Option Variable := find name s.entries

def contains (s : State) (name : String) : Bool := (s.get? name).isSome

/-- A name that is not tracked has no value yet. -/
def nullabilityOf (s : State) (name : String) : Nullability :=
  match s.get? name with
  | some v => v.nullability
  | none => .unassigned

def names (s : State) : List String := s.entries.map Variable.name

def size (s : State) : Nat := s.entries.length

def pointers (s : State) : List Variable := s.entries.filter Variable.isPointer

/-- What is known where two ways meet: a variable known on one side only is kept as it is, one
known on both sides is joined. -/
def merge (left right : State) : State :=
  ⟨mergeList left.entries right.entries, nodup_mergeList left.nodup right.nodup⟩

theorem get?_eq_none_iff {s : State} {name : String} : s.get? name = none ↔ name ∉ s.names :=
  find_eq_none_iff

theorem name_of_get? {s : State} {name : String} {v : Variable} (h : s.get? name = some v) :
    v.name = name :=
  name_of_find h

theorem get?_insert (s : State) (v : Variable) (name : String) :
    (s.insert v).get? name = if v.name = name then some v else s.get? name :=
  find_put name v s.entries

theorem get?_merge (s t : State) (name : String) :
    (s.merge t).get? name =
      match s.get? name, t.get? name with
      | some v, some w => some (v.join w)
      | some v, none => some v
      | none, w => w :=
  find_mergeList name s.entries t.entries

theorem names_insert (s : State) (v : Variable) :
    (s.insert v).names = if v.name ∈ s.names then s.names else s.names ++ [v.name] :=
  map_name_put v s.entries

theorem names_merge (s t : State) :
    (s.merge t).names = s.names ++ t.names.filter fun name => name ∉ s.names :=
  map_name_mergeList s.entries t.entries

/-- Merges the states that meet at a point, from left to right. -/
def mergeAll : List State → State
  | [] => empty
  | s :: rest => rest.foldl merge s

/-- The same entries, in whatever order. -/
def sameEntries (s t : State) : Bool :=
  s.size = t.size && s.entries.all fun v => t.get? v.name = some v

/-- What a hash of the state is taken over: its names and entries, in order. -/
def hashKey (s : State) : List (String × Variable) := s.entries.map fun v => (v.name, v)

def describe (s : State) : String :=
  "AnalysisState(" ++ ", ".intercalate (s.entries.map Variable.describe) ++ ")"

end State

end NullSafety
