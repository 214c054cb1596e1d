/-!
What is known about the value of a variable at a point of the program.

```text
          potentiallyNull
           /           \
      assigned        null
           \           /
            unassigned
```
-/

namespace NullSafety

inductive Nullability where
  | unassigned
  | assigned
  | null
  | potentiallyNull
  deriving DecidableEq, Repr

namespace Nullability

/-- Agreement is kept and disagreement becomes `potentiallyNull`; nothing known on one side
leaves the other. -/
def join : Nullability → Nullability → Nullability
  | .unassigned, b => b
  | a, .unassigned => a
  | a, b => if a = b then a else .potentiallyNull

/-- The order of the diagram above. -/
instance : LE Nullability where
  le a b := a = .unassigned ∨ b = .potentiallyNull ∨ a = b

instance (a b : Nullability) : Decidable (a ≤ b) :=
  inferInstanceAs (Decidable (a = .unassigned ∨ b = .potentiallyNull ∨ a = b))

theorem unassigned_join (a : Nullability) : join .unassigned a = a := by cases a <;> rfl

theorem join_unassigned (a : Nullability) : a.join .unassigned = a := by cases a <;> rfl

theorem join_self (a : Nullability) : a.join a = a := by cases a <;> rfl

theorem join_comm (a b : Nullability) : a.join b = b.join a := by cases a <;> cases b <;> rfl

theorem join_assoc (a b c : Nullability) : (a.join b).join c = a.join (b.join c) := by
  cases a <;> cases b <;> cases c <;> rfl

/-- The join is the least upper bound. -/
theorem join_le_iff {a b c : Nullability} : a.join b ≤ c ↔ a ≤ c ∧ b ≤ c := by
  cases a <;> cases b <;> cases c <;> decide

def mayBeNull (a : Nullability) : Bool := a = .null || a = .potentiallyNull

def name : Nullability → String
  | .unassigned => "UNASSIGNED"
  | .assigned => "ASSIGNED"
  | .null => "NULL"
  | .potentiallyNull => "POTENTIALLY_NULL"

/-- The name as a word of running text. -/
def word : Nullability → String
  | .unassigned => "unassigned"
  | .assigned => "assigned"
  | .null => "null"
  | .potentiallyNull => "potentially-null"

/-- What a pointer is once a value has been stored in it. -/
def ofStored (isNull : Bool) : Nullability := if isNull then .null else .assigned

end Nullability

end NullSafety
