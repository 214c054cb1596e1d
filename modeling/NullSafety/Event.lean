import NullSafety.Statement

/-!
What a source is made of, in its order: plain statements, and where an `if` begins, turns to its
else branch and ends.
-/

namespace NullSafety

/-- What happens next in the source. -/
inductive Event where
  | declaration (text : String) (name : Option String) (isPointer initializerIsNull : Bool)
      (hasInitializer : Bool) (dereferences : List String) (ref : SourceRef)
  | assignment (text : String) (name : Option String) (valueIsNull : Bool)
      (dereferences : List String) (ref : SourceRef)
  | expression (text : String) (dereferences : List String) (ref : SourceRef)
  | jump (text : String) (returned : Option String) (dereferences : List String)
      (ref : SourceRef)
  /-- An `if` begins. -/
  | enter (condition : String) (dereferences : List String) (ref : SourceRef)
  /-- Its else branch begins. -/
  | orElse
  /-- It ends. -/
  | exit
  /-- The source ends; more may follow all the same. -/
  | finish
  deriving DecidableEq, Repr

/-- The statement of an event that is a plain statement. -/
def Event.plain? : Event → Option Statement
  | .declaration text name isPointer initializerIsNull hasInitializer dereferences ref =>
    some (.declaration text name isPointer initializerIsNull hasInitializer dereferences ref)
  | .assignment text name valueIsNull dereferences ref =>
    some (.assignment text name valueIsNull dereferences ref)
  | .expression text dereferences ref => some (.expression text dereferences ref)
  | .jump text returned dereferences ref => some (.jump text returned dereferences ref)
  | _ => none

end NullSafety
