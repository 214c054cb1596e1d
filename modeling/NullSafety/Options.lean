import NullSafety.Log
import NullSafety.Text.Blank
import NullSafety.Text.Quoted

/-!
What an analysis takes for the null pointer, and what it reports. Options may come from
environment variables; a setting that cannot be understood is ignored and mentioned.
-/

namespace NullSafety

structure Options where
  /-- Spellings of the null pointer, without blanks; a set, so order and repetition mean
  nothing. -/
  nullLiterals : List String := ["NULL", "nullptr", "0", "(void*)0", "((void*)0)"]
  /-- Report dereferences of pointers that are null on some paths only. -/
  reportPossible : Bool := true
  /-- Report returns of null pointers. -/
  reportReturns : Bool := true

/-- Names and values of environment variables. -/
abbrev Environment := List (String × String)

/-- Why a process cannot be given a variable. -/
inductive EnvironmentFault where
  /-- A null character in it, or an equals sign in its name. -/
  | unwritable
  | noName
  deriving DecidableEq, Repr

/-- The first reason why a process cannot have these variables. -/
def Environment.fault? (env : Environment) : Option EnvironmentFault :=
  env.findSome? fun (name, value) =>
    if name.toList.contains '\x00' || value.toList.contains '\x00' || name.toList.contains '=' then
      some .unwritable
    else if name = "" then some .noName
    else none

namespace Options

/-- Whether a text spells the null pointer, blanks aside. The empty text never does. -/
def isNullLiteral (o : Options) (text : String) : Bool :=
  text ≠ "" && o.nullLiterals.contains (Text.removeBlanks text)

/-- Inserts into an increasing list, unless the element is there. -/
def insertSorted (s : String) : List String → List String
  | [] => [s]
  | t :: ts => if s < t then s :: t :: ts else if s = t then t :: ts else t :: insertSorted s ts

/-- The spellings in increasing order, each once. -/
def sortedLiterals (o : Options) : List String := o.nullLiterals.foldr insertSorted []

/-- Whether the options differ from the default in nothing. -/
def isDefault (o : Options) : Bool :=
  o.sortedLiterals = sortedLiterals {} && o.reportPossible = ({} : Options).reportPossible &&
    o.reportReturns = ({} : Options).reportReturns

/-- The spellings of a list with commas between them; blank parts do not count. -/
def readLiterals (raw : String) : List String :=
  ((Text.fields ',' raw.toList).map fun part => Text.removeBlanks (String.ofList part)).filter
    (· ≠ "")

/-- The setting a flag's text stands for, whatever the case of its letters. -/
def readFlag? (raw : String) : Option Bool :=
  let word := (Text.trim raw).map Char.toLower
  if ["1", "true", "yes", "on"].contains word then some true
  else if ["0", "false", "no", "off"].contains word then some false
  else none

/-- A flag of the environment, on unless it is switched off, and what reading it says. -/
def flagFrom (env : Environment) (key : String) : Bool × List LogRecord :=
  match env.lookup key with
  | none => (true, [])
  | some raw =>
    match readFlag? raw with
    | some value => (value, [])
    | none =>
      (true, [⟨.warning, .options,
        "ignoring unrecognised value " ++ Text.quoted raw ++ " for " ++ key⟩])

/-- Reads the options from environment variables. -/
def ofEnvironment (env : Environment) : Options × List LogRecord :=
  let literals :=
    match env.lookup "NULLFLOW_NULL_LITERALS" with
    | none => ({} : Options).nullLiterals
    | some raw => if raw = "" then ({} : Options).nullLiterals else readLiterals raw
  let possible := flagFrom env "NULLFLOW_REPORT_POSSIBLE"
  let returns := flagFrom env "NULLFLOW_REPORT_RETURNS"
  (⟨literals, possible.1, returns.1⟩, possible.2 ++ returns.2)

end Options

end NullSafety
