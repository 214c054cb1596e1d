import NullSafety.Log

/-!
Log records as lines of text. A display shows the records at or above its level, and each of its
outlets writes every one of them.
-/

namespace NullSafety

/-- A record on its way to a display, on any channel. -/
structure LogLine where
  level : Level
  channel : String
  message : String
  /-- The time, in seconds since midnight at the start of some day. -/
  seconds : Int

structure LogDisplay where
  /-- There is no level until one is set. -/
  level : Option Level := none
  outlets : Nat := 0

namespace LogDisplay

def levelFor (verbosity : Int) : Level :=
  if verbosity = 1 then .info else if verbosity ≥ 2 then .debug else .warning

/-- Sets the level and adds an outlet. -/
def configure (d : LogDisplay) (verbosity : Int) : LogDisplay :=
  ⟨some (levelFor verbosity), d.outlets + 1⟩

def levelName (d : LogDisplay) : String :=
  match d.level with
  | some level => level.name
  | none => "NOTSET"

def shows (d : LogDisplay) (line : LogLine) : Bool :=
  (d.level.getD .warning).rank ≤ line.level.rank

/-- A number below a hundred, in two digits. -/
def twoDigits (n : Nat) : String := (if n < 10 then "0" else "") ++ toString n

/-- The time of day. -/
def clock (seconds : Int) : String :=
  let s := (seconds % 86400).toNat
  twoDigits (s / 3600) ++ ":" ++ twoDigits (s / 60 % 60) ++ ":" ++ twoDigits (s % 60)

/-- The first five characters of a name, filled up with blanks. -/
def fiveWide (name : String) : String :=
  let cs := name.toList.take 5
  String.ofList (cs ++ List.replicate (5 - cs.length) ' ')

def format (line : LogLine) : String :=
  clock line.seconds ++ " [" ++ fiveWide line.level.name ++ "] " ++ line.channel ++ ": " ++
    line.message ++ "\n"

/-- Whether a record comes from the analyser, on its own channel or one below it. -/
def isOwn (line : LogLine) : Bool :=
  line.channel = "nullflow" || "nullflow.".toList.isPrefixOf line.channel.toList

/-- What is written of a record. One that is not the analyser's reaches no outlet: if it is a
warning or worse, its bare message is written. -/
def shown (d : LogDisplay) (line : LogLine) : String :=
  if isOwn line then
    if d.shows line then String.join (List.replicate d.outlets (format line)) else ""
  else if Level.warning.rank ≤ line.level.rank then line.message ++ "\n"
  else ""

def text (d : LogDisplay) (lines : List LogLine) : String := String.join (lines.map d.shown)

end LogDisplay

end NullSafety
