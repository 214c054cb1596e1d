/-!
What the analyser says about its own work. A record is plain data: each part of the analyser
computes the records of a step from that step, so nothing here has an effect.
-/

namespace NullSafety

inductive Level where
  | debug | info | warning | error | critical
  deriving DecidableEq, Repr

def Level.name : Level → String
  | .debug => "DEBUG"
  | .info => "INFO"
  | .warning => "WARNING"
  | .error => "ERROR"
  | .critical => "CRITICAL"

def Level.rank : Level → Nat
  | .debug => 10
  | .info => 20
  | .warning => 30
  | .error => 40
  | .critical => 50

/-- The part of the analyser that speaks. -/
inductive Speaker where
  | issues | options | builder | transfer | analysis | check | report
  deriving DecidableEq, Repr

/-- The channel a part speaks on. -/
def Speaker.channel : Speaker → String
  | .issues => "nullflow.errors"
  | .options => "nullflow.config"
  | .builder => "nullflow.cfg_builder"
  | .transfer => "nullflow.nullness"
  | .analysis => "nullflow.dataflow_engine"
  | .check => "nullflow.checkers"
  | .report => "nullflow.plus_reporter"

structure LogRecord where
  level : Level
  speaker : Speaker
  message : String
  deriving DecidableEq, Repr

end NullSafety
