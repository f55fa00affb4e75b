/-
  Errand.Log — warnings and errors that do not end the work.
-/

import Errand.Text.Basic

namespace Errand

inductive LogLevel where
  | warning
  | error
  deriving DecidableEq, Repr

/-- The name in capitals. -/
def LogLevel.name : LogLevel → Text
  | .warning => "WARNING".text
  | .error => "ERROR".text

structure LogEntry where
  level : LogLevel
  text : Text
  deriving DecidableEq, Repr

/-- What was noted, in order. -/
abbrev Log := List LogEntry

/-- Notes a warning. -/
def Log.warn [Monad m] [MonadStateOf Log m] (text : Text) : m Unit :=
  modifyThe Log (· ++ [⟨.warning, text⟩])

/-- Notes an error. -/
def Log.error [Monad m] [MonadStateOf Log m] (text : Text) : m Unit :=
  modifyThe Log (· ++ [⟨.error, text⟩])

end Errand
