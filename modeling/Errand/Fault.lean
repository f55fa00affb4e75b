/-
  Errand.Fault — why no command could be made.

  Most faults are ordinary: the grammar, the entities or the sentence ask for
  something that cannot be had, and one can try again or say so. The others are
  numbers beyond all bounds, scalars and names in the entity data that are not what
  they are to be, and files that are no text or have an impossible path.
-/

import Errand.Entity.Loading
import Errand.Grammar.Loading
import Errand.Grammar.Sentence
import Errand.Task.Resolver

namespace Errand

/-- Whether the data, rather than a value in it, is at fault. -/
def LoadFault.isOrdinary : LoadFault → Bool
  | .unreadText f => f == .malformed
  | .unadded _ | .numeralTooLong | .disk _ => false
  | _ => true

def GrammarFault.isOrdinary : GrammarFault → Bool
  | .disk _ => false
  | _ => true

inductive Fault where
  | entities (f : LoadFault)
  | grammar (f : GrammarFault)
  | unknownSource (source : Text)
  | sentence (f : SentenceFault)
  | task (f : TaskFault)
  deriving Repr

namespace Fault

def isOrdinary : Fault → Bool
  | .entities f => f.isOrdinary
  | .grammar f => f.isOrdinary
  | .unknownSource _ | .sentence _ => true
  | .task f => f.isOrdinary

def message : Fault → Text
  | .entities f => f.message
  | .grammar f => f.message
  | .unknownSource source => "Unknown grammar source ".text ++ Text.shown source
  | .sentence f => f.message
  | .task f => f.message

end Fault

end Errand
