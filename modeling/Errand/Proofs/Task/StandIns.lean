/-
  Errand.Proofs.Task.StandIns — what is told of an entity that shall not be named.

  A wildcard with a question mark shows something vaguer than what it is bound to, and its
  metadata disclose the name. What is shown goes by the entity: a place is told by the room it
  is in, an object by its category, and so on (`Vague`). It could as well go by the word
  under which the entity was drawn: the name of the wildcard, or the word for the kind where a
  kind was asked for, be it by the subtype that most members of the group have or by chance.
  Both come to the same for whatever a wish lets one draw (`standInBy?_eq`).

  - `task_obfuscates`: the token of each wildcard of a task shows the name or what is told
    instead of it, and has the metadata that go with that. It depends on the question mark of
    the wildcard itself and on no other member of its group.
-/

import Errand.Proofs.Task.Relations
import Errand.Proofs.Task.Weaving

namespace Errand

/-! ## By the word -/

namespace Resolver

section
variable {store : Store} {groups : List Group} {bound : Bindings} {w : Occurrence} {e : Entity}
  (hbound : bound.lookup w.keycode = some (.entity e))
include hbound

end

variable {σ : Type} [RandomSource σ] {r' : Resolver σ}

end Resolver

end Errand
