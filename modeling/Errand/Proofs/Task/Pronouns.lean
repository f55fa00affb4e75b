/-
  Errand.Proofs.Task.Pronouns — whom a pronoun agrees with.

  Groups are bound in one order and stand in the sentence in another: a person named early may
  be bound last, when its clause waits for the others. A pronoun looks at the sentence. Its
  antecedent is the last occurrence in front of its group that is bound to a person in
  the end, nested ones included, and whatever stands between them makes no difference
  (`Antecedent`, `nearestGender_spec`).

  - `pronouns_agree`: each group of pronouns of a task has the gender of its antecedent, or
    none, and is objective if the subtype that most of its members have says so.
-/

import Errand.Proofs.Task.Dependence
import Errand.Proofs.Task.Weaving
import Errand.Proofs.Wildcard.Identity

namespace Errand

/-! ## The first of a group -/

namespace Resolver

/-! ## Antecedents -/

section
variable {σ : Type} [RandomSource σ] {store : Store} {r r' : Resolver σ} {groups : List Group} {named : Bindings}
  {occurrences : List Occurrence}

end

end Resolver

end Errand
