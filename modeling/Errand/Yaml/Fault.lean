/-
  Errand.Yaml.Fault — why a data text stands for no value.

  Most such texts are malformed. The others are well formed, but a scalar in them
  is read as something that it is not.
-/

namespace Errand.Yaml

inductive Fault where
  | malformed
  /-- What is to be a number is none, or an integer with more digits than any may
      have. -/
  | notNumber
  /-- What is to be a number is empty but for a sign. -/
  | emptyNumber
  | notTruth
  /-- What is to be a day or a moment is not written like one. -/
  | notMoment
  /-- A day or a moment that no calendar has. -/
  | noSuchMoment
  /-- A mapping is to be a day or a moment. -/
  | mappingAsMoment
  /-- A mapping that is to be a scalar stands in for itself. -/
  | endless
  /-- A number of a character beyond all numbers of characters. -/
  | noSuchCharacter
  /-- A number too large for a machine. -/
  | tooLarge
  deriving DecidableEq, Repr

end Errand.Yaml
