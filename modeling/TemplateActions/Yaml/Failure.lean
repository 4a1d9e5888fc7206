/-!
How the reading of structured text fails. Malformed text is a fault of the document; the other
failures end the run: a scalar whose text does not fit its tag, or a key that cannot be looked up.
Two kinds of texts are not read at all: those with a node within itself, and those that ask for
another version, whose rules differ.
-/
namespace TemplateActions.Yaml

inductive Failure where
  | malformed
  | codePoint (number : Nat)
  | unhashableKey
  | repeatedKey
  | emptyNumber
  | invalidNumber
  | unknownTruthValue
  | invalidDate
  | dateOutOfRange
  | selfContaining
  | otherVersion
deriving DecidableEq

end TemplateActions.Yaml
