/-!
# Locations

The place in a template that a failure is about: the local name of a node
and, when it was read from a text, its line.
-/

namespace LabelTemplate

structure Location where
  tag : Option String := none
  line : Option Nat := none
  deriving DecidableEq, Repr, Inhabited

/-- What is written after a message: nothing without a tag. -/
def Location.display : Location → String
  | ⟨some tag, some line⟩ => s!" ({tag} @ line {line})"
  | ⟨some tag, none⟩ => s!" ({tag})"
  | ⟨none, _⟩ => ""

end LabelTemplate
