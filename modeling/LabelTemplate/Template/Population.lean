import LabelTemplate.Xml.Document

/-!
# Populated leaves

A label may be written when every leaf has content: a text that is not
blank, or the attribute that marks it as deliberately empty.
-/

namespace LabelTemplate

/-- The namespace of `xsi:nil`. -/
def schemaInstanceNamespace : String := "http://www.w3.org/2001/XMLSchema-instance"

namespace Xml.Document

/-- True when a node has a text that is not blank or is marked as empty. -/
def isPopulated (d : Document) (n : NodeId) : Bool :=
  (d.text? n).any (!Text.isBlankText ·) ||
    d.attribute? n (some schemaInstanceNamespace) "nil" == some "true"

end Xml.Document

end LabelTemplate
