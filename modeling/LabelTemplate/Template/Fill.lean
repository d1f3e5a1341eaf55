import LabelTemplate.Template.ElementState

/-!
# Filling a text

A fill replaces the tokens in an element's text by its values, one value per
token; a text without tokens is replaced as a whole by a single value.
Values are not looked through for tokens again.
-/

namespace LabelTemplate

open Xml

/-- What stands in a text for a value. -/
def fillToken : String := "\x7b\x7d"

namespace FillValue

def values : FillValue → List String
  | single s => [s]
  | many vs => vs

/-- Pieces and values in turn, starting and ending with a piece. -/
def weave : (pieces values : List String) → List String
  | [], _ => []
  | [p], _ => [p]
  | p :: ps, v :: vs => p :: v :: weave ps vs
  | p :: ps, [] => p :: weave ps []

/-- The text that a fill makes of a text. -/
def applyTo (v : FillValue) (text : String) : Except NodeFault String :=
  let pieces := Text.pieces fillToken text
  match pieces.length - 1, v with
  | 0, single s => .ok s
  | 0, many vs => .error (.fillWithoutToken vs.length)
  | tokens, v =>
    if v.values.length = tokens then .ok (String.join (weave pieces v.values))
    else .error (.fillCount v.values.length tokens)

end FillValue

namespace Xml.Document

/-- Writes a fill into the text of an element. -/
def applyFill (d : Document) (n : NodeId) (v : FillValue) : Except Error Document :=
  match v.applyTo ((d.text? n).getD "") with
  | .ok text => .ok (d.setText n (some text))
  | .error fault => .error (.node fault (d.location n))

end Xml.Document

end LabelTemplate
