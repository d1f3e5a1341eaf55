/-!
# Sorted texts

Texts are ordered by their code points, which is also the order of their
UTF-8 bytes.
-/

namespace LabelTemplate.Text

/-- `a` does not come after `b`. -/
def le (a b : String) : Bool := !decide (b < a)

def sort (xs : List String) : List String := xs.mergeSort le

/-- Sorts and keeps one of each. -/
def sortUnique (xs : List String) : List String :=
  (sort xs).eraseDups

/-- The order of optional texts: a missing one comes first. -/
def optionLe : Option String → Option String → Bool
  | none, _ => true
  | some _, none => false
  | some a, some b => le a b

/-- Sorts pairs by their keys. -/
def sortByKey {α : Type} (xs : List (String × α)) : List (String × α) :=
  xs.mergeSort fun a b => le a.1 b.1

/-- Puts a pair into pairs that are sorted by their keys; of two with one key
the later one counts. -/
def insertByKey {α : Type} (key : String) (v : α) : List (String × α) → List (String × α)
  | [] => [(key, v)]
  | (k, w) :: rest =>
    if key = k then (key, v) :: rest
    else if key < k then (key, v) :: (k, w) :: rest
    else (k, w) :: insertByKey key v rest

end LabelTemplate.Text
