import LabelTemplate.Proofs.Arena.Path
import LabelTemplate.Proofs.Walk.Weight

/-!
# Parts of forests

`Forest.Every` says something of the trees of all elements of a forest,
`Forest.Holds` that one forest stands somewhere in another one, and
`Forest.ofTrees` sets trees side by side.
-/

namespace LabelTemplate.Xml

/-- Trees side by side. -/
def Forest.ofTrees : List Tree → Forest
  | [] => .nil
  | t :: ts => .node (.element t.element) t.line t.kids (ofTrees ts)

/-- The second forest stands somewhere in the first one, as siblings in a row. -/
inductive Forest.Holds : Forest → Forest → Prop where
  | row {front f back : Forest} : Holds (front ++ (f ++ back)) f
  | inner {front kids rest f : Forest} {kind : NodeKind} {line : Option Nat}
      (h : Holds kids f) : Holds (front ++ .node kind line kids rest) f

namespace Forest

/-- All elements have trees with a property. -/
def Every (P : Tree → Prop) : Forest → Prop
  | nil => True
  | node (.comment _) _ _ rest => rest.Every P
  | node (.element e) line kids rest => P ⟨e, line, kids⟩ ∧ kids.Every P ∧ rest.Every P

theorem Every.mono {P Q : Tree → Prop} (hpq : ∀ t, P t → Q t) {f : Forest} (h : f.Every P) :
    f.Every Q := by
  induction f with
  | nil => trivial
  | node kind line kids rest ihKids ihRest =>
    cases kind with
    | comment text => exact ihRest h
    | element e => exact ⟨hpq _ h.1, ihKids h.2.1, ihRest h.2.2⟩

theorem Every.append {P : Tree → Prop} {f g : Forest} (hf : f.Every P) (hg : g.Every P) :
    (f ++ g).Every P := by
  induction f with
  | nil => exact hg
  | node kind line kids rest _ ih =>
    cases kind with
    | comment text => exact ih hf
    | element e => exact ⟨hf.1, hf.2.1, ih hf.2.2⟩

theorem every_of_hasElement {P : Tree → Prop} {f : Forest} (h : f.hasElement = false) :
    f.Every P := by
  induction f with
  | nil => trivial
  | node kind line kids rest _ ih =>
    cases kind with
    | comment text => exact ih h
    | element e => cases h

theorem named_element (name : QName) (e : Element) (line : Option Nat) (kids rest : Forest) :
    (node (.element e) line kids rest).named name =
      (if e.name.hasName name.namespaceUri name.localName then 1 else 0) + rest.named name :=
  rfl

theorem named_comment (name : QName) (text : String) (line : Option Nat) (kids rest : Forest) :
    (node (.comment text) line kids rest).named name = rest.named name := Nat.zero_add _

theorem named_pos_of_mem {t : Tree} {f : Forest} (ht : t ∈ f.trees) :
    0 < f.named t.element.name := by
  induction f with
  | nil => cases ht
  | node kind line kids rest _ ih =>
    cases kind with
    | comment text =>
      rw [named_comment]
      exact ih ht
    | element e =>
      rw [named_element]
      rcases List.mem_cons.1 ht with rfl | ht
      · rw [if_pos (QName.hasName_self e.name)]
        omega
      · exact Nat.lt_of_lt_of_le (ih ht) (Nat.le_add_left _ _)

theorem trees_append (f g : Forest) : (f ++ g).trees = f.trees ++ g.trees := by
  induction f with
  | nil => rfl
  | node kind line kids rest _ ih =>
    cases kind with
    | comment text => exact ih
    | element e => exact congrArg (List.cons _) ih

namespace Holds

theorem refl (f : Forest) : f.Holds f := by
  have h : Holds (.nil ++ (f ++ .nil)) f := .row
  rwa [nil_append, append_nil] at h

theorem kids (t : Tree) : t.forest.Holds t.kids :=
  @inner .nil _ _ _ _ _ (refl t.kids)

theorem around {g f : Forest} (h : g.Holds f) (front back : Forest) :
    (front ++ (g ++ back)).Holds f := by
  cases h with
  | @row front' f back' =>
    rw [append_assoc, append_assoc, ← append_assoc]
    exact .row
  | @inner front' kids rest f kind line h =>
    rw [append_assoc, ← append_assoc]
    exact .inner h

theorem trans {g f f' : Forest} (h : g.Holds f) (h' : f.Holds f') : g.Holds f' := by
  induction h with
  | row => exact h'.around _ _
  | inner _ ih => exact .inner (ih h')

end Holds

end Forest

end LabelTemplate.Xml
