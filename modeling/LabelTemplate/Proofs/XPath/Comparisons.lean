import Mathlib
import LabelTemplate.Proofs.XPath.NodeSets

/-!
# Comparisons read from the other side

`l < r` is `r > l`, and so on for every comparison and all kinds of values:
`compare_mirrored`.  Three things make it so.

* How two values are converted before they are compared depends on what both
  of them are, not on which stands on the left (`sameValue_comm`).
* The order of numbers is mirrored as such, and so is that of all values that
  are compared as numbers (`compareAtoms_mirrored`).
* A node-set is compared node by node, on whichever side it stands, and two
  node-sets by all pairs (`any_any_comm`).
-/

namespace LabelTemplate.XPath

open Xml Document

/-- The comparison that holds the other way round. -/
def BinaryOp.mirrored : BinaryOp → BinaryOp
  | .lt => .gt
  | .le => .ge
  | .gt => .lt
  | .ge => .le
  | op => op

namespace Scope

variable (s : Scope)

/-- Equality is symmetric: of the three ways to compare two values, the same one
is taken on both sides. -/
theorem sameValue_comm (a b : Value) : s.sameValue a b = s.sameValue b a := by
  cases a <;> cases b <;> exact BEq.comm

theorem compareAtoms_mirrored {op : BinaryOp} (hop : op.isComparison = true) (a b : Value) :
    s.compareAtoms op a b = s.compareAtoms op.mirrored b a := by
  cases op with
  | eq => exact s.sameValue_comm a b
  | ne => exact congrArg (!·) (s.sameValue_comm a b)
  | lt | le | gt | ge => rfl
  | _ => cases hop

/-- Some pair passes a test, whichever member is looked for first. -/
theorem any_any_comm {α β : Type} (as : List α) (bs : List β) (test : α → β → Bool) :
    (as.any fun a => bs.any (test a)) = bs.any fun b => as.any (test · b) := by
  rw [Bool.eq_iff_iff]
  simp only [List.any_eq_true]
  constructor
  · rintro ⟨a, ha, b, hb, h⟩
    exact ⟨b, hb, a, ha, h⟩
  · rintro ⟨b, hb, a, ha, h⟩
    exact ⟨a, ha, b, hb, h⟩

theorem compare_nodes_nodes (op : BinaryOp) (hs ks : List Handle) :
    s.compare op (.nodes hs) (.nodes ks) = hs.any fun h => ks.any fun k =>
      s.compareAtoms op (.string (stringValue s.docs h)) (.string (stringValue s.docs k)) := by
  simp only [compare, List.any_map]
  rfl

/-- A comparison and its mirror image, with the operands exchanged, are both
true or both false. -/
theorem compare_mirrored {op : BinaryOp} (hop : op.isComparison = true) (l r : Value) :
    s.compare op l r = s.compare op.mirrored r l := by
  have hatoms := s.compareAtoms_mirrored hop
  cases l with
  | nodes hs =>
    cases r with
    | nodes ks =>
      rw [compare_nodes_nodes, compare_nodes_nodes, any_any_comm]
      simp only [hatoms]
    | _ => simp only [compare, hatoms]
  | _ =>
    cases r with
    | nodes ks => simp only [compare, hatoms]
    | _ => exact hatoms _ _

/-- The values of two attributes, `1` and `3`, beside a number in a sequence in a
sequence. -/
theorem compare_mirrored_shelf :
    BinaryOp.isComparison .lt = true ∧
      compare { docs := #[shelf] } .lt (.nodes [⟨0, .attribute 3 1⟩, ⟨0, .attribute 1 0⟩])
        (.sequence [.sequence [.number 2], .boolean true]) = true ∧
      compare { docs := #[shelf] } .gt (.sequence [.sequence [.number 2], .boolean true])
        (.nodes [⟨0, .attribute 3 1⟩, ⟨0, .attribute 1 0⟩]) = true := by
  have hless : compare { docs := #[shelf] } .lt
      (.nodes [⟨0, .attribute 3 1⟩, ⟨0, .attribute 1 0⟩])
      (.sequence [.sequence [.number 2], .boolean true]) = true := by
    decide +kernel
  exact ⟨rfl, hless, (compare_mirrored _ rfl _ _).symm.trans hless⟩

end Scope

end LabelTemplate.XPath
