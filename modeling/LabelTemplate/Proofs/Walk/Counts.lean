import LabelTemplate.Proofs.Walk.Standing

/-!
# How many counterparts an element may have

An element that is fetched says by its `multi` how many counterparts its source
may have.  Where it asks for a number, several counterparts must be that many,
while a single one passes whatever the number is (`walk_count`).
-/

namespace LabelTemplate

open Xml Document Outcome

namespace Engine

/-- The walk goes on past the element of the turn. -/
def Turn.Passes (t : Turn) (s : ElementState) : Prop := ∃ x, t.Faces s (.ok x)

section Count

variable {e : Engine} {t : Turn} {s : ElementState} {source : Document} {found : List NodeId}

/-- With a number declared, the walk goes on past an element that has counterparts
exactly if there is one or there are that many; else it fails with both
numbers. -/
theorem walk_count {k : Nat} (hreach : (Turn.first e).Reaches t)
    (helement : t.engine.template.isComment t.node = false) (hs : t.state = .ok s)
    (hfinds : Finds s t.node t.engine source found) (hmulti : s.multi = .count k)
    (hsome : found ≠ []) :
    (t.Passes s ↔ found.length = 1 ∨ found.length = k) ∧
      (¬ t.Passes s → e.walk = .error (.node (.matchCount found.length k) t.location)) := by
  by_cases hone : found.length = 1
  · obtain ⟨m, rfl⟩ := List.length_eq_one_iff.1 hone
    have hpasses : t.Passes s := by
      have hprospect := hfinds.prospect_eq
      rw [onFound] at hprospect
      split at hprospect <;> exact ⟨_, helement, hs, hprospect⟩
    exact ⟨iff_of_true hpasses (.inl hone), fun hstuck => absurd hpasses hstuck⟩
  · have hmany : 2 ≤ found.length := by
      have hpos := List.length_pos_iff.2 hsome
      omega
    have hprospect := hfinds.many hmany
    rw [hmulti] at hprospect
    dsimp only [Multi.expected?] at hprospect
    by_cases hcount : found.length = k
    · rw [if_neg fun hne => hne hcount.symm] at hprospect
      have hpasses : t.Passes s := ⟨_, helement, hs, hprospect⟩
      exact ⟨iff_of_true hpasses (.inr hcount), fun hstuck => absurd hpasses hstuck⟩
    · rw [if_pos (Ne.symm hcount)] at hprospect
      have hfaces : t.Faces s _ := ⟨helement, hs, hprospect⟩
      refine ⟨iff_of_false ?_ (not_or.2 ⟨hone, hcount⟩), fun _ => walk_eq_error hreach hfaces.error⟩
      rintro ⟨x, hx⟩
      have hsame := hx.prospect.symm.trans hprospect
      cases hsame

/-- A template with an element that is fetched three times, and a document with
two of it. -/
def threeOfTwo : Engine where
  env :=
    { docs := #[.ofTree [] { name := .plain "a" } none
          (.node (.element
            { name := .plain "b"
              attributes := [⟨⟨some directivePrefix, some directiveNamespace, "sources"⟩, "s"⟩,
                ⟨⟨some directivePrefix, some directiveNamespace, "fetch"⟩, "true()"⟩,
                ⟨⟨some directivePrefix, some directiveNamespace, "multi"⟩, "3"⟩] })
            none .nil .nil),
        .ofTree [] { name := .plain "a" } none
          (.node (.element { name := .plain "b", text := some "1" }) none .nil
            (.node (.element { name := .plain "b", text := some "2" }) none .nil .nil))]
      sources := [("s", .single 1)] }

/-- The turn of the element. -/
def threeOfTwo.turn : Turn :=
  ⟨4, (Turn.first threeOfTwo).state.toOption.getD .root, 1, threeOfTwo⟩

theorem walk_count_threeOfTwo :
    threeOfTwo.walk = .error (.node (.matchCount 2 3) { tag := some "b" }) := by
  have hroot : (Turn.first threeOfTwo).state = .ok threeOfTwo.turn.parent :=
    eq_ok_getD (by decide +kernel) .root
  have hstays : (Turn.first threeOfTwo).Faces threeOfTwo.turn.parent (.ok (.stays threeOfTwo)) :=
    ⟨by decide +kernel, hroot, prospect_plain (by decide +kernel) (by decide +kernel)
      (show threeOfTwo.turn.parent.multi = .flag false by decide +kernel) (by decide +kernel)⟩
  have hkids : threeOfTwo.template.children (Turn.first threeOfTwo).node = [] ++ 1 :: [] := by
    decide +kernel
  have hturn : (Turn.first threeOfTwo).Makes threeOfTwo.turn :=
    .kid (by decide +kernel) hstays (by decide +kernel) hkids rfl
  have hstate : (threeOfTwo.turn.state.toOption.any fun s => decide
      (s.sources = .single 1 ∧ s.fetch = true ∧ s.multi = .count 3)) = true := by
    decide +kernel
  obtain ⟨s, hs, hall⟩ := (Option.any_eq_true _ _).1 hstate
  obtain ⟨hsources, hfetch, hmulti⟩ := of_decide_eq_true hall
  have hfinds : Finds s threeOfTwo.turn.node threeOfTwo.turn.engine
      (threeOfTwo.env.docs.getD 1 (.ofRoot (.plain ""))) [1, 2] :=
    ⟨by rw [hsources]; rfl, hfetch, by rw [hsources]; rfl, by decide +kernel⟩
  obtain ⟨hiff, hfails⟩ := walk_count (.single hturn) (by decide +kernel) (toOption_eq_some.1 hs)
    hfinds hmulti (List.cons_ne_nil _ _)
  exact hfails (mt hiff.1 (by decide))

end Count

end Engine

end LabelTemplate
