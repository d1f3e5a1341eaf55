import LabelTemplate.Xml.Reference

/-!
# Escaped texts are read back

A text is escaped character by character.  `Resolves` says of one character
what reading does with its escaped form, so that what is written for a list
of characters is read back by induction on the list (`resolve_flatMap`).

Escaped texts hold no `<`, and escaped values hold no quote and no angle
bracket, so cutting does not stop inside them.
-/

namespace LabelTemplate.Xml.Reference

/-- What is written for a character of a text. -/
def textForm : Char → List Char
  | '<' => ['&', 'l', 't', ';']
  | '>' => ['&', 'g', 't', ';']
  | '&' => ['&', 'a', 'm', 'p', ';']
  | c => [c]

/-- What is written for a character of an attribute value. -/
def valueForm : Char → List Char
  | '<' => ['&', 'l', 't', ';']
  | '>' => ['&', 'g', 't', ';']
  | '&' => ['&', 'a', 'm', 'p', ';']
  | '\'' => ['&', 'a', 'p', 'o', 's', ';']
  | '"' => ['&', 'q', 'u', 'o', 't', ';']
  | c => [c]

theorem toList_escapeText (s : String) : (escapeText s).toList = s.toList.flatMap textForm := by
  rw [escapeText, String.toList_join, List.flatMap_map]
  congr 1
  funext c
  unfold textForm
  split <;> simp_all

theorem toList_escapeValue (s : String) :
    (escapeValue s).toList = s.toList.flatMap valueForm := by
  rw [escapeValue, String.toList_join, List.flatMap_map]
  congr 1
  funext c
  unfold valueForm
  split <;> simp_all

/-! ## Reading back -/

/-- Reading `written` in front of any text gives the character `c`. -/
def Resolves (written : List Char) (c : Char) : Prop :=
  ∀ total offset rest, ∃ offset',
    resolveFrom total offset (written ++ rest) =
      (resolveFrom total offset' rest).map (c :: ·)

theorem resolves_self {c : Char} (h : c ≠ '&') : Resolves [c] c := by
  intro total offset rest
  refine ⟨offset + c.utf8Size, ?_⟩
  rw [List.cons_append, List.nil_append, resolveFrom]
  exact fun he => absurd he h

/-- A reference to a named entity. -/
theorem resolves_entity {name : List Char} {c : Char}
    (hsplit : ∀ rest, splitReference? (name ++ ';' :: rest) = some (name, rest))
    (hread : ∀ start, readReference start name = .ok c) : Resolves ('&' :: (name ++ [';'])) c := by
  intro total offset rest
  refine ⟨offset + Text.byteSize name + 2, ?_⟩
  rw [List.cons_append, List.append_assoc, List.singleton_append, resolveFrom]
  split
  · rename_i hnone
    rw [hsplit] at hnone
    cases hnone
  · rename_i name' after hsome
    rw [hsplit] at hsome
    cases hsome
    rw [hread]

theorem resolves_textForm (c : Char) : Resolves (textForm c) c := by
  unfold textForm
  split
  · exact @resolves_entity ['l', 't'] _ (fun _ => rfl) fun _ => rfl
  · exact @resolves_entity ['g', 't'] _ (fun _ => rfl) fun _ => rfl
  · exact @resolves_entity ['a', 'm', 'p'] _ (fun _ => rfl) fun _ => rfl
  · exact resolves_self ‹_›

theorem resolves_valueForm (c : Char) : Resolves (valueForm c) c := by
  unfold valueForm
  split
  · exact @resolves_entity ['l', 't'] _ (fun _ => rfl) fun _ => rfl
  · exact @resolves_entity ['g', 't'] _ (fun _ => rfl) fun _ => rfl
  · exact @resolves_entity ['a', 'm', 'p'] _ (fun _ => rfl) fun _ => rfl
  · exact @resolves_entity ['a', 'p', 'o', 's'] _ (fun _ => rfl) fun _ => rfl
  · exact @resolves_entity ['q', 'u', 'o', 't'] _ (fun _ => rfl) fun _ => rfl
  · exact resolves_self ‹_›

theorem resolve_flatMap {form : Char → List Char} (h : ∀ c, Resolves (form c) c)
    (cs : List Char) (total offset : Nat) :
    resolveFrom total offset (cs.flatMap form) = .ok cs := by
  induction cs generalizing offset with
  | nil => rw [List.flatMap_nil, resolveFrom]
  | cons c cs ih =>
    obtain ⟨offset', hc⟩ := h c total offset (cs.flatMap form)
    rw [List.flatMap_cons, hc, ih]
    rfl

theorem resolve_escapeText (s : String) : resolve (escapeText s).toList = .ok s.toList := by
  rw [resolve, toList_escapeText]
  exact resolve_flatMap resolves_textForm _ _ _

theorem resolve_escapeValue (s : String) : resolve (escapeValue s).toList = .ok s.toList := by
  rw [resolve, toList_escapeValue]
  exact resolve_flatMap resolves_valueForm _ _ _

/-- A text without references stands for itself. -/
theorem resolve_of_not_mem {cs : List Char} (h : '&' ∉ cs) : resolve cs = .ok cs := by
  have hfrom : ∀ total offset, resolveFrom total offset cs = .ok cs := fun total offset => by
    induction cs generalizing offset with
    | nil => rw [resolveFrom]
    | cons c cs ih =>
      simp only [List.mem_cons, not_or] at h
      obtain ⟨offset', hc⟩ := resolves_self (Ne.symm h.1) total offset cs
      rw [List.singleton_append] at hc
      rw [hc, ih h.2]
      rfl
  exact hfrom _ _

/-! ## What is not in an escaped text -/

theorem not_mem_escapeText (s : String) : '<' ∉ (escapeText s).toList := by
  rw [toList_escapeText, List.mem_flatMap]
  rintro ⟨c, -, hc⟩
  unfold textForm at hc
  split at hc
  all_goals simp only [List.mem_cons, List.not_mem_nil, or_false] at hc
  · simp at hc
  · simp at hc
  · simp at hc
  · exact absurd hc.symm ‹_›

theorem not_mem_escapeValue (s : String) {c : Char} (hc : c = '<' ∨ c = '>' ∨ c = '"') :
    c ∉ (escapeValue s).toList := by
  rw [toList_escapeValue, List.mem_flatMap]
  rintro ⟨x, -, hx⟩
  unfold valueForm at hx
  split at hx
  case h_6 =>
    rw [List.mem_singleton] at hx
    subst hx
    simp_all
  all_goals rcases hc with rfl | rfl | rfl <;> simp at hx

end LabelTemplate.Xml.Reference
