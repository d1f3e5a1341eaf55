import LabelTemplate.Proofs.Reading.Tags
import LabelTemplate.Text.Pieces

/-!
# Texts cut at a token

`Splits token s pieces` says without a scan what cutting at a token means: the
first piece ends at the leftmost occurrence, the others are those of what
stands after it, and a text without the token is one piece.  The occurrences
that are cut out so do not overlap.

A text is split in one way (`Splits.unique`), which is what `pieces` computes
for every token that is not empty (`splits_iff`).
-/

namespace LabelTemplate.Text

/-- The pieces of a text between the leftmost occurrences of a token that do
not overlap. -/
inductive Splits (token : String) : String → List String → Prop where
  | whole {s : String} (nowhere : ∀ front back, s ≠ front ++ token ++ back) : Splits token s [s]
  | cut {before after : String} {rest : List String}
      (leftmost : ∀ front back, before ++ token ++ after = front ++ token ++ back →
        before.length ≤ front.length)
      (later : Splits token after rest) :
      Splits token (before ++ token ++ after) (before :: rest)

/-! ## The leftmost occurrence -/

/-- A text is cut where the token stands as far left as anywhere. -/
theorem cut?_eq_some {token cs before after : List Char} (h : cut? token cs = some (before, after)) :
    cs = before ++ (token ++ after) ∧
      ∀ front back, cs = front ++ (token ++ back) → before.length ≤ front.length := by
  induction cs generalizing before after with
  | nil =>
    cases token with
    | nil =>
      cases h
      exact ⟨rfl, fun _ _ _ => Nat.zero_le _⟩
    | cons t ts => cases h
  | cons c cs ih =>
    unfold cut? at h
    split at h
    · rename_i rest hrest
      cases h
      refine ⟨?_, fun _ _ _ => Nat.zero_le _⟩
      rw [List.nil_append]
      exact dropStart?_eq_some.1 hrest
    · rename_i hnone
      obtain ⟨⟨a, b⟩, hab, heq⟩ := Option.map_eq_some_iff.1 h
      cases heq
      obtain ⟨rfl, hleft⟩ := ih hab
      refine ⟨rfl, fun front back hsame => ?_⟩
      cases front with
      | nil =>
        rw [List.nil_append] at hsame
        rw [dropStart?_eq_some.2 hsame] at hnone
        cases hnone
      | cons c' front =>
        rw [List.cons_append, List.cons.injEq] at hsame
        exact Nat.succ_le_succ (hleft front back hsame.2)

/-- A text is not cut where the token does not stand in it. -/
theorem cut?_eq_none {token cs : List Char} (h : cut? token cs = none) (front back : List Char) :
    cs ≠ front ++ (token ++ back) := by
  induction cs generalizing front with
  | nil =>
    cases token with
    | nil => cases h
    | cons t ts => simp
  | cons c cs ih =>
    unfold cut? at h
    split at h
    · cases h
    · rename_i hnone
      intro hsame
      cases front with
      | nil =>
        rw [List.nil_append] at hsame
        rw [dropStart?_eq_some.2 hsame] at hnone
        cases hnone
      | cons c' front =>
        rw [List.cons_append, List.cons.injEq] at hsame
        exact ih (Option.map_eq_none_iff.1 h) front hsame.2

/-! ## All pieces -/

/-- Every cut takes the token away, so there is fuel for all. -/
theorem splits_piecesChars (t : Char) (ts : List Char) {fuel : Nat} {cs : List Char}
    (hfuel : cs.length ≤ fuel) :
    Splits (String.ofList (t :: ts)) (String.ofList cs)
      ((piecesChars t ts fuel cs).map String.ofList) := by
  induction fuel generalizing cs with
  | zero =>
    obtain rfl : cs = [] := List.length_eq_zero_iff.1 (Nat.le_zero.1 hfuel)
    refine .whole fun front back h => ?_
    have hlength := congrArg String.length h
    simp only [String.length_append, String.length_ofList, List.length_nil,
      List.length_cons] at hlength
    omega
  | succ fuel ih =>
    have htoList : ∀ {s front back : String}, s = front ++ String.ofList (t :: ts) ++ back →
        s.toList = front.toList ++ ((t :: ts) ++ back.toList) := by
      rintro s front back rfl
      simp
    unfold piecesChars
    cases hcut : cut? (t :: ts) cs with
    | none =>
      refine .whole fun front back h => ?_
      refine cut?_eq_none hcut front.toList back.toList ?_
      simpa using htoList h
    | some pair =>
      obtain ⟨before, after⟩ := pair
      obtain ⟨rfl, hleft⟩ := cut?_eq_some hcut
      have hshorter : after.length ≤ fuel := by
        simp only [List.length_append, List.length_cons] at hfuel
        omega
      have hjoin : String.ofList (before ++ ((t :: ts) ++ after)) =
          String.ofList before ++ String.ofList (t :: ts) ++ String.ofList after := by
        simp [String.ofList_append, String.append_assoc]
      rw [hjoin]
      refine .cut (fun front back h => ?_) (ih hshorter)
      have hleft := hleft front.toList back.toList
      rw [← hjoin] at h
      rw [String.length_ofList, ← String.length_toList]
      exact hleft (by simpa using htoList h)

/-- The pieces of a text are those between the leftmost tokens. -/
theorem splits_pieces {token : String} (htoken : token ≠ "") (s : String) :
    Splits token s (pieces token s) := by
  have hne : token.toList ≠ [] := fun h => htoken (String.toList_eq_nil_iff.1 h)
  obtain ⟨t, ts, htts⟩ := List.exists_cons_of_ne_nil hne
  have hsplits := splits_piecesChars t ts (Nat.le_refl s.toList.length)
  rw [← htts, String.ofList_toList, String.ofList_toList] at hsplits
  unfold pieces
  rw [htts]
  exact hsplits

/-- A text is split in one way. -/
theorem Splits.unique {token s : String} {ps qs : List String} (hp : Splits token s ps)
    (hq : Splits token s qs) : ps = qs := by
  induction hp generalizing qs with
  | whole nowhere =>
    cases hq with
    | whole => rfl
    | cut => exact absurd rfl (nowhere _ _)
  | @cut before after rest leftmost _ ih =>
    generalize hs : before ++ token ++ after = s at hq
    cases hq with
    | whole nowhere => exact absurd hs.symm (nowhere _ _)
    | @cut before' after' rest' leftmost' later' =>
      have hlength : before.length = before'.length :=
        Nat.le_antisymm (leftmost _ _ hs) (leftmost' _ _ hs.symm)
      have hlists : before.toList ++ (token.toList ++ after.toList) =
          before'.toList ++ (token.toList ++ after'.toList) := by
        simpa using congrArg String.toList hs
      obtain ⟨hbefore, hrest⟩ := List.append_inj hlists
        (by rw [String.length_toList, String.length_toList, hlength])
      obtain rfl := String.toList_inj.1 hbefore
      obtain rfl := String.toList_inj.1 (List.append_cancel_left hrest)
      rw [ih later']

theorem splits_iff {token : String} (htoken : token ≠ "") {s : String} {ps : List String} :
    Splits token s ps ↔ ps = pieces token s :=
  ⟨fun h => h.unique (splits_pieces htoken s), fun h => h ▸ splits_pieces htoken s⟩

/-- There is a first piece. -/
theorem Splits.ne_nil {token s : String} {ps : List String} (h : Splits token s ps) : ps ≠ [] := by
  cases h <;> exact List.cons_ne_nil _ _

end LabelTemplate.Text
