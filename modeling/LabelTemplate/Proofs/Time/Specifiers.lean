import LabelTemplate.Proofs.Outcome
import LabelTemplate.Proofs.Text.Tokens
import LabelTemplate.Time.LabelTime
import Mathlib.Data.List.Infix
import Mathlib.Data.List.TakeWhile

/-!
# Specifiers

A pattern that a timestamp could be read with is read from left to right in
whole specifiers: what stands in front of a percent sign reads the same whatever
follows the sign (`Pattern.ofText_around`), unless the sign is itself the second
one of a pair.
-/

namespace LabelTemplate.Time

namespace Item

variable {cs rest : List Char} {items : List Item}

/-- The characters `spec` stand for `items` after a percent sign, whatever follows them. -/
def Specifies (spec : List Char) (items : List Item) : Prop :=
  ∀ rest, ofEscape (spec ++ rest) = (items, rest)

/-- A letter that stands for items is read as such in front of any characters. -/
theorem ofSpecifier?_of_letter {c : Char} (h : ofLetter? c = some items) (rest : List Char) :
    ofSpecifier? (c :: rest) = some (items, rest) := by
  unfold ofSpecifier?
  split
  case h_11 heq =>
    cases heq
    rw [h]
    rfl
  all_goals (rename_i heq; cases heq)
  all_goals cases h

/-- A specifier without a flag takes the same characters whatever follows; a percent sign
among them stands alone. -/
theorem ofSpecifier?_eq_some (h : ofSpecifier? cs = some (items, rest)) :
    ∃ spec, cs = spec ++ rest ∧
      (∀ rest', ofSpecifier? (spec ++ rest') = some (items, rest')) ∧
      ('%' ∈ spec → spec = ['%'] ∧ items = [literal ['%']]) := by
  unfold ofSpecifier? at h
  split at h
  case h_11 c rest' _ _ _ _ _ _ _ _ _ _ =>
    obtain ⟨items', hletter, heq⟩ := Option.map_eq_some_iff.1 h
    cases heq
    refine ⟨[c], rfl, ofSpecifier?_of_letter hletter, fun hmem => ?_⟩
    obtain rfl := List.mem_singleton.1 hmem
    cases hletter
    exact ⟨rfl, rfl⟩
  case h_12 => cases h
  all_goals cases h
  · exact ⟨[':', ':', ':', 'z'], rfl, fun _ => rfl, by simp⟩
  · exact ⟨[':', ':', 'z'], rfl, fun _ => rfl, by simp⟩
  · exact ⟨[':', 'z'], rfl, fun _ => rfl, by simp⟩
  · exact ⟨['.', 'f'], rfl, fun _ => rfl, by simp⟩
  · exact ⟨['.', '3', 'f'], rfl, fun _ => rfl, by simp⟩
  · exact ⟨['.', '6', 'f'], rfl, fun _ => rfl, by simp⟩
  · exact ⟨['.', '9', 'f'], rfl, fun _ => rfl, by simp⟩
  · exact ⟨['3', 'f'], rfl, fun _ => rfl, by simp⟩
  · exact ⟨['6', 'f'], rfl, fun _ => rfl, by simp⟩
  · exact ⟨['9', 'f'], rfl, fun _ => rfl, by simp⟩

/-- A flag in front of a specifier leaves a known item only for a single number. -/
theorem withPadding_eq {p : Padding} (hknown : unknown ∉ withPadding p items) :
    ∃ f q, items = [number f q] := by
  unfold withPadding at hknown
  split at hknown
  · exact ⟨_, _, rfl⟩
  · exact absurd List.mem_cons_self hknown

theorem ofEscape_of_flag {c : Char} {p : Padding} (hp : paddingOf? c = some p)
    (h : ofSpecifier? cs = some (items, rest)) :
    ofEscape (c :: cs) = (withPadding p items, rest) := by
  unfold ofEscape
  split
  · rename_i heq
    cases heq
    cases hp
  · rename_i heq
    cases heq
    simp only [hp, h]
  · rename_i heq
    cases heq

theorem ofEscape_of_plain {c : Char} (hp : paddingOf? c = none)
    (h : ofSpecifier? (c :: cs) = some (items, rest)) : ofEscape (c :: cs) = (items, rest) := by
  unfold ofEscape
  split
  · rename_i heq
    cases heq
    cases h
  · rename_i heq
    cases heq
    simp only [hp, h, Option.getD_some]
  · rename_i heq
    cases heq

/-- What is known after a percent sign is a specifier; a percent sign in it stands alone. -/
theorem exists_specifies (h : ofEscape cs = (items, rest)) (hknown : unknown ∉ items) :
    ∃ spec, cs = spec ++ rest ∧ Specifies spec items ∧
      ('%' ∈ spec → spec = ['%'] ∧ items = [literal ['%']]) := by
  unfold ofEscape at h
  split at h
  · cases h
    exact ⟨['#', 'z'], rfl, fun _ => rfl, by simp⟩
  · rename_i c cs _
    split at h
    · rename_i p hp
      split at h
      · rename_i hplain
        cases h
        obtain ⟨f, q, rfl⟩ := withPadding_eq hknown
        obtain ⟨spec, rfl, hreads, hpercent⟩ := ofSpecifier?_eq_some hplain
        refine ⟨c :: spec, rfl, fun rest => ofEscape_of_flag hp (hreads rest), fun hmem => ?_⟩
        obtain rfl | hmem := List.mem_cons.1 hmem
        · cases hp
        · cases (hpercent hmem).2
      · cases h
        exact absurd List.mem_cons_self hknown
    · rename_i hp
      cases hplain : ofSpecifier? (c :: cs) with
      | none =>
        rw [hplain] at h
        cases h
        exact absurd List.mem_cons_self hknown
      | some found =>
        rw [hplain] at h
        cases h
        obtain ⟨spec, hspec, hreads, hpercent⟩ := ofSpecifier?_eq_some hplain
        cases spec with
        | nil => cases hreads []
        | cons _ spec =>
          cases hspec
          exact ⟨c :: spec, rfl, fun rest => ofEscape_of_plain hp (hreads rest), hpercent⟩
  · cases h
    exact absurd List.mem_cons_self hknown

/-! ### What is left after a specifier -/

theorem ofSpecifier?_suffix (h : ofSpecifier? cs = some (items, rest)) : rest <:+ cs := by
  obtain ⟨spec, rfl, -⟩ := ofSpecifier?_eq_some h
  exact List.suffix_append _ _

theorem ofEscape_suffix (cs : List Char) : (ofEscape cs).2 <:+ cs := by
  unfold ofEscape
  split
  · rename_i rest
    exact List.suffix_append ['#', 'z'] rest
  · rename_i c cs _
    split
    · split
      · rename_i hplain
        exact (ofSpecifier?_suffix hplain).trans (List.suffix_cons _ _)
      · exact List.nil_suffix
    · cases hplain : ofSpecifier? (c :: cs) with
      | none => exact List.nil_suffix
      | some found => exact ofSpecifier?_suffix hplain
  · exact List.nil_suffix

/-! ### The fraction of any length -/

theorem fraction_notMem_ofLetter? {c : Char} (h : ofLetter? c = some items) : fraction ∉ items := by
  unfold ofLetter? at h
  split at h <;> cases h <;> decide

theorem fraction_mem_ofSpecifier? (h : ofSpecifier? cs = some (items, rest))
    (hmem : fraction ∈ items) : ∃ after, cs = '.' :: 'f' :: after := by
  unfold ofSpecifier? at h
  split at h
  case h_4 => exact ⟨_, rfl⟩
  case h_11 =>
    obtain ⟨items', hletter, heq⟩ := Option.map_eq_some_iff.1 h
    cases heq
    exact absurd hmem (fraction_notMem_ofLetter? hletter)
  case h_12 => cases h
  all_goals
    cases h
    simp at hmem

/-- Only the specifier itself stands for a fraction of any length. -/
theorem fraction_mem_ofEscape (hmem : fraction ∈ (ofEscape cs).1) :
    ∃ after, cs = '.' :: 'f' :: after := by
  unfold ofEscape at hmem
  split at hmem
  · simp at hmem
  · rename_i c cs _
    split at hmem
    · split at hmem
      · unfold withPadding at hmem
        split at hmem <;> simp at hmem
      · simp at hmem
    · cases hplain : ofSpecifier? (c :: cs) with
      | none =>
        rw [hplain] at hmem
        simp at hmem
      | some found =>
        rw [hplain] at hmem
        exact fraction_mem_ofSpecifier? hplain hmem
  · simp at hmem

end Item

namespace Pattern

open Item

/-- Reads all of a list of characters. -/
def ofList (cs : List Char) : Pattern := ofChars cs.length cs

theorem ofText_eq_ofList (text : String) : ofText text = ofList text.toList := by
  rw [ofText, ofList, String.length_toList]

section Equations

variable {c : Char} {cs : List Char} {fuel : Nat}

theorem ofChars_of_ne (hc : c ≠ '%') (fuel : Nat) (cs : List Char) :
    ofChars (fuel + 1) (c :: cs) =
      if isBlank c then .blank (c :: cs.takeWhile isBlank) :: ofChars fuel (cs.dropWhile isBlank)
      else .literal (c :: cs.takeWhile fun c => c != '%' && !isBlank c) ::
        ofChars fuel (cs.dropWhile fun c => c != '%' && !isBlank c) := by
  rw [ofChars.eq_def]
  split
  · rename_i heq
    cases heq
  · rename_i heq _
    cases heq
  · rename_i heq
    cases heq
    exact absurd rfl hc
  · rename_i hfuel heq
    cases hfuel
    cases heq
    rfl

/-- What is no specifier is read in runs: of blanks, or of characters that are neither blank
nor a percent sign. -/
theorem ofChars_run (hc : c ≠ '%') :
    ∃ (run : Char → Bool) (item : List Char → Item),
      run '%' = false ∧ (∀ text, item text ≠ .fraction) ∧
      ∀ fuel cs, ofChars (fuel + 1) (c :: cs) =
        item (c :: cs.takeWhile run) :: ofChars fuel (cs.dropWhile run) := by
  cases hblank : isBlank c with
  | true =>
    refine ⟨isBlank, .blank, rfl, nofun, fun fuel cs => ?_⟩
    rw [ofChars_of_ne hc, if_pos hblank]
  | false =>
    refine ⟨fun c => c != '%' && !isBlank c, .literal, rfl, nofun, fun fuel cs => ?_⟩
    rw [ofChars_of_ne hc, if_neg (Bool.eq_false_iff.1 hblank)]

/-- The first items of a text that is not empty, and what is left of it. -/
theorem ofChars_cons (c : Char) (cs : List Char) :
    ∃ items rest, rest.length ≤ cs.length ∧
      ∀ fuel, ofChars (fuel + 1) (c :: cs) = items ++ ofChars fuel rest := by
  by_cases hc : c = '%'
  · subst hc
    exact ⟨_, _, (ofEscape_suffix cs).length_le, fun _ => rfl⟩
  · obtain ⟨run, item, -, -, hread⟩ := ofChars_run hc
    exact ⟨[_], _, (List.dropWhile_suffix run).length_le, fun fuel => hread fuel cs⟩

/-- A unit of fuel for each character is enough. -/
theorem ofChars_eq_ofList (hfuel : cs.length ≤ fuel) : ofChars fuel cs = ofList cs := by
  suffices h : ∀ {fuel fuel' : Nat} {cs : List Char}, cs.length ≤ fuel → cs.length ≤ fuel' →
      ofChars fuel cs = ofChars fuel' cs from h hfuel (Nat.le_refl _)
  intro fuel
  induction fuel with
  | zero =>
    intro fuel' cs hfuel _
    obtain rfl := List.length_eq_zero_iff.1 (Nat.le_zero.1 hfuel)
    cases fuel' <;> rfl
  | succ fuel ih =>
    intro fuel' cs hfuel hfuel'
    cases cs with
    | nil => cases fuel' <;> rfl
    | cons c cs =>
      obtain ⟨fuel', rfl⟩ := Nat.exists_eq_succ_of_ne_zero (Nat.ne_zero_of_lt hfuel')
      obtain ⟨items, rest, hlength, hreads⟩ := ofChars_cons c cs
      rw [hreads, hreads, ih (hlength.trans (Nat.le_of_succ_le_succ hfuel))
        (hlength.trans (Nat.le_of_succ_le_succ hfuel'))]

theorem ofList_percent (cs : List Char) :
    ofList ('%' :: cs) = (ofEscape cs).1 ++ ofList (ofEscape cs).2 :=
  congrArg _ (ofChars_eq_ofList (ofEscape_suffix cs).length_le)

theorem ofList_run (hc : c ≠ '%') :
    ∃ (run : Char → Bool) (item : List Char → Item),
      run '%' = false ∧ (∀ text, item text ≠ .fraction) ∧
      ∀ cs, ofList (c :: cs) = item (c :: cs.takeWhile run) :: ofList (cs.dropWhile run) := by
  obtain ⟨run, item, hrun, hitem, hread⟩ := ofChars_run hc
  refine ⟨run, item, hrun, hitem, fun cs => ?_⟩
  rw [ofList, List.length_cons, hread, ofChars_eq_ofList (List.dropWhile_suffix run).length_le]

end Equations

/-- A fraction of any length is where its specifier stands in the text. -/
theorem exists_eq_of_fraction_mem {cs : List Char} (hmem : fraction ∈ ofList cs) :
    ∃ front back, cs = front ++ (fractionSpecifier.toList ++ back) := by
  induction hn : cs.length using Nat.strong_induction_on generalizing cs with
  | _ n ih =>
    subst hn
    cases cs with
    | nil => cases hmem
    | cons c cs =>
      have hlater : ∀ {rest : List Char}, rest <:+ cs → fraction ∈ ofList rest →
          ∃ front back, c :: cs = front ++ (fractionSpecifier.toList ++ back) := by
        intro rest hrest hmem
        obtain ⟨front, back, rfl⟩ := ih _ (Nat.lt_succ_of_le hrest.length_le) hmem rfl
        obtain ⟨skipped, rfl⟩ := hrest
        exact ⟨c :: skipped ++ front, back, (List.append_assoc (c :: skipped) front _).symm⟩
      by_cases hc : c = '%'
      · subst hc
        rw [ofList_percent, List.mem_append] at hmem
        obtain hmem | hmem := hmem
        · obtain ⟨after, rfl⟩ := fraction_mem_ofEscape hmem
          exact ⟨[], after, rfl⟩
        · exact hlater (ofEscape_suffix cs) hmem
      · obtain ⟨run, item, -, hitem, hread⟩ := ofList_run hc
        rw [hread, List.mem_cons] at hmem
        exact hlater (List.dropWhile_suffix run) (hmem.resolve_left (hitem _).symm)

/-! ## What stands in front of a percent sign -/

/-- Nothing, or something that starts with a percent sign. -/
def AtPercent (cs : List Char) : Prop := ∀ c ∈ cs.head?, c = '%'

theorem atPercent_percent (cs : List Char) : AtPercent ('%' :: cs) := by
  rintro c h
  exact (Option.some.inj h).symm

/-- A run of characters without the percent sign ends where one stands. -/
theorem AtPercent.runs {run : Char → Bool} {back : List Char} (hback : AtPercent back)
    (hrun : run '%' = false) (front : List Char) :
    (front ++ back).takeWhile run = front.takeWhile run ∧
      (front ++ back).dropWhile run = front.dropWhile run ++ back := by
  induction front with
  | nil =>
    cases back with
    | nil => exact ⟨rfl, rfl⟩
    | cons c back =>
      obtain rfl := hback c rfl
      exact ⟨List.takeWhile_cons_of_neg (by simp [hrun]),
        List.dropWhile_cons_of_neg (by simp [hrun])⟩
  | cons c front ih =>
    rw [List.cons_append, List.takeWhile_cons, List.takeWhile_cons, List.dropWhile_cons,
      List.dropWhile_cons]
    split
    · rw [ih.1, ih.2]
      exact ⟨rfl, rfl⟩
    · exact ⟨rfl, rfl⟩

/-- The text stands for the same items whatever specifier comes next. -/
def Whole (front : List Char) : Prop :=
  ∀ back, AtPercent back → ofList (front ++ back) = ofList front ++ ofList back

/-- The text ends in a percent sign for which the next character has to be seen; another one
makes the two a literal. -/
def Open (front : List Char) : Prop :=
  ∃ items, ∀ back, ofList (front ++ '%' :: back) = items ++ .literal ['%'] :: ofList back

section Fronts

variable {items : List Item} {front later : List Char}

theorem Whole.step (hstep : ∀ back, AtPercent back → ofList (front ++ back) =
    items ++ ofList (later ++ back)) (h : Whole later) : Whole front := by
  intro back hback
  have hfront := hstep [] nofun
  rw [List.append_nil, List.append_nil] at hfront
  rw [hstep back hback, h back hback, hfront, List.append_assoc]

theorem Open.step (hstep : ∀ back, AtPercent back → ofList (front ++ back) =
    items ++ ofList (later ++ back)) (h : Open later) : Open front := by
  obtain ⟨items', h⟩ := h
  refine ⟨items ++ items', fun back => ?_⟩
  rw [hstep _ (atPercent_percent back), h, List.append_assoc]

/-- What stands in front of a percent sign of a known pattern is whole, or ends in the first
one of a pair. -/
theorem whole_or_open {back : List Char} (hknown : unknown ∉ ofList (front ++ '%' :: back)) :
    Whole front ∨ Open front := by
  induction hn : front.length using Nat.strong_induction_on generalizing front with
  | _ n ih =>
    subst hn
    cases front with
    | nil => exact .inl fun _ _ => rfl
    | cons c front =>
      have hlater : ∀ (items : List Item) {later : List Char}, later.length ≤ front.length →
          (∀ back, AtPercent back → ofList (c :: front ++ back) =
            items ++ ofList (later ++ back)) → Whole (c :: front) ∨ Open (c :: front) := by
        intro items later hlength hstep
        rw [hstep _ (atPercent_percent back), List.mem_append, not_or] at hknown
        exact (ih _ (Nat.lt_succ_of_le hlength) hknown.2 rfl).imp (.step hstep) (.step hstep)
      by_cases hc : c = '%'
      · subst hc
        cases hread : ofEscape (front ++ '%' :: back) with
        | mk items rest =>
          have hitems : unknown ∉ items := fun hmem => hknown <| by
            rw [List.cons_append, ofList_percent, hread]
            exact List.mem_append_left _ hmem
          obtain ⟨spec, hsplit, hspec, hpercent⟩ := exists_specifies hread hitems
          -- The specifier ends in front of the percent sign, or is that sign.
          have hends : (∃ later, front = spec ++ later) ∨ (front = [] ∧ spec = ['%']) := by
            obtain ⟨beyond, rfl, hbeyond⟩ | ⟨later, rfl, -⟩ := List.append_eq_append_iff.1 hsplit
            · cases beyond with
              | nil => exact .inl ⟨[], by simp⟩
              | cons c beyond =>
                cases hbeyond
                have hspec := (hpercent (by simp)).1
                exact .inr ⟨(List.append_eq_singleton_iff.1 hspec).elim And.left (by simp), hspec⟩
            · exact .inl ⟨later, rfl⟩
          obtain ⟨later, rfl⟩ | ⟨rfl, rfl⟩ := hends
          · refine hlater items (List.suffix_append spec later).length_le fun back _ => ?_
            rw [List.cons_append, ofList_percent, List.append_assoc, hspec]
          · obtain rfl := (hpercent (by simp)).2
            exact .inr ⟨[], fun back => by
              rw [List.singleton_append, ofList_percent, ← List.singleton_append, hspec]
              rfl⟩
      · obtain ⟨run, item, hrun, -, hread⟩ := ofList_run hc
        refine hlater [item (c :: front.takeWhile run)] (List.dropWhile_suffix run).length_le
          fun back hback => ?_
        obtain ⟨htake, hdrop⟩ := hback.runs hrun front
        rw [List.cons_append, hread, htake, hdrop]
        rfl

end Fronts

/-- A text with one specifier for a fraction of any length holds no other one in front of it
or after it. -/
theorem once_of_pieces {format before after : String}
    (honce : Text.pieces fractionSpecifier format = [before, after]) :
    format = before ++ fractionSpecifier ++ after ∧
      (∀ front back, format = front ++ fractionSpecifier ++ back → before.length ≤ front.length) ∧
      ∀ front back, after ≠ front ++ fractionSpecifier ++ back := by
  have hsplits := Text.splits_pieces (by decide : fractionSpecifier ≠ "") format
  rw [honce] at hsplits
  cases hsplits with
  | cut leftmost later =>
    cases later with
    | whole nowhere => exact ⟨rfl, leftmost, nowhere⟩
    | cut _ later => exact absurd rfl later.ne_nil

theorem contains_of_once {format before after : String}
    (honce : Text.pieces fractionSpecifier format = [before, after]) :
    Text.contains fractionSpecifier format = true := by
  obtain ⟨rfl, -⟩ := once_of_pieces honce
  refine Option.isSome_iff_ne_none.2 fun hnone =>
    Text.cut?_eq_none hnone before.toList after.toList ?_
  simp [List.append_assoc]

/-- Neither the text in front of the only specifier nor the one after it has the field. -/
theorem fraction_notMem_of_once {format before after : String}
    (honce : Text.pieces fractionSpecifier format = [before, after]) :
    fraction ∉ ofText before ∧ fraction ∉ ofText after := by
  obtain ⟨rfl, hleftmost, hnowhere⟩ := once_of_pieces honce
  rw [ofText_eq_ofList, ofText_eq_ofList]
  constructor
  · intro hmem
    obtain ⟨front, back, heq⟩ := exists_eq_of_fraction_mem hmem
    have hbefore : before = String.ofList front ++ fractionSpecifier ++ String.ofList back :=
      String.toList_inj.1 (by simp [heq])
    have hleft := hleftmost (String.ofList front)
      (String.ofList back ++ fractionSpecifier ++ after)
      (by rw [hbefore]; simp only [String.append_assoc])
    have hlength := congrArg String.length hbefore
    have hthree : fractionSpecifier.length = 3 := rfl
    rw [String.length_append, String.length_append] at hlength
    omega
  · intro hmem
    obtain ⟨front, back, heq⟩ := exists_eq_of_fraction_mem hmem
    exact hnowhere (String.ofList front) (String.ofList back) (String.toList_inj.1 (by simp [heq]))

/-- The percent sign of a specifier that is a field is not the second one of a pair. -/
theorem whole_of_fraction_mem {format before after : String}
    (honce : Text.pieces fractionSpecifier format = [before, after])
    (hfield : fraction ∈ ofText format) (hknown : unknown ∉ ofText format) :
    Whole before.toList := by
  obtain ⟨rfl, hleftmost, hnowhere⟩ := once_of_pieces honce
  have hlist : (before ++ fractionSpecifier ++ after).toList =
      before.toList ++ '%' :: ('.' :: 'f' :: after.toList) := by
    simp [fractionSpecifier]
  rw [ofText_eq_ofList, hlist] at hfield hknown
  refine (whole_or_open hknown).resolve_right ?_
  rintro ⟨items, hopen⟩
  rw [hopen, List.mem_append, List.mem_cons] at hfield
  obtain hmem | hmem | hmem := hfield
  · have hmem : fraction ∈ ofList (before.toList ++ ['%']) := by
      rw [hopen]
      exact List.mem_append_left _ hmem
    obtain ⟨front, back, heq⟩ := exists_eq_of_fraction_mem hmem
    have hlists : before.toList ++ '%' :: ('.' :: 'f' :: after.toList) =
        front ++ (fractionSpecifier.toList ++ (back ++ '.' :: 'f' :: after.toList)) := by
      rw [← List.singleton_append, ← List.append_assoc, heq]
      simp
    have hleft := hleftmost (String.ofList front)
      (String.ofList (back ++ '.' :: 'f' :: after.toList))
      (String.toList_inj.1 (by simpa [hlist] using hlists))
    have hlength := congrArg List.length heq
    simp only [List.length_append, List.length_singleton, String.length_toList,
      fractionSpecifier] at hlength
    rw [String.length_ofList] at hleft
    have hthree : "%.f".length = 3 := rfl
    omega
  · cases hmem
  · obtain ⟨front, back, heq⟩ := exists_eq_of_fraction_mem hmem
    obtain _ | ⟨c, _ | ⟨d, front⟩⟩ := front
    · simp [fractionSpecifier] at heq
    · simp [fractionSpecifier] at heq
    · refine hnowhere (String.ofList front) (String.ofList back) (String.toList_inj.1 ?_)
      simpa using (List.cons.inj (List.cons.inj heq).2).2

/-- Around the only specifier of a fraction of any length a known pattern is read apart, also
when another specifier stands in its place. -/
theorem ofText_around {format before after : String}
    (honce : Text.pieces fractionSpecifier format = [before, after])
    (hfield : fraction ∈ ofText format) (hknown : unknown ∉ ofText format) :
    ofText format = ofText before ++ .fraction :: ofText after ∧
      ofText (before ++ fullFractionSpecifier ++ after) =
        ofText before ++ .fixedFraction 9 true :: ofText after := by
  have hwhole := whole_of_fraction_mem honce hfield hknown
  obtain ⟨rfl, -⟩ := once_of_pieces honce
  simp only [ofText_eq_ofList, String.toList_append, List.append_assoc]
  constructor
  · refine (hwhole _ (atPercent_percent _)).trans ?_
    exact congrArg (ofList before.toList ++ ·) (ofList_percent ('.' :: 'f' :: after.toList))
  · refine (hwhole _ (atPercent_percent _)).trans ?_
    exact congrArg (ofList before.toList ++ ·) (ofList_percent ('.' :: '9' :: 'f' :: after.toList))

/-- A pattern with which a timestamp could be read has no specifier that does not exist. -/
theorem unknown_notMem_of_read {p : Pattern} {text : String} {t : Timestamp}
    (h : p.read text = .ok t) : unknown ∉ p := by
  obtain ⟨final, hitems, -⟩ := Outcome.bind_eq_ok.1 h
  clear h
  generalize (({}, text.toList) : Reading) = r at hitems
  induction p generalizing r with
  | nil => exact List.not_mem_nil
  | cons item p ih =>
    rw [List.foldlM_cons] at hitems
    obtain ⟨r', hitem, hitems⟩ := Outcome.bind_eq_ok.1 hitems
    rw [List.mem_cons, not_or]
    refine ⟨?_, ih r' hitems⟩
    rintro rfl
    cases hitem

end Pattern

end LabelTemplate.Time
