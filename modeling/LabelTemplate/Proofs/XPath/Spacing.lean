import LabelTemplate.Proofs.XPath.Derived
import LabelTemplate.XPath.Token
import Mathlib.Data.List.TakeWhile

/-!
# Blanks between tokens

Which token comes first depends on what follows it: `a:b` is one name and `a :b`
is not.  But what a token took is read as that token again wherever a blank or the
end follows (`Token.read?_parts`), so the texts of the tokens of an expression may
be set further apart.

`Laid` is the relation between a text and the tokens it is cut into, with the
blanks in front of each.  An expression is cut into the tokens that it lays out
(`tokenize_eq_ok_iff`); that these stand in place and leave only blanks
(`Spans`), and that they are the same with other blanks between them
(`Laid.respaced`), are inductions on it.
-/

namespace LabelTemplate.XPath

open Text (byteSize byteSize_append)

/-- Only blanks. -/
def Blank (cs : List Char) : Prop := ∀ c ∈ cs, isMarkupBlank c = true

/-- Nothing follows, or a blank. -/
def Parts (tail : List Char) : Prop := ∀ c ∈ tail.head?, isMarkupBlank c = true

variable {cs rest tail : List Char} {c : Char}

theorem Parts.blank_cons (h : Parts (c :: rest)) : c = ' ' ∨ c = '\t' ∨ c = '\r' ∨ c = '\n' := by
  have hc := h c rfl
  simp only [isMarkupBlank, Bool.or_eq_true, beq_iff_eq] at hc
  tauto

theorem Parts.ne_cons (h : Parts tail) (hc : isMarkupBlank c = false) (r : List Char) :
    tail ≠ c :: r := by
  rintro rfl
  rw [h c rfl] at hc
  cases hc

namespace Token

variable {t : Token}

/-! ## Runs of characters -/

/-- A run ends at a character that does not belong to it. -/
theorem run_append {p : Char → Bool} (hstop : ∀ c ∈ tail.head?, p c = false) (r : List Char) :
    (r.takeWhile p ++ tail).takeWhile p = r.takeWhile p ∧
      (r.takeWhile p ++ tail).dropWhile p = tail := by
  have hrun : ∀ c ∈ r.takeWhile p, p c = true := fun c => List.mem_takeWhile_imp
  rw [List.takeWhile_append_of_pos hrun, List.dropWhile_append_of_pos hrun]
  cases tail with
  | nil => exact ⟨List.append_nil _, rfl⟩
  | cons c tail =>
    have hc : p c = false := hstop c rfl
    simp [hc]

theorem isDigit_blank (h : isMarkupBlank c = true) : Number.isDigit c = false := by
  simp only [isMarkupBlank, Bool.or_eq_true, beq_iff_eq] at h
  rcases h with ((rfl | rfl) | rfl) | rfl <;> rfl

theorem continuesName_blank (h : isMarkupBlank c = true) : continuesName c = false := by
  simp only [isMarkupBlank, Bool.or_eq_true, beq_iff_eq] at h
  rcases h with ((rfl | rfl) | rfl) | rfl <;> decide

/-! ## First characters -/

/-- The characters that an operator or a quoted literal starts with. -/
def marks : List Char :=
  ['/', ':', '!', '<', '>', '.', '@', '(', ')', '[', ']', ',', '|', '+', '-', '=', '*', '"', '\'']

theorem not_mem_marks {p : Char → Bool} (hp : marks.any p = false) (h : p c = true) :
    c ∉ marks := by
  intro hc
  rw [List.any_eq_true.2 ⟨c, hc, h⟩] at hp
  cases hp

theorem isDigit_of_startsName (h : startsName c = true) : Number.isDigit c = false := by
  by_contra hdigit
  obtain ⟨hlow, hhigh⟩ : '0' ≤ c ∧ c ≤ '9' := by simpa [Number.isDigit] using hdigit
  rw [Char.le_def, UInt32.le_iff_toNat_le] at hlow hhigh
  have hhigh : c.toNat ≤ 57 := hhigh
  have hascii : c.toNat < 0x80 := Nat.lt_of_le_of_lt hhigh (by decide)
  simp only [startsName, isAlphabetic, if_pos hascii, Bool.or_eq_true, beq_iff_eq] at h
  rcases h with hletter | rfl
  · have hupper : 65 ≤ c.toNat := by
      rcases Bool.or_eq_true_iff.1 hletter with h | h
      · exact UInt32.le_iff_toNat_le.1 (of_decide_eq_true h).1
      · have hlower : 97 ≤ c.toNat :=
          UInt32.le_iff_toNat_le.1 (of_decide_eq_true (Bool.and_eq_true_iff.1 h).1)
        exact Nat.le_trans (by decide) hlower
    omega
  · exact absurd hhigh (by decide)

/-- Behind a character that starts no operator and no literal, only the readers of
numbers and names are left. -/
theorem read?_of_not_mem (h : c ∉ marks) (r : List Char) :
    read? (c :: r) = (number? (c :: r) <|> name? (c :: r)) := by
  have hoperator : operator? (c :: r) = none := by
    unfold operator?
    split
    all_goals first
    | rfl
    | rename_i heq
      obtain ⟨rfl, -⟩ := List.cons.inj heq
      exact absurd (by decide) h
  have hliteral : literal? (c :: r) = none := by
    simp only [marks, List.mem_cons, not_or] at h
    rw [literal?, if_neg (by tauto)]
  have hdot : dot? (c :: r) = none := by
    unfold dot?
    split
    case h_1 heq =>
      obtain ⟨rfl, -⟩ := List.cons.inj heq
      exact absurd (by decide) h
    case h_2 => rfl
  simp [read?, hoperator, hliteral, hdot]

theorem number?_of_startsName (h : startsName c = true) (r : List Char) :
    number? (c :: r) = none := by
  have hpoint : c ≠ '.' := by
    rintro rfl
    exact absurd h (by decide)
  simp [number?, isDigit_of_startsName h, hpoint]

theorem read?_of_startsName (h : startsName c = true) (r : List Char) :
    read? (c :: r) = name? (c :: r) := by
  rw [read?_of_not_mem (not_mem_marks rfl h), number?_of_startsName h]
  rfl

/-! ## One reader after the other -/

/-- The text that `t` is read from, up to `rest`, is read as `t` wherever it is
parted from what follows. -/
def ReadsApart (cs : List Char) (t : Token) (rest : List Char) : Prop :=
  ∃ text, cs = text ++ rest ∧ ∀ tail, Parts tail → read? (text ++ tail) = some (t, tail)

theorem operator?_parts (h : operator? cs = some (t, rest)) : ReadsApart cs t rest := by
  suffices ∃ text, cs = text ++ rest ∧
      ∀ tail, Parts tail → operator? (text ++ tail) = some (t, tail) by
    obtain ⟨text, hcs, hread⟩ := this
    exact ⟨text, hcs, fun tail htail => by rw [read?, hread tail htail]; rfl⟩
  unfold operator? at h
  split at h <;> simp only [Option.some.injEq, Prod.mk.injEq, reduceCtorEq] at h
  all_goals
    obtain ⟨rfl, rfl⟩ := h
    first
    | exact ⟨[_, _], rfl, fun _ _ => rfl⟩
    | refine ⟨[_], rfl, fun tail htail => ?_⟩
      cases tail with
      | nil => rfl
      | cons b tail => rcases htail.blank_cons with rfl | rfl | rfl | rfl <;> rfl

theorem read?_of_quote {quote : Char} (hquote : quote = '"' ∨ quote = '\'') (r : List Char) :
    read? (quote :: (r.takeWhile (· != quote) ++ quote :: tail)) =
      some (.literal (String.ofList (r.takeWhile (· != quote))), tail) := by
  have hstop : ∀ c ∈ (quote :: tail).head?, (c != quote) = false := by simp
  obtain ⟨htake, hdrop⟩ := run_append hstop r
  have hliteral : literal? (quote :: (r.takeWhile (· != quote) ++ quote :: tail)) =
      some (.literal (String.ofList (r.takeWhile (· != quote))), tail) := by
    rw [literal?, if_pos hquote, htake, hdrop]
  have hoperator : operator? (quote :: (r.takeWhile (· != quote) ++ quote :: tail)) = none := by
    rcases hquote with rfl | rfl <;> rfl
  rw [read?, hoperator, hliteral]
  rfl

theorem literal?_parts (h : literal? cs = some (t, rest)) : ReadsApart cs t rest := by
  cases cs with
  | nil => cases h
  | cons quote r =>
    rw [literal?] at h
    split at h
    case isFalse => cases h
    case isTrue hquote =>
      split at h
      case h_1 => cases h
      case h_2 q after hafter =>
        cases h
        have hq : q = quote := by
          have hhead := List.head?_dropWhile_not (· != quote) r
          simpa [hafter] using hhead
        subst hq
        refine ⟨q :: (r.takeWhile (· != q) ++ [q]), ?_, fun tail _ => ?_⟩
        · rw [List.cons_append, List.append_assoc, List.singleton_append, ← hafter,
            List.takeWhile_append_dropWhile]
        · rw [List.cons_append, List.append_assoc, List.singleton_append]
          exact read?_of_quote hquote r

theorem read?_of_isDigit (h : Number.isDigit c = true) {r : List Char}
    (hread : number? (c :: r) = some (t, rest)) : read? (c :: r) = some (t, rest) := by
  rw [read?_of_not_mem (not_mem_marks rfl h), hread]
  rfl

theorem read?_of_point {whole : List Char} (h : Number.isDigit c = true)
    (hwhole : rest.takeWhile Number.isDigit = whole) {after : List Char}
    (hpoint : rest.dropWhile Number.isDigit = '.' :: after) :
    read? (c :: rest) = some (numberToken (c :: whole) (after.takeWhile Number.isDigit),
      after.dropWhile Number.isDigit) := by
  refine read?_of_isDigit h ?_
  simp only [number?, h, if_true, hwhole, hpoint]

theorem read?_of_whole {whole : List Char} (h : Number.isDigit c = true)
    (hwhole : rest.takeWhile Number.isDigit = whole) (hafter : rest.dropWhile Number.isDigit = tail)
    (hpoint : ∀ after, tail ≠ '.' :: after) :
    read? (c :: rest) = some (numberToken (c :: whole) [], tail) := by
  refine read?_of_isDigit h ?_
  simp only [number?, h, if_true, hwhole, hafter]

theorem read?_of_fraction (h : Number.isDigit c = true) :
    read? ('.' :: c :: rest) = some (numberToken [] (c :: rest.takeWhile Number.isDigit),
      rest.dropWhile Number.isDigit) := by
  have hc : c ≠ '.' := by
    rintro rfl
    exact absurd h (by decide)
  have hoperator : operator? ('.' :: c :: rest) = none := by
    unfold operator?
    split
    all_goals first
    | rfl
    | rename_i heq
      cases heq <;> exact absurd rfl hc
  have hnumber : number? ('.' :: c :: rest) =
      some (numberToken [] (c :: rest.takeWhile Number.isDigit), rest.dropWhile Number.isDigit) := by
    have hpoint : Number.isDigit '.' = false := by decide
    simp [number?, h, hpoint]
  rw [read?, hoperator, hnumber]
  rfl

theorem point_parts {r after : List Char} (h : Number.isDigit c = true)
    (hafter : r.dropWhile Number.isDigit = '.' :: after) :
    ReadsApart (c :: r) (numberToken (c :: r.takeWhile Number.isDigit)
      (after.takeWhile Number.isDigit)) (after.dropWhile Number.isDigit) := by
  refine ⟨c :: (r.takeWhile Number.isDigit ++ '.' :: after.takeWhile Number.isDigit), ?_,
    fun tail htail => ?_⟩
  · rw [List.cons_append, List.append_assoc, List.cons_append, List.takeWhile_append_dropWhile,
      ← hafter, List.takeWhile_append_dropWhile]
  · have hpoint : ∀ d ∈ ('.' :: (after.takeWhile Number.isDigit ++ tail)).head?,
        Number.isDigit d = false := by
      rintro d ⟨⟩
      decide
    obtain ⟨hwhole, hback⟩ := run_append hpoint r
    obtain ⟨hfraction, hend⟩ := run_append (fun d hd => isDigit_blank (htail d hd)) after
    rw [List.cons_append, List.append_assoc, List.cons_append, read?_of_point h hwhole hback,
      hfraction, hend]

theorem whole_parts (h : Number.isDigit c = true) (r : List Char) :
    ReadsApart (c :: r) (numberToken (c :: r.takeWhile Number.isDigit) [])
      (r.dropWhile Number.isDigit) := by
  refine ⟨c :: r.takeWhile Number.isDigit, ?_, fun tail htail => ?_⟩
  · rw [List.cons_append, List.takeWhile_append_dropWhile]
  · obtain ⟨hwhole, hback⟩ := run_append (fun d hd => isDigit_blank (htail d hd)) r
    exact read?_of_whole h hwhole hback (htail.ne_cons rfl)

theorem fraction_parts (h : Number.isDigit c = true) (r : List Char) :
    ReadsApart ('.' :: c :: r) (numberToken [] (c :: r.takeWhile Number.isDigit))
      (r.dropWhile Number.isDigit) := by
  refine ⟨'.' :: c :: r.takeWhile Number.isDigit, ?_, fun tail htail => ?_⟩
  · rw [List.cons_append, List.cons_append, List.takeWhile_append_dropWhile]
  · obtain ⟨hfraction, hend⟩ := run_append (fun d hd => isDigit_blank (htail d hd)) r
    rw [List.cons_append, List.cons_append, read?_of_fraction h, hfraction, hend]

theorem number?_parts (h : number? cs = some (t, rest)) : ReadsApart cs t rest := by
  unfold number? at h
  split at h
  case h_1 => cases h
  case h_2 c r =>
    split at h
    case isTrue hc =>
      dsimp only at h
      split at h
      case h_1 after hafter =>
        cases h
        exact point_parts hc hafter
      case h_2 =>
        cases h
        exact whole_parts hc r
    case isFalse =>
      split at h
      case isFalse => cases h
      case isTrue hpoint =>
        subst hpoint
        split at h
        case h_2 => cases h
        case h_1 d r =>
          split at h
          case isFalse => cases h
          case isTrue hd =>
            rw [List.takeWhile_cons_of_pos hd, List.dropWhile_cons_of_pos hd] at h
            cases h
            exact fraction_parts hd r

theorem dot?_parts (h : dot? cs = some (t, rest)) : ReadsApart cs t rest := by
  unfold dot? at h
  split at h
  case h_2 => cases h
  case h_1 r =>
    cases h
    refine ⟨['.'], rfl, fun tail htail => ?_⟩
    cases tail with
    | nil => rfl
    | cons b tail => rcases htail.blank_cons with rfl | rfl | rfl | rfl <;> rfl

theorem ncName?_append {first : List Char} (h : ncName? cs = some (first, rest)) :
    cs = first ++ rest ∧ (∃ c r, first = c :: r ∧ startsName c = true) ∧
      ∀ tail, (∀ c ∈ tail.head?, continuesName c = false) →
        ncName? (first ++ tail) = some (first, tail) := by
  cases cs with
  | nil => cases h
  | cons c r =>
    rw [ncName?] at h
    split at h
    case isFalse => cases h
    case isTrue hc =>
      cases h
      refine ⟨?_, ⟨c, _, rfl, hc⟩, fun tail htail => ?_⟩
      · rw [List.cons_append, List.takeWhile_append_dropWhile]
      · obtain ⟨htake, hdrop⟩ := run_append htail r
        rw [List.cons_append, ncName?, if_pos hc, htake, hdrop]

theorem name?_wildcard {first : List Char} (h : ncName? cs = some (first, ':' :: '*' :: rest)) :
    name? cs = some (.anyWithPrefix (String.ofList first), rest) := by
  simp only [name?, h]

theorem name?_prefixed {first second more : List Char} (h : ncName? cs = some (first, ':' :: more))
    (hmore : ncName? more = some (second, rest)) :
    name? cs = some (.name (String.ofList (first ++ ':' :: second)), rest) := by
  obtain ⟨rfl, ⟨c, r, rfl, hc⟩, -⟩ := ncName?_append hmore
  have hstar : c ≠ '*' := by
    rintro rfl
    exact absurd hc (by decide)
  rw [name?, h]
  simp only [List.cons_append] at hmore ⊢
  split
  case h_1 heq => exact absurd (List.cons.inj (List.cons.inj heq).2).1 hstar
  case h_2 heq => cases heq; rw [hmore]
  case h_3 hno => exact absurd rfl (hno _)

theorem name?_plain {first : List Char} (h : ncName? cs = some (first, rest))
    (hcolon : ∀ more, rest ≠ ':' :: more) : name? cs = some (.name (String.ofList first), rest) := by
  rw [name?, h]
  dsimp only
  split
  case h_1 => exact absurd rfl (hcolon _)
  case h_2 => exact absurd rfl (hcolon _)
  case h_3 => rfl

theorem name?_parts (h : name? cs = some (t, rest)) : ReadsApart cs t rest := by
  unfold name? at h
  split at h
  case h_1 => cases h
  case h_2 first back hfirst =>
    obtain ⟨rfl, ⟨c, r, rfl, hc⟩, hagain⟩ := ncName?_append hfirst
    have hcolon : ∀ more, ncName? (c :: r ++ ':' :: more) = some (c :: r, ':' :: more) :=
      fun more => hagain _ (by rintro d ⟨⟩; decide)
    have hplain : ∀ tail, Parts tail →
        read? (c :: r ++ tail) = some (.name (String.ofList (c :: r)), tail) := fun tail htail =>
      (read?_of_startsName hc _).trans (name?_plain
        (hagain tail fun d hd => continuesName_blank (htail d hd)) (htail.ne_cons rfl))
    split at h
    case h_1 after =>
      cases h
      refine ⟨c :: r ++ [':', '*'], by simp, fun tail _ => ?_⟩
      rw [List.append_assoc]
      exact (read?_of_startsName hc _).trans (name?_wildcard (hcolon _))
    case h_2 more _ =>
      split at h
      case h_1 second after hsecond =>
        cases h
        obtain ⟨rfl, -, hagain'⟩ := ncName?_append hsecond
        refine ⟨c :: r ++ ':' :: second, by simp, fun tail htail => ?_⟩
        have hrest := hagain' tail fun d hd => continuesName_blank (htail d hd)
        rw [List.append_assoc]
        exact (read?_of_startsName hc _).trans (name?_prefixed (hcolon _) hrest)
      case h_2 =>
        cases h
        exact ⟨c :: r, rfl, hplain⟩
    case h_3 =>
      cases h
      exact ⟨c :: r, rfl, hplain⟩

/-- What a token took is read as that token again wherever a blank or the end
follows it. -/
theorem read?_parts (h : read? cs = some (t, rest)) : ReadsApart cs t rest := by
  simp only [read?, Option.orElse_eq_orElse, Option.orElse_eq_or, Option.or_eq_some_iff] at h
  rcases h with h | ⟨-, h | ⟨-, h | ⟨-, h | ⟨-, h⟩⟩⟩⟩
  · exact operator?_parts h
  · exact literal?_parts h
  · exact number?_parts h
  · exact dot?_parts h
  · exact name?_parts h

theorem read?_of_blank (h : isMarkupBlank c = true) (r : List Char) : read? (c :: r) = none := by
  simp only [isMarkupBlank, Bool.or_eq_true, beq_iff_eq] at h
  rcases h with ((rfl | rfl) | rfl) | rfl <;> rfl

/-! ## Cutting -/

theorem tokensFrom_blank {gap : List Char} (hgap : Blank gap) (offset : Nat) (cs : List Char) :
    tokensFrom offset (gap ++ cs) = tokensFrom (offset + byteSize gap) cs := by
  induction gap generalizing offset with
  | nil => rfl
  | cons c gap ih =>
    have hc : isMarkupBlank c = true := hgap c List.mem_cons_self
    rw [List.cons_append, tokensFrom, if_pos hc, ih fun d hd => hgap d (List.mem_cons_of_mem _ hd),
      byteSize, Nat.add_assoc]

theorem tokensFrom_of_read {text : List Char} (h : read? (text ++ rest) = some (t, rest))
    (offset : Nat) : tokensFrom offset (text ++ rest) =
      (tokensFrom (offset + byteSize text) rest).map (⟨t, text, offset⟩ :: ·) := by
  have hlength := length_of_read? h
  cases text with
  | nil => exact absurd hlength (Nat.lt_irrefl _)
  | cons c text =>
    have hc : ¬ isMarkupBlank c = true := by
      intro hc
      rw [List.cons_append, read?_of_blank hc] at h
      cases h
    have htake : (c :: (text ++ rest)).take ((c :: (text ++ rest)).length - rest.length) =
        c :: text := by
      rw [← List.cons_append, List.length_append, Nat.add_sub_cancel_right, List.take_left]
    rw [List.cons_append, tokensFrom, if_neg hc]
    rw [List.cons_append] at h
    split
    case h_1 hnone =>
      rw [h] at hnone
      cases hnone
    case h_2 t' rest' hsome =>
      rw [h] at hsome
      cases hsome
      dsimp only
      rw [htake]

end Token

open Token

/-- The text from byte `offset` is the texts of the tokens, each read in front of
what follows it, with blanks in front of them and behind the last one. -/
inductive Laid : Nat → List Char → List Lexeme → Prop
  | blank {offset : Nat} {gap : List Char} (hgap : Blank gap) : Laid offset gap []
  | token {offset : Nat} {gap text rest : List Char} {t : Token} {ls : List Lexeme}
      (hgap : Blank gap) (hread : read? (text ++ rest) = some (t, rest))
      (hrest : Laid (offset + byteSize gap + byteSize text) rest ls) :
      Laid offset (gap ++ (text ++ rest)) (⟨t, text, offset + byteSize gap⟩ :: ls)

variable {offset : Nat} {ls : List Lexeme}

theorem Laid.tokensFrom (h : Laid offset cs ls) : tokensFrom offset cs = .ok ls := by
  induction h with
  | @blank offset gap hgap =>
    have hblank := tokensFrom_blank hgap offset []
    rwa [List.append_nil, Token.tokensFrom] at hblank
  | token hgap hread _ ih =>
    rw [tokensFrom_blank hgap, tokensFrom_of_read hread, ih]
    rfl

/-- A blank in front. -/
theorem Laid.cons_blank (hc : isMarkupBlank c = true) (h : Laid (offset + c.utf8Size) cs ls) :
    Laid offset (c :: cs) ls := by
  have hcons : ∀ {gap : List Char}, Blank gap → Blank (c :: gap) := fun hgap =>
    List.forall_mem_cons.2 ⟨hc, hgap⟩
  cases h with
  | blank hgap => exact .blank (hcons hgap)
  | @token _ gap text rest t ls hgap hread hrest =>
    have hsize : offset + c.utf8Size + byteSize gap = offset + byteSize (c :: gap) :=
      Nat.add_assoc _ _ _
    rw [hsize] at hrest ⊢
    exact .token (hcons hgap) hread hrest

theorem laid_of_tokensFrom (h : tokensFrom offset cs = .ok ls) : Laid offset cs ls := by
  fun_induction Token.tokensFrom offset cs generalizing ls with
  | case1 offset =>
    cases h
    exact .blank (by simp [Blank])
  | case2 offset c r hc ih => exact (ih h).cons_blank hc
  | case3 => cases h
  | case4 offset c r hc t rest hread _ text =>
    rename_i ih
    obtain ⟨front, hcs, -⟩ := read?_parts hread
    have htext : text = front := by
      simp only [text, hcs, List.length_append, Nat.add_sub_cancel_right, List.take_left]
    obtain ⟨ls', hrest, rfl⟩ := Outcome.map_eq_ok.1 h
    rw [htext] at ih hrest ⊢
    rw [hcs] at hread ⊢
    have hnone : Blank [] := by simp [Blank]
    exact .token hnone hread (ih hrest)

/-- Tokenizing gives the tokens that the expression lays out. -/
theorem tokenize_eq_ok_iff {expression : String} :
    tokenize expression = .ok ls ↔ Laid 0 expression.toList ls := by
  constructor
  · intro h
    exact laid_of_tokensFrom (Outcome.mapError_eq_ok.1 h)
  · intro h
    rw [tokenize, h.tokensFrom]
    rfl

/-! ## Where the tokens stand -/

/-- The tokens stand one after the other in the text from byte `offset`, and what
is not in one of them is a blank. -/
structure Spans (offset : Nat) (cs : List Char) (ls : List Lexeme) : Prop where
  nonempty : ∀ l ∈ ls, l.text ≠ []
  apart : ls.Pairwise fun a b => a.offset + byteSize a.text ≤ b.offset
  inPlace : ∀ l ∈ ls, ∃ before after,
    cs = before ++ (l.text ++ after) ∧ l.offset = offset + byteSize before
  between : ∀ before c after, cs = before ++ c :: after → isMarkupBlank c = true ∨
    ∃ l ∈ ls, l.offset ≤ offset + byteSize before ∧
      offset + byteSize before + c.utf8Size ≤ l.offset + byteSize l.text

/-- A character of two texts in a row is in the first one or in the second. -/
theorem front_or_back {xs ys before after : List Char} (h : xs ++ ys = before ++ c :: after) :
    (∃ mid, xs = before ++ c :: mid) ∨ ∃ mid, before = xs ++ mid ∧ ys = mid ++ c :: after := by
  rcases List.append_eq_append_iff.1 h with ⟨mid, rfl, hys⟩ | ⟨mid, rfl, hmid⟩
  · exact .inr ⟨mid, rfl, hys⟩
  · cases mid with
    | nil => exact .inr ⟨[], by simp, by simpa using hmid.symm⟩
    | cons d mid =>
      obtain ⟨rfl, -⟩ := List.cons.inj hmid
      exact .inl ⟨mid, rfl⟩

theorem Laid.spans (h : Laid offset cs ls) : Spans offset cs ls := by
  induction h with
  | @blank offset gap hgap =>
    refine ⟨by simp, .nil, by simp, fun before c after hcs => .inl ?_⟩
    exact hgap c (hcs ▸ List.mem_append_right _ List.mem_cons_self)
  | @token offset gap text rest t ls hgap hread hrest ih =>
    constructor
    · refine List.forall_mem_cons.2 ⟨?_, ih.nonempty⟩
      rintro rfl
      exact Nat.lt_irrefl _ (length_of_read? hread)
    · refine List.pairwise_cons.2 ⟨fun l hl => ?_, ih.apart⟩
      obtain ⟨before, after, -, hoffset⟩ := ih.inPlace l hl
      rw [hoffset]
      exact Nat.le_add_right _ _
    · refine List.forall_mem_cons.2 ⟨⟨gap, rest, rfl, rfl⟩, fun l hl => ?_⟩
      obtain ⟨before, after, rfl, hoffset⟩ := ih.inPlace l hl
      refine ⟨gap ++ (text ++ before), after, by simp, ?_⟩
      rw [hoffset, byteSize_append, byteSize_append]
      omega
    · intro before c after hcs
      rcases front_or_back hcs with ⟨mid, rfl⟩ | ⟨back, rfl, hback⟩
      · exact .inl (hgap c (List.mem_append_right _ List.mem_cons_self))
      rcases front_or_back hback with ⟨mid, rfl⟩ | ⟨far, rfl, hfar⟩
      · refine .inr ⟨_, List.mem_cons_self, ?_⟩
        simp only [byteSize_append, byteSize]
        omega
      · refine (ih.between far c after hfar).imp id ?_
        rintro ⟨l, hl, hstart, hend⟩
        refine ⟨l, List.mem_cons_of_mem _ hl, ?_⟩
        simp only [byteSize_append]
        omega

/-! ## Other blanks -/

/-- The texts, with `gaps i` in front of the one with the number `i` and
`gaps texts.length` behind the last. -/
def spaced (gaps : Nat → List Char) : List (List Char) → List Char
  | [] => gaps 0
  | text :: texts => gaps 0 ++ (text ++ spaced (fun i => gaps (i + 1)) texts)

variable {gaps : Nat → List Char}

theorem parts_spaced (hblank : Blank (gaps 0)) {texts : List (List Char)}
    (hgap : texts ≠ [] → gaps 0 ≠ []) : Parts (spaced gaps texts) := by
  cases texts with
  | nil => exact fun c hc => hblank c (List.mem_of_mem_head? hc)
  | cons text texts =>
    intro c hc
    rw [spaced, List.head?_append_of_ne_nil _ (hgap (List.cons_ne_nil _ _))] at hc
    exact hblank c (List.mem_of_mem_head? hc)

/-- With other blanks between them the texts are cut into the same tokens. -/
theorem Laid.respaced (h : Laid offset cs ls) (hblank : ∀ i, Blank (gaps i))
    (hgaps : ∀ i, 0 < i → i < ls.length → gaps i ≠ []) (offset' : Nat) :
    ∃ ls', Laid offset' (spaced gaps (ls.map (·.text))) ls' ∧
      Grammar.tokensOf ls' = Grammar.tokensOf ls ∧ ls'.map (·.text) = ls.map (·.text) := by
  induction h generalizing gaps offset' with
  | blank => exact ⟨[], .blank (hblank 0), rfl, rfl⟩
  | @token offset gap text rest t ls hgap hread hrest ih =>
    obtain ⟨front, hfront, hagain⟩ := read?_parts hread
    obtain rfl := List.append_cancel_right hfront
    have hparts : Parts (spaced (fun i => gaps (i + 1)) (ls.map (·.text))) := by
      refine parts_spaced (hblank 1) fun hne => hgaps 1 Nat.one_pos ?_
      have hpos := List.length_pos_iff.2 hne
      rw [List.length_map] at hpos
      exact Nat.succ_lt_succ hpos
    have hlater : ∀ i, 0 < i → i < ls.length → gaps (i + 1) ≠ [] := fun i _ hi =>
      hgaps (i + 1) (Nat.succ_pos i) (Nat.succ_lt_succ hi)
    obtain ⟨ls', hlaid, htokens, htexts⟩ := ih (fun i => hblank (i + 1)) hlater
      (offset' + byteSize (gaps 0) + byteSize text)
    exact ⟨_, .token (hblank 0) (hagain _ hparts) hlaid, congrArg (t :: ·) htokens,
      congrArg (text :: ·) htexts⟩

/-! ## Expressions -/

/-- What is read from tokens does not depend on where they stand. -/
theorem Grammar.expression_of_tokens {ls' : List Lexeme} {e : Expr}
    (he : expression ls = .ok e) (h : tokensOf ls = tokensOf ls') : expression ls' = .ok e := by
  obtain ⟨d, rfl⟩ := derivation_of_expression he
  exact expression_of_derivation ⟨d.tree, d.tokens.trans h, d.fits⟩

theorem parse_eq_ok_iff {expression : String} (h : tokenize expression = .ok ls) (e : Expr) :
    Expr.parse expression = .ok e ↔ Grammar.expression ls = .ok e := by
  rw [Expr.parse, h]
  exact Outcome.mapError_eq_ok

/-- The tokens of an expression stand one after the other with only blanks
between them, and with any other blanks between them they are the same tokens of
the same expression. -/
theorem tokenize_respaced {expression : String} (h : tokenize expression = .ok ls) :
    Spans 0 expression.toList ls ∧
      ∀ gaps : Nat → List Char, (∀ i, Blank (gaps i)) →
        (∀ i, 0 < i → i < ls.length → gaps i ≠ []) →
          ∃ ls', tokenize (String.ofList (spaced gaps (ls.map (·.text)))) = .ok ls' ∧
            Grammar.tokensOf ls' = Grammar.tokensOf ls ∧ ∀ e,
              Expr.parse (String.ofList (spaced gaps (ls.map (·.text)))) = .ok e ↔
                Expr.parse expression = .ok e := by
  have hlaid := tokenize_eq_ok_iff.1 h
  refine ⟨hlaid.spans, fun gaps hblank hgaps => ?_⟩
  obtain ⟨ls', hlaid', htokens, -⟩ := hlaid.respaced hblank hgaps 0
  rw [← String.toList_ofList (l := spaced gaps _)] at hlaid'
  have h' := tokenize_eq_ok_iff.2 hlaid'
  refine ⟨ls', h', htokens, fun e => ?_⟩
  rw [parse_eq_ok_iff h, parse_eq_ok_iff h']
  exact ⟨fun he => Grammar.expression_of_tokens he htokens,
    fun he => Grammar.expression_of_tokens he htokens.symm⟩

/-- A path with a prefix, an axis, a number and dots. -/
theorem tokenize_respaced_steps :
    ∃ ls, tokenize "child::p:*[.5]/../a-b" = .ok ls ∧
      Spans 0 "child::p:*[.5]/../a-b".toList ls ∧
      ∃ ls', tokenize "child :: p:* [ .5 ] / .. / a-b " = .ok ls' ∧
        Grammar.tokensOf ls' = Grammar.tokensOf ls ∧ ∀ e,
          Expr.parse "child :: p:* [ .5 ] / .. / a-b " = .ok e ↔
            Expr.parse "child::p:*[.5]/../a-b" = .ok e := by
  have hrun : ((tokenize "child::p:*[.5]/../a-b").toOption.any fun ls =>
      decide (ls.map (String.ofList ·.text) =
        ["child", "::", "p:*", "[", ".5", "]", "/", "..", "/", "a-b"])) = true := by
    decide +kernel
  obtain ⟨ls, hls, htexts⟩ := (Option.any_eq_true _ _).1 hrun
  have htexts : ls.map (·.text) = ["child", "::", "p:*", "[", ".5", "]", "/", "..", "/",
      "a-b"].map String.toList := by
    rw [← of_decide_eq_true htexts, List.map_map]
    simp
  have hls := Outcome.toOption_eq_some.1 hls
  obtain ⟨hspans, hrespaced⟩ := tokenize_respaced hls
  refine ⟨ls, hls, hspans, ?_⟩
  have hjoined := hrespaced (fun i => if i = 0 then [] else [' '])
    (fun i => by split <;> simp [Blank, isMarkupBlank])
    (fun i hi _ => by simp [Nat.ne_of_gt hi])
  rw [htexts] at hjoined
  exact hjoined

end LabelTemplate.XPath
