import LabelTemplate.Error
import LabelTemplate.Text.Letter

/-!
# Tokens of expressions

`tokenize` cuts an expression into tokens.  Blanks separate tokens and are
otherwise skipped; a token is the first of these that fits: an operator, a
quoted literal, a number, a dot, a name.  The words `and`, `or`, `div` and
`mod` are names here; only the grammar knows where they are operators.
-/

namespace LabelTemplate.XPath

inductive Token where
  | slash
  | doubleSlash
  | dot
  | doubleDot
  | at_
  | doubleColon
  | leftParen
  | rightParen
  | leftBracket
  | rightBracket
  | comma
  | pipe
  | plus
  | minus
  | equal
  | notEqual
  | less
  | lessEqual
  | greater
  | greaterEqual
  | star
  | literal (s : String)
  | number (x : Float)
  /-- A name, possibly with a prefix and a colon. -/
  | name (s : String)
  /-- A prefix followed by a colon and a star. -/
  | anyWithPrefix (pfx : String)
  deriving Repr

/-- A token as written, with its byte offset. -/
structure Lexeme where
  token : Token
  text : List Char
  offset : Nat
  deriving Repr

namespace Token

/-- Splits off an operator; of two that fit the longer one counts. -/
def operator? : List Char → Option (Token × List Char)
  | '/' :: '/' :: r => some (doubleSlash, r)
  | '/' :: r => some (slash, r)
  | ':' :: ':' :: r => some (doubleColon, r)
  | '!' :: '=' :: r => some (notEqual, r)
  | '<' :: '=' :: r => some (lessEqual, r)
  | '>' :: '=' :: r => some (greaterEqual, r)
  | '.' :: '.' :: r => some (doubleDot, r)
  | '@' :: r => some (at_, r)
  | '(' :: r => some (leftParen, r)
  | ')' :: r => some (rightParen, r)
  | '[' :: r => some (leftBracket, r)
  | ']' :: r => some (rightBracket, r)
  | ',' :: r => some (comma, r)
  | '|' :: r => some (pipe, r)
  | '+' :: r => some (plus, r)
  | '-' :: r => some (minus, r)
  | '=' :: r => some (equal, r)
  | '<' :: r => some (less, r)
  | '>' :: r => some (greater, r)
  | '*' :: r => some (star, r)
  | _ => none

/-- Splits off a text in double or single quotes. -/
def literal? : List Char → Option (Token × List Char)
  | [] => none
  | quote :: r =>
    if quote = '"' ∨ quote = '\'' then
      match r.dropWhile (· != quote) with
      | [] => none
      | _ :: after => some (literal (String.ofList (r.takeWhile (· != quote))), after)
    else none

def numberToken (whole fraction : List Char) : Token :=
  number (Number.ofDecimal false (Number.digitsValue (whole ++ fraction))
    (-(fraction.length : Int)))

/-- Splits off digits with an optional point; a point in front needs a digit
after it. -/
def number? (cs : List Char) : Option (Token × List Char) :=
  match cs with
  | [] => none
  | c :: r =>
    if Number.isDigit c then
      let whole := c :: r.takeWhile Number.isDigit
      match r.dropWhile Number.isDigit with
      | '.' :: after =>
        some (numberToken whole (after.takeWhile Number.isDigit), after.dropWhile Number.isDigit)
      | after => some (numberToken whole [], after)
    else if c = '.' then
      match r with
      | d :: _ =>
        if Number.isDigit d then
          some (numberToken [] (r.takeWhile Number.isDigit), r.dropWhile Number.isDigit)
        else none
      | [] => none
    else none

def startsName (c : Char) : Bool := isAlphabetic c || c == '_'

def continuesName (c : Char) : Bool :=
  isAlphanumeric c || c == '_' || c == '-' || c == '.'

/-- Splits off a name without colons. -/
def ncName? : List Char → Option (List Char × List Char)
  | [] => none
  | c :: r =>
    if startsName c then some (c :: r.takeWhile continuesName, r.dropWhile continuesName)
    else none

/-- Splits off a name with its prefix, if a name or a star follows the
colon. -/
def name? (cs : List Char) : Option (Token × List Char) :=
  match ncName? cs with
  | none => none
  | some (first, rest) =>
    match rest with
    | ':' :: '*' :: after => some (anyWithPrefix (String.ofList first), after)
    | ':' :: more =>
      match ncName? more with
      | some (second, after) => some (name (String.ofList (first ++ ':' :: second)), after)
      | none => some (name (String.ofList first), rest)
    | _ => some (name (String.ofList first), rest)

def dot? : List Char → Option (Token × List Char)
  | '.' :: r => some (dot, r)
  | _ => none

/-- Splits off the first token of a text that does not start with a blank. -/
def read? (cs : List Char) : Option (Token × List Char) :=
  operator? cs <|> literal? cs <|> number? cs <|> dot? cs <|> name? cs

theorem length_of_ncName? {cs first rest : List Char} (h : ncName? cs = some (first, rest)) :
    rest.length < cs.length := by
  cases cs with
  | nil => simp [ncName?] at h
  | cons c r =>
    have := (List.dropWhile_sublist continuesName (l := r)).length_le
    simp only [ncName?] at h
    split at h
    · simp only [Option.some.injEq, Prod.mk.injEq] at h
      simp only [List.length_cons, ← h.2]
      omega
    · simp at h

theorem length_of_operator? {cs rest : List Char} {t : Token}
    (h : operator? cs = some (t, rest)) : rest.length < cs.length := by
  unfold operator? at h
  split at h <;> simp only [Option.some.injEq, Prod.mk.injEq, reduceCtorEq] at h
  all_goals
    obtain ⟨-, rfl⟩ := h
    grind

theorem length_of_literal? {cs rest : List Char} {t : Token}
    (h : literal? cs = some (t, rest)) : rest.length < cs.length := by
  unfold literal? at h
  split at h
  · simp at h
  · rename_i quote r
    have := (List.dropWhile_sublist (· != quote) (l := r)).length_le
    split at h
    · split at h
      · simp at h
      · rename_i heq
        rw [heq] at this
        simp only [Option.some.injEq, Prod.mk.injEq] at h
        simp only [List.length_cons, ← h.2] at this ⊢
        omega
    · simp at h

theorem length_of_number? {cs rest : List Char} {t : Token}
    (h : number? cs = some (t, rest)) : rest.length < cs.length := by
  unfold number? at h
  split at h
  · simp at h
  · rename_i c r
    have hr := (List.dropWhile_sublist Number.isDigit (l := r)).length_le
    split at h
    · split at h
      · rename_i after heq
        have ha := (List.dropWhile_sublist Number.isDigit (l := after)).length_le
        rw [heq] at hr
        simp only [Option.some.injEq, Prod.mk.injEq] at h
        simp only [List.length_cons, ← h.2] at hr ⊢
        omega
      · simp only [Option.some.injEq, Prod.mk.injEq] at h
        simp only [List.length_cons, ← h.2]
        omega
    · split at h
      · split at h
        · split at h
          · simp only [Option.some.injEq, Prod.mk.injEq] at h
            simp only [← h.2]
            simp only [List.length_cons] at hr ⊢
            omega
          · simp at h
        · simp at h
      · simp at h

theorem length_of_name? {cs rest : List Char} {t : Token}
    (h : name? cs = some (t, rest)) : rest.length < cs.length := by
  unfold name? at h
  split at h
  · simp at h
  · rename_i first r hfirst
    have h1 := length_of_ncName? hfirst
    split at h
    · simp only [Option.some.injEq, Prod.mk.injEq] at h
      simp only [List.length_cons, ← h.2] at h1 ⊢
      omega
    · split at h
      · rename_i hsecond
        have h2 := length_of_ncName? hsecond
        simp only [Option.some.injEq, Prod.mk.injEq] at h
        simp only [List.length_cons, ← h.2] at h1 ⊢
        omega
      · simp only [Option.some.injEq, Prod.mk.injEq] at h
        simp only [← h.2]
        exact h1
    · simp only [Option.some.injEq, Prod.mk.injEq] at h
      simp only [← h.2]
      exact h1

theorem length_of_read? {cs rest : List Char} {t : Token}
    (h : read? cs = some (t, rest)) : rest.length < cs.length := by
  simp only [read?, Option.orElse_eq_orElse, Option.orElse_eq_or, Option.or_eq_some_iff] at h
  rcases h with h | ⟨-, h | ⟨-, h | ⟨-, h | ⟨-, h⟩⟩⟩⟩
  · exact length_of_operator? h
  · exact length_of_literal? h
  · exact length_of_number? h
  · unfold dot? at h
    split at h <;> simp_all
  · exact length_of_name? h

/-- Cuts a text that starts at byte `offset` into tokens. -/
def tokensFrom (offset : Nat) (cs : List Char) : Except (Nat × SyntaxFault) (List Lexeme) :=
  match cs with
  | [] => .ok []
  | c :: r =>
    if isMarkupBlank c then tokensFrom (offset + c.utf8Size) r
    else
      match h : read? (c :: r) with
      | none =>
        .error (offset,
          if c = '"' ∨ c = '\'' then .unterminatedLiteral else .unexpectedCharacter c)
      | some (token, rest) =>
        have := length_of_read? h
        let text := (c :: r).take ((c :: r).length - rest.length)
        (tokensFrom (offset + Text.byteSize text) rest).map (⟨token, text, offset⟩ :: ·)
termination_by cs.length
decreasing_by all_goals simp_all

end Token

/-- Cuts an expression into tokens. -/
def tokenize (expression : String) : Except SyntaxError (List Lexeme) :=
  (Token.tokensFrom 0 expression.toList).mapError fun (offset, fault) =>
    ⟨expression, offset, fault⟩

end LabelTemplate.XPath
