import LabelTemplate.Proofs.Outcome
import LabelTemplate.Proofs.XPath.Derivation

/-!
# What is derived is read

The reader takes a derivation from the front of the tokens.

The fuel for it is sixteen for each token of the derivation and `reserve`,
the number of rules that the reader passes before it looks at one.  What
stands behind the derivation must hold it loosely enough: then no repetition
of the reader goes on beyond the end of the derivation (`Tree.ReadsBack`).
`Tree.reads` is an induction on the derivation with one case for each
production; those of paths and steps, where the reader looks ahead, are lemmas
of their own.
-/

namespace LabelTemplate.XPath.Grammar

open Outcome (bind_eq_ok)

/-! ## The reader, symbol by symbol -/

/-- Reading on a level, or below the tightest. -/
def phrase (fuel : Nat) : Option Level → List Lexeme → Except GrammarFault (Expr × List Lexeme)
  | some l, ts => level fuel l ts
  | none, ts => unary fuel ts

theorem level_succ (fuel : Nat) (l : Level) (ts : List Lexeme) :
    level (fuel + 1) l ts =
      phrase fuel l.next? ts >>= fun r => operands fuel l r.1 r.2 := by
  unfold level
  cases l <;> rfl

theorem operands_nil (fuel : Nat) (l : Level) (left : Expr) :
    operands (fuel + 1) l left [] = .ok (left, []) := by
  unfold operands
  rfl

theorem operands_cons (fuel : Nat) (l : Level) (left : Expr) (t : Lexeme) (ts : List Lexeme) :
    operands (fuel + 1) l left (t :: ts) =
      match l.operator? t.token with
      | none => .ok (left, t :: ts)
      | some join =>
        phrase fuel l.next? ts >>= fun r => operands fuel l (join left r.1) r.2 := by
  rw [operands]
  cases l.operator? t.token with
  | none => rfl
  | some join => cases l <;> rfl

/-- The tokens of a list as written. -/
abbrev tokensOf (ts : List Lexeme) : List Token := ts.map (·.token)

theorem startsPrimary_eq (ts : List Lexeme) : startsPrimary ts = opensPrimary (tokensOf ts) := by
  match ts with
  | [] => rfl
  | ⟨t, text, offset⟩ :: ts =>
    cases t <;> try rfl
    case name n =>
      match ts with
      | [] => rfl
      | ⟨u, text', offset'⟩ :: ts => cases u <;> rfl

theorem startsStep_eq (ts : List Lexeme) :
    startsStep ts = (tokensOf ts).head?.any (·.startsStep) := by
  match ts with
  | [] => rfl
  | ⟨t, text, offset⟩ :: ts => cases t <;> rfl

/-- Reading a symbol from `ts` gives `v` and leaves `rest`. -/
def Reads : (s : Symbol) → (fuel : Nat) → (ts : List Lexeme) → s.Value → (rest : List Lexeme) →
    Prop
  | .phrase l, fuel, ts, v, rest => phrase fuel l ts = .ok (v, rest)
  | .operators l, fuel, ts, v, rest => ∀ left, operands fuel l left ts = .ok (v left, rest)
  | .unions, fuel, ts, v, rest => ∀ left, unions fuel left ts = .ok (v left, rest)
  | .path, fuel, ts, v, rest => pathExpr fuel ts = .ok (v, rest)
  | .steps, fuel, ts, v, rest => moreSteps fuel ts = .ok (v, rest)
  | .step, fuel, ts, v, rest => step fuel ts = .ok (v, rest)
  | .predicates, fuel, ts, v, rest => predicates fuel ts = .ok (v, rest)
  | .primary, fuel, ts, v, rest => primary fuel ts = .ok (v, rest)
  | .arguments, fuel, ts, v, rest => arguments fuel ts = .ok (v, rest)

/-- The rules that are tried before a token of the symbol is read. -/
def Symbol.reserve : Symbol → Nat
  | phrase l => 10 - rank l
  | path => 2
  | operators _ | unions | steps | step | predicates | primary | arguments => 1

theorem rank_le (l : Level) : rank (some l) ≤ 6 := by
  cases l <;> decide

theorem Symbol.reserve_pos (s : Symbol) : 0 < s.reserve := by
  cases s with
  | phrase l =>
    cases l with
    | none => decide
    | some l =>
      have := rank_le l
      simp only [reserve]
      omega
  | _ => exact Nat.succ_pos _

theorem exists_succ {n fuel : Nat} {s : Symbol} (h : n + s.reserve ≤ fuel) :
    ∃ k, fuel = k + 1 :=
  ⟨fuel - 1, by have := s.reserve_pos; omega⟩

/-! ## What is derived is read -/

theorem exists_cons {us : List Lexeme} {t : Token} {ts : List Token} (h : tokensOf us = t :: ts) :
    ∃ text offset us', us = ⟨t, text, offset⟩ :: us' ∧ tokensOf us' = ts := by
  obtain ⟨⟨_, text, offset⟩, us', rfl, rfl, rfl⟩ := List.map_eq_cons_iff.1 h
  exact ⟨text, offset, us', rfl, rfl⟩

theorem exists_append {us : List Lexeme} {a b : List Token} (h : tokensOf us = a ++ b) :
    ∃ ua ub, us = ua ++ ub ∧ tokensOf ua = a ∧ tokensOf ub = b :=
  List.map_eq_append_iff.1 h

theorem ne_cons_of_starts {p : Token → Bool} {us : List Lexeme} (h : Starts p (tokensOf us))
    {t : Token} (ht : p t = false) (rest : List Lexeme) (text : List Char) (offset : Nat)
    (ts : List Lexeme) : us ++ rest ≠ ⟨t, text, offset⟩ :: ts := by
  intro heq
  have htokens := congrArg tokensOf heq
  rw [tokensOf, List.map_append] at htokens
  exact (h.append _).ne ht htokens

theorem operands_of_loose {l : Level} {rest : List Lexeme}
    (h : Loose (rank (some l)) (tokensOf rest)) (fuel : Nat) (left : Expr) :
    operands (fuel + 1) l left rest = .ok (left, rest) := by
  cases rest with
  | nil => exact operands_nil fuel l left
  | cons t rest =>
    have hnone : l.operator? t.token = none := by
      rw [← Option.not_isSome_iff_eq_none, isSome_operator?, beq_iff_eq]
      exact Nat.ne_of_lt (loose_cons.1 h)
    rw [operands_cons, hnone]

theorem unions_of_loose {rest : List Lexeme} (h : Loose 7 (tokensOf rest)) (fuel : Nat)
    (left : Expr) : unions (fuel + 1) left rest = .ok (left, rest) := by
  rw [unions]
  rintro text offset ts rfl
  exact not_loose_of_eq (t := .pipe) rfl (by decide) h

theorem moreSteps_of_loose {rest : List Lexeme} (h : Loose 8 (tokensOf rest)) (fuel : Nat) :
    moreSteps (fuel + 1) rest = .ok ([], rest) := by
  rw [moreSteps]
  · rintro text offset ts rfl
    exact not_loose_of_eq (t := .slash) rfl (by decide) h
  · rintro text offset ts rfl
    exact not_loose_of_eq (t := .doubleSlash) rfl (by decide) h

theorem predicates_of_loose {rest : List Lexeme} (h : Loose 9 (tokensOf rest)) (fuel : Nat) :
    predicates (fuel + 1) rest = .ok ([], rest) := by
  rw [predicates]
  rintro text offset ts rfl
  exact not_loose_of_eq (t := .leftBracket) rfl (by decide) h

/-- Reading a call whose parenthesis is not closed at once. -/
theorem primary_callWith (fuel : Nat) (name : String) {text text' : List Char}
    {offset offset' : Nat} {ts : List Lexeme}
    (h : ∀ text offset ts', ts ≠ ⟨.rightParen, text, offset⟩ :: ts') :
    primary (fuel + 1) (⟨.name name, text, offset⟩ :: ⟨.leftParen, text', offset'⟩ :: ts) =
      arguments fuel ts >>= fun r =>
        .ok (.call (Xml.splitName name).1 (Xml.splitName name).2 r.1, r.2) := by
  rw [primary]
  dsimp only
  split
  case h_1 heq => exact absurd (List.cons.inj heq).2 (h _ _ _)
  case h_2 heq =>
    cases heq
    rfl
  case h_3 hno => exact absurd rfl (hno _ _ _)

theorem ofName?_name (a : Axis) : Axis.ofName? a.name = some a := by
  cases a <;> rfl

/-- Without a mark in front of it, what follows is on the axis of children. -/
theorem axis_of_absent {ts : List Lexeme} (hat : ∀ us, tokensOf ts ≠ .at_ :: us)
    (hnamed : ∀ n us, tokensOf ts ≠ .name n :: .doubleColon :: us) :
    axis ts = .ok (.child, ts) := by
  rw [axis]
  · rintro text offset us rfl
    exact hat _ rfl
  · rintro n text offset colons colonsAt us rfl
    exact hnamed _ _ rfl

theorem nodeTest_of_marks {m : TestMark} {us rest : List Lexeme} (hus : tokensOf us = m.tokens)
    (hrest : Loose 10 (tokensOf rest)) : nodeTest (us ++ rest) = .ok (m.value, rest) := by
  cases m with
  | name s =>
    obtain ⟨text, offset, ub, rfl, hub⟩ := exists_cons hus
    obtain rfl := List.map_eq_nil_iff.1 hub
    rw [List.cons_append, List.nil_append, nodeTest]
    · rfl
    · rintro text offset ts rfl
      exact not_loose_of_eq (t := .leftParen) rfl (by decide) hrest
  | any | inNamespace p =>
    obtain ⟨text, offset, ub, rfl, hub⟩ := exists_cons hus
    obtain rfl := List.map_eq_nil_iff.1 hub
    rfl
  | text | node | comment =>
    obtain ⟨text, offset, ua, rfl, hua⟩ := exists_cons hus
    obtain ⟨text', offset', ub, rfl, hub⟩ := exists_cons hua
    obtain ⟨text'', offset'', uc, rfl, huc⟩ := exists_cons hub
    obtain rfl := List.map_eq_nil_iff.1 huc
    rfl

/-- Reading an axis and a node test that are followed by nothing that
continues them. -/
theorem axis_of_marks {a : AxisMark} {m : TestMark} {us rest : List Lexeme}
    (hus : tokensOf us = a.tokens ++ m.tokens) (hrest : Loose 10 (tokensOf rest)) :
    ∃ ts, axis (us ++ rest) = .ok (a.value, ts) ∧ nodeTest ts = .ok (m.value, rest) := by
  obtain ⟨ua, um, rfl, hua, hum⟩ := exists_append hus
  refine ⟨um ++ rest, ?_, nodeTest_of_marks hum hrest⟩
  have hafter : tokensOf (um ++ rest) = m.tokens ++ tokensOf rest := by
    rw [tokensOf, List.map_append, ← hum]
  cases a with
  | absent =>
    obtain rfl := List.map_eq_nil_iff.1 hua
    obtain ⟨hat, hnamed⟩ := TestMark.ne_axis (m := m) hrest
    exact axis_of_absent (fun us h => hat us (hafter ▸ h)) (fun n us h => hnamed n us (hafter ▸ h))
  | at_ =>
    obtain ⟨text, offset, ub, rfl, hub⟩ := exists_cons hua
    obtain rfl := List.map_eq_nil_iff.1 hub
    rfl
  | named x =>
    obtain ⟨text, offset, ub, rfl, hub⟩ := exists_cons hua
    obtain ⟨text', offset', uc, rfl, huc⟩ := exists_cons hub
    obtain rfl := List.map_eq_nil_iff.1 huc
    rw [List.append_assoc, List.cons_append, List.cons_append, List.nil_append, axis, ofName?_name]
    rfl

theorem value_filter (p : Tree .primary) (ps : Tree .predicates) (ss : Tree .steps) :
    (Tree.filter p ps ss).value =
      if ps.value.isEmpty && ss.value.isEmpty then p.value
      else Expr.filter p.value ps.value ss.value := by
  cases ps <;> cases ss <;> rfl

theorem tokensOf_append (us rest : List Lexeme) :
    tokensOf (us ++ rest) = tokensOf us ++ tokensOf rest := List.map_append

/-- Where it fits and what follows it is loose enough, the derivation is read as
what it stands for, and its tokens only are taken. -/
def Tree.ReadsBack {s : Symbol} (t : Tree s) : Prop :=
  ∀ {us rest : List Lexeme} {fuel : Nat}, tokensOf us = t.tokens → t.Fits (tokensOf rest) →
    Loose s.limit (tokensOf rest) → 16 * us.length + s.reserve ≤ fuel →
      Reads s fuel (us ++ rest) t.value rest

section Parts

variable {s r : Symbol} {a : Tree s} {b : Tree r} (ha : a.ReadsBack) (hb : b.ReadsBack)
  {us : List Lexeme} (rest : List Lexeme) (fuel : Nat)

include ha

/-- A part that is closed by a mark. -/
theorem Tree.ReadsBack.closed {mark : Token} (hus : tokensOf us = a.tokens ++ [mark])
    (hfits : a.Fits (mark :: tokensOf rest)) (hmark : mark.grip < s.limit)
    (hfuel : 16 * us.length + s.reserve ≤ fuel + 16) :
    ∃ text offset, Reads s fuel (us ++ rest) a.value (⟨mark, text, offset⟩ :: rest) := by
  obtain ⟨ua, ub, rfl, hua, hub⟩ := exists_append hus
  obtain ⟨text, offset, uc, rfl, huc⟩ := exists_cons hub
  obtain rfl := List.map_eq_nil_iff.1 huc
  rw [List.length_append, List.length_singleton] at hfuel
  rw [List.append_assoc, List.cons_append, List.nil_append]
  exact ⟨text, offset, ha hua hfits (loose_cons.2 hmark) (by omega)⟩

include hb

/-- Two parts in a row. -/
theorem Tree.ReadsBack.pair (hr : r.reserve = 1) (hus : tokensOf us = a.tokens ++ b.tokens)
    (hfits : a.Fits (b.tokens ++ tokensOf rest) ∧ b.Fits (tokensOf rest))
    (hfirst : Loose s.limit (b.tokens ++ tokensOf rest)) (hrest : Loose r.limit (tokensOf rest))
    (hfuel : 16 * us.length + s.reserve ≤ fuel) :
    ∃ ts, Reads s fuel (us ++ rest) a.value ts ∧ Reads r fuel ts b.value rest := by
  obtain ⟨ua, ub, rfl, hua, hub⟩ := exists_append hus
  have hpos := s.reserve_pos
  rw [← hub, ← tokensOf_append] at hfits hfirst
  rw [List.length_append] at hfuel
  rw [List.append_assoc]
  exact ⟨ub ++ rest, ha hua hfits.1 hfirst (by omega), hb hub hfits.2 hrest (by omega)⟩

/-- Two parts with a mark between them. -/
theorem Tree.ReadsBack.separated {mark : Token} (hr : r.reserve = 1)
    (hus : tokensOf us = a.tokens ++ mark :: b.tokens)
    (hfits : a.Fits (mark :: (b.tokens ++ tokensOf rest)) ∧ b.Fits (tokensOf rest))
    (hmark : mark.grip < s.limit) (hrest : Loose r.limit (tokensOf rest))
    (hfuel : 16 * us.length + s.reserve ≤ fuel + 16) :
    ∃ text offset ts, Reads s fuel (us ++ rest) a.value (⟨mark, text, offset⟩ :: ts) ∧
      Reads r fuel ts b.value rest := by
  rw [List.append_cons] at hus
  obtain ⟨ua, ub, rfl, hua, hub⟩ := exists_append hus
  have hpos := s.reserve_pos
  have hlength : 0 < ua.length := by
    rw [← List.length_map, show ua.map (·.token) = _ from hua, List.length_append]
    exact Nat.succ_pos _
  rw [← hub, ← tokensOf_append] at hfits
  rw [List.length_append] at hfuel
  obtain ⟨text, offset, hread⟩ := ha.closed (ub ++ rest) fuel hua hfits.1 hmark (by omega)
  rw [List.append_assoc]
  exact ⟨text, offset, ub ++ rest, hread, hb hub hfits.2 hrest (by omega)⟩

/-- A mark and two parts after it. -/
theorem Tree.ReadsBack.marked {mark : Token} (hr : r.reserve = 1)
    (hus : tokensOf us = mark :: (a.tokens ++ b.tokens))
    (hfits : a.Fits (b.tokens ++ tokensOf rest) ∧ b.Fits (tokensOf rest))
    (hfirst : Loose s.limit (b.tokens ++ tokensOf rest)) (hrest : Loose r.limit (tokensOf rest))
    (hfuel : 16 * us.length + s.reserve ≤ fuel + 16) :
    ∃ text offset up ts, us = ⟨mark, text, offset⟩ :: up ∧ Reads s fuel (up ++ rest) a.value ts ∧
      Reads r fuel ts b.value rest := by
  obtain ⟨text, offset, up, rfl, hup⟩ := exists_cons hus
  rw [List.length_cons] at hfuel
  obtain ⟨ts, hread, hmore⟩ := ha.pair hb rest fuel hr hup hfits hfirst hrest (by omega)
  exact ⟨text, offset, up, ts, rfl, hread, hmore⟩

end Parts

/-! ## Paths and steps -/

namespace Tree.ReadsBack

theorem filter {p : Tree .primary} {ps : Tree .predicates} {ss : Tree .steps} (hp : p.ReadsBack)
    (hps : ps.ReadsBack) (hss : ss.ReadsBack) : (Tree.filter p ps ss).ReadsBack := by
  intro us rest fuel hus hfits hrest hfuel
  obtain ⟨fuel, rfl⟩ := exists_succ hfuel
  obtain ⟨up, uq, rfl, hup, huq⟩ := exists_append hus
  simp only [Symbol.reserve, List.length_append] at hfuel
  have hafter : tokensOf (uq ++ rest) = ps.tokens ++ (ss.tokens ++ tokensOf rest) := by
    rw [tokensOf_append, huq, List.append_assoc]
  have hprimary := @hp up (uq ++ rest) fuel hup (hafter ▸ hfits.1) (loose_any _)
    (by simp only [Symbol.reserve]; omega)
  obtain ⟨ts, hpredicates, hsteps⟩ := hps.pair hss rest fuel rfl huq hfits.2
    (loose_steps ss hrest) hrest (by simp only [Symbol.reserve]; omega)
  have hopens : startsPrimary (up ++ (uq ++ rest)) = true := by
    rw [startsPrimary_eq, tokensOf_append, hup]
    exact opensPrimary_primary p _
  change pathExpr _ _ = _
  rw [List.append_assoc, value_filter]
  unfold pathExpr
  rw [if_pos hopens]
  exact bind_eq_ok.2 ⟨_, hprimary, bind_eq_ok.2 ⟨_, hpredicates, bind_eq_ok.2 ⟨_, hsteps, rfl⟩⟩⟩

theorem root : Tree.root.ReadsBack := by
  intro us rest fuel hus hfits _ hfuel
  obtain ⟨fuel, rfl⟩ := exists_succ hfuel
  obtain ⟨text, offset, ub, rfl, hub⟩ := exists_cons hus
  obtain rfl := List.map_eq_nil_iff.1 hub
  have hnone : startsStep rest = false := by
    rw [startsStep_eq]
    cases rest with
    | nil => rfl
    | cons u us => exact hfits u.token rfl
  change pathExpr _ _ = _
  rw [List.cons_append, List.nil_append, pathExpr, if_neg (by simp [startsPrimary])]
  simp only [hnone]
  rfl

section Steps

variable {first : Tree .step} {more : Tree .steps} (hfirst : first.ReadsBack)
  (hmore : more.ReadsBack)

include hfirst hmore

theorem absolute : (Tree.absolute first more).ReadsBack := by
  intro us rest fuel hus hfits hrest hfuel
  obtain ⟨fuel, rfl⟩ := exists_succ hfuel
  obtain ⟨text, offset, up, ts, rfl, hread, hreadMore⟩ := hfirst.marked hmore rest fuel rfl hus
    hfits (loose_steps more hrest) hrest (by simp only [Symbol.reserve] at hfuel ⊢; omega)
  have hstep : startsStep (up ++ rest) = true := by
    rw [startsStep_eq, tokensOf_append, show tokensOf up = _ from (List.cons.inj hus).2,
      List.append_assoc]
    exact any_startsStep first _
  change pathExpr _ _ = _
  rw [List.cons_append, pathExpr, if_neg (by simp [startsPrimary])]
  simp only [hstep, if_true]
  exact bind_eq_ok.2 ⟨_, hread, bind_eq_ok.2 ⟨_, hreadMore, rfl⟩⟩

theorem anywhere : (Tree.anywhere first more).ReadsBack := by
  intro us rest fuel hus hfits hrest hfuel
  obtain ⟨fuel, rfl⟩ := exists_succ hfuel
  obtain ⟨text, offset, up, ts, rfl, hread, hreadMore⟩ := hfirst.marked hmore rest fuel rfl hus
    hfits (loose_steps more hrest) hrest (by simp only [Symbol.reserve] at hfuel ⊢; omega)
  change pathExpr _ _ = _
  rw [List.cons_append, pathExpr, if_neg (by simp [startsPrimary])]
  exact bind_eq_ok.2 ⟨_, hread, bind_eq_ok.2 ⟨_, hreadMore, rfl⟩⟩

theorem relative : (Tree.relative first more).ReadsBack := by
  intro us rest fuel hus hfits hrest hfuel
  obtain ⟨fuel, rfl⟩ := exists_succ hfuel
  obtain ⟨ts, hread, hreadMore⟩ := hfirst.pair hmore rest fuel rfl hus hfits
    (loose_steps more hrest) hrest (by simp only [Symbol.reserve] at hfuel ⊢; omega)
  have hopens : ¬ startsPrimary (us ++ rest) = true := by
    rw [startsPrimary_eq, tokensOf_append, hus, tokens, List.append_assoc]
    simp [opensPrimary_step first (loose_steps more hrest)]
  change pathExpr _ _ = _
  rw [pathExpr, if_neg hopens]
  · exact bind_eq_ok.2 ⟨_, hread, bind_eq_ok.2 ⟨_, hreadMore, rfl⟩⟩
  · exact ne_cons_of_starts (by rw [hus]; exact first.opens.append _) (by rfl) _
  · exact ne_cons_of_starts (by rw [hus]; exact first.opens.append _) (by rfl) _

end Steps

theorem test {a : AxisMark} {m : TestMark} {ps : Tree .predicates} (hps : ps.ReadsBack) :
    (Tree.test a m ps).ReadsBack := by
  intro us rest fuel hus hfits hrest hfuel
  obtain ⟨fuel, rfl⟩ := exists_succ hfuel
  rw [tokens, ← List.append_assoc] at hus
  obtain ⟨um, up, rfl, hum, hup⟩ := exists_append hus
  have hstarts := starts_marks a m
  have hafter : tokensOf (up ++ rest) = ps.tokens ++ tokensOf rest := by
    rw [tokensOf, List.map_append, ← hup]
  obtain ⟨ts, haxis, htest⟩ := axis_of_marks hum (hafter ▸ loose_predicates ps hrest)
  have hlength : 0 < um.length := by
    rw [← List.length_map, show um.map (·.token) = _ from hum]
    obtain ⟨u, us, heq, -⟩ := hstarts
    rw [heq]
    exact Nat.succ_pos _
  simp only [Symbol.reserve, List.length_append] at hfuel
  have hpredicates := @hps up rest fuel hup hfits hrest (by simp only [Symbol.reserve]; omega)
  change step _ _ = _
  rw [List.append_assoc, step]
  · exact bind_eq_ok.2 ⟨_, haxis, bind_eq_ok.2 ⟨_, htest, bind_eq_ok.2 ⟨_, hpredicates, rfl⟩⟩⟩
  · exact ne_cons_of_starts (hum ▸ hstarts) (by rfl) _
  · exact ne_cons_of_starts (hum ▸ hstarts) (by rfl) _

end Tree.ReadsBack

/-! ## Whole derivations -/

/-- A derivation that is followed by what holds it loosely enough is read as
what it stands for, and its tokens only are taken. -/
theorem Tree.reads {s : Symbol} (t : Tree s) {us rest : List Lexeme} {fuel : Nat}
    (hus : tokensOf us = t.tokens) (hfits : t.Fits (tokensOf rest))
    (hrest : Loose s.limit (tokensOf rest)) (hfuel : 16 * us.length + s.reserve ≤ fuel) :
    Reads s fuel (us ++ rest) t.value rest := by
  induction t generalizing us rest fuel with
  | @operand l first more ihf ihm =>
    obtain ⟨fuel, rfl⟩ := exists_succ hfuel
    have hrank := rank_le l
    have hnext := rank_next l
    obtain ⟨ts, hfirst, hmore⟩ := ReadsBack.pair @ihf @ihm rest fuel rfl hus hfits
      (loose_operators more hrest) hrest (by simp only [Symbol.reserve] at hfuel ⊢; omega)
    change level _ l _ = _
    rw [level_succ, show phrase _ _ _ = _ from hfirst]
    exact hmore _
  | negate e ih =>
    obtain ⟨fuel, rfl⟩ := exists_succ hfuel
    obtain ⟨text, offset, ue, rfl, hue⟩ := exists_cons hus
    simp only [Symbol.reserve, List.length_cons] at hfuel
    have he := @ih ue rest fuel hue hfits hrest (by simp only [Symbol.reserve]; omega)
    change unary _ _ = _
    rw [List.cons_append, unary]
    exact bind_eq_ok.2 ⟨_, he, rfl⟩
  | union first more ihf ihm =>
    obtain ⟨fuel, rfl⟩ := exists_succ hfuel
    obtain ⟨ts, hfirst, hmore⟩ := ReadsBack.pair @ihf @ihm rest fuel rfl hus hfits
      (loose_unions more hrest) hrest (by simp only [Symbol.reserve, rank] at hfuel ⊢; omega)
    change unary _ _ = _
    rw [unary]
    · exact bind_eq_ok.2 ⟨_, hfirst, hmore _⟩
    · exact ne_cons_of_starts (by rw [hus]; exact first.opens.append _) (by rfl) _
  | noOperator =>
    obtain ⟨fuel, rfl⟩ := exists_succ hfuel
    obtain rfl := List.map_eq_nil_iff.1 hus
    exact operands_of_loose hrest fuel
  | @operator l op join hop right more ihr ihm =>
    obtain ⟨fuel, rfl⟩ := exists_succ hfuel
    obtain ⟨text, offset, up, ts, rfl, hright, hmore⟩ := ReadsBack.marked @ihr @ihm rest fuel rfl
      hus hfits (loose_operators more hrest) hrest (by simp only [Symbol.reserve] at hfuel ⊢; omega)
    intro left
    rw [List.cons_append, operands_cons, hop]
    exact bind_eq_ok.2 ⟨_, hright, hmore _⟩
  | noUnion =>
    obtain ⟨fuel, rfl⟩ := exists_succ hfuel
    obtain rfl := List.map_eq_nil_iff.1 hus
    exact unions_of_loose hrest fuel
  | pipe right more ihr ihm =>
    obtain ⟨fuel, rfl⟩ := exists_succ hfuel
    obtain ⟨text, offset, up, ts, rfl, hright, hmore⟩ := ReadsBack.marked @ihr @ihm rest fuel rfl
      hus hfits (loose_unions more hrest) hrest (by simp only [Symbol.reserve] at hfuel ⊢; omega)
    intro left
    rw [List.cons_append, unions]
    exact bind_eq_ok.2 ⟨_, hright, hmore _⟩
  | filter p ps ss ihp ihq ihs => exact ReadsBack.filter @ihp @ihq @ihs hus hfits hrest hfuel
  | root => exact ReadsBack.root hus hfits hrest hfuel
  | absolute first more ihf ihm => exact ReadsBack.absolute @ihf @ihm hus hfits hrest hfuel
  | anywhere first more ihf ihm => exact ReadsBack.anywhere @ihf @ihm hus hfits hrest hfuel
  | relative first more ihf ihm => exact ReadsBack.relative @ihf @ihm hus hfits hrest hfuel
  | noStep =>
    obtain ⟨fuel, rfl⟩ := exists_succ hfuel
    obtain rfl := List.map_eq_nil_iff.1 hus
    exact moreSteps_of_loose hrest fuel
  | slash next more ihn ihm =>
    obtain ⟨fuel, rfl⟩ := exists_succ hfuel
    obtain ⟨text, offset, up, ts, rfl, hnext, hmore⟩ := ReadsBack.marked @ihn @ihm rest fuel rfl
      hus hfits (loose_steps more hrest) hrest (by simp only [Symbol.reserve] at hfuel ⊢; omega)
    change moreSteps _ _ = _
    rw [List.cons_append, moreSteps]
    exact bind_eq_ok.2 ⟨_, hnext, bind_eq_ok.2 ⟨_, hmore, rfl⟩⟩
  | doubleSlash next more ihn ihm =>
    obtain ⟨fuel, rfl⟩ := exists_succ hfuel
    obtain ⟨text, offset, up, ts, rfl, hnext, hmore⟩ := ReadsBack.marked @ihn @ihm rest fuel rfl
      hus hfits (loose_steps more hrest) hrest (by simp only [Symbol.reserve] at hfuel ⊢; omega)
    change moreSteps _ _ = _
    rw [List.cons_append, moreSteps]
    exact bind_eq_ok.2 ⟨_, hnext, bind_eq_ok.2 ⟨_, hmore, rfl⟩⟩
  | self | parent | literal x | number x =>
    obtain ⟨fuel, rfl⟩ := exists_succ hfuel
    obtain ⟨text, offset, ub, rfl, hub⟩ := exists_cons hus
    obtain rfl := List.map_eq_nil_iff.1 hub
    rfl
  | test a m ps ih => exact ReadsBack.test @ih hus hfits hrest hfuel
  | noPredicate =>
    obtain ⟨fuel, rfl⟩ := exists_succ hfuel
    obtain rfl := List.map_eq_nil_iff.1 hus
    exact predicates_of_loose hrest fuel
  | predicate e more ihe ihm =>
    obtain ⟨fuel, rfl⟩ := exists_succ hfuel
    obtain ⟨text, offset, up, rfl, hup⟩ := exists_cons hus
    simp only [Symbol.reserve, List.length_cons] at hfuel
    obtain ⟨_, _, ts, he, hmore⟩ := ReadsBack.separated @ihe @ihm rest fuel rfl hup hfits
      (by decide) hrest (by simp only [Symbol.reserve, rank]; omega)
    change predicates _ _ = _
    rw [List.cons_append, predicates]
    exact bind_eq_ok.2 ⟨_, he, bind_eq_ok.2 ⟨_, hmore, rfl⟩⟩
  | group e ih =>
    obtain ⟨fuel, rfl⟩ := exists_succ hfuel
    obtain ⟨text, offset, up, rfl, hup⟩ := exists_cons hus
    simp only [Symbol.reserve, List.length_cons] at hfuel
    obtain ⟨_, _, he⟩ := ReadsBack.closed @ih rest fuel hup hfits (by decide)
      (by simp only [Symbol.reserve, rank]; omega)
    change primary _ _ = _
    rw [List.cons_append, primary]
    exact bind_eq_ok.2 ⟨_, he, rfl⟩
  | call name hname =>
    obtain ⟨fuel, rfl⟩ := exists_succ hfuel
    obtain ⟨text, offset, up, rfl, hup⟩ := exists_cons hus
    obtain ⟨text', offset', ur, rfl, hur⟩ := exists_cons hup
    obtain ⟨text'', offset'', ub, rfl, hub⟩ := exists_cons hur
    obtain rfl := List.map_eq_nil_iff.1 hub
    rfl
  | callWith name hname args ih =>
    obtain ⟨fuel, rfl⟩ := exists_succ hfuel
    obtain ⟨text, offset, up, rfl, hup⟩ := exists_cons hus
    obtain ⟨text', offset', ua, rfl, hua⟩ := exists_cons hup
    simp only [Symbol.reserve, List.length_cons] at hfuel
    have hargs := @ih ua rest fuel hua hfits hrest (by simp only [Symbol.reserve]; omega)
    change primary _ _ = _
    rw [List.cons_append, List.cons_append,
      primary_callWith _ _ (ne_cons_of_starts (hua ▸ args.opens) (by rfl) _)]
    exact bind_eq_ok.2 ⟨_, hargs, rfl⟩
  | lastArgument e ih =>
    obtain ⟨fuel, rfl⟩ := exists_succ hfuel
    obtain ⟨_, _, he⟩ := ReadsBack.closed @ih rest fuel hus hfits (by decide)
      (by simp only [Symbol.reserve, rank] at hfuel ⊢; omega)
    change arguments _ _ = _
    rw [arguments]
    exact bind_eq_ok.2 ⟨_, he, rfl⟩
  | argument e more ihe ihm =>
    obtain ⟨fuel, rfl⟩ := exists_succ hfuel
    obtain ⟨_, _, ts, he, hmore⟩ := ReadsBack.separated @ihe @ihm rest fuel rfl hus hfits
      (by decide) hrest (by simp only [Symbol.reserve, rank] at hfuel ⊢; omega)
    change arguments _ _ = _
    rw [arguments]
    exact bind_eq_ok.2 ⟨_, he, bind_eq_ok.2 ⟨_, hmore, rfl⟩⟩

end LabelTemplate.XPath.Grammar
