import LabelTemplate.Proofs.XPath.Reading

/-!
# What is read is derived

`Derives s ts v rest` says that a derivation of the symbol `s` with the value
`v` takes `ts` up to `rest`.  It has one rule for each production.  `Sound`
says of each function of the reader that its results are derived; with one
lemma for each function it passes from an amount of fuel to the next.

With the other direction, `Tree.reads`, an expression is read exactly when
its tokens have a derivation, and with `Tree.unique` there is at most one.
-/

namespace LabelTemplate.XPath.Grammar

open Outcome (bind_eq_ok)

/-- A derivation of a symbol with this value takes `ts` up to `rest`. -/
def Derives (s : Symbol) (ts : List Lexeme) (v : s.Value) (rest : List Lexeme) : Prop :=
  ∃ (t : Tree s) (us : List Lexeme),
    ts = us ++ rest ∧ tokensOf us = t.tokens ∧ t.Fits (tokensOf rest) ∧ t.value = v

namespace Derives

variable {ts ts' ts'' rest : List Lexeme}

/-- Two derivations in a row. -/
theorem parts {s r : Symbol} {v : s.Value} {w : r.Value} (h : Derives s ts v ts')
    (h' : Derives r ts' w rest) :
    ∃ (a : Tree s) (m : Tree r) (us : List Lexeme), ts = us ++ rest ∧
      tokensOf us = a.tokens ++ m.tokens ∧ a.Fits (m.tokens ++ tokensOf rest) ∧
      m.Fits (tokensOf rest) ∧ a.value = v ∧ m.value = w := by
  obtain ⟨a, ua, rfl, hua, hfits, rfl⟩ := h
  obtain ⟨m, um, rfl, hum, hfits', rfl⟩ := h'
  refine ⟨a, m, ua ++ um, (List.append_assoc ..).symm, ?_, ?_, hfits', rfl, rfl⟩
  · rw [tokensOf, List.map_append, ← hua, ← hum]
  · rwa [tokensOf, List.map_append, show um.map (·.token) = _ from hum] at hfits

/-- Two derivations with a token between them. -/
theorem separated {s r : Symbol} {u : Lexeme} {v : s.Value} {w : r.Value}
    (h : Derives s ts v (u :: ts')) (h' : Derives r ts' w rest) :
    ∃ (a : Tree s) (m : Tree r) (us : List Lexeme), ts = us ++ rest ∧
      tokensOf us = a.tokens ++ u.token :: m.tokens ∧
      a.Fits (u.token :: (m.tokens ++ tokensOf rest)) ∧ m.Fits (tokensOf rest) ∧
      a.value = v ∧ m.value = w := by
  obtain ⟨a, ua, rfl, hua, hfits, rfl⟩ := h
  obtain ⟨m, um, rfl, hum, hfits', rfl⟩ := h'
  refine ⟨a, m, ua ++ u :: um, by simp, ?_, ?_, hfits', rfl, rfl⟩
  · rw [tokensOf, List.map_append, List.map_cons, ← hua, ← hum]
  · rwa [tokensOf, List.map_cons, List.map_append, show um.map (·.token) = _ from hum] at hfits

/-- A derivation with a token behind it. -/
theorem closed {s : Symbol} {u : Lexeme} {v : s.Value} (h : Derives s ts v (u :: rest)) :
    ∃ (a : Tree s) (us : List Lexeme), ts = us ++ rest ∧ tokensOf us = a.tokens ++ [u.token] ∧
      a.Fits (u.token :: tokensOf rest) ∧ a.value = v := by
  obtain ⟨a, ua, rfl, hua, hfits, rfl⟩ := h
  exact ⟨a, ua ++ [u], by simp, by rw [tokensOf, List.map_append, ← hua]; rfl, hfits, rfl⟩

/-! ### One rule for each production -/

theorem operand {l : Level} {e : Expr} {f : Expr → Expr} (h : Derives (.phrase l.next?) ts e ts')
    (h' : Derives (.operators l) ts' f rest) : Derives (.phrase (some l)) ts (f e) rest := by
  obtain ⟨first, more, us, rfl, hus, hfirst, hmore, rfl, rfl⟩ := parts h h'
  exact ⟨.operand first more, us, rfl, hus, ⟨hfirst, hmore⟩, rfl⟩

theorem negate {u : Lexeme} {e : Expr} (hu : u.token = .minus)
    (h : Derives (.phrase none) ts e rest) : Derives (.phrase none) (u :: ts) (.negate e) rest := by
  obtain ⟨t, us, rfl, hus, ht, rfl⟩ := h
  exact ⟨.negate t, u :: us, rfl, congrArg₂ List.cons hu hus, ht, rfl⟩

theorem union {e : Expr} {f : Expr → Expr} (h : Derives .path ts e ts')
    (h' : Derives .unions ts' f rest) : Derives (.phrase none) ts (f e) rest := by
  obtain ⟨first, more, us, rfl, hus, hfirst, hmore, rfl, rfl⟩ := parts h h'
  exact ⟨.union first more, us, rfl, hus, ⟨hfirst, hmore⟩, rfl⟩

theorem noOperator (l : Level) : Derives (.operators l) ts id ts :=
  ⟨.noOperator, [], rfl, rfl, trivial, rfl⟩

theorem operator {l : Level} {u : Lexeme} {join : Expr → Expr → Expr} {e : Expr}
    {f : Expr → Expr} (hu : l.operator? u.token = some join)
    (h : Derives (.phrase l.next?) ts e ts') (h' : Derives (.operators l) ts' f rest) :
    Derives (.operators l) (u :: ts) (fun left => f (join left e)) rest := by
  obtain ⟨right, more, us, rfl, hus, hright, hmore, rfl, rfl⟩ := parts h h'
  exact ⟨.operator u.token join hu right more, u :: us, rfl, congrArg _ hus, ⟨hright, hmore⟩, rfl⟩

theorem noUnion : Derives .unions ts id ts :=
  ⟨.noUnion, [], rfl, rfl, trivial, rfl⟩

theorem pipe {u : Lexeme} {e : Expr} {f : Expr → Expr} (hu : u.token = .pipe)
    (h : Derives .path ts e ts') (h' : Derives .unions ts' f rest) :
    Derives .unions (u :: ts) (fun left => f (.union left e)) rest := by
  obtain ⟨right, more, us, rfl, hus, hright, hmore, rfl, rfl⟩ := parts h h'
  exact ⟨.pipe right more, u :: us, rfl, congrArg₂ List.cons hu hus, ⟨hright, hmore⟩, rfl⟩

theorem filter {e : Expr} {preds : List Expr} {steps : List Step} (h : Derives .primary ts e ts')
    (h' : Derives .predicates ts' preds ts'') (h'' : Derives .steps ts'' steps rest) :
    Derives .path ts (if preds.isEmpty && steps.isEmpty then e else .filter e preds steps)
      rest := by
  obtain ⟨p, us, rfl, hus, hp, rfl⟩ := h
  obtain ⟨ps, ss, vs, rfl, hvs, hps, hss, rfl, rfl⟩ := parts h' h''
  refine ⟨.filter p ps ss, us ++ vs, (List.append_assoc ..).symm, ?_, ⟨?_, hps, hss⟩,
    value_filter p ps ss⟩
  · rw [tokensOf, List.map_append, show us.map (·.token) = _ from hus,
      show vs.map (·.token) = _ from hvs]
    rfl
  · rwa [tokensOf, List.map_append, show vs.map (·.token) = _ from hvs,
      List.append_assoc] at hp

theorem root {u : Lexeme} (hu : u.token = .slash) (hnone : startsStep ts = false) :
    Derives .path (u :: ts) (.path true []) ts := by
  refine ⟨.root, [u], rfl, congrArg (fun t => [t]) hu, fun t ht => ?_, rfl⟩
  rw [startsStep_eq, Option.mem_def.1 ht] at hnone
  exact hnone

theorem absolute {u : Lexeme} {s : Step} {steps : List Step} (hu : u.token = .slash)
    (h : Derives .step ts s ts') (h' : Derives .steps ts' steps rest) :
    Derives .path (u :: ts) (.path true (s :: steps)) rest := by
  obtain ⟨first, more, us, rfl, hus, hfirst, hmore, rfl, rfl⟩ := parts h h'
  exact ⟨.absolute first more, u :: us, rfl, congrArg₂ List.cons hu hus, ⟨hfirst, hmore⟩, rfl⟩

theorem anywhere {u : Lexeme} {s : Step} {steps : List Step} (hu : u.token = .doubleSlash)
    (h : Derives .step ts s ts') (h' : Derives .steps ts' steps rest) :
    Derives .path (u :: ts) (.path true (.descendantOrSelf :: s :: steps)) rest := by
  obtain ⟨first, more, us, rfl, hus, hfirst, hmore, rfl, rfl⟩ := parts h h'
  exact ⟨.anywhere first more, u :: us, rfl, congrArg₂ List.cons hu hus, ⟨hfirst, hmore⟩, rfl⟩

theorem relative {s : Step} {steps : List Step} (h : Derives .step ts s ts')
    (h' : Derives .steps ts' steps rest) :
    Derives .path ts (.path false (s :: steps)) rest := by
  obtain ⟨first, more, us, rfl, hus, hfirst, hmore, rfl, rfl⟩ := parts h h'
  exact ⟨.relative first more, us, rfl, hus, ⟨hfirst, hmore⟩, rfl⟩

theorem noStep : Derives .steps ts [] ts :=
  ⟨.noStep, [], rfl, rfl, trivial, rfl⟩

theorem slash {u : Lexeme} {s : Step} {steps : List Step} (hu : u.token = .slash)
    (h : Derives .step ts s ts') (h' : Derives .steps ts' steps rest) :
    Derives .steps (u :: ts) (s :: steps) rest := by
  obtain ⟨next, more, us, rfl, hus, hnext, hmore, rfl, rfl⟩ := parts h h'
  exact ⟨.slash next more, u :: us, rfl, congrArg₂ List.cons hu hus, ⟨hnext, hmore⟩, rfl⟩

theorem doubleSlash {u : Lexeme} {s : Step} {steps : List Step} (hu : u.token = .doubleSlash)
    (h : Derives .step ts s ts') (h' : Derives .steps ts' steps rest) :
    Derives .steps (u :: ts) (.descendantOrSelf :: s :: steps) rest := by
  obtain ⟨next, more, us, rfl, hus, hnext, hmore, rfl, rfl⟩ := parts h h'
  exact ⟨.doubleSlash next more, u :: us, rfl, congrArg₂ List.cons hu hus, ⟨hnext, hmore⟩, rfl⟩

theorem self {u : Lexeme} (hu : u.token = .dot) : Derives .step (u :: ts) (.mk .self .node []) ts :=
  ⟨.self, [u], rfl, congrArg (fun t => [t]) hu, trivial, rfl⟩

theorem parent {u : Lexeme} (hu : u.token = .doubleDot) :
    Derives .step (u :: ts) (.mk .parent .node []) ts :=
  ⟨.parent, [u], rfl, congrArg (fun t => [t]) hu, trivial, rfl⟩

theorem test {a : AxisMark} {m : TestMark} {ua um : List Lexeme} {preds : List Expr}
    (hua : tokensOf ua = a.tokens) (hum : tokensOf um = m.tokens)
    (h : Derives .predicates ts preds rest) :
    Derives .step (ua ++ (um ++ ts)) (.mk a.value m.value preds) rest := by
  obtain ⟨ps, us, rfl, hus, hps, rfl⟩ := h
  refine ⟨.test a m ps, ua ++ (um ++ us), by simp, ?_, hps, rfl⟩
  simp only [tokensOf, List.map_append] at hua hum hus ⊢
  rw [hua, hum, hus]
  rfl

theorem noPredicate : Derives .predicates ts [] ts :=
  ⟨.noPredicate, [], rfl, rfl, trivial, rfl⟩

theorem predicate {u u' : Lexeme} {e : Expr} {preds : List Expr} (hu : u.token = .leftBracket)
    (hu' : u'.token = .rightBracket) (h : Derives (.phrase (some .disjunction)) ts e (u' :: ts'))
    (h' : Derives .predicates ts' preds rest) :
    Derives .predicates (u :: ts) (e :: preds) rest := by
  obtain ⟨t, m, us, rfl, hus, ht, hm, rfl, rfl⟩ := separated h h'
  rw [hu'] at hus ht
  exact ⟨.predicate t m, u :: us, rfl, congrArg₂ List.cons hu hus, ⟨ht, hm⟩, rfl⟩

theorem literal {u : Lexeme} {s : String} (hu : u.token = .literal s) :
    Derives .primary (u :: ts) (.literal s) ts :=
  ⟨.literal s, [u], rfl, congrArg (fun t => [t]) hu, trivial, rfl⟩

theorem number {u : Lexeme} {x : Float} (hu : u.token = .number x) :
    Derives .primary (u :: ts) (.number x) ts :=
  ⟨.number x, [u], rfl, congrArg (fun t => [t]) hu, trivial, rfl⟩

theorem group {u u' : Lexeme} {e : Expr} (hu : u.token = .leftParen) (hu' : u'.token = .rightParen)
    (h : Derives (.phrase (some .disjunction)) ts e (u' :: rest)) :
    Derives .primary (u :: ts) e rest := by
  obtain ⟨t, us, rfl, hus, ht, rfl⟩ := closed h
  rw [hu'] at hus ht
  exact ⟨.group t, u :: us, rfl, congrArg₂ List.cons hu hus, ht, rfl⟩

theorem call {u u' u'' : Lexeme} {name : String} (hname : isNodeType name = false)
    (hu : u.token = .name name) (hu' : u'.token = .leftParen) (hu'' : u''.token = .rightParen) :
    Derives .primary (u :: u' :: u'' :: ts)
      (.call (Xml.splitName name).1 (Xml.splitName name).2 []) ts :=
  ⟨.call name hname, [u, u', u''], rfl, by simp [hu, hu', hu''], trivial, rfl⟩

theorem callWith {u u' : Lexeme} {name : String} {args : List Expr}
    (hname : isNodeType name = false) (hu : u.token = .name name) (hu' : u'.token = .leftParen)
    (h : Derives .arguments ts args rest) :
    Derives .primary (u :: u' :: ts)
      (.call (Xml.splitName name).1 (Xml.splitName name).2 args) rest := by
  obtain ⟨t, us, rfl, hus, ht, rfl⟩ := h
  exact ⟨.callWith name hname t, u :: u' :: us, rfl,
    congrArg₂ List.cons hu (congrArg₂ List.cons hu' hus), ht, rfl⟩

theorem lastArgument {u : Lexeme} {e : Expr} (hu : u.token = .rightParen)
    (h : Derives (.phrase (some .disjunction)) ts e (u :: rest)) :
    Derives .arguments ts [e] rest := by
  obtain ⟨t, us, rfl, hus, ht, rfl⟩ := closed h
  rw [hu] at hus ht
  exact ⟨.lastArgument t, us, rfl, hus, ht, rfl⟩

theorem argument {u : Lexeme} {e : Expr} {args : List Expr} (hu : u.token = .comma)
    (h : Derives (.phrase (some .disjunction)) ts e (u :: ts'))
    (h' : Derives .arguments ts' args rest) : Derives .arguments ts (e :: args) rest := by
  obtain ⟨t, m, us, rfl, hus, ht, hm, rfl, rfl⟩ := separated h h'
  rw [hu] at hus ht
  exact ⟨.argument t m, us, rfl, hus, ⟨ht, hm⟩, rfl⟩

end Derives

/-! ## Axes and node tests -/

theorem name_of_ofName? {n : String} {a : Axis} (h : Axis.ofName? n = some a) : a.name = n := by
  simpa using List.find?_some h

theorem marks_of_axis {ts rest : List Lexeme} {a : Axis} (h : axis ts = .ok (a, rest)) :
    ∃ (m : AxisMark) (us : List Lexeme), ts = us ++ rest ∧ tokensOf us = m.tokens ∧
      m.value = a := by
  unfold axis at h
  split at h
  case h_1 text offset ts =>
    cases h
    exact ⟨.at_, [⟨.at_, text, offset⟩], rfl, rfl, rfl⟩
  case h_2 n text offset colons colonsAt ts =>
    split at h
    case h_1 x hx =>
      cases h
      exact ⟨.named a, [⟨.name n, text, offset⟩, ⟨.doubleColon, colons, colonsAt⟩], rfl,
        by rw [AxisMark.tokens, name_of_ofName? hx]; rfl, rfl⟩
    case h_2 => cases h
  case h_3 =>
    cases h
    exact ⟨.absent, [], rfl, rfl, rfl⟩

theorem marks_of_nodeTest {ts rest : List Lexeme} {test : NodeTest}
    (h : nodeTest ts = .ok (test, rest)) :
    ∃ (m : TestMark) (us : List Lexeme), ts = us ++ rest ∧ tokensOf us = m.tokens ∧
      m.value = test := by
  unfold nodeTest at h
  split at h
  case h_1 text offset ts =>
    cases h
    exact ⟨.any, [⟨.star, text, offset⟩], rfl, rfl, rfl⟩
  case h_2 pfx text offset ts =>
    cases h
    exact ⟨.inNamespace pfx, [⟨.anyWithPrefix pfx, text, offset⟩], rfl, rfl, rfl⟩
  case h_3 n text offset ts =>
    dsimp only at h
    split at h
    case h_1 text' offset' inside =>
      split at h
      case isTrue =>
        split at h
        case h_1 text'' offset'' after =>
          split at h
          case h_1 =>
            cases h
            exact ⟨.text, [⟨_, text, offset⟩, ⟨_, text', offset'⟩, ⟨_, text'', offset''⟩],
              rfl, rfl, rfl⟩
          case h_2 =>
            cases h
            exact ⟨.node, [⟨_, text, offset⟩, ⟨_, text', offset'⟩, ⟨_, text'', offset''⟩],
              rfl, rfl, rfl⟩
          case h_3 =>
            cases h
            exact ⟨.comment, [⟨_, text, offset⟩, ⟨_, text', offset'⟩, ⟨_, text'', offset''⟩],
              rfl, rfl, rfl⟩
          case h_4 => cases h
        case h_2 => cases h
      case isFalse =>
        cases h
        exact ⟨.name n, [⟨.name n, text, offset⟩], rfl, rfl, rfl⟩
    case h_2 =>
      cases h
      exact ⟨.name n, [⟨.name n, text, offset⟩], rfl, rfl, rfl⟩
  case h_4 => cases h

/-! ## The reader -/

/-- What the functions of the reader give with this fuel is derived. -/
structure Sound (fuel : Nat) : Prop where
  phrase : ∀ {l ts e rest}, phrase fuel l ts = .ok (e, rest) → Derives (.phrase l) ts e rest
  operators : ∀ {l left ts e rest}, operands fuel l left ts = .ok (e, rest) →
    ∃ f, Derives (.operators l) ts f rest ∧ f left = e
  unions : ∀ {left ts e rest}, unions fuel left ts = .ok (e, rest) →
    ∃ f, Derives .unions ts f rest ∧ f left = e
  path : ∀ {ts e rest}, pathExpr fuel ts = .ok (e, rest) → Derives .path ts e rest
  steps : ∀ {ts ss rest}, moreSteps fuel ts = .ok (ss, rest) → Derives .steps ts ss rest
  step : ∀ {ts s rest}, step fuel ts = .ok (s, rest) → Derives .step ts s rest
  predicates : ∀ {ts ps rest}, predicates fuel ts = .ok (ps, rest) → Derives .predicates ts ps rest
  primary : ∀ {ts e rest}, startsPrimary ts = true → primary fuel ts = .ok (e, rest) →
    Derives .primary ts e rest
  arguments : ∀ {ts es rest}, arguments fuel ts = .ok (es, rest) → Derives .arguments ts es rest

theorem sound_zero : Sound 0 where
  phrase {l _ _ _} h := by cases l <;> cases h
  operators h := by cases h
  unions h := by cases h
  path h := by cases h
  steps h := by cases h
  step h := by cases h
  predicates h := by cases h
  primary _ h := by cases h
  arguments h := by cases h

section Functions

variable {fuel : Nat} {ts rest : List Lexeme}

theorem sound_level (h : Sound fuel) {l : Level} {e : Expr}
    (hread : Grammar.level (fuel + 1) l ts = .ok (e, rest)) :
    Derives (.phrase (some l)) ts e rest := by
  rw [level_succ] at hread
  obtain ⟨⟨left, ts'⟩, hleft, hread⟩ := bind_eq_ok.1 hread
  obtain ⟨f, hf, rfl⟩ := h.operators hread
  exact (h.phrase hleft).operand hf

theorem sound_unary (h : Sound fuel) {e : Expr}
    (hread : Grammar.unary (fuel + 1) ts = .ok (e, rest)) :
    Derives (.phrase none) ts e rest := by
  unfold Grammar.unary at hread
  split at hread
  case h_1 hfuel => cases hfuel
  case h_2 hfuel =>
    cases hfuel
    obtain ⟨⟨e, ts'⟩, he, hread⟩ := bind_eq_ok.1 hread
    cases hread
    exact .negate rfl (h.phrase he)
  case h_3 hfuel _ =>
    cases hfuel
    obtain ⟨⟨left, ts'⟩, hleft, hread⟩ := bind_eq_ok.1 hread
    obtain ⟨f, hf, rfl⟩ := h.unions hread
    exact (h.path hleft).union hf

theorem sound_operands (h : Sound fuel) {l : Level} {left e : Expr}
    (hread : Grammar.operands (fuel + 1) l left ts = .ok (e, rest)) :
    ∃ f, Derives (.operators l) ts f rest ∧ f left = e := by
  cases ts with
  | nil =>
    rw [operands_nil] at hread
    cases hread
    exact ⟨id, .noOperator l, rfl⟩
  | cons t ts =>
    rw [operands_cons] at hread
    cases hop : l.operator? t.token with
    | none =>
      rw [hop] at hread
      cases hread
      exact ⟨id, .noOperator l, rfl⟩
    | some join =>
      rw [hop] at hread
      obtain ⟨⟨right, ts'⟩, hright, hread⟩ := bind_eq_ok.1 hread
      obtain ⟨f, hf, rfl⟩ := h.operators hread
      exact ⟨_, .operator hop (h.phrase hright) hf, rfl⟩

theorem sound_unions (h : Sound fuel) {left e : Expr}
    (hread : Grammar.unions (fuel + 1) left ts = .ok (e, rest)) :
    ∃ f, Derives .unions ts f rest ∧ f left = e := by
  unfold Grammar.unions at hread
  split at hread
  case h_1 hfuel => cases hfuel
  case h_2 hfuel =>
    cases hfuel
    obtain ⟨⟨right, ts'⟩, hright, hread⟩ := bind_eq_ok.1 hread
    obtain ⟨f, hf, rfl⟩ := h.unions hread
    exact ⟨_, .pipe rfl (h.path hright) hf, rfl⟩
  case h_3 =>
    cases hread
    exact ⟨id, .noUnion, rfl⟩

theorem sound_path (h : Sound fuel) {e : Expr}
    (hread : pathExpr (fuel + 1) ts = .ok (e, rest)) : Derives .path ts e rest := by
  unfold pathExpr at hread
  split at hread
  case isTrue hopens =>
    obtain ⟨⟨p, ts'⟩, hp, hread⟩ := bind_eq_ok.1 hread
    obtain ⟨⟨preds, ts''⟩, hpreds, hread⟩ := bind_eq_ok.1 hread
    obtain ⟨⟨ss, ts'''⟩, hss, hread⟩ := bind_eq_ok.1 hread
    cases hread
    exact .filter (h.primary hopens hp) (h.predicates hpreds) (h.steps hss)
  case isFalse =>
    split at hread
    case h_1 =>
      split at hread
      case isTrue =>
        obtain ⟨⟨s, ts'⟩, hs, hread⟩ := bind_eq_ok.1 hread
        obtain ⟨⟨ss, ts''⟩, hss, hread⟩ := bind_eq_ok.1 hread
        cases hread
        exact .absolute rfl (h.step hs) (h.steps hss)
      case isFalse hnone =>
        cases hread
        exact .root rfl (Bool.eq_false_iff.2 hnone)
    case h_2 =>
      obtain ⟨⟨s, ts'⟩, hs, hread⟩ := bind_eq_ok.1 hread
      obtain ⟨⟨ss, ts''⟩, hss, hread⟩ := bind_eq_ok.1 hread
      cases hread
      exact .anywhere rfl (h.step hs) (h.steps hss)
    case h_3 =>
      obtain ⟨⟨s, ts'⟩, hs, hread⟩ := bind_eq_ok.1 hread
      obtain ⟨⟨ss, ts''⟩, hss, hread⟩ := bind_eq_ok.1 hread
      cases hread
      exact (h.step hs).relative (h.steps hss)

theorem sound_steps (h : Sound fuel) {ss : List Step}
    (hread : moreSteps (fuel + 1) ts = .ok (ss, rest)) : Derives .steps ts ss rest := by
  unfold moreSteps at hread
  split at hread
  case h_1 hfuel => cases hfuel
  case h_2 hfuel =>
    cases hfuel
    obtain ⟨⟨s, ts'⟩, hs, hread⟩ := bind_eq_ok.1 hread
    obtain ⟨⟨ss, ts''⟩, hss, hread⟩ := bind_eq_ok.1 hread
    cases hread
    exact .slash rfl (h.step hs) (h.steps hss)
  case h_3 hfuel =>
    cases hfuel
    obtain ⟨⟨s, ts'⟩, hs, hread⟩ := bind_eq_ok.1 hread
    obtain ⟨⟨ss, ts''⟩, hss, hread⟩ := bind_eq_ok.1 hread
    cases hread
    exact .doubleSlash rfl (h.step hs) (h.steps hss)
  case h_4 =>
    cases hread
    exact .noStep

theorem sound_step (h : Sound fuel) {s : Step}
    (hread : Grammar.step (fuel + 1) ts = .ok (s, rest)) : Derives .step ts s rest := by
  unfold Grammar.step at hread
  split at hread
  case h_1 hfuel => cases hfuel
  case h_2 =>
    cases hread
    exact .self rfl
  case h_3 =>
    cases hread
    exact .parent rfl
  case h_4 hfuel _ _ =>
    cases hfuel
    obtain ⟨⟨a, ts'⟩, ha, hread⟩ := bind_eq_ok.1 hread
    obtain ⟨⟨test, ts''⟩, htest, hread⟩ := bind_eq_ok.1 hread
    obtain ⟨⟨preds, ts'''⟩, hpreds, hread⟩ := bind_eq_ok.1 hread
    cases hread
    obtain ⟨ma, ua, rfl, hua, rfl⟩ := marks_of_axis ha
    obtain ⟨mt, um, rfl, hum, rfl⟩ := marks_of_nodeTest htest
    exact .test hua hum (h.predicates hpreds)

theorem sound_predicates (h : Sound fuel) {ps : List Expr}
    (hread : Grammar.predicates (fuel + 1) ts = .ok (ps, rest)) :
    Derives .predicates ts ps rest := by
  unfold Grammar.predicates at hread
  split at hread
  case h_1 hfuel => cases hfuel
  case h_2 hfuel =>
    cases hfuel
    obtain ⟨⟨e, ts'⟩, he, hread⟩ := bind_eq_ok.1 hread
    dsimp only at hread
    split at hread
    case h_1 =>
      obtain ⟨⟨ps, ts''⟩, hps, hread⟩ := bind_eq_ok.1 hread
      cases hread
      exact .predicate rfl rfl (h.phrase he) (h.predicates hps)
    case h_2 => cases hread
  case h_3 =>
    cases hread
    exact .noPredicate

theorem sound_primary (h : Sound fuel) {e : Expr} (hopens : startsPrimary ts = true)
    (hread : Grammar.primary (fuel + 1) ts = .ok (e, rest)) : Derives .primary ts e rest := by
  unfold Grammar.primary at hread
  split at hread
  case h_1 hfuel => cases hfuel
  case h_2 =>
    cases hread
    exact .literal rfl
  case h_3 =>
    cases hread
    exact .number rfl
  case h_4 hfuel =>
    cases hfuel
    obtain ⟨⟨e, ts'⟩, he, hread⟩ := bind_eq_ok.1 hread
    dsimp only at hread
    split at hread
    case h_1 =>
      cases hread
      exact .group rfl rfl (h.phrase he)
    case h_2 => cases hread
  case h_5 name text offset ts hfuel =>
    cases hfuel
    dsimp only at hread
    split at hread
    case h_1 =>
      cases hread
      exact .call (by simpa [startsPrimary] using hopens) rfl rfl rfl
    case h_2 =>
      obtain ⟨⟨args, ts'⟩, hargs, hread⟩ := bind_eq_ok.1 hread
      cases hread
      exact .callWith (by simpa [startsPrimary] using hopens) rfl rfl (h.arguments hargs)
    case h_3 => cases hread
  case h_6 => cases hread

theorem sound_arguments (h : Sound fuel) {es : List Expr}
    (hread : Grammar.arguments (fuel + 1) ts = .ok (es, rest)) : Derives .arguments ts es rest := by
  rw [Grammar.arguments] at hread
  obtain ⟨⟨e, ts'⟩, he, hread⟩ := bind_eq_ok.1 hread
  dsimp only at hread
  split at hread
  case h_1 =>
    obtain ⟨⟨es, ts''⟩, hes, hread⟩ := bind_eq_ok.1 hread
    cases hread
    exact .argument rfl (h.phrase he) (h.arguments hes)
  case h_2 =>
    cases hread
    exact .lastArgument rfl (h.phrase he)
  case h_3 => cases hread

end Functions

theorem sound (fuel : Nat) : Sound fuel := by
  induction fuel with
  | zero => exact sound_zero
  | succ fuel ih =>
    exact {
      phrase := fun {l _ _ _} hread => by
        cases l with
        | none => exact sound_unary ih hread
        | some l => exact sound_level ih hread
      operators := sound_operands ih
      unions := sound_unions ih
      path := sound_path ih
      steps := sound_steps ih
      step := sound_step ih
      predicates := sound_predicates ih
      primary := sound_primary ih
      arguments := sound_arguments ih }

/-! ## Whole expressions -/

/-- A derivation of an expression from all of a list of tokens. -/
structure Derivation (ts : List Token) where
  tree : Tree (.phrase (some .disjunction))
  tokens : tree.tokens = ts
  fits : tree.Fits []

theorem derivation_of_expression {ts : List Lexeme} {e : Expr} (h : expression ts = .ok e) :
    ∃ d : Derivation (tokensOf ts), d.tree.value = e := by
  unfold expression at h
  split at h
  case isTrue => cases h
  case isFalse =>
    obtain ⟨⟨e, rest⟩, hread, h⟩ := bind_eq_ok.1 h
    dsimp only at h
    split at h
    case isTrue hrest =>
      cases h
      obtain rfl := List.isEmpty_iff.1 hrest
      obtain ⟨t, us, rfl, hus, hfits, rfl⟩ :=
        (sound (sufficientFuel ts)).phrase (l := some .disjunction) hread
      rw [List.append_nil]
      exact ⟨⟨t, hus.symm, hfits⟩, rfl⟩
    case isFalse => cases h

theorem expression_of_derivation {ts : List Lexeme} (d : Derivation (tokensOf ts)) :
    expression ts = .ok d.tree.value := by
  obtain ⟨t, htokens, hfits⟩ := d
  have hread : phrase (sufficientFuel ts) (some .disjunction) (ts ++ []) = .ok (t.value, []) :=
    @Tree.reads _ t ts [] (sufficientFuel ts) htokens.symm hfits (loose_nil _)
      (by simp only [sufficientFuel, Symbol.reserve, rank]; omega)
  have hempty : ¬ ts.isEmpty = true := by
    intro h
    obtain rfl := List.isEmpty_iff.1 h
    obtain ⟨u, us, h, -⟩ := htokens ▸ t.opens
    cases h
  rw [List.append_nil] at hread
  unfold expression
  rw [if_neg hempty]
  exact bind_eq_ok.2 ⟨_, hread, rfl⟩

end LabelTemplate.XPath.Grammar
