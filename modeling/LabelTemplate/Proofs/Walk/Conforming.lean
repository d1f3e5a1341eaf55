import LabelTemplate.Proofs.Outcome
import LabelTemplate.Template.ElementState

/-!
# Values conformed to a directive

`Conforms` says step by step how a value is conformed: which of its items is
looked at next, and where the conforming stops.  An item is looked at only when
its turn comes, while `conform` has the results of all items at hand.  A step
goes from a value to its items, so a value comes to exactly one result, and that
is the one of `conform` (`conforms_iff`).

A result is of a type that the directive takes (`Conformed.Fits`).  Each
directive stores or fills in every such type, so once an expression has been
evaluated nothing is refused any more (`conform_typed`).
-/

namespace LabelTemplate

open Xml XPath

/-- What may come of conforming: a value of a type that the directive takes, or,
for a fill that no branch chooses from, a list of texts. -/
def Conformed.Fits (s : ElementState) (d : Directive) : Conformed → Prop
  | boolean _ => d.types.boolean = true
  | integer _ => d.types.integer = true
  | text _ => d.types.string = true
  | texts values => d = .fill ∧ s.multiBranch = none ∧ 2 ≤ values.length

/-- The items of a node-set or a sequence; each node is a node-set of its own. -/
def XPath.Value.items? : Value → Option (List Value)
  | nodes hs => some (hs.map fun h => nodes [h])
  | sequence items => some items
  | _ => none

namespace ElementState

/-- How a value comes to a result.  Of several items a branch takes one; without
a branch they are taken in order, as long as they give texts. -/
inductive Conforms (s : ElementState) (env : Environment) (d : Directive) :
    Value → Except Error Conformed → Prop where
  | scalar {v : Value} (hitems : v.items? = none) : Conforms s env d v (s.conformScalar env d v)
  | node (h : Handle) : Conforms s env d (.nodes [h]) (s.conformNode env d h)
  | empty {v : Value} (hitems : v.items? = some []) :
      Conforms s env d v (s.fail env (.emptyNodeSet (s.declaration d)))
  | only {item : Value} {r : Except Error Conformed} (next : Conforms s env d item r) :
      Conforms s env d (.sequence [item]) r
  | tooMany {v : Value} {items : List Value} (hitems : v.items? = some items)
      (several : 2 ≤ items.length) (other : d ≠ .fill) :
      Conforms s env d v (s.fail env (.multipleResults (s.declaration d) items.length))
  | branch {v item : Value} {items : List Value} {k : Nat} {r : Except Error Conformed}
      (hitems : v.items? = some items) (several : 2 ≤ items.length) (fill : d = .fill)
      (hbranch : s.multiBranch = some k) (hk : items[k]? = some item)
      (next : Conforms s env d item r) : Conforms s env d v r
  | noBranch {v : Value} {items : List Value} {k : Nat} (hitems : v.items? = some items)
      (several : 2 ≤ items.length) (fill : d = .fill) (hbranch : s.multiBranch = some k)
      (hk : items.length ≤ k) :
      Conforms s env d v (s.fail env (.noBranchResult (s.declaration d) items.length k))
  | all {v : Value} {items : List Value} {texts : List String} (hitems : v.items? = some items)
      (several : 2 ≤ items.length) (fill : d = .fill) (hbranch : s.multiBranch = none)
      (hlength : items.length = texts.length)
      (each : ∀ p ∈ items.zip texts, Conforms s env d p.1 (.ok (.text p.2))) :
      Conforms s env d v (.ok (.texts texts))
  | failed {v item : Value} {front back : List Value} {texts : List String} {e : Error}
      (hitems : v.items? = some (front ++ item :: back))
      (several : 2 ≤ (front ++ item :: back).length) (fill : d = .fill)
      (hbranch : s.multiBranch = none) (hlength : front.length = texts.length)
      (each : ∀ p ∈ front.zip texts, Conforms s env d p.1 (.ok (.text p.2)))
      (next : Conforms s env d item (.error e)) : Conforms s env d v (.error e)
  | noText {v item : Value} {front back : List Value} {texts : List String} {c : Conformed}
      (hitems : v.items? = some (front ++ item :: back))
      (several : 2 ≤ (front ++ item :: back).length) (fill : d = .fill)
      (hbranch : s.multiBranch = none) (hlength : front.length = texts.length)
      (each : ∀ p ∈ front.zip texts, Conforms s env d p.1 (.ok (.text p.2)))
      (next : Conforms s env d item (.ok c)) (hc : ∀ t, c ≠ .text t) :
      Conforms s env d v (s.notCastable env d (showConformed c))

variable {s : ElementState} {env : Environment} {d : Directive}

/-! ## The texts of several items -/

/-- All items are texts. -/
theorem allTexts_texts (texts : List String) :
    s.allTexts env d (texts.map fun t => .ok (.text t)) = .ok texts := by
  induction texts with
  | nil => rfl
  | cons t texts ih =>
    rw [List.map_cons]
    change (do return t :: (← s.allTexts env d _)) = _
    rw [ih]
    rfl

/-- Texts stop at the first item that is none. -/
theorem allTexts_append (texts : List String) (items : List (Except Error Conformed)) :
    s.allTexts env d (texts.map (fun t => .ok (.text t)) ++ items) =
      (s.allTexts env d items).map (texts ++ ·) := by
  induction texts with
  | nil =>
    rw [List.map_nil, List.nil_append]
    cases s.allTexts env d items <;> rfl
  | cons t texts ih =>
    rw [List.map_cons, List.cons_append]
    change (do return t :: (← s.allTexts env d _)) = _
    rw [ih]
    cases s.allTexts env d items <;> rfl

/-- Either all items are texts, or there is a first one that is none. -/
theorem texts_or_first (items : List (Except Error Conformed)) :
    (∃ texts : List String, items = texts.map fun t => .ok (.text t)) ∨
      ∃ (texts : List String) (item : Except Error Conformed)
        (back : List (Except Error Conformed)),
        items = texts.map (fun t => .ok (.text t)) ++ item :: back ∧ ∀ t, item ≠ .ok (.text t) := by
  induction items with
  | nil => exact .inl ⟨[], rfl⟩
  | cons item items ih =>
    by_cases h : ∃ t, item = .ok (.text t)
    · obtain ⟨t, rfl⟩ := h
      obtain ⟨texts, rfl⟩ | ⟨texts, x, back, rfl, hx⟩ := ih
      · exact .inl ⟨t :: texts, rfl⟩
      · exact .inr ⟨t :: texts, x, back, rfl, hx⟩
    · exact .inr ⟨[], item, items, rfl, fun t ht => h ⟨t, ht⟩⟩

/-! ## The items of a value -/

theorem conformAll_eq_map (vs : List Value) : s.conformAll env d vs = vs.map (s.conform env d) := by
  induction vs with
  | nil => rfl
  | cons v vs ih => rw [conformAll, ih, List.map_cons]

theorem conform_node (h : Handle) : s.conform env d (.nodes [h]) = s.conformNode env d h := by
  rw [conform]
  rfl

/-- A value is conformed by what its items conform to. -/
theorem conform_of_items {v : Value} {items : List Value} (h : v.items? = some items) :
    s.conform env d v = s.conformItems env d (items.map (s.conform env d)) := by
  cases v with
  | nodes hs =>
    cases h
    rw [conform, List.map_map]
    congr 1
  | sequence vs =>
    cases h
    rw [conform, conformAll_eq_map]
  | _ => cases h

theorem conform_of_scalar {v : Value} (h : v.items? = none) :
    s.conform env d v = s.conformScalar env d v := by
  cases v with
  | nodes hs => cases h
  | sequence vs => cases h
  | _ => simp only [conform]

/-- Several items are refused, chosen from or taken together. -/
theorem conformItems_several {items : List (Except Error Conformed)} (h : 2 ≤ items.length) :
    s.conformItems env d items =
      if d ≠ .fill then s.fail env (.multipleResults (s.declaration d) items.length)
      else
        match s.multiBranch with
        | some k =>
          match items[k]? with
          | some item => item
          | none => s.fail env (.noBranchResult (s.declaration d) items.length k)
        | none => (s.allTexts env d items).map .texts := by
  match items, h with
  | _ :: _ :: _, _ => rfl

theorem conform_several {v : Value} {items : List Value} (hitems : v.items? = some items)
    (h : 2 ≤ items.length) :
    s.conform env d v =
      if d ≠ .fill then s.fail env (.multipleResults (s.declaration d) items.length)
      else
        match s.multiBranch with
        | some k =>
          match items[k]? with
          | some item => s.conform env d item
          | none => s.fail env (.noBranchResult (s.declaration d) items.length k)
        | none => (s.allTexts env d (items.map (s.conform env d))).map .texts := by
  rw [conform_of_items hitems, conformItems_several (by rwa [List.length_map]), List.length_map]
  cases s.multiBranch with
  | none => rfl
  | some k =>
    simp only [List.getElem?_map]
    cases items[k]? <;> rfl

/-! ## The result of the steps -/

/-- Items conform to texts if each one conforms to its text. -/
theorem map_conform_eq_texts_iff {items : List Value} {texts : List String} :
    (items.map (s.conform env d) = texts.map fun t => .ok (.text t)) ↔
      items.length = texts.length ∧
        ∀ p ∈ items.zip texts, s.conform env d p.1 = .ok (.text p.2) := by
  induction items generalizing texts with
  | nil => cases texts <;> simp
  | cons item items ih =>
    cases texts with
    | nil => simp
    | cons t texts =>
      rw [List.map_cons, List.map_cons, List.cons.injEq, ih, List.zip_cons_cons,
        List.forall_mem_cons, List.length_cons, List.length_cons, Nat.succ_inj]
      exact and_left_comm

/-- What the steps come to is what is computed. -/
theorem Conforms.conform_eq {v : Value} {r : Except Error Conformed} (h : Conforms s env d v r) :
    s.conform env d v = r := by
  induction h with
  | scalar hitems => exact conform_of_scalar hitems
  | node h => exact conform_node h
  | empty hitems =>
    rw [conform_of_items hitems]
    rfl
  | only _ ih =>
    rw [conform_of_items rfl, List.map_singleton, ih]
    rfl
  | tooMany hitems several other => rw [conform_several hitems several, if_pos other]
  | branch hitems several fill hbranch hk _ ih =>
    rw [conform_several hitems several, if_neg (not_not_intro fill), hbranch]
    simpa only [hk] using ih
  | noBranch hitems several fill hbranch hk =>
    rw [conform_several hitems several, if_neg (not_not_intro fill), hbranch]
    simp only [List.getElem?_eq_none hk]
  | all hitems several fill hbranch hlength _ ih =>
    rw [conform_several hitems several, if_neg (not_not_intro fill), hbranch]
    simp only [map_conform_eq_texts_iff.2 ⟨hlength, ih⟩, allTexts_texts]
    rfl
  | failed hitems several fill hbranch hlength _ _ ih next =>
    rw [conform_several hitems several, if_neg (not_not_intro fill), hbranch]
    simp only [List.map_append, List.map_cons, map_conform_eq_texts_iff.2 ⟨hlength, ih⟩, next,
      allTexts_append]
    rfl
  | @noText v item front back texts c hitems several fill hbranch hlength _ _ hc ih next =>
    rw [conform_several hitems several, if_neg (not_not_intro fill), hbranch]
    simp only [List.map_append, List.map_cons, map_conform_eq_texts_iff.2 ⟨hlength, ih⟩, next,
      allTexts_append]
    cases c with
    | text t => exact absurd rfl (hc t)
    | _ => rfl

/-- The steps of several items that are filled in without a branch, given those of the items. -/
theorem conforms_of_unbranched {v : Value} {items : List Value} (hitems : v.items? = some items)
    (several : 2 ≤ items.length) (fill : d = .fill) (hbranch : s.multiBranch = none)
    (each : ∀ item ∈ items, Conforms s env d item (s.conform env d item)) :
    Conforms s env d v (s.conform env d v) := by
  rw [conform_several hitems several, if_neg (not_not_intro fill), hbranch]
  dsimp only
  obtain ⟨texts, htexts⟩ | ⟨texts, x, back, hfirst, hx⟩ :=
    texts_or_first (items.map (s.conform env d))
  · rw [htexts, allTexts_texts]
    obtain ⟨hlength, heach⟩ := map_conform_eq_texts_iff.1 htexts
    refine .all hitems several fill hbranch hlength fun p hp => ?_
    rw [← heach p hp]
    exact each p.1 (List.of_mem_zip hp).1
  · rw [hfirst, allTexts_append]
    obtain ⟨front, behind, rfl, hfront, hbehind⟩ := List.map_eq_append_iff.1 hfirst
    obtain ⟨item, rest, rfl, hitem, -⟩ := List.map_eq_cons_iff.1 hbehind
    obtain ⟨hlength, heach⟩ := map_conform_eq_texts_iff.1 hfront
    have hbefore : ∀ p ∈ front.zip texts, Conforms s env d p.1 (.ok (.text p.2)) := by
      intro p hp
      rw [← heach p hp]
      exact each p.1 (List.mem_append_left _ (List.of_mem_zip hp).1)
    have hnext : Conforms s env d item x :=
      hitem ▸ each item (List.mem_append_right _ List.mem_cons_self)
    cases x with
    | error e => exact .failed hitems several fill hbranch hlength hbefore hnext
    | ok c =>
      have hc : ∀ t, c ≠ .text t := fun t h => hx t (congrArg Except.ok h)
      cases c with
      | text t => exact absurd rfl (hc t)
      | _ => exact .noText hitems several fill hbranch hlength hbefore hnext hc

/-- The steps of a value with items, given those of the items. -/
theorem conforms_of_items {v : Value} {items : List Value} (hitems : v.items? = some items)
    (hnode : ∀ h, v ≠ .nodes [h])
    (each : ∀ item ∈ items, Conforms s env d item (s.conform env d item)) :
    Conforms s env d v (s.conform env d v) := by
  obtain hnone | hone | several : items.length = 0 ∨ items.length = 1 ∨ 2 ≤ items.length := by
    omega
  · obtain rfl := List.length_eq_zero_iff.1 hnone
    rw [conform_of_items hitems]
    exact .empty hitems
  · obtain ⟨item, rfl⟩ := List.length_eq_one_iff.1 hone
    cases v with
    | nodes hs =>
      have hlength : hs.length = 1 := by
        rw [← List.length_map, Option.some.inj hitems]
        rfl
      obtain ⟨h, rfl⟩ := List.length_eq_one_iff.1 hlength
      exact absurd rfl (hnode h)
    | sequence vs =>
      cases hitems
      rw [conform_of_items rfl]
      exact .only (each item List.mem_cons_self)
    | _ => cases hitems
  · by_cases fill : d = .fill
    · cases hbranch : s.multiBranch with
      | some k =>
        rw [conform_several hitems several, if_neg (not_not_intro fill), hbranch]
        dsimp only
        cases hk : items[k]? with
        | some item =>
          exact .branch hitems several fill hbranch hk (each item (List.mem_of_getElem? hk))
        | none => exact .noBranch hitems several fill hbranch (List.getElem?_eq_none_iff.1 hk)
      | none => exact conforms_of_unbranched hitems several fill hbranch each
    · rw [conform_several hitems several, if_pos fill]
      exact .tooMany hitems several fill

mutual

/-- Every value comes to a result. -/
theorem conforms_conform : ∀ v : Value, Conforms s env d v (s.conform env d v)
  | .boolean b => conform_of_scalar (v := .boolean b) rfl ▸ .scalar rfl
  | .number x => conform_of_scalar (v := .number x) rfl ▸ .scalar rfl
  | .string t => conform_of_scalar (v := .string t) rfl ▸ .scalar rfl
  | .nodes hs => by
    by_cases hone : ∃ h, hs = [h]
    · obtain ⟨h, rfl⟩ := hone
      exact conform_node h ▸ .node h
    · refine conforms_of_items rfl (fun h heq => hone ⟨h, Value.nodes.inj heq⟩) fun item hitem => ?_
      obtain ⟨h, -, rfl⟩ := List.mem_map.1 hitem
      exact conform_node h ▸ .node h
  | .sequence items => conforms_of_items rfl (fun _ h => nomatch h) (conforms_all items)

theorem conforms_all : ∀ vs : List Value, ∀ v ∈ vs, Conforms s env d v (s.conform env d v)
  | [] => fun _ h => nomatch h
  | v :: vs => List.forall_mem_cons.2 ⟨conforms_conform v, conforms_all vs⟩

end

/-- A value comes to one result, which is the one that is computed. -/
theorem conforms_iff {v : Value} {r : Except Error Conformed} :
    Conforms s env d v r ↔ s.conform env d v = r :=
  ⟨Conforms.conform_eq, fun h => h ▸ conforms_conform v⟩

/-! ## The types of a result -/

theorem fits_of_conformScalar {v : Value} {c : Conformed} (h : s.conformScalar env d v = .ok c) :
    c.Fits s d := by
  unfold conformScalar at h
  dsimp only at h
  split at h
  · split_ifs at h with hboolean hstring
    · cases h
      exact hboolean
    · cases h
      exact hstring
    · cases h
  · split_ifs at h with hinteger hnegative hstring
    · cases h
    · cases h
      exact hinteger
    · cases h
      exact hstring
    · cases h
  · split_ifs at h with hstring
    · cases h
      exact hstring
    · cases h
  · cases h

theorem fits_of_conformNode {h : Handle} {c : Conformed} (hc : s.conformNode env d h = .ok c) :
    c.Fits s d := by
  unfold conformNode at hc
  split at hc
  · cases hc
  · rename_i hstring
    have hstring : d.types.string = true := by simpa using hstring
    split at hc <;> cases hc <;> exact hstring

/-- What comes of the steps is of a type that the directive takes. -/
theorem Conforms.fits {v : Value} {c : Conformed} (h : Conforms s env d v (.ok c)) :
    c.Fits s d := by
  generalize hr : Except.ok c = r at h
  induction h with
  | scalar _ => exact fits_of_conformScalar hr.symm
  | node h => exact fits_of_conformNode hr.symm
  | only _ ih => exact ih hr
  | branch _ _ _ _ _ _ ih => exact ih hr
  | all _ several fill hbranch hlength _ _ =>
    cases hr
    exact ⟨fill, hbranch, hlength ▸ several⟩
  | _ => cases hr

/-! ## Evaluated directives -/

theorem fits_of_evaluateExpression {c : Conformed} (h : s.evaluateExpression env d = .ok c) :
    c.Fits s d := by
  unfold evaluateExpression at h
  split at h
  · obtain ⟨e, -, h⟩ := Outcome.bind_eq_ok.1 h
    obtain ⟨v, -, h⟩ := Outcome.bind_eq_ok.1 h
    exact (conforms_iff.2 h).fits
  · cases h

/-- A value of an expression is stored, whatever it is. -/
theorem evaluateExpression_of_store {e : Error} (hsources : d ≠ .sources) (hfill : d ≠ .fill)
    (h : s.store env d = .error e) : s.evaluateExpression env d = .error e := by
  obtain h | ⟨c, hc, h⟩ := Outcome.bind_eq_error.1 h
  · exact h
  · have hfits := fits_of_evaluateExpression hc
    cases d with
    | sources => exact absurd rfl hsources
    | fill => exact absurd rfl hfill
    | _ =>
      cases c with
      | texts values => exact absurd hfits.1 hfill
      | _ => first | (cases hfits; done) | cases h

theorem evaluateExpression_of_resolveDirective {e : Error} (hsources : d ≠ .sources)
    (h : s.resolveDirective env d = .error e) : s.evaluateExpression env d = .error e := by
  unfold resolveDirective at h
  split at h
  · exact absurd rfl hsources
  · cases h
  · split at h
    · exact evaluateExpression_of_store nofun nofun h
    · cases h
  · exact evaluateExpression_of_store ‹_› ‹_› h

theorem evaluateExpression_of_evalRequired {e : Error} (h : s.evalRequired env = .error e) :
    s.evaluateExpression env .required = .error e := by
  unfold evalRequired at h
  dsimp only at h
  split at h
  · obtain h | ⟨s', -, h⟩ := Outcome.bind_eq_error.1 h
    · exact evaluateExpression_of_store nofun nofun h
    · cases h
  · cases h

theorem evaluateExpression_of_evalFill {e : Error} (h : s.evalFill env = .error e) :
    s.evaluateExpression env .fill = .error e := by
  unfold evalFill at h
  split at h
  · cases h
  · obtain h | ⟨c, hc, h⟩ := Outcome.bind_eq_error.1 h
    · exact h
    · have hfits := fits_of_evaluateExpression hc
      cases c with
      | boolean b => cases hfits
      | integer n => cases hfits
      | text t => cases h
      | texts values => cases h

/-- A value is conformed in finitely many steps to one result.  If that is a
value, the directive takes its type, and a list is one of several texts for a fill
without a branch.  So a directive is refused only because its expression is: what
an expression has come to can be stored or filled in. -/
theorem conform_typed (s : ElementState) (env : Environment) (d : Directive) (v : Value) :
    (∃! r, Conforms s env d v r) ∧ Conforms s env d v (s.conform env d v) ∧
      (∀ c, s.conform env d v = .ok c → c.Fits s d) ∧
      (∀ e, d ≠ .sources → s.resolveDirective env d = .error e →
        s.evaluateExpression env d = .error e) ∧
      (∀ e, s.evalRequired env = .error e → s.evaluateExpression env .required = .error e) ∧
      (∀ e, s.evalFill env = .error e → s.evaluateExpression env .fill = .error e) :=
  ⟨⟨_, conforms_conform v, fun _ h => h.conform_eq.symm⟩, conforms_conform v,
    fun _ h => (conforms_iff.2 h).fits, fun _ => evaluateExpression_of_resolveDirective,
    fun _ => evaluateExpression_of_evalRequired, fun _ => evaluateExpression_of_evalFill⟩

/-- A fill takes the texts of a sequence in which sequences are nested. -/
theorem conform_typed_nested :
    (Conformed.texts ["true", "x"]).Fits {} .fill :=
  (conform_typed {} { docs := #[] } .fill
    (.sequence [.boolean true, .sequence [.sequence [.string "x"]]])).2.2.1 _ rfl

end ElementState

end LabelTemplate
