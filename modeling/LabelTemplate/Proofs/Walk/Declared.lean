import LabelTemplate.Proofs.Outcome
import LabelTemplate.Template.Declarations

/-!
# What an element declares

Declarations are added one attribute after the other.  `keeps_of_insert` is
the induction over them; it gives that there is at most one declaration per
directive, in the order of resolution (`sorted_of_foldlM`), and that every
declaration comes from an attribute (`exists_attribute`).
-/

namespace LabelTemplate

open Xml Outcome

theorem Directive.name_of_ofName? {name : String} {d : Directive}
    (h : Directive.ofName? name = some d) : d.name = name := by
  simpa using List.find?_some h

theorem Directive.ofName?_name (d : Directive) : Directive.ofName? d.name = some d := by
  cases d <;> rfl

theorem Directive.name_injective {d d' : Directive} (h : d.name = d'.name) : d = d' := by
  have hsome : Directive.ofName? d.name = Directive.ofName? d'.name := by rw [h]
  rw [ofName?_name, ofName?_name] at hsome
  exact Option.some.inj hsome

/-- True for the attributes that declare a given directive. -/
def Directive.names (d : Directive) (a : Attribute) : Bool :=
  a.name.hasName (some directiveNamespace) d.name

theorem Directive.eq_of_names {d d' : Directive} {a : Attribute} (h : d.names a = true)
    (h' : d'.names a = true) : d = d' := by
  simp only [names, QName.hasName, Bool.and_eq_true, beq_iff_eq] at h h'
  exact name_injective (h.2.symm.trans h'.2)

theorem Directive.not_names {a : Attribute} (h : isDirectiveAttribute a = false)
    (d : Directive) : d.names a = false := by
  have huri : a.name.namespaceUri ≠ some directiveNamespace := by
    simpa [isDirectiveAttribute] using h
  simp [names, QName.hasName, huri]

namespace Declarations

theorem mem_insert {x y : Declared} {ds : Declarations} (h : y ∈ ds.insert x) :
    y = x ∨ y ∈ ds := by
  induction ds with
  | nil => exact .inl (List.mem_singleton.1 h)
  | cons d ds ih =>
    simp only [insert] at h
    split_ifs at h
    · rcases List.mem_cons.1 h with rfl | h
      · exact .inl rfl
      · exact .inr (List.mem_cons_of_mem _ h)
    · rcases List.mem_cons.1 h with rfl | h
      · exact .inl rfl
      · exact .inr h
    · rcases List.mem_cons.1 h with rfl | h
      · exact .inr List.mem_cons_self
      · exact (ih h).imp_right (List.mem_cons_of_mem _)

/-- What is found for a declared directive is a declaration. -/
theorem declaration_mem {ds : Declarations} {x : Declared} (h : x ∈ ds) :
    (⟨x.directive, (ds.expression? x.directive).getD ""⟩ : Declared) ∈ ds := by
  obtain ⟨y, hy⟩ : ∃ y, ds.find? (·.directive = x.directive) = some y :=
    Option.isSome_iff_exists.1 (List.find?_isSome.2 ⟨x, h, by simp⟩)
  have hd : y.directive = x.directive := by simpa using List.find?_some hy
  rw [expression?, hy, ← hd]
  exact List.mem_of_find?_eq_some hy

theorem exists_of_declares {ds : Declarations} {d : Directive} (h : ds.declares d = true) :
    ∃ x ∈ ds, x.directive = d := by
  simpa [declares, expression?] using h

theorem declares_of_mem {ds : Declarations} {x : Declared} (h : x ∈ ds) :
    ds.declares x.directive = true := by
  simp only [declares, expression?, Option.isSome_map, List.find?_isSome]
  exact ⟨x, h, by simp⟩

theorem expression?_cons (x : Declared) (ds : Declarations) (d : Directive) :
    expression? (x :: ds) d = if x.directive = d then some x.expression else ds.expression? d := by
  by_cases h : x.directive = d <;> simp [expression?, h]

theorem expression?_insert (x : Declared) (ds : Declarations) (d : Directive) :
    (ds.insert x).expression? d = if x.directive = d then some x.expression else ds.expression? d := by
  induction ds with
  | nil => exact expression?_cons x [] d
  | cons y ds ih =>
    rw [insert]
    by_cases hsame : x.directive = y.directive
    · rw [if_pos hsame, expression?_cons, expression?_cons, ← hsame]
      split <;> rfl
    · rw [if_neg hsame]
      by_cases hless : x.directive.rank < y.directive.rank
      · rw [if_pos hless, expression?_cons]
      · rw [if_neg hless, expression?_cons, ih, expression?_cons]
        by_cases hd : x.directive = d
        · rw [if_pos hd, if_pos hd, if_neg fun h => hsame (hd.trans h.symm)]
        · rw [if_neg hd, if_neg hd]

/-! ## The order of declarations -/

/-- One declaration per directive at most, in the order of resolution. -/
def Sorted (ds : Declarations) : Prop :=
  ds.Pairwise fun x y => x.directive.rank < y.directive.rank

theorem rank_injective {d d' : Directive} (h : d.rank = d'.rank) : d = d' := by
  cases d <;> cases d' <;> first | rfl | cases h

theorem Sorted.insert {ds : Declarations} (h : ds.Sorted) (x : Declared) :
    Sorted (ds.insert x) := by
  induction ds with
  | nil => exact List.pairwise_singleton _ _
  | cons y ds ih =>
    obtain ⟨hy, hds⟩ := List.pairwise_cons.1 h
    unfold Declarations.insert
    split_ifs with hsame hless
    · exact List.pairwise_cons.2 ⟨fun z hz => hsame ▸ hy z hz, hds⟩
    · refine List.pairwise_cons.2 ⟨fun z hz => ?_, h⟩
      rcases List.mem_cons.1 hz with rfl | hz
      · exact hless
      · exact Nat.lt_trans hless (hy z hz)
    · refine List.pairwise_cons.2 ⟨fun z hz => ?_, ih hds⟩
      rcases mem_insert hz with rfl | hz
      · exact Nat.lt_of_le_of_ne (Nat.le_of_not_lt hless) fun he => hsame (rank_injective he.symm)
      · exact hy z hz

/-- A declaration stands behind those of lower rank and in front of those of higher
rank. -/
theorem Sorted.around {front back : Declarations} {x : Declared}
    (h : Sorted (front ++ x :: back)) :
    (∀ y ∈ front, y.directive.rank < x.directive.rank) ∧
      ∀ y ∈ back, x.directive.rank < y.directive.rank := by
  obtain ⟨-, hlater, hfront⟩ := List.pairwise_append.1 h
  exact ⟨fun y hy => hfront y hy x List.mem_cons_self, (List.pairwise_cons.1 hlater).1⟩

/-! ## The attributes of an element -/

/-- What holds of no declarations and stays when one is added holds of what an
element declares. -/
theorem keeps_of_insert {P : Declarations → Prop} {as : List Attribute} {ds : Declarations}
    (hinsert : ∀ a ∈ as, isDirectiveAttribute a = true →
      ∀ d, Directive.ofName? a.name.localName = some d →
        ∀ ds, P ds → P (ds.insert ⟨d, a.value⟩))
    (hnil : P []) (h : as.foldlM addDeclaration [] = .ok ds) : P ds := by
  refine foldlM_keeps (fun a ha ds ds' hds hstep => ?_) hnil h
  unfold addDeclaration at hstep
  split at hstep
  · cases hstep
    exact hds
  · rename_i hdirective
    cases hd : Directive.ofName? a.name.localName with
    | none =>
      rw [hd] at hstep
      cases hstep
    | some d =>
      simp only [hd] at hstep
      split at hstep
      · cases hstep
      · cases hstep
        exact hinsert a ha (by simpa using hdirective) d hd ds hds

theorem sorted_of_foldlM {as : List Attribute} {ds : Declarations}
    (h : as.foldlM addDeclaration [] = .ok ds) : ds.Sorted :=
  keeps_of_insert (fun _ _ _ _ _ _ hds => hds.insert _) .nil h

/-- Behind the sources no other ones are declared. -/
theorem sorted_tail {as : List Attribute} {ds : Declarations} {m : String}
    (h : as.foldlM addDeclaration [] = .ok (⟨.sources, m⟩ :: ds)) :
    ds.Sorted ∧ ∀ x ∈ ds, x.directive ≠ .sources := by
  obtain ⟨hfirst, hsorted⟩ := List.pairwise_cons.1 (sorted_of_foldlM h)
  exact ⟨hsorted, fun x hx hd => by simpa [hd] using hfirst x hx⟩

/-- Every declaration comes from an attribute. -/
theorem exists_attribute {as : List Attribute} {ds : Declarations}
    (h : as.foldlM addDeclaration [] = .ok ds) : ∀ x ∈ ds, ∃ a ∈ as,
      x.directive.names a = true ∧ a.value = x.expression := by
  refine keeps_of_insert (P := fun ds => ∀ x ∈ ds, ∃ a ∈ as,
    x.directive.names a = true ∧ a.value = x.expression)
    (fun a ha hdirective d hd ds hds x hx => ?_) (by simp) h
  rcases mem_insert hx with rfl | hx
  · refine ⟨a, ha, ?_, rfl⟩
    have huri : a.name.namespaceUri = some directiveNamespace := by
      simpa [isDirectiveAttribute] using hdirective
    simp [Directive.names, QName.hasName, huri, Directive.name_of_ofName? hd]
  · exact hds x hx

/-- An attribute that is no directive adds nothing, any other one adds what it
declares, unless its expression is empty. -/
theorem addDeclaration_eq_ok {ds ds' : Declarations} {a : Attribute} :
    addDeclaration ds a = .ok ds' ↔
      isDirectiveAttribute a = false ∧ ds' = ds ∨
      ∃ d : Directive, d.names a = true ∧ a.value.isEmpty = false ∧ ds' = ds.insert ⟨d, a.value⟩ := by
  unfold addDeclaration
  cases ha : isDirectiveAttribute a with
  | false =>
    simp only [Bool.not_false, if_true, Directive.not_names ha, Except.ok.injEq]
    constructor
    · rintro rfl
      exact .inl ⟨trivial, rfl⟩
    · rintro (⟨-, rfl⟩ | ⟨d, hd, -⟩)
      · rfl
      · cases hd
  | true =>
    have hnames : ∀ d : Directive, d.names a = true ↔ Directive.ofName? a.name.localName = some d := by
      intro d
      have huri : a.name.namespaceUri = some directiveNamespace := by
        simpa [isDirectiveAttribute] using ha
      simp only [Directive.names, QName.hasName, huri, beq_self_eq_true, Bool.true_and, beq_iff_eq]
      constructor
      · intro h
        rw [h, Directive.ofName?_name]
      · intro h
        exact (Directive.name_of_ofName? h).symm
    simp only [hnames]
    cases hd : Directive.ofName? a.name.localName with
    | none => simp
    | some d => cases a.value.isEmpty <;> simp [eq_comm]

/-- What is declared for a directive is what the last attribute of its name
says. -/
theorem expression?_of_foldlM {as : List Attribute} {ds₀ ds : Declarations}
    (h : as.foldlM addDeclaration ds₀ = .ok ds) (d : Directive) :
    ds.expression? d = (as.filter d.names).foldl (fun _ a => some a.value) (ds₀.expression? d) := by
  induction as generalizing ds₀ with
  | nil =>
    cases h
    rfl
  | cons a as ih =>
    rw [List.foldlM_cons] at h
    obtain ⟨ds₁, hstep, h⟩ := bind_eq_ok.1 h
    rw [ih h, List.filter_cons]
    rcases addDeclaration_eq_ok.1 hstep with ⟨ha, rfl⟩ | ⟨d', hname, -, rfl⟩
    · rw [if_neg (Bool.not_eq_true _ ▸ Directive.not_names ha d)]
    · rw [expression?_insert]
      by_cases hd : d' = d
      · rw [if_pos hd, if_pos (hd ▸ hname), List.foldl_cons]
      · rw [if_neg hd, if_neg fun h => hd (Directive.eq_of_names hname h)]

theorem foldlM_cons_sources {as : List Attribute} {ds₀ ds : Declarations} {m : String}
    (has : as.filter Directive.sources.names = []) (h : as.foldlM addDeclaration (⟨.sources, m⟩ :: ds₀) = .ok ds) :
    ∃ ds', as.foldlM addDeclaration ds₀ = .ok ds' ∧ ds = ⟨.sources, m⟩ :: ds' := by
  induction as generalizing ds₀ with
  | nil =>
    cases h
    exact ⟨ds₀, rfl, rfl⟩
  | cons a as ih =>
    rw [List.foldlM_cons] at h
    obtain ⟨ds₁, hstep, h⟩ := bind_eq_ok.1 h
    rw [List.filter_eq_nil_iff, List.forall_mem_cons, ← List.filter_eq_nil_iff] at has
    rcases addDeclaration_eq_ok.1 hstep with ⟨ha, rfl⟩ | ⟨d, hname, hempty, rfl⟩
    · obtain ⟨ds', hds', rfl⟩ := ih has.2 h
      exact ⟨ds', by rw [List.foldlM_cons, addDeclaration_eq_ok.2 (.inl ⟨ha, rfl⟩)]; exact hds', rfl⟩
    · have hne : d ≠ .sources := fun h => has.1 (h ▸ hname)
      have hinsert : insert ⟨d, a.value⟩ (⟨.sources, m⟩ :: ds₀) =
          ⟨.sources, m⟩ :: ds₀.insert ⟨d, a.value⟩ := by
        rw [insert, if_neg hne]
        exact if_neg (Nat.not_lt_zero _)
      rw [hinsert] at h
      obtain ⟨ds', hds', rfl⟩ := ih has.2 h
      refine ⟨ds', ?_, rfl⟩
      rw [List.foldlM_cons, addDeclaration_eq_ok.2 (.inr ⟨d, hname, hempty, rfl⟩)]
      exact hds'

/-- The sources come first, and without them the rest is the same. -/
theorem foldlM_eraseP_sources {as : List Attribute} {ds₀ ds : Declarations} {m : String}
    (has : (as.filter Directive.sources.names).map (·.value) = [m])
    (hds₀ : ∀ x ∈ ds₀, x.directive ≠ .sources) (h : as.foldlM addDeclaration ds₀ = .ok ds) :
    ∃ ds', (as.eraseP Directive.sources.names).foldlM addDeclaration ds₀ = .ok ds' ∧
      ds = ⟨.sources, m⟩ :: ds' := by
  induction as generalizing ds₀ with
  | nil => cases has
  | cons a as ih =>
    rw [List.foldlM_cons] at h
    obtain ⟨ds₁, hstep, h⟩ := bind_eq_ok.1 h
    by_cases ha : Directive.sources.names a = true
    · rw [List.filter_cons, if_pos ha, List.map_cons, List.cons.injEq, List.map_eq_nil_iff] at has
      rw [List.eraseP_cons_of_pos ha]
      rcases addDeclaration_eq_ok.1 hstep with ⟨hnone, -⟩ | ⟨d, hname, hempty, rfl⟩
      · rw [Directive.not_names hnone] at ha
        cases ha
      · obtain rfl := Directive.eq_of_names hname ha
        have hinsert : ds₀.insert ⟨.sources, a.value⟩ = ⟨.sources, m⟩ :: ds₀ := by
          rw [has.1]
          cases ds₀ with
          | nil => rfl
          | cons y ds₀ =>
            have hy := hds₀ y List.mem_cons_self
            rw [insert, if_neg hy.symm]
            exact if_pos (Nat.pos_of_ne_zero fun h => hy (rank_injective h))
        rw [hinsert] at h
        exact foldlM_cons_sources has.2 h
    · rw [List.filter_cons, if_neg ha] at has
      rw [List.eraseP_cons_of_neg ha, List.foldlM_cons, hstep]
      refine ih has (fun x hx => ?_) h
      rcases addDeclaration_eq_ok.1 hstep with ⟨-, rfl⟩ | ⟨d, hname, hempty, rfl⟩
      · exact hds₀ x hx
      · rcases mem_insert hx with rfl | hx
        · exact fun hd => ha (hd ▸ hname)
        · exact hds₀ x hx

theorem declares_of_foldlM {as : List Attribute} {ds : Declarations}
    (h : as.foldlM addDeclaration [] = .ok ds) (d : Directive) : ds.declares d = as.any d.names := by
  have hsome : ∀ (as : List Attribute) (x : Option String),
      (as.foldl (fun _ a => some a.value) x).isSome = (x.isSome || !as.isEmpty) := by
    intro as
    induction as with
    | nil => simp
    | cons a as ih =>
      intro x
      rw [List.foldl_cons, ih]
      simp
  rw [declares, expression?_of_foldlM h, hsome]
  cases hnames : as.any d.names with
  | false =>
    have hfilter : as.filter d.names = [] := by simpa using hnames
    rw [hfilter]
    rfl
  | true =>
    have hfilter : as.filter d.names ≠ [] := by simpa using hnames
    simpa [expression?] using hfilter

theorem insert_ne_nil (x : Declared) (ds : Declarations) : ds.insert x ≠ [] := by
  cases ds with
  | nil => simp [insert]
  | cons y ds =>
    unfold insert
    split_ifs <;> simp

/-- Nothing is declared exactly where no attribute is a directive. -/
theorem foldlM_eq_nil_iff {as : List Attribute} :
    as.foldlM addDeclaration [] = .ok [] ↔ ∀ a ∈ as, isDirectiveAttribute a = false := by
  -- no attribute takes a declaration back
  have hplain : ∀ {as : List Attribute} {ds : Declarations},
      as.foldlM addDeclaration ds = .ok [] → ds = [] ∧ ∀ a ∈ as, isDirectiveAttribute a = false := by
    intro as
    induction as with
    | nil =>
      intro ds h
      cases h
      exact ⟨rfl, by simp⟩
    | cons a as ih =>
      intro ds h
      rw [List.foldlM_cons] at h
      obtain ⟨ds', hstep, h⟩ := bind_eq_ok.1 h
      obtain ⟨rfl, has⟩ := ih h
      obtain ⟨ha, rfl⟩ | ⟨d, -, -, hinsert⟩ := addDeclaration_eq_ok.1 hstep
      · exact ⟨rfl, List.forall_mem_cons.2 ⟨ha, has⟩⟩
      · exact absurd hinsert.symm (insert_ne_nil _ _)
  refine ⟨fun h => (hplain h).2, fun h => ?_⟩
  induction as with
  | nil => rfl
  | cons a as ih =>
    obtain ⟨ha, has⟩ := List.forall_mem_cons.1 h
    rw [List.foldlM_cons, addDeclaration_eq_ok.2 (.inl ⟨ha, rfl⟩)]
    exact ih has

/-- Fewer attributes are read as well. -/
theorem exists_of_sublist {as as' : List Attribute} {ds₀ ds : Declarations} (hsub : as'.Sublist as)
    (h : as.foldlM addDeclaration ds₀ = .ok ds) (ds₁ : Declarations) :
    ∃ ds', as'.foldlM addDeclaration ds₁ = .ok ds' := by
  induction hsub generalizing ds₀ ds₁ with
  | slnil => exact ⟨ds₁, rfl⟩
  | cons a _ ih =>
    rw [List.foldlM_cons] at h
    obtain ⟨ds₂, -, h⟩ := bind_eq_ok.1 h
    exact ih h ds₁
  | cons_cons a _ ih =>
    rw [List.foldlM_cons] at h
    obtain ⟨ds₂, hstep, h⟩ := bind_eq_ok.1 h
    obtain ⟨ds₃, hstep'⟩ : ∃ ds₃, addDeclaration ds₁ a = .ok ds₃ := by
      rcases addDeclaration_eq_ok.1 hstep with ⟨ha, -⟩ | ⟨d, hname, hempty, -⟩
      · exact ⟨ds₁, addDeclaration_eq_ok.2 (.inl ⟨ha, rfl⟩)⟩
      · exact ⟨_, addDeclaration_eq_ok.2 (.inr ⟨d, hname, hempty, rfl⟩)⟩
    obtain ⟨ds', h'⟩ := ih h ds₃
    exact ⟨ds', by rw [List.foldlM_cons, hstep']; exact h'⟩

end Declarations

end LabelTemplate
