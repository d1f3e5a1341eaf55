import LabelTemplate.Proofs.Arena.Order
import LabelTemplate.Proofs.Export.DraftLabel
import LabelTemplate.Proofs.Export.Numbered
import LabelTemplate.Proofs.Export.Pruning

/-!
# What the export makes of a draft

The export does not go along the draft of a template as `Draft.label` does: it
takes its decisions from a queue, one after the other.  Every one of them
replaces a node of the draft, and what comes of the draft is the same afterwards
(`resolveFills_settles`, `Awaits.decide_all`).  Fills may be taken in any order;
of the other decisions an inner one comes before the outer ones, so that what is
below an element is settled when its turn comes.
-/

namespace LabelTemplate

open Xml Document Outcome
open TreeWalk (quiet)

/-! ## Nothing open -/

namespace Numbered

variable {τ : Numbered}

/-- With no fill left the draft is written. -/
theorem filled_of_items_nil (h : τ.items Pending.fill = []) : τ.draft.filled = .ok τ.draft := by
  induction τ with
  | nil => rfl
  | node id kind line pending kids rest ihkids ihrest =>
    obtain ⟨fill, required⟩ := pending
    obtain ⟨rfl, hkids, hrest⟩ := items_node_eq_nil.1 h
    rw [draft, Draft.filled, ihkids hkids, ihrest hrest]
    rfl

/-- With no decision left all stays. -/
theorem pruned_of_items_nil (h : τ.items Pending.required = []) :
    τ.draft.pruned = .ok τ.draft.forest := by
  induction τ with
  | nil => rfl
  | node id kind line pending kids rest ihkids ihrest =>
    obtain ⟨fill, required⟩ := pending
    obtain ⟨rfl, hkids, hrest⟩ := items_node_eq_nil.1 h
    rw [draft, Draft.pruned, ihkids hkids, ihrest hrest]
    rfl

end Numbered

/-! ## One node replaced -/

namespace Numbered.Replaced

variable {n : NodeId} {kind : NodeKind} {line : Option Nat} {pending : Pending}
  {kids υ τ τ' : Numbered}

/-- What comes of the fills depends on what comes of them at the node. -/
theorem filled (h : Replaced n kind line pending kids υ τ τ') :
    ∃ F : Result Draft → Result Draft, (∀ stop, ∃ stop', F (.error stop) = .error stop') ∧
      τ.draft.filled = F (Draft.node kind line pending kids.draft .nil).filled ∧
      τ'.draft.filled = F υ.draft.filled := by
  induction h with
  | here rest =>
    refine ⟨fun x => do return (← x) ++ (← rest.draft.filled), fun stop => ⟨stop, rfl⟩, ?_, ?_⟩
    · exact Draft.filled_append (.node kind line pending kids.draft .nil) rest.draft
    · rw [draft_append, Draft.filled_append]
  | @inside m k l p τ τ' rest _ ih =>
    obtain ⟨F, hfails, hτ, hτ'⟩ := ih
    refine ⟨fun x => do
      let k ← Draft.write k p.fill
      let κ ← F x
      let ρ ← rest.draft.filled
      return .node k l { p with fill := none } κ ρ, fun stop => ?_, ?_, ?_⟩
    · obtain ⟨stop', hstop⟩ := hfails stop
      simp only [hstop]
      cases Draft.write k p.fill with
      | error stop => exact ⟨stop, rfl⟩
      | ok k => exact ⟨stop', rfl⟩
    · rw [draft, Draft.filled, hτ]
    · rw [draft, Draft.filled, hτ']
  | @beside m k l p τ τ' below _ ih =>
    obtain ⟨F, hfails, hτ, hτ'⟩ := ih
    refine ⟨fun x => do
      let k ← Draft.write k p.fill
      let κ ← below.draft.filled
      let ρ ← F x
      return .node k l { p with fill := none } κ ρ, fun stop => ?_, ?_, ?_⟩
    · obtain ⟨stop', hstop⟩ := hfails stop
      simp only [hstop]
      cases Draft.write k p.fill with
      | error stop => exact ⟨stop, rfl⟩
      | ok k =>
        cases below.draft.filled with
        | error stop => exact ⟨stop, rfl⟩
        | ok κ => exact ⟨stop', rfl⟩
    · rw [draft, Draft.filled, hτ]
    · rw [draft, Draft.filled, hτ']

/-- So does what comes of the decisions whether elements are required. -/
theorem pruned (h : Replaced n kind line pending kids υ τ τ') :
    ∃ F : Result Forest → Result Forest, (∀ stop, ∃ stop', F (.error stop) = .error stop') ∧
      τ.draft.pruned = F (Draft.node kind line pending kids.draft .nil).pruned ∧
      τ'.draft.pruned = F υ.draft.pruned := by
  induction h with
  | here rest =>
    refine ⟨fun x => do return (← x) ++ (← rest.draft.pruned), fun stop => ⟨stop, rfl⟩, ?_, ?_⟩
    · exact Draft.pruned_append (.node kind line pending kids.draft .nil) rest.draft
    · rw [draft_append, Draft.pruned_append]
  | @inside m k l p τ τ' rest _ ih =>
    obtain ⟨F, hfails, hτ, hτ'⟩ := ih
    refine ⟨fun x => do
      let f ← F x
      let required ← p.required.getD (.ok true)
      let g ← rest.draft.pruned
      if !required && (Forest.node k l f .nil).hasEmptyLeaf then return g
      else return .node k l f g, fun stop => ?_, ?_, ?_⟩
    · obtain ⟨stop', hstop⟩ := hfails stop
      simp only [hstop]
      exact ⟨stop', rfl⟩
    · rw [draft, Draft.pruned, hτ]
    · rw [draft, Draft.pruned, hτ']
  | @beside m k l p τ τ' below _ ih =>
    obtain ⟨F, hfails, hτ, hτ'⟩ := ih
    refine ⟨fun x => do
      let f ← below.draft.pruned
      let required ← p.required.getD (.ok true)
      let g ← F x
      if !required && (Forest.node k l f .nil).hasEmptyLeaf then return g
      else return .node k l f g, fun stop => ?_, ?_, ?_⟩
    · obtain ⟨stop', hstop⟩ := hfails stop
      simp only [hstop]
      cases below.draft.pruned with
      | error stop => exact ⟨stop, rfl⟩
      | ok f =>
        cases p.required.getD (.ok true) with
        | error stop => exact ⟨stop, rfl⟩
        | ok required => exact ⟨stop', rfl⟩
    · rw [draft, Draft.pruned, hτ]
    · rw [draft, Draft.pruned, hτ']

/-- Of what is picked elsewhere the same is left. -/
theorem items_eq {α : Type} (h : Replaced n kind line pending kids υ τ τ')
    (pick : Pending → Option α) :
    ∃ before after,
      τ.items pick = before ++ (((pick pending).map (n, ·)).toList ++ kids.items pick) ++ after ∧
      τ'.items pick = before ++ υ.items pick ++ after :=
  h.collect fun id pending => (pick pending).map (id, ·)

/-- A decision that is taken at the node is no longer open. -/
theorem items_rest {α : Type} {pick : Pending → Option α} {a : α} {items : List (NodeId × α)}
    (h : Replaced n kind line pending kids υ τ τ') (ha : pick pending = some a)
    (hitems : ((n, a) :: items).Perm (τ.items pick)) :
    ∃ before after, items.Perm (before ++ kids.items pick ++ after) ∧
      τ'.items pick = before ++ υ.items pick ++ after := by
  obtain ⟨before, after, hτ, hτ'⟩ := h.items_eq pick
  refine ⟨before, after, List.Perm.cons_inv (hitems.trans ?_), hτ'⟩
  rw [hτ, ha]
  simp only [Option.map_some, Option.toList_some, List.append_assoc, List.singleton_append]
  exact List.perm_middle

end Numbered.Replaced

/-! ## Exchanging nodes of an arena -/

theorem Numbered.exchanged_of {d e : Document} {n : NodeId} {left : List NodeId}
    (hshell : ∀ m, m ≠ n → e.shell? m = d.shell? m)
    (hchildren : ∀ m, m ≠ n → e.children m = Numbered.Replaced.replace n left (d.children m)) :
    Numbered.Exchanged d n left e := by
  intro m x hm hx
  have hsame := hshell m hm
  rw [shell?, shell?, hx, Option.map_some] at hsame
  obtain ⟨y, hy, hyx⟩ := Option.map_eq_some_iff.1 hsame
  rw [Node.mk.injEq] at hyx
  refine ⟨y, hy, hyx.1, hyx.2.2.2, ?_⟩
  rw [← children_of_node? hy, hchildren m hm, children_of_node? hx]

theorem Numbered.exchanged_self (d : Document) (n : NodeId) : Numbered.Exchanged d n [n] d :=
  exchanged_of (fun _ _ => rfl) fun _ _ => (Replaced.replace_self _ _).symm

theorem Numbered.exchanged_updateElement (d : Document) (n : NodeId) (f : Element → Element) :
    Numbered.Exchanged d n [n] (d.updateElement n f) :=
  exchanged_of (fun _ hm => shell?_updateElement d hm f) fun m _ => by
    rw [children_updateElement, Replaced.replace_self]

theorem Numbered.exchanged_detach {d : Document} (hd : d.Linked) (n : NodeId) :
    Numbered.Exchanged d n [] (d.detach n) := by
  refine exchanged_of (fun m _ => shell?_detach d n m) fun m _ => ?_
  rw [children_detach]
  split
  · rw [Replaced.replace_nil (hd.children_nodup m)]
  · rename_i hparent
    rw [Replaced.replace_of_not_mem]
    rwa [← hd.parent_iff_child]

/-! ## The fills -/

namespace Engine

/-- A numbered draft is what there is of the template. -/
structure Holds (env : Environment) (prolog : List Misc) (e : Engine) (τ : Numbered) : Prop where
  runs : e.RunsIn env
  prolog : e.template.prolog = prolog
  tops : τ.tops = [e.template.root]
  nodes : τ.In e.template

namespace Holds

variable {env : Environment} {prolog : List Misc} {e e' : Engine} {τ τ' υ : Numbered}
  {out : NodeId → Prop}

theorem nodup (h : e.Holds env prolog τ) : τ.ids.Nodup := by
  refine Numbered.nodup_ids h.runs.wellFormed.linked h.nodes ?_ none fun n hn => ?_
  · rw [h.tops]
    exact List.nodup_singleton _
  · rw [h.tops, List.mem_singleton] at hn
    rw [hn]
    exact h.runs.wellFormed.root_parent

theorem attached (h : e.Holds env prolog τ) {n : NodeId} (hn : n ∈ τ.ids) :
    Within e.template e.template.root n := by
  obtain ⟨m, hm, hw⟩ := Numbered.within_of_mem_ids h.runs.wellFormed.linked h.nodes hn
  rw [h.tops, List.mem_singleton] at hm
  exact hm ▸ hw

/-- The node is exchanged in the template and replaced in its draft. -/
theorem replaced {n : NodeId} {kind : NodeKind} {line : Option Nat} {pending : Pending}
    {kids : Numbered} (h : e.Holds env prolog τ)
    (hreplaced : Numbered.Replaced n kind line pending kids υ τ τ')
    (htops : Numbered.Replaced.replace n υ.tops [e.template.root] = [e.template.root])
    (hrun : e'.RunsIn env) (hkeeps : Keeps out e.template e'.template)
    (hexchanged : Numbered.Exchanged e.template n υ.tops e'.template) (hυ : υ.In e'.template) :
    e'.Holds env prolog τ' where
  runs := hrun
  prolog := hkeeps.prolog.trans h.prolog
  tops := by rw [hreplaced.tops h.nodup, h.tops, htops, hkeeps.root]
  nodes := hreplaced.in h.nodes h.nodup hexchanged hυ

end Holds

/-- A fill changes what its node is, and nothing else. -/
theorem resolveFill_writes {env : Environment} {e : Engine} {item : DeferredItem} {x : Node}
    (hrun : e.RunsIn env) (hsteady : ∀ t, item.fill (env.setTemplate t) = item.fill env)
    (hx : e.template.node? item.node = some x) :
    Alike (fun k e' => e'.RunsIn env ∧ Keeps (fun _ => True) e.template e'.template ∧
        Numbered.Exchanged e.template item.node [item.node] e'.template ∧
        e'.template.node? item.node = some { x with kind := k })
      (Draft.write x.kind (some (item.fill env).2)) (e.resolveFill item) := by
  have hvalue : (item.fill env).2 = quiet (item.state.evalFill e.env) := by
    rw [hrun.env_eq, ← hsteady e.template]
    rfl
  have htext : e.template.text? item.node = x.kind.element?.bind (·.text) := by
    rw [Document.text?, Document.element?, kind?_of_node? hx]
    rfl
  rw [hvalue]
  unfold resolveFill
  cases item.state.evalFill e.env with
  | error err => exact .error trivial
  | ok value =>
    cases value with
    | none => exact .ok ⟨hrun, Keeps.refl _ _, Numbered.exchanged_self _ _, hx⟩
    | some v =>
      change Alike _ (quiet (v.applyTo ((x.kind.element?.bind (·.text)).getD "")) >>= _)
        (e.template.applyFill item.node v >>= _)
      rw [applyFill, htext]
      cases v.applyTo ((x.kind.element?.bind (·.text)).getD "") with
      | error fault => exact .error trivial
      | ok text =>
        have hwf := hrun.wellFormed.updateElement item.node ({ · with text := some text })
        obtain ⟨hrun', htemplate⟩ := hrun.setTemplate hwf
        refine .ok ⟨hrun', ?_, ?_, ?_⟩
        · rw [setText, htemplate]
          exact keeps_updateElement _ _ _ _
        · rw [setText, htemplate]
          exact Numbered.exchanged_updateElement _ _ _
        · rw [setText, htemplate, updateElement, node?_updateNode, if_pos rfl, hx]
          rfl

/-- Writing a fill, on the template and on its draft. -/
theorem resolveFill_settles {env : Environment} {prolog : List Misc} {e : Engine} {τ : Numbered}
    {item : DeferredItem} {items : List DeferredItem} (h : e.Holds env prolog τ)
    (hsteady : ∀ t, item.fill (env.setTemplate t) = item.fill env)
    (hitems : ((item :: items).map (·.fill env)).Perm (τ.items Pending.fill)) :
    (∃ stop err, τ.draft.filled = .error stop ∧ e.resolveFill item = .error err) ∨
      ∃ e' τ', e.resolveFill item = .ok e' ∧ e'.Holds env prolog τ' ∧
        τ'.draft.filled = τ.draft.filled ∧
        (items.map (·.fill env)).Perm (τ'.items Pending.fill) ∧
        τ'.items Pending.required = τ.items Pending.required := by
  have hmem : item.fill env ∈ τ.items Pending.fill := hitems.subset List.mem_cons_self
  obtain ⟨kind, line, ⟨fill, required⟩, kids, hpending, hreplace⟩ := Numbered.exists_replaced hmem
  have hfill : fill = some (item.fill env).2 := hpending
  subst hfill
  obtain ⟨τ₀, hτ₀⟩ := hreplace .nil
  obtain ⟨⟨x, hx, rfl, rfl, hchildren⟩, hkids, -⟩ := hτ₀.in_node h.nodes
  have hwrites := resolveFill_writes h.runs hsteady hx
  cases hwrite : Draft.write x.kind (some (item.fill env).2) with
  | error stop =>
    rw [hwrite] at hwrites
    cases hresolve : e.resolveFill item with
    | ok e' =>
      rw [hresolve] at hwrites
      cases hwrites
    | error err =>
      left
      obtain ⟨F, hfails, hF, -⟩ := hτ₀.filled
      rw [Draft.filled, hwrite] at hF
      obtain ⟨stop', hstop⟩ := hfails stop
      exact ⟨stop', err, hF.trans hstop, rfl⟩
  | ok k =>
    rw [hwrite] at hwrites
    obtain ⟨e', he', hrun, hkeeps, hexchanged, hx'⟩ := hwrites.exists_right
    obtain ⟨τ', hτ'⟩ := hreplace (.node item.node k x.line ⟨none, required⟩ kids .nil)
    refine .inr ⟨e', τ', he', h.replaced hτ' (Numbered.Replaced.replace_self _ _) hrun hkeeps
      hexchanged ⟨⟨_, hx', rfl, rfl, hchildren⟩,
        hkids.exchanged hexchanged (hτ₀.not_mem_kids h.nodup), trivial⟩, ?_, ?_, ?_⟩
    · obtain ⟨F, -, hF, hF'⟩ := hτ'.filled
      rw [hF, hF', Draft.filled, hwrite]
      rfl
    · obtain ⟨before, after, hperm, hafter⟩ := hτ'.items_rest hpending hitems
      rw [hafter]
      simpa [Numbered.items, Numbered.collect] using hperm
    · obtain ⟨before, after, hbefore, hafter⟩ := hτ'.items_eq Pending.required
      rw [hbefore, hafter]
      simp [Numbered.items, Numbered.collect]

/-- Writing all fills. -/
theorem resolveFills_settles {env : Environment} {prolog : List Misc} {e : Engine} {τ : Numbered}
    {items : List DeferredItem} (h : e.Holds env prolog τ)
    (hsteady : ∀ item ∈ items, ∀ t, item.fill (env.setTemplate t) = item.fill env)
    (hitems : (items.map (·.fill env)).Perm (τ.items Pending.fill)) :
    Alike (fun δ e' => ∃ τ', e'.Holds env prolog τ' ∧ τ'.draft = δ ∧
        τ'.items Pending.required = τ.items Pending.required)
      τ.draft.filled (items.foldlM resolveFill e) := by
  induction items generalizing e τ with
  | nil =>
    rw [Numbered.filled_of_items_nil (List.nil_perm.1 hitems)]
    exact .ok ⟨τ, h, rfl, rfl⟩
  | cons item items ih =>
    rw [List.foldlM_cons]
    rcases resolveFill_settles h (hsteady item List.mem_cons_self) hitems with
      ⟨stop, err, hstop, herr⟩ | ⟨e', τ', he', hτ', hfilled, hrest, hrequired⟩
    · rw [hstop, herr]
      exact .error trivial
    · rw [he', ← hfilled, ← hrequired]
      exact ih hτ' (fun item hi => hsteady item (List.mem_cons_of_mem _ hi)) hrest

end Engine

/-! ## Leaves -/

namespace Xml.Document

variable {d : Document}

/-- An element without elements in it that has no content. -/
def IsEmptyLeaf (d : Document) (n : NodeId) : Prop :=
  d.isElement n = true ∧ d.hasElementChildren n = false ∧ d.isPopulated n = false

theorem isEmptyLeaf_iff {n : NodeId} {x : Node} {kids : Forest} (hx : d.node? n = some x)
    (hkids : Spells d x.children kids) :
    d.IsEmptyLeaf n ↔ (!kids.hasElement && x.kind.element?.any (!·.isPopulated)) = true := by
  have hinner : d.hasElementChildren n = kids.hasElement := by
    rw [hasElementChildren, children_of_node? hx]
    exact hkids.any_isElement
  rw [IsEmptyLeaf, hinner]
  simp only [isElement, isPopulated, text?, attribute?, element?, kind?_of_node? hx,
    Option.bind_some]
  cases x.kind.element? with
  | none => simp
  | some e => simp [Element.isPopulated]

theorem hasEmptyLeaf_iff (hd : d.Linked) {ns : List NodeId} {f : Forest} (hf : Spells d ns f) :
    f.hasEmptyLeaf = true ↔ ∃ n ∈ ns, ∃ m, Within d n m ∧ d.IsEmptyLeaf m := by
  induction hf with
  | nil => simp [Forest.hasEmptyLeaf]
  | @node n ns x kids rest hx hkids _ ihkids ihrest =>
    have hbelow : (∃ m, Within d n m ∧ d.IsEmptyLeaf m) ↔
        d.IsEmptyLeaf n ∨ ∃ c ∈ x.children, ∃ m, Within d c m ∧ d.IsEmptyLeaf m := by
      constructor
      · rintro ⟨m, rfl | hm, hempty⟩
        · exact .inl hempty
        · obtain ⟨c, hc, hw⟩ := hm.exists_child
          rw [hd.parent_iff_child, children_of_node? hx] at hc
          exact .inr ⟨c, hc, m, hw, hempty⟩
      · rintro (hempty | ⟨c, hc, m, hw, hempty⟩)
        · exact ⟨n, within_self d n, hempty⟩
        · rw [← children_of_node? hx, ← hd.parent_iff_child] at hc
          exact ⟨m, (within_of_parent? hc (within_self d n)).trans hw, hempty⟩
    rw [Forest.hasEmptyLeaf, Bool.or_eq_true, Bool.or_eq_true, ← isEmptyLeaf_iff hx hkids, ihkids,
      ihrest, ← hbelow]
    simp only [List.mem_cons, exists_eq_or_imp]

/-- Whether some leaf of a subtree has no content can be read off its forest. -/
theorem any_leaves (hd : d.WellFormed) {n : NodeId} {f : Forest} (hf : Spells d [n] f) :
    (leaves d n).any (!d.isPopulated ·) = f.hasEmptyLeaf := by
  have hn : n < d.size := by
    cases hf with
    | node hx _ _ => exact lt_size_of_node? hx
  rw [Bool.eq_iff_iff, hasEmptyLeaf_iff hd.linked hf, List.any_eq_true]
  simp only [leaves, descendantElements, List.mem_filter, hd.mem_descendants hn, IsEmptyLeaf,
    List.mem_singleton, exists_eq_left, Bool.not_eq_true', and_assoc]

end Xml.Document

/-! ## Decisions whether elements are required -/

namespace Exporter

variable {env : Environment} {prolog : List Misc} {x : Exporter} {item : DeferredItem}
  {queue : List DeferredItem}

/-- What a decision does, by what it comes to. -/
theorem pruneItem_decides (hrun : x.engine.RunsIn env)
    (hsteady : ∀ t, item.required (env.setTemplate t) = item.required env) {f : Forest}
    (hf : Spells x.document [item.node] f) (hatt : Within x.document x.document.root item.node) :
    Alike (fun required x' => x'.engine.RunsIn env ∧ x'.document =
        if !required && f.hasEmptyLeaf then x.document.detach item.node else x.document)
      (item.required env).2 (x.pruneItem item) := by
  have hvalue : (item.required env).2 = quiet ((item.state.evalRequired x.engine.env).map (·.1)) := by
    rw [hrun.env_eq, ← hsteady x.engine.template]
    rfl
  have hattached : x.document.isAttached item.node = true := hrun.wellFormed.isAttached_iff.2 hatt
  have hleaves : (leaves x.document item.node).any (!x.document.isPopulated ·) = f.hasEmptyLeaf :=
    any_leaves hrun.wellFormed hf
  rw [hvalue]
  unfold pruneItem
  cases item.state.evalRequired x.engine.env with
  | error err => exact .error trivial
  | ok r =>
    obtain ⟨required, s⟩ := r
    obtain ⟨hrun', htemplate⟩ := hrun.setTemplate (hrun.wellFormed.detach item.node)
    change Alike _ (Except.ok required) (if !required &&
      (leaves x.document item.node).any (!x.document.isPopulated ·) &&
        x.document.isAttached item.node then Except.ok (x.drop item.node) else Except.ok x)
    rw [hleaves, hattached, Bool.and_true]
    cases hdrop : !required && f.hasEmptyLeaf with
    | true => exact .ok ⟨hrun', by rw [hdrop, if_pos rfl]; exact htemplate⟩
    | false => exact .ok ⟨hrun, by rw [hdrop]; rfl⟩

/-- A template that is the draft of one element, with decisions to be taken, an
inner one before those around it. -/
structure Awaits (env : Environment) (prolog : List Misc) (queue : List DeferredItem)
    (id : NodeId) (kind : NodeKind) (line : Option Nat) (pending : Pending) (kids : Numbered)
    (x : Exporter) : Prop where
  holds : x.engine.Holds env prolog (.node id kind line pending kids .nil)
  steady : ∀ item ∈ queue, ∀ t, item.required (env.setTemplate t) = item.required env
  queued : (queue.map (·.required env)).Perm
    ((Numbered.node id kind line pending kids .nil).items Pending.required)
  inner : queue.Pairwise fun a b => ¬ Within x.document a.node b.node

variable {id : NodeId} {kind : NodeKind} {line : Option Nat} {pending : Pending} {kids : Numbered}

namespace Awaits

variable {x' : Exporter} {pending' : Pending} {kids' : Numbered}

/-- The next decision has been taken. -/
theorem next (h : Awaits env prolog (item :: queue) id kind line pending kids x)
    (hholds : x'.engine.Holds env prolog (.node id kind line pending' kids' .nil))
    (hqueued : (queue.map (·.required env)).Perm
      ((Numbered.node id kind line pending' kids' .nil).items Pending.required))
    (hwithin : ∀ a m, Within x'.document a m → Within x.document a m) :
    Awaits env prolog queue id kind line pending' kids' x' where
  holds := hholds
  steady i hi := h.steady i (List.mem_cons_of_mem _ hi)
  queued := hqueued
  inner := (List.pairwise_cons.1 h.inner).2.imp fun hout hw => hout (hwithin _ _ hw)

variable (h : Awaits env prolog (item :: queue) id kind line pending kids x)
include h

theorem root_eq : x.document.root = id := (List.singleton_inj.1 h.holds.tops).symm

theorem node_mem : item.node ∈ (Numbered.node id kind line pending kids .nil).ids :=
  Numbered.mem_ids_of_mem_items (h.queued.subset List.mem_cons_self)

/-- Whether the root is required does not matter, as long as it can be told. -/
theorem decide_root (hpending : pending.required = some (item.required env).2)
    (hnode : item.node = id) :
    (∃ stop err, (Draft.node kind line pending kids.draft .nil).prunedRoot = .error stop ∧
      x.pruneItem item = .error err) ∨
    ∃ x', x.pruneItem item = .ok x' ∧
      Awaits env prolog queue id kind line { pending with required := none } kids x' ∧
      (Draft.node kind line { pending with required := none } kids.draft .nil).prunedRoot =
        (Draft.node kind line pending kids.draft .nil).prunedRoot := by
  have hnodes : Spells x.document [item.node] _ := hnode ▸ h.holds.nodes.spells
  have hdecides := pruneItem_decides h.holds.runs (h.steady item List.mem_cons_self) hnodes
    (h.holds.attached h.node_mem)
  obtain ⟨fill, required⟩ := pending
  have hrequired : required = some (item.required env).2 := hpending
  subst hrequired
  cases hvalue : (item.required env).2 with
  | error stop =>
    rw [hvalue] at hdecides
    cases hprune : x.pruneItem item with
    | ok x' =>
      rw [hprune] at hdecides
      cases hdecides
    | error err =>
      cases hkids : kids.draft.pruned with
      | error stop => exact .inl ⟨stop, err, by rw [Draft.prunedRoot, hkids]; rfl, rfl⟩
      | ok f => exact .inl ⟨stop, err, by rw [Draft.prunedRoot, hkids]; rfl, rfl⟩
  | ok required =>
    rw [hvalue] at hdecides
    obtain ⟨x', hx', hrun, hdocument⟩ := hdecides.exists_right
    have hdetach : x.document.detach item.node = x.document := by
      have hparent : x.document.parent? x.document.root = none :=
        h.holds.runs.wellFormed.root_parent
      rw [hnode, ← h.root_eq, detach, hparent]
    have hsame : x'.engine.template = x.engine.template :=
      hdocument.trans (by rw [hdetach, ite_self]; rfl)
    refine .inr ⟨x', hx', h.next ⟨hrun, ?_, ?_, ?_⟩ ?_ ?_, rfl⟩
    · rw [hsame]
      exact h.holds.prolog
    · rw [hsame]
      exact h.holds.tops
    · rw [hsame]
      exact h.holds.nodes
    · have hqueued := h.queued
      simp only [Numbered.items, Numbered.collect, List.map_cons, Option.map_some,
        Option.toList_some, List.cons_append, ← hnode] at hqueued
      exact hqueued.cons_inv
    · intro a m hw
      rwa [document, hsame] at hw

/-- The decision about an element below the root has been taken, and the draft
comes to the same. -/
theorem next_inner {kind₁ : NodeKind} {line₁ : Option Nat} {pending₁ : Pending}
    {kids₁ υ : Numbered} {out : NodeId → Prop}
    (hreplaced : Numbered.Replaced item.node kind₁ line₁ pending₁ kids₁ υ kids kids')
    (hpending : pending₁.required = some (item.required env).2)
    (hkids : kids₁.items Pending.required = []) (hυ : υ.items Pending.required = [])
    (hsame : υ.draft.pruned = (Draft.node kind₁ line₁ pending₁ kids₁.draft .nil).pruned)
    (hrun : x'.engine.RunsIn env) (hkeeps : Keeps out x.document x'.document)
    (hexchanged : Numbered.Exchanged x.document item.node υ.tops x'.document)
    (hin : υ.In x'.document) (hwithin : ∀ a m, Within x'.document a m → Within x.document a m) :
    Awaits env prolog queue id kind line pending kids' x' ∧
      (Draft.node kind line pending kids'.draft .nil).prunedRoot =
        (Draft.node kind line pending kids.draft .nil).prunedRoot := by
  have hinside := Numbered.Replaced.inside (m := id) (k := kind) (l := line) (p := pending) .nil
    hreplaced
  have hne : id ≠ item.node := by
    rintro rfl
    have hnodup := h.holds.nodup
    rw [Numbered.ids_node, List.nodup_cons, List.mem_append, not_or] at hnodup
    exact hnodup.1.1 hreplaced.mem_ids
  obtain ⟨before, after, hperm, hafter⟩ := hinside.items_rest hpending h.queued
  refine ⟨h.next (h.holds.replaced hinside ?_ hrun hkeeps hexchanged hin) ?_ hwithin, ?_⟩
  · have hroot : x.engine.template.root = id := h.root_eq
    rw [hroot, Numbered.Replaced.replace_cons_of_ne hne]
    rfl
  · rw [hafter, hυ]
    rwa [hkids] at hperm
  · obtain ⟨F, -, hF, hF'⟩ := hreplaced.pruned
    rw [Draft.prunedRoot, Draft.prunedRoot, hF, hF', hsame]

/-- An element below the root goes or stays as the draft says. -/
theorem decide_inner (hmem : item.required env ∈ kids.items Pending.required) :
    (∃ stop err, (Draft.node kind line pending kids.draft .nil).prunedRoot = .error stop ∧
      x.pruneItem item = .error err) ∨
    ∃ x' kids', x.pruneItem item = .ok x' ∧
      Awaits env prolog queue id kind line pending kids' x' ∧
      (Draft.node kind line pending kids'.draft .nil).prunedRoot =
        (Draft.node kind line pending kids.draft .nil).prunedRoot := by
  obtain ⟨kind₁, line₁, ⟨fill, required⟩, kids₁, hpending, hreplace⟩ :=
    Numbered.exists_replaced hmem
  have hrequired : required = some (item.required env).2 := hpending
  subst hrequired
  obtain ⟨κ, hκ⟩ := hreplace .nil
  have hinside := Numbered.Replaced.inside (m := id) (k := kind) (l := line) (p := pending) .nil hκ
  have hin := hinside.in_node h.holds.nodes
  have hlinked := h.holds.runs.wellFormed.linked
  obtain ⟨before, after, hperm, -⟩ := hinside.items_rest hpending h.queued
  -- an inner decision would have been taken before
  have hkids : kids₁.items Pending.required = [] := by
    refine List.eq_nil_iff_forall_not_mem.2 fun v hv => ?_
    obtain ⟨other, hother, rfl⟩ := List.mem_map.1 (hperm.symm.subset
      (List.mem_append_left _ (List.mem_append_right _ hv)))
    obtain ⟨m, hm, hw⟩ := Numbered.within_of_mem_ids hlinked hin (List.mem_cons_of_mem _
      (List.mem_append_left _ (Numbered.mem_ids_of_mem_items hv)))
    exact (List.pairwise_cons.1 h.inner).1 other hother (List.mem_singleton.1 hm ▸ hw)
  have hpruned := Numbered.pruned_of_items_nil hkids
  have hdecides := pruneItem_decides h.holds.runs (h.steady item List.mem_cons_self) hin.spells
    (h.holds.attached h.node_mem)
  cases hvalue : (item.required env).2 with
  | error stop =>
    rw [hvalue] at hdecides
    cases hprune : x.pruneItem item with
    | ok x' =>
      rw [hprune] at hdecides
      cases hdecides
    | error err =>
      obtain ⟨F, hfails, hF, -⟩ := hκ.pruned
      rw [Draft.pruned, hpruned, hvalue] at hF
      obtain ⟨stop', hstop⟩ := hfails stop
      exact .inl ⟨stop', err, by rw [Draft.prunedRoot, hF.trans hstop]; rfl, rfl⟩
  | ok required =>
    rw [hvalue] at hdecides
    obtain ⟨x', hx', hrun, hdocument⟩ := hdecides.exists_right
    have hnode : (Draft.node kind₁ line₁ ⟨fill, some (.ok required)⟩ kids₁.draft .nil).pruned =
        if !required && (Forest.node kind₁ line₁ kids₁.draft.forest .nil).hasEmptyLeaf then .ok .nil
        else .ok (.node kind₁ line₁ kids₁.draft.forest .nil) := by
      rw [Draft.pruned, hpruned]
      rfl
    cases hdrop : !required && (Forest.node kind₁ line₁ kids₁.draft.forest .nil).hasEmptyLeaf with
    | true =>
      have hdetached : x'.document = x.document.detach item.node :=
        hdocument.trans (if_pos hdrop)
      refine .inr ⟨x', κ, hx', h.next_inner hκ hpending hkids rfl ?_ hrun
        (hdetached ▸ keeps_detach _ _) (hdetached ▸ Numbered.exchanged_detach hlinked _) trivial
        (hdetached ▸ fun a m => within_of_within_detach)⟩
      rw [hvalue, hnode, if_pos hdrop]
      rfl
    | false =>
      have hsame : x'.document = x.document :=
        hdocument.trans (if_neg (Bool.not_eq_true _ ▸ hdrop))
      have hkept : Keeps (fun _ => True) x.document x'.document := by
        rw [hsame]
        exact Keeps.refl _ _
      obtain ⟨κ', hκ'⟩ := hreplace (.node item.node kind₁ line₁ ⟨fill, none⟩ kids₁ .nil)
      refine .inr ⟨x', κ', hx', h.next_inner hκ' hpending hkids ?_ ?_ hrun
        hkept (hsame ▸ Numbered.exchanged_self _ _) (hsame ▸ hin) (hsame ▸ fun _ _ hw => hw)⟩
      · exact Numbered.items_node_eq_nil.2 ⟨rfl, hkids, rfl⟩
      · rw [hvalue, hnode, if_neg (Bool.not_eq_true _ ▸ hdrop), Numbered.draft, Draft.pruned, hpruned]
        rfl

/-- The next decision, whatever it is about. -/
theorem decide :
    (∃ stop err, (Draft.node kind line pending kids.draft .nil).prunedRoot = .error stop ∧
      x.pruneItem item = .error err) ∨
    ∃ x' pending' kids', x.pruneItem item = .ok x' ∧
      Awaits env prolog queue id kind line pending' kids' x' ∧
      (Draft.node kind line pending' kids'.draft .nil).prunedRoot =
        (Draft.node kind line pending kids.draft .nil).prunedRoot := by
  have hmem := h.queued.subset (List.mem_cons_self (a := item.required env))
  rcases Numbered.mem_items_node.1 hmem with ⟨hnode, hvalue⟩ | hmem | hmem
  · rcases h.decide_root hvalue hnode.symm with hfails | ⟨x', hx', hnext, hsame⟩
    · exact .inl hfails
    · exact .inr ⟨x', _, kids, hx', hnext, hsame⟩
  · rcases h.decide_inner hmem with hfails | ⟨x', kids', hx', hnext, hsame⟩
    · exact .inl hfails
    · exact .inr ⟨x', pending, kids', hx', hnext, hsame⟩
  · cases hmem

omit h in
/-- All decisions. -/
theorem decide_all (h : Awaits env prolog queue id kind line pending kids x) :
    Alike (fun f x' => x'.engine.RunsIn env ∧ x'.document.prolog = prolog ∧
        Spells x'.document [x'.document.root] f)
      (Draft.node kind line pending kids.draft .nil).prunedRoot (queue.foldlM pruneItem x) := by
  induction queue generalizing x pending kids with
  | nil =>
    obtain ⟨hpending, hkids, -⟩ := Numbered.items_node_eq_nil.1 (List.nil_perm.1 h.queued)
    rw [Draft.prunedRoot, Numbered.pruned_of_items_nil hkids, hpending]
    refine .ok ⟨h.holds.runs, h.holds.prolog, ?_⟩
    have hspells := h.holds.nodes.spells
    rwa [h.holds.tops] at hspells
  | cons item queue ih =>
    rw [List.foldlM_cons]
    rcases h.decide with ⟨stop, err, hstop, herr⟩ | ⟨x', pending', kids', hx', hnext, hsame⟩
    · rw [hstop, herr]
      exact .error trivial
    · rw [hx', ← hsame]
      exact ih hnext

end Awaits

/-! ## The export -/

theorem checkPopulation_settles {x : Exporter} (hwf : x.document.WellFormed) {f : Forest}
    (hf : Spells x.document [x.document.root] f) :
    x.checkPopulation.toOption = if f.hasEmptyLeaf then none else some () := by
  rw [← any_leaves hwf hf]
  unfold checkPopulation
  cases hfind : (leaves x.document x.document.root).find? (!x.document.isPopulated ·) with
  | none =>
    rw [if_neg (by simpa using List.find?_eq_none.1 hfind)]
    simp only [hfind]
    rfl
  | some n =>
    have hempty := List.find?_some hfind
    rw [if_pos (List.any_eq_true.2 ⟨n, List.mem_of_find?_eq_some hfind, hempty⟩)]
    simp only [hfind]
    rfl

/-- The export without the comparison of structures makes of a template what
its draft comes to. -/
theorem settles {x : Exporter} {δ : Draft} (hrun : x.engine.RunsIn env)
    (hdrafted : Drafted env x.document [x.document.root] δ x.engine.deferred)
    (houter : x.engine.deferred.requireds.Pairwise fun a b => ¬ Within x.document b.node a.node) :
    Alike (fun f x' => x'.document.WellFormed ∧ x'.document.prolog = x.document.prolog ∧
        Spells x'.document [x'.document.root] f)
      δ.label (do
        let x ← x.resolveFills
        let x ← x.prune
        x.checkPopulation
        return x) := by
  obtain ⟨τ, rfl, htops, hin, hitems⟩ := Numbered.exists_numbered hdrafted.spells
  have hpos : 0 < x.engine.env.docs.size := by
    rw [hrun.env_eq]
    simpa [Environment.setTemplate] using hrun.docs_pos
  have hfills := Engine.resolveFills_settles
    (e := { x.engine with deferred := x.engine.deferred.takeFills.2 })
    ⟨⟨hrun.docs_pos, hrun.env_eq, hrun.wellFormed⟩, rfl, htops, hin⟩ hdrafted.steady.fills
    (hdrafted.fills.trans (.of_eq (hitems _).symm))
  have hresolve : Alike (fun δ (x₁ : Exporter) => ∃ τ', x₁.engine.Holds env x.document.prolog τ' ∧
      τ'.draft = δ ∧ τ'.items Pending.required = τ.items Pending.required)
      τ.draft.filled x.resolveFills := by
    rw [← bind_pure τ.draft.filled]
    exact hfills.bind fun δ e h => .ok h
  refine hresolve.results.bind fun δ x₁ h => ?_
  obtain ⟨⟨τ', hholds, rfl, hrequired⟩, -, hok⟩ := h
  obtain ⟨-, houtline, hqueue, -⟩ := resolveFills_spec hpos hok
  -- a draft with one root
  cases τ' with
  | nil => cases hholds.tops
  | node id kind line pending kids rest =>
    cases rest with
    | node => cases hholds.tops
    | nil =>
      have hawaits : Awaits env x.document.prolog x₁.engine.deferred.requireds.reverse id kind line
          pending kids { x₁ with
            engine := { x₁.engine with deferred := x₁.engine.deferred.takeRequireds.2 } } := by
        refine ⟨⟨⟨hholds.runs.docs_pos, hholds.runs.env_eq, hholds.runs.wellFormed⟩, hholds.prolog,
          hholds.tops, hholds.nodes⟩, fun item hi => ?_, ?_, ?_⟩
        · rw [hqueue, List.mem_reverse] at hi
          exact hdrafted.steady.requireds item hi
        · rw [hrequired, hitems, hqueue]
          exact ((List.reverse_perm _).map _).trans hdrafted.requireds
        · rw [List.pairwise_reverse, hqueue]
          exact houter.imp fun hout hw => hout ((houtline.within_iff _ _).1 hw)
      refine hawaits.decide_all.bind fun f x₂ h => ?_
      obtain ⟨hrun₂, hprolog, hf⟩ := h
      have hcheck := checkPopulation_settles hrun₂.wellFormed hf
      cases hempty : f.hasEmptyLeaf with
      | true =>
        rw [hempty, if_pos rfl] at hcheck
        cases hpopulated : x₂.checkPopulation with
        | ok => rw [hpopulated] at hcheck; cases hcheck
        | error err => exact .error trivial
      | false =>
        rw [hempty] at hcheck
        cases hpopulated : x₂.checkPopulation with
        | error err => rw [hpopulated] at hcheck; cases hcheck
        | ok => exact .ok ⟨hrun₂.wellFormed, hprolog, hf⟩

theorem snapshot_of_prune {x x' : Exporter} (h : x.snapshot = none) (hok : x.prune = .ok x') :
    x'.snapshot = none := by
  have hfold : x.engine.deferred.requireds.reverse.foldlM pruneItem
      { x with engine := { x.engine with deferred := x.engine.deferred.takeRequireds.2 } } =
        .ok x' := hok
  refine Outcome.foldlM_keeps (P := fun y : Exporter => y.snapshot = none)
    (fun item _ y y' hy hstep => ?_) (by exact h) hfold
  rcases pruneItem_eq_ok hstep with ⟨-, rfl⟩ | ⟨rfl, -⟩
  · rw [drop, hy]
    rfl
  · exact hy

/-- Without a snapshot there is no comparison of structures. -/
theorem finish_of_unchecked {x : Exporter} (hpos : 0 < x.engine.env.docs.size)
    (h : x.snapshot = none) :
    x.finish = do
      let x ← x.resolveFills
      let x ← x.prune
      x.checkPopulation
      return x := by
  unfold Exporter.finish
  cases hfills : x.resolveFills with
  | error err => rfl
  | ok x₁ =>
    obtain ⟨-, -, -, hsnapshot⟩ := resolveFills_spec hpos hfills
    simp only [bind, Except.bind]
    cases hprune : x₁.prune with
    | error err => rfl
    | ok x₂ =>
      have hnone : x₂.snapshot = none := snapshot_of_prune (hsnapshot.trans h) hprune
      have hcheck : x₂.checkStructure = .ok () := by rw [checkStructure, hnone]
      simp only [hcheck]

end Exporter

end LabelTemplate
