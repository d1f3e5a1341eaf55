import LabelTemplate.Proofs.Arena.Found
import LabelTemplate.Proofs.Walk.Calls
import LabelTemplate.Proofs.Walk.Rebound

/-!
# What is fetched

An element that is fetched from one document finds its counterparts by its
path.  The elements at a longer path are within those at the path
(`within_of_mem_findAll`), and a leaf takes the text and the attributes of the
one that it finds (`Element.TakenFrom`).

The branches of a repeated element are fetched from the same document
(`state_branch`), so a leaf that is repeated is left as several leaves, each of
which has taken its content from an element there (`taken_of_left`).
-/

namespace LabelTemplate

open Xml Outcome

namespace Xml

/-! ## Elements at longer paths -/

namespace Document

variable {d : Document} {path : ElementPath} {m q : NodeId}

theorem isElement_of_mem_findAll {segment : PathSegment}
    (h : q ∈ d.findAll (path ++ [segment])) : d.isElement q = true := by
  rw [findAll_append, List.mem_flatMap] at h
  obtain ⟨p, -, hq⟩ := h
  obtain ⟨-, name, hname, -⟩ := mem_childrenNamed.1 (mem_childrenNamed_of_mem_stepInto hq)
  rw [← name?_isSome, hname]
  rfl

/-- A step with a number leads to one of those that the step without leads to. -/
theorem findAll_numbered {above : ElementPath} {p : NodeId} (h : d.findAll above = [p])
    (uri : Option String) (localName : String) (i : Nat) :
    d.findAll (above ++ [⟨uri, localName, some (i + 1)⟩]) =
      (d.findAll (above ++ [⟨uri, localName, none⟩]))[i]?.toList := by
  rw [findAll_append, findAll_append, h, List.flatMap_singleton, List.flatMap_singleton]
  rfl

/-- What is found at a longer path is within what is found at the path. -/
theorem within_of_mem_findAll (hd : d.Linked) (hpath : d.findAll path = [m]) {rest : ElementPath}
    (h : q ∈ d.findAll (path ++ rest)) : Within d m q := by
  induction rest using List.reverseRecOn generalizing q with
  | nil =>
    rw [List.append_nil, hpath, List.mem_singleton] at h
    rw [h]
    exact within_self d m
  | append_singleton rest segment ih =>
    rw [← List.append_assoc, findAll_append, List.mem_flatMap] at h
    obtain ⟨p, hp, hq⟩ := h
    exact within_of_parent? (parent_of_mem_stepInto hd hq) (ih hp)

end Document

/-! ## Content -/

namespace Element

/-- The value of the last of some attributes with an expanded name. -/
def lastValue? (as : List Attribute) (uri : Option String) (localName : String) : Option String :=
  ((as.filter (·.name.hasName uri localName)).getLast?).map (·.value)

/-- The element has the text of an element of a document and all its
attributes outside the namespace of directives, each with its last value. -/
structure TakenFrom (x : Element) (source : Document) (q : NodeId) : Prop where
  text : x.text = source.text? q
  attributes : ∀ a ∈ source.attributes q, a.name.namespaceUri ≠ some directiveNamespace →
    x.attribute? a.name.namespaceUri a.name.localName =
      lastValue? (source.attributes q) a.name.namespaceUri a.name.localName

theorem sameExpanded_iff {a b : QName} :
    a.sameExpanded b = true ↔ a.namespaceUri = b.namespaceUri ∧ a.localName = b.localName := by
  simp [QName.sameExpanded, QName.hasName]

theorem attribute?_setAttribute (e : Element) (name : QName) (value : String)
    (uri : Option String) (localName : String) :
    (e.setAttribute name value).attribute? uri localName =
      if name.hasName uri localName then some value else e.attribute? uri localName := by
  have hgo : ∀ as : List Attribute,
      ((setAttribute.go name value as).find? (·.name.hasName uri localName)).map (·.value) =
        if name.hasName uri localName then some value
        else (as.find? (·.name.hasName uri localName)).map (·.value) := by
    intro as
    induction as with
    | nil => by_cases h : name.hasName uri localName = true <;> simp [setAttribute.go, h]
    | cons a as ih =>
      rw [setAttribute.go]
      by_cases hsame : a.name.sameExpanded name = true
      · have hname : a.name.hasName uri localName = name.hasName uri localName := by
          obtain ⟨huri, hlocal⟩ := sameExpanded_iff.1 hsame
          rw [QName.hasName, QName.hasName, huri, hlocal]
        rw [if_pos hsame, List.find?_cons, List.find?_cons]
        simp only [hname]
        cases name.hasName uri localName <;> rfl
      · rw [if_neg hsame, List.find?_cons, List.find?_cons]
        cases ha : a.name.hasName uri localName with
        | false => exact ih
        | true =>
          have hother : ¬ name.hasName uri localName = true := fun h => by
            simp only [QName.hasName, Bool.and_eq_true, beq_iff_eq] at ha h
            exact hsame (sameExpanded_iff.2 ⟨ha.1.trans h.1.symm, ha.2.trans h.2.symm⟩)
          rw [if_neg hother]
  exact hgo e.attributes

theorem attribute?_foldl (as : List Attribute) (e : Element) (uri : Option String)
    (localName : String) :
    (as.foldl (fun e a => e.setAttribute a.name a.value) e).attribute? uri localName =
      (lastValue? as uri localName).or (e.attribute? uri localName) := by
  induction as generalizing e with
  | nil => rfl
  | cons a as ih =>
    rw [List.foldl_cons, ih, attribute?_setAttribute, lastValue?, lastValue?, List.filter_cons]
    by_cases h : a.name.hasName uri localName = true
    · rw [if_pos h, if_pos h, List.getLast?_cons]
      cases (as.filter (·.name.hasName uri localName)).getLast? <;> rfl
    · rw [if_neg h, if_neg h]

theorem attribute?_stripDirectives (e : Element) {uri : Option String}
    (huri : uri ≠ some directiveNamespace) (localName : String) :
    e.stripDirectives.attribute? uri localName = e.attribute? uri localName := by
  rw [attribute?, attribute?, stripDirectives, List.find?_filter]
  congr 2
  funext a
  cases h : a.name.hasName uri localName with
  | false => simp
  | true =>
    simp only [QName.hasName, Bool.and_eq_true, beq_iff_eq] at h
    simp [isDirectiveAttribute, h.1, huri]

/-- What a leaf takes is what its counterpart has. -/
theorem takenFrom_takeContent (e : Element) (source : Document) (q : NodeId) :
    (e.takeContent (source.attributes q) (source.text? q)).stripDirectives.TakenFrom source q where
  text := rfl
  attributes a ha huri := by
    have hlast :
        (lastValue? (source.attributes q) a.name.namespaceUri a.name.localName).isSome := by
      rw [lastValue?, Option.isSome_map, List.getLast?_isSome]
      exact List.ne_nil_of_mem (List.mem_filter.2 ⟨ha, QName.hasName_self a.name⟩)
    rw [attribute?_stripDirectives _ huri, takeContent]
    change ((source.attributes q).foldl _ e).attribute? _ _ = _
    rw [attribute?_foldl, Option.or_of_isSome hlast]

end Element

end Xml

namespace TreeWalk

variable {env : Environment} {key : XPath.DocKey} {source : Document}
  {parent s s' : ElementState} {place : Place} {t : Tree}

/-! ## Fetching from one document -/

/-- The element is fetched from one document alone. -/
structure FetchedFrom (key : XPath.DocKey) (s : ElementState) : Prop where
  fetch : s.fetch = true
  sources : s.sources = .single key

section Found

variable (h : FetchedFrom key s) (hsource : env.docs[key]? = some source) {path : ElementPath}

include h hsource

theorem fate_eq : fate env s path =
    match source.findAll path with
    | [] => if s.required = some true then .error .failed else .ok .goes
    | [m] => .ok (.stays (some (source, m)))
    | found =>
      if s.multi.expected?.any (· ≠ found.length) then .error .failed
      else .ok (.repeats (found.length - 1)) := by
  have hsecondary : s.sources.secondary.isEmpty = true := by rw [h.sources]; rfl
  have hprimary : s.sources.primary = some key := by rw [h.sources]; rfl
  unfold fate
  simp only [hsecondary, h.fetch, hprimary, hsource, Bool.not_true, Bool.false_eq_true, if_false,
    if_true]
  rfl

/-- With one counterpart the element stays. -/
theorem fate_single {m : NodeId} (hfound : source.findAll path = [m]) :
    fate env s path = .ok (.stays (some (source, m))) := by
  rw [fate_eq h hsource, hfound]

/-- With several counterparts the element is repeated. -/
theorem fate_many (hmulti : s.multi = .flag true) (hmany : 2 ≤ (source.findAll path).length) :
    fate env s path = .ok (.repeats ((source.findAll path).length - 1)) := by
  rw [fate_eq h hsource, hmulti]
  match hfound : source.findAll path with
  | [] | [m] =>
    rw [hfound] at hmany
    simp at hmany
  | m :: m' :: found => rfl

/-- What becomes of a fetched element. -/
theorem fate_cases {x : Fate} (hx : fate env s path = .ok x) :
    x = .goes ∨ (∃ m, source.findAll path = [m] ∧ x = .stays (some (source, m))) ∨
      ∃ copies, x = .repeats copies := by
  rw [fate_eq h hsource] at hx
  split at hx
  case h_1 =>
    split at hx
    · cases hx
    · cases hx
      exact .inl rfl
  case h_2 m hfound =>
    cases hx
    exact .inr (.inl ⟨m, hfound, rfl⟩)
  case h_3 =>
    split at hx
    · cases hx
    · cases hx
      exact .inr (.inr ⟨_, rfl⟩)

end Found

/-! ## The branches of a fetched element -/

/-- A branch is fetched as the element is, and declares a fill where it
does. -/
theorem state_branch (hdocs : 0 < env.docs.size) (hsource : env.docs[key]? = some source)
    (hkey : key ≠ templateKey) (haloof : t.element.Aloof env) (h : state env parent t = .ok s)
    (hfetched : FetchedFrom key s) {b : Option Nat}
    (h' : state env { parent with multiBranch := b } (t.mapElement (·.removeDirective .multi)) =
      .ok s') : FetchedFrom key s' ∧ s'.declares .fill = s.declares .fill := by
  obtain ⟨ds, hds, -, hall, -⟩ := (state_eq_ok hdocs).1 h
  obtain ⟨ds', hds', -, hall', -⟩ := (state_eq_ok hdocs).1 h'
  have hprimary : s.sources.primary = some key := by rw [hfetched.sources]; rfl
  obtain ⟨hfetch, -⟩ := required_branch hdocs hsource hkey haloof h hprimary h'
  obtain ⟨hsources, -⟩ := bound_branch hds hds' hsource hkey hall hall' hprimary
  refine ⟨⟨hfetch.trans hfetched.fetch, hsources.trans hfetched.sources⟩, ?_⟩
  rw [ElementState.declares, ElementState.declares, (ElementState.kept_resolveAll hall).declared,
    (ElementState.kept_resolveAll hall').declared]
  exact declares_branch hds hds' (by decide)

/-! ## Leaves -/

/-- A leaf without fill that stays is left as it is, but for its
directives. -/
theorem finishElement_leaf {visit : Visit} (hleaf : t.kids.hasElement = false)
    (hfill : s.declares .fill = false) :
    finishElement env visit s place t = .ok (t.mapElement (·.stripDirectives)).forest := by
  unfold finishElement TreeWalk.walkContent
  rw [hleaf, hfill]
  rfl

/-- A leaf that is fetched from one document, and has no fill. -/
structure FetchedLeaf (env : Environment) (key : XPath.DocKey) (c : Call) : Prop where
  leaf : c.tree.kids.hasElement = false
  state : ∀ s, c.state env = .ok s → FetchedFrom key s ∧ s.declares .fill = false

section Leaf

variable (hsource : env.docs[key]? = some source)

include hsource

/-- A leaf with one counterpart takes its content. -/
theorem taken_of_single {c : Call} (hc : FetchedLeaf env key c) {m : NodeId}
    (hfound : source.findAll c.path = [m]) {f : Forest} (h : c.left env = .ok f) :
    ∃ u : Tree, f = u.forest ∧ u.element.TakenFrom source m := by
  obtain ⟨fuel, s, x, hfuel, hs, -⟩ := Call.exists_fate h
  obtain ⟨hfetched, hfill⟩ := hc.state s hs
  have htake : Fate.take c.tree (some (source, m)) =
      c.tree.mapElement (·.takeContent (source.attributes m) (source.text? m)) :=
    if_neg (by rw [hc.leaf]; exact Bool.false_ne_true)
  rw [Call.left_of_fate hfuel hs (fate_single hfetched hsource hfound), follow, htake,
    finishElement_leaf (t := c.tree.mapElement _) hc.leaf hfill] at h
  cases h
  exact ⟨_, rfl, Element.takenFrom_takeContent _ _ _⟩

/-- What is left of a leaf has taken its content from elements at the path of
the leaf, whatever its number there is. -/
theorem taken_of_left (hdocs : 0 < env.docs.size) (hkey : key ≠ templateKey) {c : Call}
    (haloof : c.tree.element.Aloof env) (hc : FetchedLeaf env key c) {f : Forest}
    (h : c.left env = .ok f) {x : Tree} (hx : x ∈ f.trees) :
    ∃ (segment : PathSegment) (q : NodeId), q ∈ source.findAll (c.place.above ++ [segment]) ∧
      x.element.TakenFrom source q := by
  refine Call.left_induction (P := fun c f => c.tree.element.Aloof env → FetchedLeaf env key c →
    ∀ x ∈ f.trees, ∃ (segment : PathSegment) (q : NodeId),
      q ∈ source.findAll (c.place.above ++ [segment]) ∧ x.element.TakenFrom source q)
    (fun {c f fuel s y} _ hs hy hleft hfollow ih haloof hc x hx => ?_) h haloof hc x hx
  obtain ⟨hfetched, hfill⟩ := hc.state s hs
  rcases fate_cases hfetched hsource hy with rfl | ⟨m, hfound, rfl⟩ | ⟨copies, rfl⟩
  · cases hfollow
    cases hx
  · obtain ⟨u, rfl, htaken⟩ := taken_of_single hsource hc hfound hleft
    rw [List.mem_singleton.1 hx]
    exact ⟨_, m, hfound ▸ List.mem_singleton_self m, htaken⟩
  · refine walkCopies_keeps (Q := fun f => ∀ x ∈ f.trees, ∃ (segment : PathSegment) (q : NodeId),
      q ∈ source.findAll (c.place.above ++ [segment]) ∧ x.element.TakenFrom source q) ?_ hfollow
      (fun x hx => by cases hx) (fun c' left hbranch hleft' => ?_) x hx
    · intro f g hf hg x hx
      rw [Forest.trees_append, List.mem_append] at hx
      exact hx.elim (hf x) (hg x)
    · obtain ⟨hfuel', habove, htree, b, hparent⟩ := hbranch.spec
      have hleaf : FetchedLeaf env key c' := by
        refine ⟨by rw [htree]; exact hc.leaf, fun s' hs' => ?_⟩
        rw [Call.state, htree, hparent] at hs'
        obtain ⟨hfetched', hfill'⟩ := state_branch hdocs hsource hkey haloof hs hfetched hs'
        exact ⟨hfetched', hfill'.trans hfill⟩
      rw [← habove]
      exact ih c' left hfuel' hleft' (htree ▸ haloof.sublist List.eraseP_sublist) hleaf

end Leaf

end TreeWalk

end LabelTemplate
