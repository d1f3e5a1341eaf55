import LabelTemplate.Proofs.Walk.Fetching
import LabelTemplate.Proofs.Walk.Members
import LabelTemplate.Proofs.Walk.Root

/-!
# Fetched repetitions

An element that is fetched from one document, where several elements are at its
path, is repeated: one copy stands in its place for each of them, and what is
fetched below a copy is taken from within that one (`repetition_isolated`).

The argument is about paths.  While the elements above are fetched from the
same document, the path above a call names one element there (`Call.Rooted`).
The step to a copy has the number of the copy, however many stand beside it by
then, since each copy in front has left one tree of the name; so the path of
the copy names one element as well (`exists_copies`), and all paths below the
copy go on from there.
-/

namespace LabelTemplate

open Xml Outcome

namespace TreeWalk

/-! ## Where calls stand -/

section Stand

variable {env : Environment} {key : XPath.DocKey} {source : Document} {p : ElementState → Prop}
  {s : ElementState} {c c' : Call}

theorem docs_pos_of_loaded (hsource : env.docs[key]? = some source) : 0 < env.docs.size :=
  Nat.lt_of_le_of_lt (Nat.zero_le key) (Array.getElem?_eq_some_iff.1 hsource).1

/-- The path above a call names one element of the document. -/
def Call.Rooted (source : Document) (c : Call) : Prop :=
  ∃ m, source.findAll c.place.above = [m]

theorem Calls.rooted (hsource : env.docs[key]? = some source)
    (hc : Calls env (FetchedFrom key) c c') (h : c.Rooted source) : c'.Rooted source := by
  cases hc with
  | kid _ _ hfate hfetched hc =>
    rcases fate_cases hfetched hsource hfate with hgoes | ⟨m, hfound, -⟩ | ⟨copies, hrepeats⟩
    · cases hgoes
    · rw [Call.Rooted, hc.spec.2.1]
      exact ⟨m, hfound⟩
    · cases hrepeats
  | branch _ _ _ hc => rwa [Call.Rooted, hc.spec.2.1]
  | bound _ _ _ hc => rwa [Call.Rooted, hc.spec.2.1]

theorem rooted_of_reaches (hsource : env.docs[key]? = some source)
    (hc : Relation.ReflTransGen (Calls env (FetchedFrom key)) c c') (h : c.Rooted source) :
    c'.Rooted source := by
  induction hc with
  | refl => exact h
  | tail _ hc ih => exact hc.rooted hsource ih

theorem Calls.aloof (hc : Calls env p c c') (h : c.tree.forest.Aloof env) :
    c'.tree.forest.Aloof env := by
  cases hc with
  | kid _ _ _ _ hc => exact Forest.AllKinds.of_mem_trees h.2.1 hc.spec.2.2
  | branch _ _ _ hc =>
    rw [hc.spec.2.2.1]
    exact Engine.Aloof.removeDirective h .multi
  | bound _ _ _ hc =>
    rw [hc.spec.2.2]
    exact Engine.Aloof.removeDirective h .sources

theorem aloof_of_reaches (hc : Relation.ReflTransGen (Calls env p) c c')
    (h : c.tree.forest.Aloof env) : c'.tree.forest.Aloof env := by
  induction hc with
  | refl => exact h
  | tail _ hc ih => exact hc.aloof ih

/-- What an element that stays calls stands at its path. -/
theorem Calls.above_of_stays {origin : Option (Document × NodeId)} (hc : Calls env p c c')
    (hs : c.state env = .ok s) (hfate : fate env s c.path = .ok (.stays origin)) :
    c'.place.above = c.path := by
  cases hc with
  | kid _ _ _ _ hc => exact hc.spec.2.1
  | branch _ hs' hfate' _ =>
    cases hs.symm.trans hs'
    cases hfate.symm.trans hfate'
  | bound _ hs' hfate' _ =>
    cases hs.symm.trans hs'
    cases hfate.symm.trans hfate'

theorem exists_rest_of_reaches (hc : Relation.ReflTransGen (Calls env p) c c') :
    ∃ rest, c'.place.above = c.place.above ++ rest := by
  induction hc with
  | refl => exact ⟨[], (List.append_nil _).symm⟩
  | tail _ hc ih =>
    obtain ⟨rest, habove⟩ := ih
    cases hc with
    | kid _ _ _ _ hc =>
      rw [hc.spec.2.1, Call.path, Place.path, habove, List.append_assoc]
      exact ⟨_, rfl⟩
    | branch _ _ _ hc => exact ⟨rest, hc.spec.2.1.trans habove⟩
    | bound _ _ _ hc => exact ⟨rest, hc.spec.2.1.trans habove⟩

end Stand

/-! ## The copies of an element -/

/-- The call leaves one tree, every element of which has been left by a call
below, and what is fetched below is taken from within one element of the
source. -/
structure IsCopy (env : Environment) (key : XPath.DocKey) (source : Document) (c : Call)
    (m : NodeId) (u : Tree) : Prop where
  left : c.left env = .ok u.forest
  made : u.forest.Every fun x => ∃ c', c.Reaches env c' ∧ c'.left env = .ok x.forest
  taken : ∀ c', c.Reaches env c' → FetchedLeaf env key c' → ∃ f, c'.left env = .ok f ∧
    u.forest.Holds f ∧
      ∀ x ∈ f.trees, ∃ q, Document.Within source m q ∧ source.isElement q = true ∧
        x.element.TakenFrom source q

/-- The element is fetched from one document and asks to be repeated.  No
sibling has its name, which for a child is so when it is the only one of its
name in the template (`KidCall.alone`), and several elements of the document
are at its path. -/
structure Repeats (env : Environment) (key : XPath.DocKey) (source : Document) (c : Call) :
    Prop where
  state : ∃ s, c.state env = .ok s ∧ FetchedFrom key s ∧ s.multi = .flag true
  alone : c.place.before = 0 ∧ c.place.after = 0
  several : 2 ≤ (source.findAll c.path).length

section Copies

variable {env : Environment} {key : XPath.DocKey} {source : Document} {s : ElementState}
  {c : Call} {m : NodeId} {f : Forest}

/-- The number of a copy is that of its counterpart. -/
theorem findAll_branch {fuel : Nat} {parent : ElementState} {place : Place} {t : Tree}
    {done : Forest} {n : NodeId} {front back : List NodeId}
    (halone : place.before = 0 ∧ place.after = 0) (hrooted : source.findAll place.above = [m])
    (hfound : source.findAll (place.path t.element.name) = front ++ n :: back)
    (hseveral : 2 ≤ (front ++ n :: back).length)
    (hdone : done.named t.element.name = front.length) :
    source.findAll (Call.branch fuel parent place t front.length back.length done).path = [n] := by
  let c : Call := .branch fuel parent place t front.length back.length done
  have hlength : (front ++ n :: back).length = front.length + back.length + 1 := by
    rw [List.length_append, List.length_cons, Nat.add_assoc]
  have hbefore : c.place.before = front.length := by
    change place.before + done.named t.element.name = _
    rw [halone.1, hdone, Nat.zero_add]
  have hafter : c.place.after = back.length := by
    change back.length + place.after = _
    rw [halone.2, Nat.add_zero]
  have hpath : c.path = place.above ++
      [⟨t.element.name.namespaceUri, t.element.name.localName, some (front.length + 1)⟩] := by
    rw [Call.path, Place.path, hbefore, hafter, if_neg (by omega)]
    rfl
  rw [Place.path, halone.1, halone.2, if_pos rfl] at hfound
  rw [hpath, Document.findAll_numbered hrooted, hfound, List.getElem?_append_right le_rfl,
    Nat.sub_self]
  rfl

variable (hsource : env.docs[key]? = some source)

include hsource

/-- An element with one counterpart is left as one tree with its name. -/
theorem exists_tree_of_single (hs : c.state env = .ok s) (hfetched : FetchedFrom key s)
    (hfound : source.findAll c.path = [m]) (h : c.left env = .ok f) :
    ∃ u : Tree, f = u.forest ∧ u.element.name = c.tree.element.name := by
  obtain ⟨fuel, s', x, -, hs', hx, hfollow⟩ := Call.exists_fate h
  cases hs.symm.trans hs'
  cases (fate_single hfetched hsource hfound).symm.trans hx
  obtain ⟨u, rfl, hname, -⟩ := finishElement_eq_ok hfollow
  exact ⟨u, rfl, hname.trans (Fate.take_same _ _).1⟩

theorem isCopy_of_left (hlinked : source.Linked) (hkey : key ≠ templateKey)
    (haloof : c.tree.forest.Aloof env) (hs : c.state env = .ok s) (hfetched : FetchedFrom key s)
    (hfound : source.findAll c.path = [m]) {u : Tree} (h : c.left env = .ok u.forest) :
    IsCopy env key source c m u where
  left := h
  made := every_of_left h
  taken c' hreach hleaf := by
    have hdocs := docs_pos_of_loaded hsource
    obtain ⟨f, hf, hholds⟩ := holds_of_reaches hreach h
    refine ⟨f, hf, hholds, fun x hx => ?_⟩
    rcases hreach.cases_head with rfl | ⟨c₂, hc, hrest⟩
    · have hm : m ∈ source.findAll c.path := hfound ▸ List.mem_singleton_self m
      obtain ⟨u', rfl, htaken⟩ := taken_of_single hsource hleaf hfound hf
      rw [List.mem_singleton.1 hx]
      exact ⟨m, Document.within_self source m, Document.isElement_of_mem_findAll hm, htaken⟩
    · obtain ⟨segment, q, hq, htaken⟩ := taken_of_left hsource hdocs hkey
        ((aloof_of_reaches hreach haloof).1 _ rfl) hleaf hf hx
      have helement := Document.isElement_of_mem_findAll hq
      obtain ⟨rest, habove⟩ := exists_rest_of_reaches hrest
      rw [habove, hc.above_of_stays hs (fate_single hfetched hsource hfound),
        List.append_assoc] at hq
      exact ⟨q, Document.within_of_mem_findAll hlinked hfound hq, helement, htaken⟩

/-- The branches that are still to be walked leave one copy each for the
elements that none of the branches in front has been for. -/
theorem exists_copies (hlinked : source.Linked) (hkey : key ≠ templateKey) {fuel : Nat}
    {parent : ElementState} {place : Place} {t : Tree} (haloof : t.forest.Aloof env)
    (hfetched : ∀ b s, state env { parent with multiBranch := b } t = .ok s → FetchedFrom key s)
    (halone : place.before = 0 ∧ place.after = 0) (hrooted : source.findAll place.above = [m])
    {front back : List NodeId} (hfound : source.findAll (place.path t.element.name) = front ++ back)
    (hseveral : 2 ≤ (front ++ back).length) {done : Forest}
    (hdone : done.named t.element.name = front.length)
    (h : walkCopies (process env fuel) parent place t front.length back.length done = .ok f) :
    ∃ copies, f = done ++ .ofTrees copies ∧ List.Forall₂ (fun n u => ∃ c',
      BranchCall env fuel parent place t front.length back.length done c' ∧
        IsCopy env key source c' n u) back copies := by
  induction back generalizing front done with
  | nil =>
    cases h
    exact ⟨[], (Forest.append_nil _).symm, .nil⟩
  | cons n back ih =>
    obtain ⟨left, hleft, h⟩ := bind_eq_ok.1 h
    let c : Call := .branch fuel parent place t front.length back.length done
    have hsingle : source.findAll c.path = [n] :=
      findAll_branch halone hrooted hfound hseveral hdone
    obtain ⟨_, s, _, _, hs, -⟩ := Call.exists_fate (c := c) hleft
    have hcopy := hfetched _ s hs
    obtain ⟨u, rfl, hname⟩ := exists_tree_of_single hsource hs hcopy hsingle hleft
    have hone : u.forest.named t.element.name = 1 := by
      change (if u.element.name.hasName _ _ then 1 else 0) = 1
      rw [hname]
      exact if_pos (QName.hasName_self _)
    have hnamed : (done ++ u.forest).named t.element.name = (front ++ [n]).length := by
      rw [Forest.named_append, hdone, hone, List.length_append]
      rfl
    have hsplit : front ++ n :: back = front ++ [n] ++ back := List.append_cons front n back
    obtain ⟨copies, rfl, hcopies⟩ := ih (hfound.trans hsplit) (hsplit ▸ hseveral) hnamed
      (by rwa [List.length_append])
    refine ⟨u :: copies, Forest.append_assoc _ _ _, .cons ⟨c, .here, ?_⟩ ?_⟩
    · exact isCopy_of_left hsource hlinked hkey haloof hs hcopy hsingle hleft
    · refine hcopies.imp ?_
      rintro n' u' ⟨c', hc, hcopy⟩
      rw [List.length_append] at hc
      exact ⟨c', .later hleft hc, hcopy⟩

/-- One copy is left for each of the elements at the path. -/
theorem Repeats.exists_copies (h : Repeats env key source c) (hlinked : source.Linked)
    (hkey : key ≠ templateKey) (haloof : c.tree.forest.Aloof env) (hrooted : c.Rooted source)
    (hleft : c.left env = .ok f) :
    ∃ copies, f = .ofTrees copies ∧ List.Forall₂ (fun n u => ∃ c',
      Calls env (fun _ => True) c c' ∧ IsCopy env key source c' n u)
        (source.findAll c.path) copies := by
  obtain ⟨s, hs, hfetched, hmulti⟩ := h.state
  obtain ⟨m, habove⟩ := hrooted
  have hfate := fate_many hfetched hsource hmulti h.several
  obtain ⟨fuel, _, _, hfuel, hs', hfate', hfollow⟩ := Call.exists_fate hleft
  cases hs.symm.trans hs'
  cases hfate.symm.trans hfate'
  have hdocs := docs_pos_of_loaded hsource
  have hcount : (source.findAll c.path).length - 1 + 1 = (source.findAll c.path).length :=
    Nat.sub_add_cancel (Nat.le_of_succ_le h.several)
  rw [follow, replicate, hcount] at hfollow
  obtain ⟨copies, rfl, hcopies⟩ := TreeWalk.exists_copies hsource hlinked hkey
    (Engine.Aloof.removeDirective haloof .multi)
    (fun b s' hb => (state_branch hdocs hsource hkey (haloof.1 _ rfl) hs hfetched hb).1)
    h.alone habove (List.nil_append _).symm h.several rfl hfollow
  refine ⟨copies, rfl, hcopies.imp ?_⟩
  rintro n u ⟨c', hc, hcopy⟩
  exact ⟨c', .branch hfuel hs hfate (by rwa [hcount]), hcopy⟩

end Copies

end TreeWalk

end LabelTemplate

namespace LabelTemplate

open Xml Document Outcome

namespace Engine

/-! ## The walk -/

/-- The call is made for a child of the root in the walk of the template. -/
def TopCall (e : Engine) (t : Tree) (c : TreeWalk.Call) : Prop :=
  ∃ fuel s, depthBound e.template = fuel + 1 ∧ TreeWalk.state e.env .root t = .ok s ∧
    TreeWalk.KidCall e.env fuel s [] .nil t.kids c

/-- In the walk of the template `t`, no directive of which reads the template,
the call is made for an element that is to be repeated, and all elements above
it but the root are fetched from the same document. -/
structure Repeats (e : Engine) (t : Tree) (key : XPath.DocKey) (source : Document)
    (c : TreeWalk.Call) : Prop where
  template : e.template.WellFormed
  root : Spells e.template [e.template.root] t.forest
  aloof : t.forest.Aloof e.env
  loaded : e.env.docs[key]? = some source
  document : source.WellFormed
  other : key ≠ templateKey
  called : ∃ c₀, e.TopCall t c₀ ∧
    Relation.ReflTransGen (TreeWalk.Calls e.env (TreeWalk.FetchedFrom key)) c₀ c
  repeats : TreeWalk.Repeats e.env key source c

/-- Fetched repetitions do not mix: one copy for each element at the path stands
in the place of the repeated element, in document order, and what is fetched
inside a copy is taken from inside that element. -/
theorem repetition_isolated {e e' : Engine} {t : Tree} {key : XPath.DocKey} {source : Document}
    {c : TreeWalk.Call} (h : e.Repeats t key source c) (hwalk : e.walk = .ok e') :
    ∃ (u : Tree) (copies : List Tree), Spells e'.template [e'.template.root] u.forest ∧
      u.kids.Holds (.ofTrees copies) ∧ c.left e.env = .ok (.ofTrees copies) ∧
      copies.length = (source.findAll c.path).length ∧
      (source.findAll c.path).Pairwise (Earlier source) ∧
      List.Forall₂ (fun m copy => ∃ c', TreeWalk.Calls e.env (fun _ => True) c c' ∧
        TreeWalk.IsCopy e.env key source c' m copy) (source.findAll c.path) copies := by
  obtain ⟨c₀, ⟨fuel, s, hfuel, hs, htop⟩, hreach⟩ := h.called
  have hdocs := TreeWalk.docs_pos_of_loaded h.loaded
  have hrun : e.RunsIn e.env := ⟨hdocs, (setTemplate_template hdocs).symm, h.template⟩
  have hprocess : process (fuel + 1) .root e.template.root e = .ok e' := by
    rw [← hfuel]
    unfold walk at hwalk
    split at hwalk <;> cases hwalk
    assumption
  obtain ⟨s', u, hs', hkids, hu⟩ := exists_walkKids_of_root hrun h.root h.aloof
    ⟨by decide, by decide⟩ htop.hasElement hprocess
  cases hs.symm.trans hs'
  obtain ⟨left, hleft, hholds⟩ := htop.holds hkids
  obtain ⟨left', hleft', hholds'⟩ := TreeWalk.holds_of_reaches hreach hleft
  have hrooted : c.Rooted source := TreeWalk.rooted_of_reaches h.loaded hreach
    ⟨source.root, by rw [htop.spec.2.1]; rfl⟩
  have haloof : c.tree.forest.Aloof e.env := TreeWalk.aloof_of_reaches hreach
    (Forest.AllKinds.of_mem_trees h.aloof.2.1 htop.spec.2.2)
  obtain ⟨copies, rfl, hcopies⟩ := h.repeats.exists_copies h.loaded h.document.linked h.other haloof
    hrooted hleft'
  refine ⟨u, copies, hu, hholds.trans hholds', hleft', hcopies.length_eq.symm, ?_, hcopies⟩
  obtain ⟨m, habove⟩ := hrooted
  rw [TreeWalk.Call.path, TreeWalk.Place.path, h.repeats.alone.1, h.repeats.alone.2, if_pos rfl,
    findAll_append, habove, List.flatMap_singleton]
  exact pairwise_childrenNamed source m _ _

/-! ## A repetition inside a repetition -/

namespace Nested

def directive (name value : String) : Attribute :=
  ⟨⟨some directivePrefix, some directiveNamespace, name⟩, value⟩

/-- An element that is repeated, inside one that is. -/
def item : Tree :=
  { element := { name := .plain "c", attributes := [directive "multi" "true()"] }
    line := none
    kids := .nil }

def box : Tree :=
  { element :=
      { name := .plain "b"
        attributes := [directive "sources" "s", directive "fetch" "true()",
          directive "multi" "true()"] }
    line := none
    kids := item.forest }

def template : Tree := { element := { name := .plain "a" }, line := none, kids := box.forest }

def text (s : String) (rest : Forest) : Forest :=
  .node (.element { name := .plain "c", text := some s }) none .nil rest

/-- A document with one item in the first box and two in the second one. -/
def source : Document :=
  .ofTree [] { name := .plain "a" } none
    (.node (.element { name := .plain "b" }) none (text "1" .nil)
      (.node (.element { name := .plain "b" }) none (text "2" (text "3" .nil)) .nil))

def engine : Engine :=
  { env :=
      { docs := #[.ofTree [] template.element none template.kids, source]
        sources := [("s", .single 1)] } }

/-- The calls from the root to the items of the second box. -/
def rootState : ElementState := (TreeWalk.state engine.env .root template).toOption.getD .root

def boxes : TreeWalk.Call := .kid 7 rootState [] .nil .nil box

def bareBox : Tree := box.mapElement (·.removeDirective .multi)

def firstBox : TreeWalk.Call := .branch 6 boxes.parent boxes.place bareBox 0 1 .nil

def secondBox : TreeWalk.Call :=
  .branch 6 boxes.parent boxes.place bareBox 1 0 ((firstBox.left engine.env).toOption.getD .nil)

def secondState : ElementState := (secondBox.state engine.env).toOption.getD .root

def items : TreeWalk.Call := .kid 5 secondState secondBox.path .nil .nil item

theorem aloof_of_subset {e : Element} (h : e.attributes ⊆ box.element.attributes) :
    e.Aloof engine.env := by
  intro a ha hdirective d hd
  rcases List.mem_cons.1 (h ha) with rfl | ha
  · obtain rfl : Directive.sources = d := Option.some.inj hd
    exact ⟨fun _ g hg => Option.some.inj hg ▸ SourceGroup.outside_single (by decide),
      fun hne => absurd rfl hne⟩
  rcases List.mem_cons.1 ha with rfl | ha
  · obtain rfl : Directive.fetch = d := Option.some.inj hd
    exact ⟨fun hne => (by cases hne), fun _ => ElementState.readsNoTemplate_true rfl⟩
  · obtain rfl := List.mem_singleton.1 ha
    obtain rfl : Directive.multi = d := Option.some.inj hd
    exact ⟨fun hne => (by cases hne), fun _ => ElementState.readsNoTemplate_true rfl⟩

theorem aloof_template : template.forest.Aloof engine.env := by
  have haloof : ∀ e : Element, e.attributes ⊆ box.element.attributes →
      ∀ e', (NodeKind.element e).element? = some e' → e'.Aloof engine.env :=
    fun e h e' he => Option.some.inj he ▸ aloof_of_subset h
  exact ⟨haloof _ (by simp [template]), ⟨haloof _ (by simp),
    ⟨haloof _ (by simp [item, box]), trivial, trivial⟩, trivial⟩, trivial⟩

theorem exists_state {c : TreeWalk.Call}
    (h : ((c.state engine.env).toOption.any fun s =>
      decide (s.fetch = true ∧ s.sources = .single 1 ∧ s.multi = .flag true)) = true) :
    ∃ s, c.state engine.env = .ok s ∧ TreeWalk.FetchedFrom 1 s ∧ s.multi = .flag true := by
  obtain ⟨s, hs, hall⟩ := (Option.any_eq_true _ _).1 h
  obtain ⟨hfetch, hsources, hmulti⟩ := of_decide_eq_true hall
  exact ⟨s, toOption_eq_some.1 hs, ⟨hfetch, hsources⟩, hmulti⟩

theorem onlyItem :
    TreeWalk.KidCall engine.env 5 secondState secondBox.path .nil secondBox.tree.kids items :=
  .here

/-- The items of the second box are called for after the first box is done. -/
theorem reaches_items :
    Relation.ReflTransGen (TreeWalk.Calls engine.env (TreeWalk.FetchedFrom 1)) boxes items := by
  have hcount : (source.findAll boxes.path).length = 2 := by decide +kernel
  obtain ⟨s, hs, hfetched, hmulti⟩ := exists_state (c := boxes) (by decide +kernel)
  have hloaded : engine.env.docs[1]? = some source := rfl
  have hmany := TreeWalk.fate_many hfetched hloaded hmulti hcount.ge
  rw [hcount] at hmany
  have hfirst := eq_ok_getD (x := firstBox.left engine.env) (by decide +kernel) .nil
  have hsecond := eq_ok_getD (x := secondBox.state engine.env) (by decide +kernel) .root
  have hstate : secondState.fetch = true ∧ secondState.sources = .single 1 := by decide +kernel
  obtain ⟨m, hm⟩ : ∃ m, source.findAll secondBox.path = [m] :=
    List.length_eq_one_iff.1 (by decide +kernel)
  have hfetched' : TreeWalk.FetchedFrom 1 secondState := ⟨hstate.1, hstate.2⟩
  have hbranch : TreeWalk.Calls engine.env (TreeWalk.FetchedFrom 1) boxes secondBox :=
    .branch rfl hs hmany (.later hfirst .here)
  have hkid : TreeWalk.Calls engine.env (TreeWalk.FetchedFrom 1) secondBox items :=
    .kid rfl hsecond (TreeWalk.fate_single hfetched' hloaded hm) hfetched' onlyItem
  exact .head hbranch (.single hkid)

theorem repeats_items : engine.Repeats template 1 source items where
  template := wellFormed_ofTree (by simp [template, box, item, Tree.forest, Forest.Proper,
    NodeKind.isElement, NodeKind.element?]) _
  root := spells_ofForest (.element template.element) none template.kids []
  aloof := aloof_template
  loaded := rfl
  document := wellFormed_ofTree (by simp [text, Forest.Proper, NodeKind.isElement,
    NodeKind.element?]) _
  other := by decide
  called := ⟨boxes, ⟨7, rootState, rfl, eq_ok_getD (by decide +kernel) .root, .here⟩, reaches_items⟩
  repeats :=
    { state := exists_state (by decide +kernel)
      alone := onlyItem.alone rfl rfl
      several := by decide +kernel }

/-- Of the items in the second box there are two, and their copies take their
texts from them and not from the item in the first one. -/
theorem repetition_isolated_items :
    engine.Repeats template 1 source items ∧ source.findAll items.path = [4, 5] ∧
      ∃ e', engine.walk = .ok e' ∧
        (e'.template.descendantElements e'.template.root).filterMap e'.template.text? =
          ["1", "2", "3"] ∧
        ∃ (u : Tree) (copies : List Tree), Spells e'.template [e'.template.root] u.forest ∧
          u.kids.Holds (.ofTrees copies) ∧ items.left engine.env = .ok (.ofTrees copies) ∧
          copies.length = (source.findAll items.path).length ∧
          (source.findAll items.path).Pairwise (Earlier source) ∧
          List.Forall₂ (fun m copy => ∃ c', TreeWalk.Calls engine.env (fun _ => True) items c' ∧
            TreeWalk.IsCopy engine.env 1 source c' m copy) (source.findAll items.path) copies := by
  have hrun : (engine.walk.toOption.any fun e' => decide
      ((e'.template.descendantElements e'.template.root).filterMap e'.template.text? =
        ["1", "2", "3"])) = true := by
    decide +kernel
  obtain ⟨e', he', htexts⟩ := (Option.any_eq_true _ _).1 hrun
  have hwalk : engine.walk = .ok e' := toOption_eq_some.1 he'
  exact ⟨repeats_items, by decide +kernel, e', hwalk, of_decide_eq_true htexts,
    repetition_isolated repeats_items hwalk⟩

end Nested

end Engine

end LabelTemplate
