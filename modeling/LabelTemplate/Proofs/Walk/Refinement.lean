import LabelTemplate.Proofs.Walk.Placing
import LabelTemplate.Proofs.Walk.States
import LabelTemplate.Proofs.Walk.Invariant

/-!
# The walk computes the walk on trees

`ReadsAs env visit tree` says that a visit of an element leaves in its place
what `tree` says of the element's tree, and fails when `tree` fails.  The
lemmas follow the functions of the walk, each given that the visits below are
read in this way; `readsAs_process` closes the circle.

Everything is relative to an environment `env` of which only the template
changes during a run (`RunsIn`), and to elements whose directives do not read
the template.
-/

namespace LabelTemplate

open Xml Document Outcome

/-- No directive in the forest reads the template. -/
def Xml.Forest.Aloof (env : Environment) (f : Forest) : Prop :=
  f.AllKinds fun k => ∀ e, k.element? = some e → e.Aloof env

def WalkFault.stop : WalkFault → TreeWalk.Stop
  | failed _ => .failed
  | exhausted => .exhausted

namespace Engine

/-! ## Readings -/

/-- Where an element with a given name stands among its siblings. -/
def place (d : Document) (p : NodeId) (before after : List NodeId) (name : QName) :
    TreeWalk.Place :=
  ⟨d.elementPath p, d.named name before, d.named name after⟩

/-- A forest stands in the place of a node. -/
def Leaves (env : Environment) (d : Document) (p : NodeId) (before : List NodeId) (n : NodeId)
    (after : List NodeId) (f : Forest) (e : Engine) : Prop :=
  e.RunsIn env ∧ ∃ left, Spliced d p before n after left e.template ∧ Spells e.template left f

/-- The node stands in its place, with a given tree. -/
def Stays (env : Environment) (d : Document) (p : NodeId) (before : List NodeId) (n : NodeId)
    (after : List NodeId) (t : Tree) (e : Engine) : Prop :=
  e.RunsIn env ∧ Spliced d p before n after [n] e.template ∧ Spells e.template [n] t.forest

/-- The walk on trees and the walk succeed together, or stop for the same
reason. -/
abbrev Answers {α β : Type} (r : α → β → Prop) :
    Except TreeWalk.Stop α → Except WalkFault β → Prop :=
  Related (fun stop fault => fault.stop = stop) r

/-- A visit of a comment changes nothing. -/
def SkipsComments (visit : Visit) : Prop :=
  ∀ s n e, e.template.isComment n = true → visit s n e = .ok e

/-- No fuel is left for any visit, not even of a comment. -/
structure Spent (visit : Visit) (tree : TreeWalk.Visit) : Prop where
  visit : ∀ s n e, visit s n e = .error .exhausted
  tree : ∀ s place t, tree s place t = .error .exhausted

structure ReadsAs (env : Environment) (visit : Visit) (tree : TreeWalk.Visit) : Prop where
  comment : SkipsComments visit ∨ Spent visit tree
  element : ∀ {s s' : ElementState} {e : Engine} {p n : NodeId} {before after : List NodeId}
    {t : Tree}, s.Twin s' → s'.sources.Outside → e.RunsIn env →
    Stands e.template p before n after → Spells e.template [n] t.forest → t.forest.Aloof env →
    Answers (Leaves env e.template p before n after)
      (tree s' (place e.template p before after t.element.name) t) (visit s n e)

variable {env : Environment} {visit : Visit} {tree : TreeWalk.Visit}

/-! ## Children -/

theorem walkKids_spent (h : Spent visit tree) {s s' : ElementState} {d : Document}
    {above : ElementPath} {f done : Forest} {todo : List NodeId} {e : Engine}
    (htodo : Spells d todo f) (hf : f.hasElement = true) {r : Forest → Engine → Prop} :
    Answers r (TreeWalk.walkKids tree s' above done f)
      (todo.foldlM (fun e c => visit s c e) e) := by
  have hvisit : ∀ todo : List NodeId, todo ≠ [] →
      todo.foldlM (fun e c => visit s c e) e = .error .exhausted := by
    intro todo htodo
    cases todo with
    | nil => exact absurd rfl htodo
    | cons c ids =>
      rw [List.foldlM_cons, h.visit]
      rfl
  have htree : TreeWalk.walkKids tree s' above done f = .error .exhausted := by
    clear htodo
    induction f generalizing done with
    | nil => cases hf
    | node kind line kids rest _ ih =>
      cases kind with
      | comment text => exact ih hf
      | element el =>
        simp only [TreeWalk.walkKids, h.tree]
        rfl
  rw [htree, hvisit todo (by
    rintro rfl
    cases htodo
    cases hf)]
  exact .error rfl

theorem walkKids_answers (h : ReadsAs env visit tree) (hcomments : SkipsComments visit)
    {s s' : ElementState} (hs : s.Twin s')
    (hout : s'.sources.Outside) {d : Document} (hd : d.WellFormed) {n : NodeId}
    {above : ElementPath} {f done : Forest} {todo doneIds : List NodeId} {e : Engine}
    (hrun : e.RunsIn env) (hframe : Frame (¬ Below d n ·) n d e.template)
    (hatt : Within e.template e.template.root n) (hpath : e.template.elementPath n = above)
    (hchildren : e.template.children n = doneIds ++ todo) (hdone : Spells e.template doneIds done)
    (htodo : Spells e.template todo f) (haloof : f.Aloof env) (hbelow : ∀ c ∈ todo, Below d n c) :
    Answers (fun f e' => e'.RunsIn env ∧ Frame (¬ Below d n ·) n d e'.template ∧
        Spells e'.template (e'.template.children n) f)
      (TreeWalk.walkKids tree s' above done f) (todo.foldlM (fun e c => visit s c e) e) := by
  induction f generalizing e done doneIds todo with
  | nil =>
    cases htodo
    rw [List.append_nil] at hchildren
    exact .ok ⟨hrun, hframe, hchildren ▸ hdone⟩
  | node kind line kids rest _ ih =>
    cases htodo with
    | @node c ids x _ _ hx hkids hrest =>
      have hone : Spells e.template [c] (.node x.kind x.line kids .nil) := .node hx hkids .nil
      rw [List.foldlM_cons]
      cases hkind : x.kind with
      | comment text =>
        have hcomment : e.template.isComment c = true := by
          simp only [isComment, kind?_of_node? hx, hkind]
          rfl
        rw [hcomments s c e hcomment]
        rw [hkind] at hone
        exact ih hrun hframe hatt hpath (by rw [hchildren, List.append_cons])
          (hdone.append hone) hrest haloof.2.2 fun m hm => hbelow m (List.mem_cons_of_mem _ hm)
      | element el =>
        rw [hkind] at hone haloof
        have hstands : Stands e.template n doneIds c ids := ⟨hrun.wellFormed, hatt, hchildren⟩
        have hplace : place e.template n doneIds ids el.name =
            ⟨above, done.named el.name, rest.named el.name⟩ := by
          rw [place, hpath, hdone.named_eq, hrest.named_eq]
        have hvisit := h.element (t := ⟨el, x.line, kids⟩) hs hout hrun hstands hone
          ⟨haloof.1, haloof.2.1, trivial⟩
        rw [hplace] at hvisit
        refine hvisit.bind fun left e₁ hleft => ?_
        obtain ⟨hrun₁, newIds, hspliced, hnew⟩ := hleft
        have hsiblings : ∀ {ns : List NodeId} {g : Forest}, Spells e.template ns g →
            (∀ m ∈ ns, m ∈ doneIds ++ ids) → Spells e₁.template ns g :=
          fun hg hns => hspliced.spells hstands hg hns
        have hframe₁ : Frame (¬ Below d n ·) n d e₁.template :=
          hframe.trans hspliced.frame fun m hm ho => hframe.not_within hd.linked
            (fun a m hw ho hn => ho (by
              rcases hw with rfl | hw
              · exact hn
              · exact hn.trans hw))
            (fun _ hc => hc (hbelow c List.mem_cons_self)) hm ho
        obtain ⟨hatt₁, hpath₁⟩ := hstands.path_eq hrun₁.wellFormed hspliced.frame
        exact ih hrun₁ hframe₁ hatt₁ (hpath₁.trans hpath) hspliced.children
          ((hsiblings hdone fun m hm => List.mem_append_left _ hm).append hnew)
          (hsiblings hrest fun m hm => List.mem_append_right _ hm) haloof.2.2
          fun m hm => hbelow m (List.mem_cons_of_mem _ hm)

/-! ## Copies -/

section Copies

variable {d : Document} {p n : NodeId} {before after : List NodeId} {t : Tree}

theorem walkCopies_answers (h : ReadsAs env visit tree) {s s' : ElementState} (hs : s.Twin s')
    (hout : s'.sources.Outside) (hd : Stands d p before n after) (haloof : t.forest.Aloof env)
    {i : Nat} {done : Forest} {todo doneIds : List NodeId} {e : Engine} (hrun : e.RunsIn env)
    (hframe : Frame (¬ Within d n ·) p d e.template)
    (hchildren : e.template.children p = before ++ doneIds ++ todo ++ after)
    (hdone : Spells e.template doneIds done) (htodo : ∀ c ∈ todo, Spells e.template [c] t.forest)
    (hnew : ∀ c ∈ todo, c < d.size → Within d n c) :
    Answers (Leaves env d p before n after)
      (TreeWalk.walkCopies tree s' (place d p before after t.element.name) t i todo.length done)
      (walkBranches visit s i todo e) := by
  induction todo generalizing e done doneIds i with
  | nil =>
    rw [List.append_nil] at hchildren
    exact .ok ⟨hrun, doneIds, ⟨hrun.wellFormed, hframe, hchildren⟩, hdone⟩
  | cons c ids ih =>
    obtain ⟨hatt, hpath⟩ := hd.path_eq hrun.wellFormed hframe
    obtain ⟨hbefore, hafter⟩ := hd.named_eq hframe t.element.name
    have hstands : Stands e.template p (before ++ doneIds) c (ids ++ after) :=
      ⟨hrun.wellFormed, hatt, by simpa using hchildren⟩
    have hids : ∀ m ∈ ids, Spells e.template [m] t.forest :=
      fun m hm => htodo m (List.mem_cons_of_mem _ hm)
    have hplace : place e.template p (before ++ doneIds) (ids ++ after) t.element.name =
        ⟨d.elementPath p, d.named t.element.name before + done.named t.element.name,
          ids.length + d.named t.element.name after⟩ := by
      rw [place, hpath, named_append, named_append, hbefore, hafter, hdone.named_eq,
        named_eq_length hids]
    have hbranch : ElementState.Twin { s with multiBranch := some i }
        { s' with multiBranch := some i } := by
      obtain ⟨k, rfl⟩ := hs
      exact ⟨k, rfl⟩
    have hvisit := h.element hbranch hout hrun hstands (htodo c List.mem_cons_self) haloof
    rw [hplace] at hvisit
    refine hvisit.bind fun left e₁ hleft => ?_
    obtain ⟨hrun₁, newIds, hspliced, hleft⟩ := hleft
    have hframe₁ : Frame (¬ Within d n ·) p d e₁.template :=
      hframe.trans hspliced.frame fun m hm ho =>
        hd.not_within_new hframe (hnew c List.mem_cons_self) hm ho
    have hdone₁ : Spells e₁.template doneIds done := hspliced.spells hstands hdone fun m hm =>
      List.mem_append_left _ (List.mem_append_right _ hm)
    refine ih hrun₁ hframe₁ ?_ (hdone₁.append hleft) (fun m hm => ?_)
      fun m hm => hnew m (List.mem_cons_of_mem _ hm)
    · simpa using hspliced.children
    · refine hspliced.spells hstands (hids m hm) fun k hk => ?_
      rw [List.mem_singleton.1 hk]
      exact List.mem_append_right _ (List.mem_append_left _ hm)

/-- The place of a node among its siblings stays the same while only the node
changes. -/
theorem place_eq (hd : Stands d p before n after) {e : Document} (he : e.WellFormed)
    (hframe : Frame (¬ Within d n ·) p d e) (name : QName) :
    place e p before after name = place d p before after name := by
  obtain ⟨hbefore, hafter⟩ := hd.named_eq hframe name
  rw [place, place, (hd.path_eq he hframe).2, hbefore, hafter]

theorem Aloof.removeDirective (h : t.forest.Aloof env) (directive : Directive) :
    (t.mapElement (·.removeDirective directive)).forest.Aloof env :=
  ⟨fun _ he => by
    cases he
    exact (h.1 t.element rfl).sublist List.eraseP_sublist, h.2⟩

theorem replicate_answers (h : ReadsAs env visit tree) {s s' : ElementState} (hs : s.Twin s')
    (hout : s'.sources.Outside) {e : Engine} (hrun : e.RunsIn env)
    (hd : Stands e.template p before n after) (hn : Spells e.template [n] t.forest)
    (haloof : t.forest.Aloof env) (copies : Nat) :
    Answers (Leaves env e.template p before n after)
      (TreeWalk.replicate tree s' (place e.template p before after t.element.name) t copies)
      (replicate visit s n copies e) := by
  obtain ⟨ids, d', hmodel, hlen, hnew, hspliced, hspells⟩ := exists_branches hd hn copies
  obtain ⟨hrun₂, htemplate⟩ := hrun.setTemplate hspliced.wellFormed
  have hwalk : Answers (Leaves env e.template p before n after)
      (TreeWalk.walkCopies tree s' (place e.template p before after t.element.name)
        (t.mapElement (·.removeDirective .multi)) 0 (n :: ids).length .nil)
      (walkBranches visit s 0 (n :: ids) (e.setTemplate d')) :=
    walkCopies_answers h hs hout hd (Aloof.removeDirective haloof .multi) hrun₂
      (by rw [htemplate]; exact hspliced.frame) (by rw [htemplate]; simpa using hspliced.children)
      .nil (by rw [htemplate]; exact hspells) fun c hc hlt => by
        rcases List.mem_cons.1 hc with rfl | hc
        · exact within_self _ _
        · exact absurd hlt (Nat.not_lt.2 (hnew c hc))
  rw [List.length_cons, hlen] at hwalk
  rw [hmodel visit s e rfl]
  exact hwalk

/-! ## One element per source -/

theorem walkSources_answers (h : ReadsAs env visit tree) {s s' : ElementState} (hs : s.Twin s')
    (hd : Stands d p before n after) (haloof : t.forest.Aloof env) {keys : List XPath.DocKey}
    (hkeys : templateKey ∉ keys) (hlast : ∀ key ∈ keys.dropLast, some key ≠ s.sources.primary)
    {done : Forest} {doneIds : List NodeId} {e : Engine} (hrun : e.RunsIn env)
    (hexpanding : Expanding d p before n after t (keys ≠ []) doneIds e.template)
    (hdone : Spells e.template doneIds done) :
    Answers (Leaves env d p before n after)
      (TreeWalk.walkSources env tree s' (place d p before after t.element.name) t keys done)
      (walkSources visit s n p before.length keys e) := by
  induction keys generalizing e done doneIds with
  | nil => exact .ok ⟨hrun, doneIds, ⟨hrun.wellFormed, hexpanding.frame, hexpanding.children⟩, hdone⟩
  | cons key keys ih =>
    have hkey : key ≠ templateKey := fun hk => hkeys (hk ▸ List.mem_cons_self)
    obtain ⟨elem, d', hpair, hplaced⟩ := hexpanding.exists_placed (List.cons_ne_nil _ _) hd
      (some key = s.sources.primary)
    have hdone' : Spells (d'.insertChild p before.length elem) doneIds done :=
      hplaced.change.spells hrun.wellFormed.linked hdone hplaced.apart
    obtain ⟨hrun', htemplate⟩ := hrun.setTemplate hplaced.stands.wellFormed
    obtain ⟨hbefore, hafter⟩ := hd.named_eq hplaced.frame t.element.name
    have hplace : place (d'.insertChild p before.length elem) p before (doneIds ++ after)
        t.element.name = ⟨d.elementPath p, d.named t.element.name before,
          done.named t.element.name + d.named t.element.name after⟩ := by
      rw [place, (hd.path_eq hplaced.stands.wellFormed hplaced.frame).2, named_append, hbefore,
        hafter, hdone'.named_eq]
    have htwin : (s.rebindSource key (e.setTemplate (d'.insertChild p before.length elem)).env).Twin
        (s'.rebindSource key env) := by
      have h := ElementState.rebindSource_twin env
        (d'.insertChild p before.length elem) env.template hs hkey
      rwa [setTemplate_template hrun.docs_pos, ← htemplate, ← hrun'.env_eq] at h
    have houtside : (s'.rebindSource key env).sources.Outside := by
      rw [ElementState.sources_rebindSource]
      exact ⟨by simp [SourceGroup.members, SourceGroup.single],
        by simpa [SourceGroup.members, SourceGroup.single] using hkey.symm⟩
    have hvisit := h.element htwin houtside hrun' (by rw [htemplate]; exact hplaced.stands)
      (by rw [htemplate]; exact hplaced.spells) haloof
    rw [htemplate, hplace] at hvisit
    simp only [TreeWalk.walkSources, walkSources, hpair]
    refine hvisit.bind fun left e₁ hleft => ?_
    obtain ⟨hrun₁, newIds, hspliced, hleft⟩ := hleft
    have hdone₁ : Spells e₁.template doneIds done :=
      hspliced.spells hplaced.stands hdone' fun m hm =>
        List.mem_append_right _ (List.mem_append_left _ hm)
    refine ih (fun hk => hkeys (List.mem_cons_of_mem _ hk)) (fun k hk => hlast k ?_) hrun₁
      (hplaced.spliced hd (fun hne => hlast key ?_) hspliced) (hleft.append hdone₁)
    · rw [List.dropLast_cons_of_ne_nil (List.ne_nil_of_mem (List.mem_of_mem_dropLast hk))]
      exact List.mem_cons_of_mem _ hk
    · rw [List.dropLast_cons_of_ne_nil hne]
      exact List.mem_cons_self

theorem expandSources_answers (h : ReadsAs env visit tree) {s s' : ElementState} (hs : s.Twin s')
    (hout : s'.sources.Outside) {e : Engine} (hrun : e.RunsIn env)
    (hd : Stands e.template p before n after) (hn : Spells e.template [n] t.forest)
    (haloof : t.forest.Aloof env) :
    Answers (Leaves env e.template p before n after)
      (TreeWalk.expandSources env tree s' (place e.template p before after t.element.name) t)
      (expandSources visit s n e) := by
  have hmembers : s.sources.members = s'.sources.members := by
    obtain ⟨k, rfl⟩ := hs
    rfl
  have hprimary : s.sources.primary = s'.sources.primary := by
    obtain ⟨k, rfl⟩ := hs
    rfl
  have hstart := expanding_start hd hn (s'.sources.members.reverse ≠ [])
  rw [expandSources_eq hd, TreeWalk.expandSources, hmembers]
  obtain ⟨hrun₂, htemplate⟩ := hrun.setTemplate hstart.wellFormed
  refine walkSources_answers h hs hd (Aloof.removeDirective haloof .sources) ?_ ?_ hrun₂
    (by rwa [htemplate]) .nil
  · rw [List.mem_reverse]
    exact hout.no_template
  · rw [hprimary]
    exact SourceGroup.primary_last hout.nodup

/-! ## Fetching -/

theorem path_eq_place (hd : Stands d p before n after) (hn : Spells d [n] t.forest) :
    d.elementPath n = (place d p before after t.element.name).path t.element.name := by
  have hname : d.name? n = some t.element.name := by
    rw [Document.name?, hn.element?_eq]
    rfl
  rw [hd.wellFormed.elementPath_child hd.parent hname hd.attached,
    segmentOf_eq hd.children hname hd.not_mem.1]
  rfl

/-- What a fetch comes to: an element to go on with, or what is left of it. -/
def Fetched (env : Environment) (d : Document) (p : NodeId) (before : List NodeId) (n : NodeId)
    (after : List NodeId) (t : Tree) : Tree ⊕ Forest → Bool × Engine → Prop
  | .inl t', (stays, e) => stays = true ∧ t'.element.name = t.element.name ∧ t'.kids = t.kids ∧
    Stays env d p before n after t' e
  | .inr f, (stays, e) => stays = false ∧ Leaves env d p before n after f e

theorem fetch_answers (h : ReadsAs env visit tree) {parent parent' s s' : ElementState}
    (hparent : parent.Twin parent') (hout : parent'.sources.Outside) (hs : s.Twin s')
    (hsout : s'.sources.Outside) {e : Engine} (hrun : e.RunsIn env)
    (hd : Stands e.template p before n after) (hn : Spells e.template [n] t.forest)
    (haloof : t.forest.Aloof env) :
    Answers (Fetched env e.template p before n after t)
      (TreeWalk.fetch env tree parent' s' (place e.template p before after t.element.name) t)
      (fetch visit parent s n e) := by
  obtain ⟨k, rfl⟩ := hs
  have hstay : Spliced e.template p before n after [n] e.template :=
    ⟨hrun.wellFormed, Frame.refl _ p _, by rw [hd.children]; simp⟩
  unfold TreeWalk.fetch fetch
  cases hkey : s'.sources.primary with
  | none => exact .error rfl
  | some key =>
    have hne : key ≠ templateKey := fun hk => hsout.primary_ne (hk ▸ hkey)
    have hdocs : e.env.docs[key]? = env.docs[key]? := by
      rw [hrun.env_eq]
      exact ElementState.getElem?_docs_setTemplate hne
    simp only [hdocs]
    cases env.docs[key]? with
    | none => exact .error rfl
    | some source =>
      simp only [path_eq_place hd hn]
      cases hfound : source.findAll ((place e.template p before after t.element.name).path
          t.element.name) with
      | nil =>
        by_cases hrequired : s'.required = some true
        · simp only [hrequired, if_true]
          exact .error rfl
        · simp only [hrequired, if_false]
          have hdetach := hrun.wellFormed.detach n
          obtain ⟨hrun', htemplate⟩ := hrun.setTemplate hdetach
          refine .ok ⟨rfl, hrun', [], ?_, .nil⟩
          change Spliced _ p before n after [] (e.setTemplate (e.template.detach n)).template
          rw [htemplate]
          exact hd.spliced_detach
      | cons m found =>
        cases found with
        | nil =>
          simp only [hn.hasElementChildren_eq]
          cases t.kids.hasElement with
          | true => exact .ok ⟨rfl, rfl, rfl, hrun, hstay, hn⟩
          | false =>
            have hspliced := hd.spliced_updateElement
              (·.takeContent (source.attributes m) (source.text? m))
            rw [← copyContent_eq] at hspliced
            obtain ⟨hrun', htemplate⟩ := hrun.setTemplate hspliced.wellFormed
            refine .ok ⟨rfl, Element.name_takeContent _ _ _, rfl, hrun', ?_, ?_⟩
            · change Spliced _ p before n after [n]
                (e.setTemplate (copyContent e.template n source m)).template
              rwa [htemplate]
            · change Spells (e.setTemplate (copyContent e.template n source m)).template [n] _
              rw [htemplate, copyContent_eq]
              exact spells_updateElement hrun.wellFormed.linked hn _
        | cons m' found =>
          have hreplicate := replicate_answers h hparent hout hrun hd hn haloof
            ((m :: m' :: found).length - 1)
          cases hexpected : s'.multi.expected? with
          | none =>
            simp only [Option.any_none, Bool.false_eq_true, if_false]
            exact hreplicate.bind fun f e' hleft => .ok ⟨rfl, hleft⟩
          | some expected =>
            by_cases hcount : expected = (m :: m' :: found).length
            · simp only [Option.any_some, hcount, ne_eq, not_true, decide_false,
                Bool.false_eq_true, if_false]
              exact hreplicate.bind fun f e' hleft => .ok ⟨rfl, hleft⟩
            · simp only [Option.any_some, ne_eq, hcount, not_false_eq_true, decide_true, if_true]
              exact .error rfl

/-! ## One element -/

/-- The element with other children, all else being as it was. -/
theorem stays_of_kids {e e' : Engine} (hd : Stands e.template p before n after)
    (hn : Spells e.template [n] t.forest) {kids : Forest} (hrun : e'.RunsIn env)
    (hframe : Frame (¬ Below e.template n ·) n e.template e'.template)
    (hkids : Spells e'.template (e'.template.children n) kids) :
    Stays env e.template p before n after { t with kids } e' := by
  have hlinked := hd.wellFormed.linked
  have hp : p < e.template.size := hlinked.parent_lt_size hd.parent
  have hnp : ¬ Below e.template n p := fun h =>
    hlinked.not_within_self_parent hd.parent (.inr h)
  have hne : p ≠ n := fun h => hlinked.not_within_self_parent hd.parent (.inl h)
  refine ⟨hrun, ⟨hrun.wellFormed, hframe.of_children p fun m hm => ?_, ?_⟩, spells_tree.2 ?_⟩
  · exact ⟨fun hb => hm (.inr hb), fun he => hm (.inl he)⟩
  · rw [hframe.children p hp hnp hne, hd.children]
    simp
  · obtain ⟨x, hx, hkind, hline, -⟩ := spells_tree.1 hn
    have hshell := hframe.shell n (lt_size_of_node? hx) (hlinked.acyclic n)
    rw [shell?, shell?, hx, Option.map_some] at hshell
    obtain ⟨y, hy, hxy⟩ := Option.map_eq_some_iff.1 hshell
    rw [Node.mk.injEq] at hxy
    refine ⟨y, hy, hxy.1.trans hkind, hxy.2.2.2.trans hline, ?_⟩
    rwa [children_of_node? hy] at hkids

theorem stays_updateElement {e : Engine} (hrun : e.RunsIn env)
    (hd : Stands e.template p before n after) (hn : Spells e.template [n] t.forest)
    (f : Element → Element) :
    Stays env e.template p before n after (t.mapElement f)
      (e.setTemplate (e.template.updateElement n f)) := by
  have hspliced := hd.spliced_updateElement f
  obtain ⟨hrun', htemplate⟩ := hrun.setTemplate hspliced.wellFormed
  refine ⟨hrun', by rwa [htemplate], ?_⟩
  rw [htemplate]
  exact spells_updateElement hrun.wellFormed.linked hn f

theorem walkContent_answers (h : ReadsAs env visit tree) {s s' : ElementState}
    (hs : ElementState.Settled env s s') {e : Engine} (hrun : e.RunsIn env)
    (hd : Stands e.template p before n after) (hn : Spells e.template [n] t.forest)
    (hkids : t.kids.Aloof env) :
    Answers (Stays env e.template p before n after)
      (TreeWalk.walkContent env tree s' (place e.template p before after t.element.name) t)
      (walkContent visit s n e) := by
  have hstay : Spliced e.template p before n after [n] e.template :=
    ⟨hrun.wellFormed, Frame.refl _ p _, by rw [hd.children]; simp⟩
  have hfill : s.declares .fill = s'.declares .fill := by
    obtain ⟨⟨k, rfl⟩, -, -⟩ := hs
    rfl
  have hdefer : s.defer = s'.defer := by
    obtain ⟨⟨k, rfl⟩, -, -⟩ := hs
    rfl
  unfold TreeWalk.walkContent walkContent
  simp only [hn.hasElementChildren_eq, hfill, hdefer]
  cases hinner : t.kids.hasElement with
  | true =>
    have hatt : Within e.template e.template.root n := within_of_parent? hd.parent hd.attached
    rw [if_pos rfl, if_pos rfl]
    rcases h.comment with hcomments | hspent
    · have hwalk := walkKids_answers h hcomments hs.twin hs.outside hd.wellFormed hrun
        (Frame.refl _ n _) hatt (path_eq_place hd hn) (List.nil_append _).symm .nil hn.kids hkids
        fun c hc => .child ((hd.wellFormed.parent_iff_child n c).2 hc)
      exact hwalk.map_left fun kids e' hleft =>
        stays_of_kids hd hn hleft.1 hleft.2.1 hleft.2.2
    · exact Related.map_left (r := fun _ _ => False) (walkKids_spent hspent hn.kids hinner)
        fun _ _ hfalse => hfalse.elim
  | false =>
    simp only [Bool.false_eq_true, if_false]
    cases hdeclared : s'.declares .fill with
    | false => exact .ok ⟨hrun, hstay, hn⟩
    | true =>
      cases hdeferred : s'.defer with
      | true => exact .ok ⟨⟨hrun.docs_pos, hrun.env_eq, hrun.wellFormed⟩, hstay, hn⟩
      | false =>
        have heval : Answers (fun v v' => v' = v)
            (TreeWalk.quiet (s'.evalFill (env.setTemplate t.document)))
            ((s.evalFill e.env).mapError .failed) := by
          rw [hrun.env_eq]
          exact (ElementState.evalFill_twin hs).symm.mapError fun _ _ _ => rfl
        refine heval.bind fun v v' hv => ?_
        cases hv
        cases v with
        | none => exact .ok ⟨hrun, hstay, hn⟩
        | some v =>
          have htext : e.template.text? n = t.element.text := by
            rw [Document.text?, hn.element?_eq]
            rfl
          simp only [Document.applyFill, htext]
          cases v.applyTo (t.element.text.getD "") with
          | error fault => exact .error rfl
          | ok text => exact .ok (stays_updateElement hrun hd hn _)

theorem Stays.leaves {e e' : Engine} {f : Forest} (hd : Stands d p before n after)
    (h : Stays env d p before n after t e) (h' : Leaves env e.template p before n after f e') :
    Leaves env d p before n after f e' := by
  obtain ⟨hrun, left, hspliced, hleft⟩ := h'
  exact ⟨hrun, left, h.2.1.trans hd hspliced, hleft⟩

theorem finishElement_answers (h : ReadsAs env visit tree) {s s' : ElementState}
    (hs : ElementState.Settled env s s') {e : Engine} (hrun : e.RunsIn env)
    (hd : Stands e.template p before n after) (hn : Spells e.template [n] t.forest)
    (hkids : t.kids.Aloof env) :
    Answers (Leaves env e.template p before n after)
      (TreeWalk.finishElement env tree s' (place e.template p before after t.element.name) t)
      (finishElement visit s n e) := by
  refine (walkContent_answers h hs hrun hd hn hkids).bind fun t' e' hstays => .ok ?_
  obtain ⟨hrun', hspliced, hn'⟩ := hstays
  have hd' := hspliced.stands hd
  have hstrip := stays_updateElement hrun' hd' hn' (·.stripDirectives)
  exact Stays.leaves hd ⟨hrun', hspliced, hn'⟩ ⟨hstrip.1, [n], hstrip.2.1, hstrip.2.2⟩

theorem walkElement_answers (h : ReadsAs env visit tree) {parent parent' s s' : ElementState}
    (hparent : parent.Twin parent') (hout : parent'.sources.Outside)
    (hs : ElementState.Settled env s s') {e : Engine} (hrun : e.RunsIn env)
    (hd : Stands e.template p before n after) (hn : Spells e.template [n] t.forest)
    (haloof : t.forest.Aloof env) :
    Answers (Leaves env e.template p before n after)
      (TreeWalk.walkElement env tree parent' s' (place e.template p before after t.element.name) t)
      (walkElement visit parent s n e) := by
  have hfetched := fetch_answers h hparent hout hs.twin hs.outside hrun hd hn haloof
  have hfields : s.fetch = s'.fetch ∧ s.multi = s'.multi ∧ s.declares .required =
      s'.declares .required := by
    obtain ⟨⟨k, rfl⟩, -, -⟩ := hs
    exact ⟨rfl, rfl, rfl⟩
  unfold TreeWalk.walkElement walkElement
  simp only [hfields.1, hfields.2.1, hfields.2.2]
  cases s'.fetch with
  | true =>
    simp only [if_true]
    refine hfetched.bind fun fetched r hr => ?_
    obtain ⟨stays, e'⟩ := r
    cases fetched with
    | inr left =>
      obtain ⟨rfl, hleft⟩ := hr
      exact .ok hleft
    | inl t' =>
      obtain ⟨rfl, hname, hkids, hstays⟩ := hr
      obtain ⟨hrun', hspliced, hn'⟩ := hstays
      have hd' := hspliced.stands hd
      have hplace : place e.template p before after t.element.name =
          place e'.template p before after t'.element.name := by
        rw [hname, place_eq hd hspliced.wellFormed hspliced.frame]
      have hfinish := finishElement_answers h hs hrun' hd' hn' (hkids ▸ haloof.2.1)
      rw [← hplace] at hfinish
      exact hfinish.mono (fun _ _ he => he) fun f e'' hleft =>
        Stays.leaves hd ⟨hrun', hspliced, hn'⟩ hleft
  | false =>
    simp only [Bool.false_eq_true, if_false]
    have hfinish : ∀ q, Answers (Leaves env e.template p before n after)
        (TreeWalk.finishElement env tree s' (place e.template p before after t.element.name) t)
        (finishElement visit s n { e with deferred := q }) := fun q =>
      finishElement_answers h hs (e := { e with deferred := q })
        ⟨hrun.docs_pos, hrun.env_eq, hrun.wellFormed⟩ hd hn haloof.2.1
    have hqueued : Answers (Leaves env e.template p before n after)
        (TreeWalk.finishElement env tree s' (place e.template p before after t.element.name) t)
        (if s'.declares .required then
          finishElement visit s n { e with deferred := e.deferred.addRequired ⟨s, n⟩ }
        else finishElement visit s n e) := by
      split
      · exact hfinish _
      · exact hfinish e.deferred
    cases s'.multi with
    | flag b => exact hqueued
    | count k =>
      by_cases hk : k - 1 > 0
      · simp only [hk, if_true]
        exact replicate_answers h hparent hout hrun hd hn haloof (k - 1)
      · simp only [hk, if_false]
        exact hqueued

end Copies

/-! ## The walk -/

/-- The state of an element is the one of its tree. -/
theorem state_answers {s s' : ElementState} {e : Engine} {n : NodeId} {t : Tree} (hs : s.Twin s')
    (hout : s'.sources.Outside) (hrun : e.RunsIn env) (hn : Spells e.template [n] t.forest)
    (haloof : t.forest.Aloof env) :
    Answers (fun a b => ElementState.Settled env b a) (TreeWalk.state env s' t)
      ((ElementState.resolve e.env s n).mapError .failed) := by
  have hself : Spells t.document [0] t.forest := spells_graft (by simp) t.forest
  have htwin := ElementState.resolve_twin hrun.docs_pos hs hout (haloof.1 _ rfl)
    hn.element?_eq hself.element?_eq
    (hn.hasElementChildren_eq.trans hself.hasElementChildren_eq.symm)
  rw [← hrun.env_eq] at htwin
  exact htwin.symm.mapError fun _ _ _ => rfl

/-- The walk leaves in the place of an element what the walk on trees says. -/
theorem readsAs_process (env : Environment) (fuel : Nat) :
    ReadsAs env (process fuel) (TreeWalk.process env fuel) := by
  induction fuel with
  | zero =>
    exact ⟨.inr ⟨fun _ _ _ => rfl, fun _ _ _ => rfl⟩, fun _ _ _ _ _ _ => .error rfl⟩
  | succ fuel ih =>
    refine ⟨.inl fun s n e hcomment => if_pos hcomment, ?_⟩
    intro s s' e p n before after t hs hout hrun hd hn haloof
    have hcomment : e.template.isComment n ≠ true := by
      obtain ⟨x, hx, hkind, -⟩ := spells_tree.1 hn
      simp only [isComment, kind?_of_node? hx, hkind]
      exact Bool.false_ne_true
    simp only [TreeWalk.process, process, if_neg hcomment]
    refine (state_answers hs hout hrun hn haloof).bind fun s₁' s₁ hsettled => ?_
    have hsecondary : s₁.sources = s₁'.sources := by
      obtain ⟨⟨k, rfl⟩, -, -⟩ := hsettled
      rfl
    rw [hsecondary]
    split
    · exact walkElement_answers ih hs hout hsettled hrun hd hn haloof
    · exact expandSources_answers ih hsettled.twin hsettled.outside hrun hd hn haloof

end Engine

end LabelTemplate
