import LabelTemplate.Proofs.Arena.Clone
import LabelTemplate.Proofs.Arena.Operations
import LabelTemplate.Proofs.Reading.Run

/-!
# Edits of a document

A client of a document makes nodes, moves and detaches them, copies subtrees
and strips comments, in any order.  `Edit` is one such call and
`Edit.Allowed` what it asks of the caller: ids of the document, and for a
move that the target is an element and that the node moved is neither the
root nor above the target.

`Edit.apply_spec` is one call; `edits_wellFormed` follows from it for every
sequence of calls on a document that is new or was read from a text.
-/

namespace LabelTemplate.Xml

/-- A call that changes the nodes of a document. -/
inductive Edit where
  | createElement (name : QName)
  | createComment (text : String)
  | appendChild (parent child : NodeId)
  | insertChild (parent : NodeId) (index : Nat) (child : NodeId)
  | detach (n : NodeId)
  | deepClone (n : NodeId)
  | stripComments
  deriving DecidableEq, Repr

namespace Document

/-- The nodes of `d` are in `e` under their ids, linked in whatever way. -/
structure Extended (d e : Document) : Prop where
  size_le : d.size ≤ e.size
  shell : ∀ m, m < d.size → e.shell? m = d.shell? m

theorem Extended.refl (d : Document) : d.Extended d := ⟨Nat.le_refl _, fun _ _ => rfl⟩

theorem Extended.trans {d e f : Document} (h : d.Extended e) (h' : e.Extended f) :
    d.Extended f where
  size_le := Nat.le_trans h.size_le h'.size_le
  shell m hm := (h'.shell m (Nat.lt_of_lt_of_le hm h.size_le)).trans (h.shell m hm)

theorem extended_graft (d : Document) (f : Forest) : d.Extended (d.graft none f) :=
  ⟨by simp, fun _ hm => shell?_graft d f hm⟩

theorem extended_stripComments (d : Document) : d.Extended d.stripComments := by
  unfold stripComments
  generalize (d.descendants d.root).filter d.isComment = comments
  induction comments generalizing d with
  | nil => exact Extended.refl d
  | cons c comments ih =>
    have hdetach : d.Extended (d.detach c) := ⟨by simp, by simp⟩
    exact hdetach.trans (ih (d.detach c))

/-- `child` can be put below `parent`. -/
structure Movable (d : Document) (parent child : NodeId) : Prop where
  isElement : d.isElement parent = true
  lt_size : child < d.size
  ne_root : child ≠ d.root
  apart : ¬ Within d child parent

end Document

namespace Edit

open Document

/-- The document after a call, and the id that the call gives for a new node. -/
def apply (d : Document) : Edit → Option NodeId × Document
  | createElement name => (d.createElement name).map some id
  | createComment text => (d.createComment text).map some id
  | appendChild parent child => (none, d.appendChild parent child)
  | insertChild parent index child => (none, d.insertChild parent index child)
  | detach n => (none, d.detach n)
  | deepClone n => (d.deepClone n).map some id
  | stripComments => (none, d.stripComments)

/-- What a call asks of its caller. -/
def Allowed (d : Document) : Edit → Prop
  | createElement _ | createComment _ | stripComments => True
  | appendChild parent child | insertChild parent _ child => d.Movable parent child
  | detach n | deepClone n => n < d.size

/-- The document after some calls, and the ids that they give in order. -/
def applyAll : List Edit → Document → List NodeId × Document
  | [], d => ([], d)
  | edit :: edits, d =>
    let (new, d) := edit.apply d
    let (news, d) := applyAll edits d
    (new.toList ++ news, d)

/-- Every call is allowed when its turn comes. -/
def AllAllowed : List Edit → Document → Prop
  | [], _ => True
  | edit :: edits, d => edit.Allowed d ∧ AllAllowed edits (edit.apply d).2

variable {d : Document}

/-- A forest that is grafted on gets ids that were not in use. -/
theorem graft_spec (hd : d.WellFormed) {f : Forest} (hf : f.Proper) (hne : 0 < f.size) :
    (d.graft none f).WellFormed ∧ d.Extended (d.graft none f) ∧
      ∀ n ∈ some d.size, d.size ≤ n ∧ n < (d.graft none f).size := by
  refine ⟨hd.graft hf, extended_graft d f, fun n hn => ?_⟩
  cases hn
  rw [size_graft]
  omega

/-- A node that is made is a tree of its own, as long as it hangs nowhere. -/
theorem push_spec (hd : d.WellFormed) (kind : NodeKind) :
    (d.push { kind }).2.WellFormed ∧ d.Extended (d.push { kind }).2 ∧
      ∀ n ∈ some d.size, d.size ≤ n ∧ n < (d.push { kind }).2.size := by
  have hforest : (Forest.node kind none .nil .nil).Proper := by simp [Forest.Proper]
  exact graft_spec hd hforest Nat.one_pos

theorem insertChild_spec (hd : d.WellFormed) {parent child : NodeId} (i : Nat)
    (h : d.Movable parent child) :
    (d.insertChild parent i child).WellFormed ∧ d.Extended (d.insertChild parent i child) :=
  ⟨hd.insertChild i h.isElement h.lt_size h.ne_root h.apart, by simp, by simp⟩

/-- An allowed call keeps the arena well formed and its nodes where they are;
a new node has an id that was not in use. -/
theorem apply_spec (hd : d.WellFormed) {edit : Edit} (h : edit.Allowed d) :
    (edit.apply d).2.WellFormed ∧ d.Extended (edit.apply d).2 ∧
      ∀ n ∈ (edit.apply d).1, d.size ≤ n ∧ n < (edit.apply d).2.size := by
  cases edit with
  | createElement name => exact push_spec hd _
  | createComment text => exact push_spec hd _
  | appendChild parent child =>
    obtain ⟨hwf, hext⟩ := insertChild_spec hd (d.children parent).length h
    exact ⟨hwf, hext, fun _ hn => by cases hn⟩
  | insertChild parent index child =>
    obtain ⟨hwf, hext⟩ := insertChild_spec hd index h
    exact ⟨hwf, hext, fun _ hn => by cases hn⟩
  | detach n =>
    have hext : d.Extended (d.detach n) := ⟨by simp, by simp⟩
    exact ⟨hd.detach n, hext, fun _ hn => by cases hn⟩
  | deepClone n =>
    have hn : n < d.size := h
    obtain ⟨f, hf, -⟩ := hd.exists_spells [n] (by simpa using hn)
    have hne : 0 < f.size := by
      cases hf
      rw [Forest.size]
      omega
    simp only [apply, deepClone_eq_graft hd hf]
    exact graft_spec hd (hf.proper hd.linked) hne
  | stripComments => exact ⟨hd.stripComments, extended_stripComments d, fun _ hn => by cases hn⟩

/-- Allowed calls one after the other. -/
theorem applyAll_spec {edits : List Edit} (hd : d.WellFormed) (h : AllAllowed edits d) :
    (applyAll edits d).2.WellFormed ∧ d.Extended (applyAll edits d).2 ∧
      (applyAll edits d).1.Nodup ∧
      ∀ n ∈ (applyAll edits d).1, d.size ≤ n ∧ n < (applyAll edits d).2.size := by
  induction edits generalizing d with
  | nil => exact ⟨hd, Extended.refl d, .nil, by simp [applyAll]⟩
  | cons edit edits ih =>
    obtain ⟨hwf, hext, hnew⟩ := apply_spec hd h.1
    obtain ⟨hwf', hext', hnodup, hnews⟩ := ih hwf h.2
    simp only [applyAll]
    refine ⟨hwf', hext.trans hext', ?_, fun n hn => ?_⟩
    · refine List.nodup_append.2 ⟨by cases (edit.apply d).1 <;> simp, hnodup, ?_⟩
      -- a later id is not below the size that the arena had by then
      intro n hn m hm hnm
      have hlt := (hnew n (Option.mem_toList.1 hn)).2
      exact Nat.not_lt.2 (hnews m hm).1 (hnm ▸ hlt)
    · rcases List.mem_append.1 hn with hn | hn
      · obtain ⟨hge, hlt⟩ := hnew n (Option.mem_toList.1 hn)
        exact ⟨hge, Nat.lt_of_lt_of_le hlt hext'.size_le⟩
      · obtain ⟨hge, hlt⟩ := hnews n hn
        exact ⟨Nat.le_trans hext.size_le hge, hlt⟩

theorem applyAll_append (edits later : List Edit) (d : Document) :
    (applyAll (edits ++ later) d).2 = (applyAll later (applyAll edits d).2).2 := by
  induction edits generalizing d with
  | nil => rfl
  | cons edit edits ih => exact ih _

theorem allAllowed_append {edits later : List Edit} :
    AllAllowed (edits ++ later) d ↔
      AllAllowed edits d ∧ AllAllowed later (applyAll edits d).2 := by
  induction edits generalizing d with
  | nil => simp [AllAllowed, applyAll]
  | cons edit edits ih =>
    simp only [List.cons_append, AllAllowed, ih, and_assoc]
    rfl

theorem wellFormed_ofRoot (name : QName) : (ofRoot name).WellFormed := by
  have hforest : (Forest.node (.element { name }) none .nil .nil).Proper := by
    simp [Forest.Proper]
  exact wellFormed_ofTree hforest []

/-- A document that is new or was read stays well formed through all allowed
calls.  At every stage the ids given so far name the nodes that they named
before, and no two calls give the same id, nor one that the document
started with. -/
theorem edits_wellFormed {start : Document}
    (hstart : (∃ name, start = .ofRoot name) ∨ ∃ text, Document.parse text = .ok start)
    {edits : List Edit} (h : AllAllowed edits start) :
    (∀ k, let stage := (applyAll (edits.take k) start).2
      stage.WellFormed ∧ start.Extended stage ∧ stage.Extended (applyAll edits start).2) ∧
    (applyAll edits start).1.Nodup ∧
    ∀ n ∈ (applyAll edits start).1, start.size ≤ n ∧ n < (applyAll edits start).2.size := by
  have hwf : start.WellFormed := by
    rcases hstart with ⟨name, rfl⟩ | ⟨text, ht⟩
    · exact wellFormed_ofRoot name
    · exact wellFormed_of_parse ht
  obtain ⟨-, -, hnodup, hids⟩ := applyAll_spec hwf h
  refine ⟨fun k => ?_, hnodup, hids⟩
  rw [← List.take_append_drop k edits, allAllowed_append] at h
  obtain ⟨hstage, hext, -⟩ := applyAll_spec hwf h.1
  obtain ⟨-, hext', -⟩ := applyAll_spec hstage h.2
  rw [← applyAll_append, List.take_append_drop] at hext'
  exact ⟨hstage, hext, hext'⟩

/-- A child that is copied and moved behind its copy. -/
def copyChild : List Edit :=
  [.createElement (.plain "b"), .appendChild 0 1, .deepClone 1, .insertChild 0 0 2,
    .appendChild 0 1, .detach 2]

theorem edits_wellFormed_copyChild :
    AllAllowed copyChild (.ofRoot (.plain "a")) ∧
      (∀ k, let stage := (applyAll (copyChild.take k) (.ofRoot (.plain "a"))).2
        stage.WellFormed ∧ (ofRoot (.plain "a")).Extended stage ∧
          stage.Extended (applyAll copyChild (.ofRoot (.plain "a"))).2) ∧
      (applyAll copyChild (.ofRoot (.plain "a"))).1 = [1, 2] := by
  have hroot : ∀ {d : Document} {n : NodeId}, d.root = 0 → d.isElement 0 = true →
      d.parent? 0 = none → n < d.size → n ≠ 0 → d.Movable 0 n := by
    intro d n hzero helem hparent hn hne
    refine ⟨helem, hn, hzero ▸ hne, ?_⟩
    rintro (h | h)
    · exact hne h.symm
    · cases h <;> simp_all
  have hallowed : AllAllowed copyChild (.ofRoot (.plain "a")) :=
    ⟨trivial, hroot rfl rfl rfl (by decide) (by decide), Nat.lt_add_one 1,
      hroot rfl rfl rfl (by decide) (by decide), hroot rfl rfl rfl (by decide) (by decide),
      Nat.lt_add_one 2, trivial⟩
  exact ⟨hallowed, (edits_wellFormed (.inl ⟨_, rfl⟩) hallowed).1, rfl⟩

end Edit

end LabelTemplate.Xml
