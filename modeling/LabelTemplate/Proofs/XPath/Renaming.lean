import LabelTemplate.Proofs.Outcome
import LabelTemplate.XPath.Axes
import LabelTemplate.XPath.Functions
import Mathlib.Data.List.SplitBy
import Mathlib.Order.Basic

/-!
# Documents under other keys

The keys of documents are numbers that loading gives out, and no expression
should depend on them.  A `Rekeying` says which key a document has in a second
array of documents; nodes and values are carried over by `rekey`.

`SameDocs σ K docs docs'` says that the documents with keys in `K` are found in
`docs'` under their new keys, and that these are ordered as the old ones were:
document order begins with the key, so it is kept for nodes of these documents
only (`inDocumentOrder_rekey`).
-/

namespace LabelTemplate.XPath

open Xml

/-- New keys for documents. -/
structure Rekeying where
  key : DocKey → DocKey
  injective : Function.Injective key

/-- The rekeying that leaves all keys as they are. -/
def Rekeying.same : Rekeying := ⟨id, Function.injective_id⟩

/-! ## Nodes -/

namespace Handle

/-- The same node in the document with another key. -/
def inDoc (k : DocKey) (h : Handle) : Handle := { h with doc := k }

def rekey (σ : Rekeying) (h : Handle) : Handle := h.inDoc (σ.key h.doc)

variable (σ : Rekeying) (h : Handle) (k : DocKey)

@[simp] theorem doc_inDoc : (h.inDoc k).doc = k := rfl

@[simp] theorem node_inDoc : (h.inDoc k).node = h.node := rfl

@[simp] theorem doc_rekey : (h.rekey σ).doc = σ.key h.doc := rfl

@[simp] theorem node_rekey : (h.rekey σ).node = h.node := rfl

@[simp] theorem element?_rekey : (h.rekey σ).element? = h.element? := rfl

@[simp] theorem rekey_same : h.rekey .same = h := rfl

theorem rekey_injective : Function.Injective (rekey σ) := by
  rintro ⟨k, a⟩ ⟨l, b⟩ heq
  have hdoc : σ.key k = σ.key l := congrArg Handle.doc heq
  have hnode : a = b := congrArg Handle.node heq
  rw [σ.injective hdoc, hnode]

end Handle

/-! ## Axes -/

section Axes

variable (d : Document) (h : Handle) (k : DocKey)

theorem childNodes_inDoc : childNodes d (h.inDoc k) = (childNodes d h).map (·.inDoc k) := by
  obtain ⟨doc, node⟩ := h
  cases node <;> simp [childNodes, Handle.inDoc, treeNode, Function.comp_def]
  split <;> rfl

theorem parentNode?_inDoc : parentNode? d (h.inDoc k) = (parentNode? d h).map (·.inDoc k) := by
  obtain ⟨doc, node⟩ := h
  cases node <;> simp [parentNode?, Handle.inDoc]
  all_goals
    split
    · rfl
    · simp only [Option.map_map, Function.comp_def]

theorem nodesBelow_inDoc (fuel : Nat) :
    nodesBelow d fuel (h.inDoc k) = (nodesBelow d fuel h).map (·.inDoc k) := by
  induction fuel generalizing h with
  | zero => rfl
  | succ fuel ih =>
    rw [nodesBelow, nodesBelow, childNodes_inDoc, List.flatMap_map, List.map_flatMap]
    exact List.flatMap_congr fun c _ => by rw [ih, List.map_cons]

theorem nodesAbove_inDoc (fuel : Nat) :
    nodesAbove d fuel (h.inDoc k) = (nodesAbove d fuel h).map (·.inDoc k) := by
  induction fuel generalizing h with
  | zero => rfl
  | succ fuel ih =>
    rw [nodesAbove, nodesAbove, parentNode?_inDoc]
    cases parentNode? d h with
    | none => rfl
    | some p =>
      simp only [Option.map_some, List.map_cons]
      rw [ih]

theorem siblings_inDoc (following : Bool) :
    siblings d (h.inDoc k) following = (siblings d h following).map (·.inDoc k) := by
  obtain ⟨doc, node⟩ := h
  cases node <;> simp only [siblings, Handle.inDoc, List.map_nil]
  all_goals
    split
    · simp [treeNode, Function.comp_def]
    · rfl

theorem attributeNodes_inDoc :
    attributeNodes d (h.inDoc k) = (attributeNodes d h).map (·.inDoc k) := by
  obtain ⟨doc, node⟩ := h
  cases node <;> simp [attributeNodes, Handle.inDoc, Function.comp_def]

/-- The nodes along an axis are those of the document, whatever its key. -/
theorem axisNodes_inDoc (a : Axis) :
    axisNodes d (h.inDoc k) a = (axisNodes d h a).map (·.inDoc k) := by
  match a with
  | .child => exact childNodes_inDoc d h k
  | .descendant => exact nodesBelow_inDoc d h k _
  | .descendantOrSelf => exact congrArg (h.inDoc k :: ·) (nodesBelow_inDoc d h k _)
  | .parent =>
    simp only [axisNodes, parentNode?_inDoc]
    cases parentNode? d h <;> rfl
  | .ancestor => exact nodesAbove_inDoc d h k _
  | .ancestorOrSelf => exact congrArg (h.inDoc k :: ·) (nodesAbove_inDoc d h k _)
  | .followingSibling => exact siblings_inDoc d h k true
  | .precedingSibling => exact siblings_inDoc d h k false
  | .attribute => exact attributeNodes_inDoc d h k
  | .self => rfl

/-- No axis leaves the document. -/
theorem doc_of_mem_axisNodes {d : Document} {h x : Handle} {a : Axis}
    (hx : x ∈ axisNodes d h a) : x.doc = h.doc := by
  have hself := axisNodes_inDoc d h h.doc a
  rw [show h.inDoc h.doc = h from rfl] at hself
  rw [hself] at hx
  obtain ⟨y, -, rfl⟩ := List.mem_map.1 hx
  rfl

theorem axisNodes_rekey (σ : Rekeying) (a : Axis) :
    axisNodes d (h.rekey σ) a = (axisNodes d h a).map (·.rekey σ) := by
  rw [Handle.rekey, axisNodes_inDoc]
  refine List.map_congr_left fun x hx => ?_
  rw [Handle.rekey, doc_of_mem_axisNodes hx]

end Axes

/-! ## Values -/

namespace Value

mutual

/-- The same value with its nodes under the new keys. -/
def rekey (σ : Rekeying) : Value → Value
  | .boolean b => .boolean b
  | .number x => .number x
  | .string s => .string s
  | .nodes hs => .nodes (hs.map (·.rekey σ))
  | .sequence items => .sequence (rekeyAll σ items)

def rekeyAll (σ : Rekeying) : List Value → List Value
  | [] => []
  | v :: vs => rekey σ v :: rekeyAll σ vs

end

mutual

/-- All nodes of a value are in documents with keys in `K`. -/
def In (K : DocKey → Prop) : Value → Prop
  | .boolean _ => True
  | .number _ => True
  | .string _ => True
  | .nodes hs => ∀ h ∈ hs, K h.doc
  | .sequence items => AllIn K items

def AllIn (K : DocKey → Prop) : List Value → Prop
  | [] => True
  | v :: vs => In K v ∧ AllIn K vs

end

variable (σ : Rekeying)

theorem rekeyAll_eq (vs : List Value) : rekeyAll σ vs = vs.map (rekey σ) := by
  induction vs with
  | nil => rfl
  | cons v vs ih => rw [rekeyAll, ih, List.map_cons]

theorem allIn_iff {K : DocKey → Prop} {vs : List Value} : AllIn K vs ↔ ∀ v ∈ vs, In K v := by
  induction vs with
  | nil => simp [AllIn]
  | cons v vs ih => simp [AllIn, ih]

@[simp] theorem typeName_rekey (v : Value) : (v.rekey σ).typeName = v.typeName := by
  cases v <;> rfl

@[simp] theorem toBoolean_rekey (v : Value) : (v.rekey σ).toBoolean = v.toBoolean := by
  cases v with
  | nodes hs => simp [rekey, toBoolean]
  | sequence items => simp [rekey, rekeyAll_eq, toBoolean]
  | _ => rfl

end Value

/-! ## Documents -/

/-- The documents with keys in `K` have new keys, in the same order. -/
structure SameDocs (σ : Rekeying) (K : DocKey → Prop) (docs docs' : Documents) : Prop where
  found : ∀ k, K k → docs'[σ.key k]? = docs[k]?
  monotone : ∀ j k, K j → K k → j < k → σ.key j < σ.key k

namespace SameDocs

variable {σ : Rekeying} {K : DocKey → Prop} {docs docs' : Documents}

theorem key_lt_iff (h : SameDocs σ K docs docs') {j k : DocKey} (hj : K j) (hk : K k) :
    σ.key j < σ.key k ↔ j < k := by
  refine ⟨fun hlt => ?_, h.monotone j k hj hk⟩
  rcases Nat.lt_trichotomy j k with hjk | rfl | hkj
  · exact hjk
  · exact absurd hlt (Nat.lt_irrefl _)
  · exact absurd (h.monotone k j hk hj hkj) (Nat.lt_asymm hlt)

variable (h : SameDocs σ K docs docs')

include h

theorem stringValue_eq {x : Handle} (hx : K x.doc) :
    stringValue docs' (x.rekey σ) = stringValue docs x := by
  simp only [stringValue, Handle.doc_rekey, Handle.node_rekey, h.found _ hx]

theorem name?_eq {x : Handle} (hx : K x.doc) : (x.rekey σ).name? docs' = x.name? docs := by
  simp only [Handle.name?, Handle.doc_rekey, h.found _ hx]
  rfl

theorem toText_eq : ∀ {v : Value}, v.In K → (v.rekey σ).toText docs' = v.toText docs
  | .boolean _, _ => by simp only [Value.rekey, Value.toText]
  | .number _, _ => by simp only [Value.rekey, Value.toText]
  | .string _, _ => by simp only [Value.rekey, Value.toText]
  | .nodes [], _ => by simp only [Value.rekey, Value.toText, List.map_nil]
  | .nodes (x :: _), hin => by
    simp only [Value.rekey, Value.toText, List.map_cons]
    exact h.stringValue_eq (hin x List.mem_cons_self)
  | .sequence [], _ => by simp only [Value.rekey, Value.rekeyAll, Value.toText]
  | .sequence (v :: _), hin => by
    simp only [Value.rekey, Value.rekeyAll, Value.toText]
    exact toText_eq hin.1

theorem toNumber_eq {v : Value} (hin : v.In K) :
    (v.rekey σ).toNumber docs' = v.toNumber docs := by
  have htext := h.toText_eq hin
  cases v with
  | nodes hs => exact congrArg Number.parseNumber htext
  | sequence items => exact congrArg Number.parseNumber htext
  | _ => rfl

end SameDocs

/-! ## Document order -/

/-- Grouping what a function that keeps the relation gives. -/
theorem splitBy_map {α β : Type} {r : α → α → Bool} {r' : β → β → Bool} {f : α → β} {l : List α}
    (h : ∀ a ∈ l, ∀ b ∈ l, r' (f a) (f b) = r a b) :
    (l.map f).splitBy r' = (l.splitBy r).map (·.map f) := by
  have hmem : ∀ g ∈ l.splitBy r, ∀ a ∈ g, a ∈ l := fun g hg a ha => by
    rw [← List.flatten_splitBy r l]
    exact List.mem_flatten.2 ⟨g, hg, ha⟩
  have hflat : l.map f = ((l.splitBy r).map (·.map f)).flatten := by
    rw [← List.map_flatten, List.flatten_splitBy]
  rw [hflat]
  refine List.splitBy_flatten ?_ ?_ ?_
  · intro hnil
    obtain ⟨g, hg, hempty⟩ := List.mem_map.1 hnil
    rw [List.map_eq_nil_iff.1 hempty] at hg
    exact List.nil_notMem_splitBy r l hg
  · intro g' hg'
    obtain ⟨g, hg, rfl⟩ := List.mem_map.1 hg'
    rw [List.isChain_map]
    refine (List.isChain_of_mem_splitBy hg).imp_of_mem_imp fun a b ha hb hab => ?_
    rw [h a (hmem g hg a ha) b (hmem g hg b hb)]
    exact hab
  · rw [List.isChain_map]
    refine (List.isChain_getLast_head_splitBy r l).imp_of_mem_imp fun g g' hg hg' hgg' => ?_
    obtain ⟨hne, hne', hr⟩ := hgg'
    refine ⟨by simpa using hne, by simpa using hne', ?_⟩
    rw [List.getLast_map, List.head_map,
      h _ (hmem g hg _ (List.getLast_mem hne)) _ (hmem g' hg' _ (List.head_mem hne'))]
    exact hr

theorem eraseDups_map {α β : Type} [BEq α] [LawfulBEq α] [BEq β] [LawfulBEq β] {f : α → β}
    (hf : Function.Injective f) (l : List α) : (l.map f).eraseDups = l.eraseDups.map f := by
  induction hn : l.length using Nat.strongRecOn generalizing l with
  | ind n ih =>
    cases l with
    | nil => rfl
    | cons a l =>
      rw [List.map_cons, List.eraseDups_cons, List.eraseDups_cons, List.map_cons, List.filter_map,
        ← ih _ ?_ _ rfl]
      · congr 3
        exact List.filter_congr fun b _ => by
          simp only [Function.comp_apply, Bool.not_eq_eq_eq_not, Bool.not_not]
          rw [Bool.eq_iff_iff, beq_iff_eq, beq_iff_eq, hf.eq_iff]
      · rw [← hn, List.length_cons]
        exact Nat.lt_succ_of_le (List.length_filter_le _ _)

/-- The preorder ranks of the document with a key. -/
def ranksOf (docs : Documents) (k : DocKey) : Array (Option Nat) :=
  match docs[k]? with
  | some d => d.documentOrder
  | none => #[]

theorem lookup_ranksFor (docs : Documents) {hs : List Handle} {x : Handle} (hx : x ∈ hs) :
    (ranksFor docs hs).lookup x.doc = some (ranksOf docs x.doc) :=
  List.lookup_graph (ranksOf docs) (List.mem_eraseDups.2 (List.mem_map_of_mem hx))

namespace OrderKey

variable (σ : Rekeying)

def rekey (k : OrderKey) : OrderKey := { k with doc := σ.key k.doc }

theorem rekey_injective : Function.Injective (rekey σ) := by
  rintro ⟨d, r, k, i⟩ ⟨d', r', k', i'⟩ heq
  simp only [rekey, OrderKey.mk.injEq] at heq ⊢
  exact ⟨σ.injective heq.1, heq.2⟩

theorem le_rekey {K : DocKey → Prop} {docs docs' : Documents} (h : SameDocs σ K docs docs')
    {a b : OrderKey} (ha : K a.doc) (hb : K b.doc) : (a.rekey σ).le (b.rekey σ) = a.le b := by
  have hlt : decide ((a.rekey σ).doc < (b.rekey σ).doc) = decide (a.doc < b.doc) :=
    decide_eq_decide.2 (h.key_lt_iff ha hb)
  have hsame : ((a.rekey σ).doc == (b.rekey σ).doc) = (a.doc == b.doc) := by
    rw [Bool.eq_iff_iff, beq_iff_eq, beq_iff_eq]
    exact σ.injective.eq_iff
  unfold OrderKey.le
  rw [hlt, hsame]
  rfl

end OrderKey

/-- A node with the key that it is sorted by. -/
def keyed (docs : Documents) (x : Handle) : OrderKey × Handle :=
  (orderKey (ranksOf docs x.doc) x, x)

theorem doc_keyed (docs : Documents) (x : Handle) : (keyed docs x).1.doc = x.doc := by
  obtain ⟨doc, node⟩ := x
  cases node <;> rfl

theorem inDocumentOrder_eq (docs : Documents) (hs : List Handle) :
    inDocumentOrder docs hs =
      if hs.length < 2 then hs
      else (((hs.map (keyed docs)).mergeSort fun a b => a.1.le b.1).splitBy
        fun a b => a.1 == b.1).flatMap fun place => (place.map (·.2)).eraseDups := by
  have hkeyed : (hs.map fun x => (orderKey (((ranksFor docs hs).lookup x.doc).getD #[]) x, x)) =
      hs.map (keyed docs) := List.map_congr_left fun x hx => by
    rw [lookup_ranksFor docs hx]
    rfl
  rw [← hkeyed]
  rfl

namespace SameDocs

variable {σ : Rekeying} {K : DocKey → Prop} {docs docs' : Documents}
  (h : SameDocs σ K docs docs')

include h

theorem keyed_rekey {x : Handle} (hx : K x.doc) :
    keyed docs' (x.rekey σ) = Prod.map (·.rekey σ) (·.rekey σ) (keyed docs x) := by
  have hranks : ranksOf docs' (σ.key x.doc) = ranksOf docs x.doc := by
    rw [ranksOf, h.found _ hx]
    rfl
  rw [keyed, Handle.doc_rekey, hranks]
  obtain ⟨doc, node⟩ := x
  cases node <;> rfl

/-- Document order depends on the keys only as far as they are ordered. -/
theorem inDocumentOrder_rekey {hs : List Handle} (hin : ∀ x ∈ hs, K x.doc) :
    inDocumentOrder docs' (hs.map (·.rekey σ)) = (inDocumentOrder docs hs).map (·.rekey σ) := by
  let carry : OrderKey × Handle → OrderKey × Handle := Prod.map (·.rekey σ) (·.rekey σ)
  have hmap : (hs.map (·.rekey σ)).map (keyed docs') = (hs.map (keyed docs)).map carry := by
    rw [List.map_map, List.map_map]
    exact List.map_congr_left fun x hx => h.keyed_rekey (hin x hx)
  have hdoc : ∀ p ∈ hs.map (keyed docs), K p.1.doc := by
    intro p hp
    obtain ⟨x, hx, rfl⟩ := List.mem_map.1 hp
    exact (doc_keyed docs x).symm ▸ hin x hx
  have hsort : ((hs.map (keyed docs)).map carry).mergeSort (fun a b => a.1.le b.1) =
      ((hs.map (keyed docs)).mergeSort fun a b => a.1.le b.1).map carry :=
    (List.map_mergeSort (r := fun a b => a.1.le b.1) (s := fun a b => a.1.le b.1) (f := carry)
      fun a ha b hb => (OrderKey.le_rekey σ h (hdoc a ha) (hdoc b hb)).symm).symm
  have hsplit : ∀ l : List (OrderKey × Handle), (l.map carry).splitBy (fun a b => a.1 == b.1) =
      (l.splitBy fun a b => a.1 == b.1).map (·.map carry) := fun l => splitBy_map fun a _ b _ => by
    rw [Bool.eq_iff_iff, beq_iff_eq, beq_iff_eq]
    exact (OrderKey.rekey_injective σ).eq_iff
  rw [inDocumentOrder_eq, inDocumentOrder_eq, List.length_map]
  split
  · rfl
  · rw [hmap, hsort, hsplit, List.flatMap_map, List.map_flatMap]
    refine List.flatMap_congr fun place _ => ?_
    rw [← eraseDups_map (Handle.rekey_injective σ), List.map_map, List.map_map]
    rfl

end SameDocs

end LabelTemplate.XPath
