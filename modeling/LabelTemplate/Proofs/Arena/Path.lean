import LabelTemplate.Proofs.Arena.Links
import LabelTemplate.Xml.ElementPath

/-!
# Attached nodes and their paths

The two traversals that follow parents with the size of the arena as fuel,
and the one that goes down with a stack.

* `isAttached_iff`: walking up finds the root exactly for what is within it.
* `findAll_elementPath`: the path of an attached element leads to that
  element alone.
* `within_of_mem_descendants`: walking down stays within the node.
-/

namespace LabelTemplate.Xml

theorem QName.hasName_self (q : QName) : q.hasName q.namespaceUri q.localName = true := by
  simp [QName.hasName]

namespace Document

/-! ## Attached nodes -/

theorem reachesRoot_iff (d : Document) (fuel : Nat) (n : NodeId) :
    d.reachesRoot fuel n = true ↔ ∃ k, k ≤ fuel ∧ d.ancestor? k n = some d.root := by
  induction fuel generalizing n with
  | zero =>
    simp only [reachesRoot, beq_iff_eq]
    constructor
    · rintro rfl
      exact ⟨0, Nat.le_refl _, rfl⟩
    · rintro ⟨k, hk, h⟩
      obtain rfl : k = 0 := Nat.le_zero.1 hk
      exact Option.some.inj h
  | succ fuel ih =>
    simp only [reachesRoot, Bool.or_eq_true, beq_iff_eq]
    constructor
    · rintro (rfl | h)
      · exact ⟨0, Nat.zero_le _, rfl⟩
      · cases hp : d.parent? n with
        | none => simp [hp] at h
        | some p =>
          simp only [hp] at h
          obtain ⟨k, hk, hroot⟩ := (ih p).1 h
          exact ⟨k + 1, Nat.succ_le_succ hk, by rw [ancestor?_succ, hp, Option.bind_some, hroot]⟩
    · rintro ⟨k, hk, h⟩
      cases k with
      | zero => exact .inl (Option.some.inj h)
      | succ k =>
        obtain ⟨p, hp, hroot⟩ := Option.bind_eq_some_iff.1 h
        refine .inr ?_
        simp only [hp]
        exact (ih p).2 ⟨k, Nat.le_of_succ_le_succ hk, hroot⟩

/-- A node is attached exactly when it is the root or below it. -/
theorem WellFormed.isAttached_iff {d : Document} (hd : d.WellFormed) {n : NodeId} :
    d.isAttached n = true ↔ Within d d.root n := by
  rw [isAttached, reachesRoot_iff, within_iff_ancestor?]
  constructor
  · rintro ⟨k, -, h⟩
    exact ⟨k, h⟩
  · rintro ⟨k, h⟩
    exact ⟨k, Nat.le_of_lt (hd.lt_size_of_ancestor? h), h⟩

/-- What the traversal with a stack meets is within the nodes it started
from. -/
theorem exists_within_of_mem_visit {d : Document} (hd : d.Linked) {fuel : Nat}
    {stack : List NodeId} {m : NodeId} (h : m ∈ d.visit fuel stack) :
    ∃ n ∈ stack, Within d n m := by
  induction fuel generalizing stack with
  | zero => simp [visit] at h
  | succ fuel ih =>
    cases stack with
    | nil => simp [visit] at h
    | cons n rest =>
      rcases List.mem_cons.1 h with rfl | h
      · exact ⟨m, List.mem_cons_self, within_self d m⟩
      · obtain ⟨c, hc, hw⟩ := ih h
        rcases List.mem_append.1 hc with hc | hc
        · have hp : d.parent? c = some n := (hd.parent_iff_child n c).2 hc
          exact ⟨n, List.mem_cons_self, .inr (hw.below hp)⟩
        · exact ⟨c, List.mem_cons_of_mem _ hc, hw⟩

theorem within_of_mem_descendants {d : Document} (hd : d.Linked) {n m : NodeId}
    (h : m ∈ d.descendants n) : Within d n m := by
  obtain ⟨a, ha, hw⟩ := exists_within_of_mem_visit hd h
  rw [List.mem_singleton] at ha
  exact ha ▸ hw

/-! ## Paths -/

theorem name?_isSome (d : Document) (n : NodeId) : (d.name? n).isSome = d.isElement n := by
  simp [name?, isElement]

/-- With enough fuel a path does not depend on it. -/
theorem pathTo_of_depth {d : Document} (hroot : d.parent? d.root = none) {k fuel : Nat}
    {n : NodeId} (h : d.ancestor? k n = some d.root) (hk : k ≤ fuel) (rest : ElementPath) :
    d.pathTo fuel n rest = d.pathTo k n rest := by
  induction k generalizing fuel n rest with
  | zero =>
    obtain rfl : n = d.root := Option.some.inj h
    cases fuel <;> simp [pathTo]
  | succ k ih =>
    cases fuel with
    | zero => omega
    | succ fuel =>
      obtain ⟨p, hp, hup⟩ := Option.bind_eq_some_iff.1 h
      have hne : n ≠ d.root := by
        rintro rfl
        rw [hroot] at hp
        cases hp
      simp only [pathTo, if_neg hne, hp]
      cases d.name? n with
      | none => rfl
      | some name => exact ih hup (Nat.le_of_succ_le_succ hk) _

theorem pathTo_append (d : Document) (fuel : Nat) (n : NodeId) (rest : ElementPath) :
    d.pathTo fuel n rest = d.pathTo fuel n [] ++ rest := by
  induction fuel generalizing n rest with
  | zero => rfl
  | succ fuel ih =>
    simp only [pathTo]
    split
    · rfl
    · split
      · rename_i p name _ _
        rw [ih p (_ :: rest), ih p [_], List.append_assoc]
        rfl
      · rfl

@[simp] theorem elementPath_root (d : Document) : d.elementPath d.root = [] := by
  unfold elementPath
  cases d.size <;> simp [pathTo]

/-- The path of a child is that of its parent and one step more. -/
theorem WellFormed.elementPath_child {d : Document} (hd : d.WellFormed) {n p : NodeId}
    {name : QName} (hp : d.parent? n = some p) (hname : d.name? n = some name)
    (hatt : Within d d.root p) :
    d.elementPath n = d.elementPath p ++ [d.segmentOf p name n] := by
  obtain ⟨k, hk⟩ := within_iff_ancestor?.1 hatt
  have hk' : d.ancestor? (k + 1) n = some d.root := by
    rw [ancestor?_succ, hp, Option.bind_some, hk]
  have hne : n ≠ d.root := by
    rintro rfl
    rw [hd.root_parent] at hp
    cases hp
  unfold elementPath
  rw [pathTo_of_depth hd.root_parent hk' (Nat.le_of_lt (hd.lt_size_of_ancestor? hk')),
    pathTo_of_depth hd.root_parent hk (Nat.le_of_lt (hd.lt_size_of_ancestor? hk)),
    ← pathTo_append]
  simp only [pathTo, if_neg hne, hp, hname]

/-- The children of one name are elements anyway. -/
theorem childrenNamed_eq_filter (d : Document) (p : NodeId) (uri : Option String)
    (localName : String) : d.childrenNamed p uri localName =
      (d.children p).filter fun c => (d.name? c).any (·.hasName uri localName) := by
  rw [childrenNamed, elementChildren, List.filter_filter]
  refine List.filter_congr fun c _ => ?_
  rw [← name?_isSome]
  cases d.name? c <;> simp

theorem mem_childrenNamed {d : Document} {p c : NodeId} {uri : Option String}
    {localName : String} :
    c ∈ d.childrenNamed p uri localName ↔
      c ∈ d.children p ∧ ∃ name, d.name? c = some name ∧ name.hasName uri localName = true := by
  rw [childrenNamed_eq_filter, List.mem_filter, Option.any_eq_true]

/-- One step of a path leads to the child it was made for. -/
theorem Linked.stepInto_segmentOf {d : Document} (hd : d.Linked) {n p : NodeId} {name : QName}
    (hp : d.parent? n = some p) (hname : d.name? n = some name) :
    d.stepInto (d.segmentOf p name n) p = [n] := by
  have hmem : n ∈ d.childrenNamed p name.namespaceUri name.localName :=
    mem_childrenNamed.2 ⟨(hd.parent_iff_child p n).1 hp, name, hname, QName.hasName_self name⟩
  unfold stepInto segmentOf
  simp only
  split_ifs with hmany
  · obtain ⟨i, hi⟩ := Option.isSome_iff_exists.1 (List.isSome_idxOf?.2 hmem)
    obtain ⟨hlt, hget, -⟩ := List.idxOf?_eq_some_iff.1 hi
    rw [hi, Option.map_some]
    simp only [List.getElem?_eq_getElem hlt, Option.toList_some, hget]
  · obtain ⟨m, hm⟩ : ∃ m, d.childrenNamed p name.namespaceUri name.localName = [m] :=
      List.length_eq_one_iff.1 (Nat.le_antisymm (Nat.le_of_not_lt hmany)
        (List.length_pos_of_mem hmem))
    rw [hm] at hmem ⊢
    rw [List.mem_singleton.1 hmem]

theorem findAll_append (d : Document) (path : ElementPath) (segment : PathSegment) :
    d.findAll (path ++ [segment]) = (d.findAll path).flatMap (d.stepInto segment) := by
  simp [findAll, List.foldl_append]

/-- Where at most one element is found it does not matter whether the first one
is asked for. -/
theorem findAll_first {d : Document} {path : ElementPath} {uri : Option String}
    {localName : String} (h : (d.findAll (path ++ [⟨uri, localName, none⟩])).length ≤ 1) :
    d.findAll (path ++ [⟨uri, localName, some 1⟩]) =
      d.findAll (path ++ [⟨uri, localName, none⟩]) := by
  rw [findAll_append] at h ⊢
  rw [findAll_append]
  refine List.flatMap_congr fun n hn => ?_
  obtain ⟨front, back, hfound⟩ := List.append_of_mem hn
  rw [hfound, List.flatMap_append, List.flatMap_cons, List.length_append, List.length_append] at h
  change (d.childrenNamed n uri localName)[0]?.toList = d.childrenNamed n uri localName
  have hone : (d.childrenNamed n uri localName).length ≤ 1 := by
    change _ + ((d.childrenNamed n uri localName).length + _) ≤ 1 at h
    omega
  match hmatching : d.childrenNamed n uri localName, hone with
  | [], _ => rfl
  | [m], _ => rfl

/-- The path of an attached element leads to that element and to no other. -/
theorem WellFormed.findAll_elementPath {d : Document} (hd : d.WellFormed) {n : NodeId}
    (hatt : Within d d.root n) (helem : d.isElement n = true) :
    d.findAll (d.elementPath n) = [n] := by
  obtain ⟨k, hk⟩ := within_iff_ancestor?.1 hatt
  induction k generalizing n with
  | zero =>
    obtain rfl : n = d.root := Option.some.inj hk
    rw [elementPath_root]
    rfl
  | succ k ih =>
    obtain ⟨p, hp, hup⟩ := Option.bind_eq_some_iff.1 hk
    have hpatt : Within d d.root p := within_iff_ancestor?.2 ⟨k, hup⟩
    obtain ⟨name, hname⟩ : ∃ name, d.name? n = some name :=
      Option.isSome_iff_exists.1 (by rw [name?_isSome, helem])
    rw [hd.elementPath_child hp hname hpatt, findAll_append,
      ih hpatt (hd.linked.parent_isElement hp) hup]
    simpa using hd.linked.stepInto_segmentOf hp hname

theorem WellFormed.find?_elementPath {d : Document} (hd : d.WellFormed) {n : NodeId}
    (hatt : Within d d.root n) (helem : d.isElement n = true) :
    d.find? (d.elementPath n) = some n := by
  rw [find?, hd.findAll_elementPath hatt helem]
  rfl

end Document

end LabelTemplate.Xml
