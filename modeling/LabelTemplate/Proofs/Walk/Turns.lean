import LabelTemplate.Proofs.Walk.Total
import Mathlib.Logic.Relation

/-!
# The turns of the walk

A `Turn` is one use of the walk in the arena with all that it is given.  What it
does with an element depends on the state and on what the element's path finds in
the source (`Prospect`, `process_succ`): the element goes, stays, is repeated, or is
spread over its sources.

`Turn.Makes` relates a turn to those that it makes for children or copies once
the turns before them have succeeded, and `Turn.Reaches` goes several levels
down.  A turn that fails makes everything above it fail with the same error
(`Turn.Reaches.error`, `walk_eq_error`).
-/

namespace LabelTemplate

open Xml Document Outcome

namespace Engine

/-! ## What becomes of an element -/

/-- What becomes of an element, with the run as it is where that is settled. -/
inductive Prospect where
  | goes (e : Engine)
  | stays (e : Engine)
  | repeats (copies : Nat)
  | spreads

/-- What becomes of an element that is fetched, given what its path finds in the
source. -/
def onFound (s : ElementState) (n : NodeId) (e : Engine) (source : Document) :
    List NodeId → Except WalkFault Prospect
  | [] =>
    if s.required = some true then fail (missingFault e s n source) (e.template.location n)
    else .ok (.goes (e.mapTemplate (·.detach n)))
  | [m] =>
    if e.template.hasElementChildren n then .ok (.stays e)
    else .ok (.stays (e.mapTemplate (copyContent · n source m)))
  | found =>
    match s.multi.expected? with
    | some expected =>
      if expected ≠ found.length then
        fail (.matchCount found.length expected) (e.template.location n)
      else .ok (.repeats (found.length - 1))
    | none => .ok (.repeats (found.length - 1))

/-- What becomes of an element that is fetched from one source. -/
def lookUp (s : ElementState) (n : NodeId) (e : Engine) : Except WalkFault Prospect := do
  let some key := s.sources.primary | fail .noSource (e.template.location n)
  let some source := e.env.docs[key]? | fail .sourceNotLoaded (e.template.location n)
  onFound s n e source (source.findAll (e.template.elementPath n))

/-- What becomes of an element with a given state. -/
def prospect (s : ElementState) (n : NodeId) (e : Engine) : Except WalkFault Prospect :=
  if !s.sources.secondary.isEmpty then .ok .spreads
  else if s.fetch then lookUp s n e
  else
    let copies := match s.multi with
      | .count k => k - 1
      | .flag _ => 0
    if copies > 0 then .ok (.repeats copies)
    else if s.declares .required then
      .ok (.stays { e with deferred := e.deferred.addRequired ⟨s, n⟩ })
    else .ok (.stays e)

/-- The walk of an element, given what becomes of it. -/
def follow (visit : Visit) (parent s : ElementState) (n : NodeId) (e : Engine) :
    Prospect → Except WalkFault Engine
  | .goes e' => .ok e'
  | .stays e' => finishElement visit s n e'
  | .repeats copies => replicate visit parent n copies e
  | .spreads => expandSources visit s n e

section Process

variable {e : Engine} {n : NodeId} {parent s : ElementState} {visit : Visit}

theorem fetch_eq_lookUp (visit : Visit) (parent s : ElementState) (n : NodeId) (e : Engine) :
    (fetch visit parent s n e >>= fun r =>
        if r.1 then finishElement visit s n r.2 else return r.2) =
      lookUp s n e >>= follow visit parent s n e := by
  have hcopies : ∀ copies,
      ((do return (false, ← replicate visit parent n copies e) : Except WalkFault (Bool × Engine)) >>=
        fun r => if r.1 then finishElement visit s n r.2 else return r.2) =
      replicate visit parent n copies e := fun copies => by
    cases replicate visit parent n copies e <;> rfl
  unfold fetch lookUp
  cases s.sources.primary with
  | none => rfl
  | some key =>
    dsimp only
    cases e.env.docs[key]? with
    | none => rfl
    | some source =>
      dsimp only
      rcases source.findAll (e.template.elementPath n) with - | ⟨m, - | ⟨m', found⟩⟩
      · dsimp only [onFound]
        split <;> rfl
      · dsimp only [onFound]
        split <;> rfl
      · dsimp only [onFound]
        cases s.multi.expected? with
        | none => exact hcopies _
        | some expected =>
          dsimp only
          split
          · rfl
          · exact hcopies _

theorem process_succ (fuel : Nat) (hcomment : e.template.isComment n = false) :
    process (fuel + 1) parent n e =
      (ElementState.resolve e.env parent n).mapError .failed >>= fun s =>
        prospect s n e >>= follow (process fuel) parent s n e := by
  rw [process, if_neg (by rw [hcomment]; exact Bool.false_ne_true)]
  refine bind_congr fun s => ?_
  unfold prospect walkElement
  cases hsingle : s.sources.secondary.isEmpty with
  | false => rfl
  | true =>
    cases hfetch : s.fetch with
    | true => exact fetch_eq_lookUp (process fuel) parent s n e
    | false =>
      simp only [Bool.not_true, Bool.false_eq_true, if_true, if_false]
      cases s.multi with
      | flag b =>
        dsimp only
        split
        · rfl
        · split <;> rfl
      | count k =>
        dsimp only
        split
        · rfl
        · split <;> rfl

end Process

/-! ## What is known of it -/

/-- The element is fetched from one document, where its path finds these
elements. -/
structure Finds (s : ElementState) (n : NodeId) (e : Engine) (source : Document)
    (found : List NodeId) : Prop where
  single : s.sources.secondary = []
  fetch : s.fetch = true
  loaded : s.sources.primary.bind (e.env.docs[·]?) = some source
  found : source.findAll (e.template.elementPath n) = found

section Prospect

variable {s : ElementState} {n : NodeId} {e e' : Engine} {source : Document}
  {found : List NodeId} {copies : Nat}

theorem Finds.prospect_eq (h : Finds s n e source found) :
    prospect s n e = onFound s n e source found := by
  obtain ⟨hsingle, hfetch, hloaded, rfl⟩ := h
  obtain ⟨key, hkey, hloaded⟩ := Option.bind_eq_some_iff.1 hloaded
  rw [prospect, hsingle, hfetch, lookUp, hkey]
  dsimp only
  rw [hloaded]
  rfl

/-- With several counterparts their number must be the one that is asked for, if
one is. -/
theorem Finds.many (h : Finds s n e source found) (hmany : 2 ≤ found.length) :
    prospect s n e =
      match s.multi.expected? with
      | some expected =>
        if expected ≠ found.length then
          fail (.matchCount found.length expected) (e.template.location n)
        else .ok (.repeats (found.length - 1))
      | none => .ok (.repeats (found.length - 1)) := by
  rw [h.prospect_eq]
  match found with
  | [] | [m] => simp at hmany
  | m :: m' :: found => rfl

/-- What is fetched is looked for in a document that is loaded, if there is one. -/
theorem finds_or_fails (s : ElementState) (n : NodeId) (e : Engine)
    (hsingle : s.sources.secondary = []) (hfetch : s.fetch = true) :
    (∃ source, Finds s n e source (source.findAll (e.template.elementPath n))) ∨
      prospect s n e = fail .noSource (e.template.location n) ∨
      prospect s n e = fail .sourceNotLoaded (e.template.location n) := by
  have hprospect : prospect s n e = lookUp s n e := by
    rw [prospect, hsingle, hfetch]
    rfl
  rw [hprospect, lookUp]
  cases hkey : s.sources.primary with
  | none => exact .inr (.inl rfl)
  | some key =>
    dsimp only
    cases hloaded : e.env.docs[key]? with
    | none => exact .inr (.inr rfl)
    | some source => exact .inl ⟨source, hsingle, hfetch, by rw [hkey]; exact hloaded, rfl⟩

theorem exists_finds {x : Prospect} (h : prospect s n e = .ok x)
    (hsingle : s.sources.secondary = []) (hfetch : s.fetch = true) :
    ∃ source, Finds s n e source (source.findAll (e.template.elementPath n)) := by
  obtain hfinds | hnone | hnone := finds_or_fails s n e hsingle hfetch
  · exact hfinds
  · cases h.symm.trans hnone
  · cases h.symm.trans hnone

/-- What becomes of an element that is not fetched. -/
theorem prospect_unfetched (hsingle : s.sources.secondary = []) (hfetch : s.fetch = false) :
    prospect s n e =
      match s.multi with
      | .count (k + 2) => .ok (.repeats (k + 1))
      | _ =>
        if s.declares .required then
          .ok (.stays { e with deferred := e.deferred.addRequired ⟨s, n⟩ })
        else .ok (.stays e) := by
  rw [prospect, hsingle, hfetch]
  simp only [List.isEmpty_nil, Bool.not_true, Bool.false_eq_true, if_false]
  match s.multi with
  | .flag b | .count 0 | .count 1 => rfl
  | .count (k + 2) => rfl

/-- An element about which nothing is declared stays. -/
theorem prospect_plain {b : Bool} (hsingle : s.sources.secondary = []) (hfetch : s.fetch = false)
    (hmulti : s.multi = .flag b) (hrequired : s.declares .required = false) :
    prospect s n e = .ok (.stays e) := by
  rw [prospect_unfetched hsingle hfetch, hmulti]
  exact if_neg (by rw [hrequired]; exact Bool.false_ne_true)

/-- What becomes of an element depending on what is found. -/
theorem onFound_eq_ok {x : Prospect} (h : onFound s n e source found = .ok x) :
    found = [] ∧ s.required ≠ some true ∧ x = .goes (e.mapTemplate (·.detach n)) ∨
      (∃ m, found = [m] ∧ (e.template.hasElementChildren n = true ∧ x = .stays e ∨
        e.template.hasElementChildren n = false ∧
          x = .stays (e.mapTemplate (copyContent · n source m)))) ∨
      2 ≤ found.length ∧ s.multi.expected?.all (· = found.length) = true ∧
        x = .repeats (found.length - 1) := by
  match found with
  | [] =>
    rw [onFound] at h
    split at h
    · cases h
    · cases h
      exact .inl ⟨rfl, ‹_›, rfl⟩
  | [m] =>
    rw [onFound] at h
    split at h
    · rename_i hinner
      cases h
      exact .inr (.inl ⟨m, rfl, .inl ⟨hinner, rfl⟩⟩)
    · rename_i hleaf
      cases h
      exact .inr (.inl ⟨m, rfl, .inr ⟨by simpa using hleaf, rfl⟩⟩)
  | m :: m' :: found =>
    refine .inr (.inr ⟨by simp, ?_⟩)
    simp only [onFound] at h
    cases hexpected : s.multi.expected? with
    | none =>
      rw [hexpected] at h
      cases h
      exact ⟨rfl, rfl⟩
    | some k =>
      rw [hexpected] at h
      dsimp only at h
      split at h
      · cases h
      · rename_i hcount
        cases h
        exact ⟨by simpa using hcount, rfl⟩

/-- What becomes of an element that is not spread over several sources. -/
theorem prospect_eq_ok {x : Prospect} (h : prospect s n e = .ok x) (hx : x ≠ .spreads) :
    s.sources.secondary = [] ∧
      ((∃ source, Finds s n e source (source.findAll (e.template.elementPath n)) ∧
        onFound s n e source (source.findAll (e.template.elementPath n)) = .ok x) ∨
      (∃ k, s.fetch = false ∧ s.multi = .count (k + 2) ∧ x = .repeats (k + 1)) ∨
      ∃ q, s.fetch = false ∧ x = .stays { e with deferred := q }) := by
  have hsingle : s.sources.secondary = [] := by
    by_contra hmany
    rw [prospect, if_pos (by simpa using hmany)] at h
    cases h
    exact hx rfl
  refine ⟨hsingle, ?_⟩
  cases hfetch : s.fetch with
  | true =>
    obtain ⟨source, hfinds⟩ := exists_finds h hsingle hfetch
    exact .inl ⟨source, hfinds, hfinds.prospect_eq.symm.trans h⟩
  | false =>
    rw [prospect_unfetched hsingle hfetch] at h
    split at h
    · rename_i k hmulti
      cases h
      exact .inr (.inl ⟨k, rfl, hmulti, rfl⟩)
    · split at h <;> cases h <;> exact .inr (.inr ⟨_, rfl, rfl⟩)

/-- An element is spread only over several sources. -/
theorem prospect_eq_spreads : prospect s n e = .ok .spreads ↔ s.sources.secondary ≠ [] := by
  constructor
  · intro h hsingle
    cases hfetch : s.fetch with
    | true =>
      obtain ⟨source, hfinds⟩ := exists_finds h hsingle hfetch
      rw [hfinds.prospect_eq] at h
      obtain ⟨-, -, hx⟩ | ⟨m, -, ⟨-, hx⟩ | ⟨-, hx⟩⟩ | ⟨-, -, hx⟩ := onFound_eq_ok h <;> cases hx
    | false =>
      rw [prospect_unfetched hsingle hfetch] at h
      split at h
      · cases h
      · split at h <;> cases h
  · intro hmany
    rw [prospect, if_pos (by simpa using hmany)]

/-- Only an element that asks for it is repeated. -/
theorem multi_of_repeats (h : prospect s n e = .ok (.repeats copies)) : s.multi ≠ .flag false := by
  intro hmulti
  obtain ⟨-, ⟨source, -, hfound⟩ | ⟨k, -, hcount, -⟩ | ⟨q, -, hx⟩⟩ := prospect_eq_ok h nofun
  · obtain ⟨-, -, hx⟩ | ⟨m, -, ⟨-, hx⟩ | ⟨-, hx⟩⟩ | ⟨hmany, hexpected, -⟩ := onFound_eq_ok hfound
    · cases hx
    · cases hx
    · cases hx
    · rw [hmulti] at hexpected
      have hnone : 0 = (source.findAll (e.template.elementPath n)).length := by
        simpa [Multi.expected?] using hexpected
      omega
  · rw [hmulti] at hcount
    cases hcount
  · cases hx

/-- An element stays as it is, but for what is queued, unless it is a leaf and takes
content. -/
theorem prospect_stays (h : prospect s n e = .ok (.stays e')) :
    (∃ q, e' = { e with deferred := q }) ∨ e.template.hasElementChildren n = false ∧
      ∃ source m, e' = e.mapTemplate (copyContent · n source m) := by
  obtain ⟨-, ⟨source, -, hfound⟩ | ⟨k, -, -, hx⟩ | ⟨q, -, hx⟩⟩ := prospect_eq_ok h nofun
  · obtain ⟨-, -, hx⟩ | ⟨m, -, ⟨-, hx⟩ | ⟨hleaf, hx⟩⟩ | ⟨-, -, hx⟩ := onFound_eq_ok hfound
    · cases hx
    · cases hx
      exact .inl ⟨_, rfl⟩
    · cases hx
      exact .inr ⟨hleaf, _, _, rfl⟩
    · cases hx
  · cases hx
  · cases hx
    exact .inl ⟨q, rfl⟩

end Prospect

/-! ## Copies -/

section Copies

variable (n : NodeId) (e : Engine)

/-- An element and copies of it after it, without the directive that asked for
them; nothing where the element has no parent. -/
def withCopies (copies : Nat) : Option (List NodeId × Engine) :=
  let d := e.template.removeDirective n .multi
  (d.parent? n).map fun container =>
    let made := clones d n copies
    (n :: made.1, e.setTemplate
      (insertAll made.2 container ((d.indexInParent? n).getD 0 + 1) made.1))

theorem replicate_eq_withCopies (visit : Visit) (parent : ElementState) (copies : Nat) :
    replicate visit parent n copies e =
      match withCopies n e copies with
      | some (ns, e') => walkRow visit (branches parent 0 ns) e'
      | none => fail .rootReplicated ((e.template.removeDirective n .multi).location n) := by
  unfold replicate withCopies
  dsimp only
  cases (e.template.removeDirective n .multi).parent? n with
  | none => rfl
  | some container => exact walkBranches_eq_row _ _ _ _ _

/-- The place of an element that is taken out to be bound to each of its
sources, and the run without it. -/
def takenOut : Option (NodeId × Nat × Engine) :=
  let d := e.template.removeDirective n .sources
  (d.parent? n).map fun parent =>
    (parent, (d.indexInParent? n).getD 0, e.setTemplate (d.detach n))

theorem expandSources_eq_takenOut (visit : Visit) (s : ElementState) :
    expandSources visit s n e =
      match takenOut n e with
      | some (parent, index, e') =>
        walkSources visit s n parent index s.sources.members.reverse e'
      | none => fail .rootWithManySources ((e.template.removeDirective n .sources).location n) := by
  unfold expandSources takenOut
  dsimp only
  cases (e.template.removeDirective n .sources).parent? n <;> rfl

/-- The element or a copy of it, put in place for one of its sources. -/
def putBack (s : ElementState) (parent : NodeId) (index : Nat) (key : XPath.DocKey) :
    NodeId × Engine :=
  let made := if some key = s.sources.primary then (n, e.template) else e.template.deepClone n
  (made.1, e.setTemplate (made.2.insertChild parent index made.1))

end Copies

theorem walkSources_cons (visit : Visit) (s : ElementState) (n parent : NodeId) (index : Nat)
    (key : XPath.DocKey) (keys : List XPath.DocKey) (e : Engine) :
    walkSources visit s n parent index (key :: keys) e =
      visit (s.rebindSource key (putBack n e s parent index key).2.env)
          (putBack n e s parent index key).1 (putBack n e s parent index key).2 >>=
        walkSources visit s n parent index keys := rfl

theorem walkSources_append (visit : Visit) (s : ElementState) (n parent : NodeId) (index : Nat)
    (front keys : List XPath.DocKey) (e : Engine) :
    walkSources visit s n parent index (front ++ keys) e =
      walkSources visit s n parent index front e >>= walkSources visit s n parent index keys := by
  induction front generalizing e with
  | nil => rfl
  | cons key front ih =>
    rw [List.cons_append, walkSources_cons, walkSources_cons, bind_assoc]
    exact bind_congr ih

theorem walkRow_append (visit : Visit) (front row : List (ElementState × NodeId)) (e : Engine) :
    walkRow visit (front ++ row) e = walkRow visit front e >>= walkRow visit row :=
  List.foldlM_append

/-! ## Turns -/

/-- One use of the walk: a node below a state, with so many levels below it. -/
structure Turn where
  fuel : Nat
  parent : ElementState
  node : NodeId
  engine : Engine

namespace Turn

variable (t : Turn)

def result : Except WalkFault Engine := process (t.fuel + 1) t.parent t.node t.engine

/-- The state of the node, resolved below that of its parent. -/
def state : Except Error ElementState := ElementState.resolve t.engine.env t.parent t.node

def path : ElementPath := t.engine.template.elementPath t.node

def location : Location := t.engine.template.location t.node

/-- The turn is one of an element, with its state and with what becomes of it. -/
structure Faces (s : ElementState) (x : Except WalkFault Prospect) : Prop where
  element : t.engine.template.isComment t.node = false
  state : t.state = .ok s
  prospect : prospect s t.node t.engine = x

/-- The turns that a turn makes, each once those before it have succeeded. -/
inductive Makes : Turn → Prop where
  | kid {fuel : Nat} {s : ElementState} {e₁ e₂ : Engine} {front back : List NodeId} {c : NodeId}
      (hfuel : t.fuel = fuel + 1) (hs : t.Faces s (.ok (.stays e₁)))
      (hinner : e₁.template.hasElementChildren t.node = true)
      (hkids : e₁.template.children t.node = front ++ c :: back)
      (hfront : walkRow (process (fuel + 1)) (front.map (s, ·)) e₁ = .ok e₂) :
      Makes ⟨fuel, s, c, e₂⟩
  | branch {fuel copies : Nat} {s : ElementState} {ns front back : List NodeId} {e₁ e₂ : Engine}
      {c : NodeId} (hfuel : t.fuel = fuel + 1) (hs : t.Faces s (.ok (.repeats copies)))
      (hns : withCopies t.node t.engine copies = some (ns, e₁)) (hsplit : ns = front ++ c :: back)
      (hfront : walkRow (process (fuel + 1)) (branches t.parent 0 front) e₁ = .ok e₂) :
      Makes ⟨fuel, { t.parent with multiBranch := some front.length }, c, e₂⟩
  | source {fuel index : Nat} {s : ElementState} {parent : NodeId} {e₁ e₂ : Engine}
      {front back : List XPath.DocKey} {key : XPath.DocKey} (hfuel : t.fuel = fuel + 1)
      (hs : t.Faces s (.ok .spreads)) (hout : takenOut t.node t.engine = some (parent, index, e₁))
      (hkeys : s.sources.members.reverse = front ++ key :: back)
      (hfront : walkSources (process (fuel + 1)) s t.node parent index front e₁ = .ok e₂) :
      Makes ⟨fuel, s.rebindSource key (putBack t.node e₂ s parent index key).2.env,
        (putBack t.node e₂ s parent index key).1, (putBack t.node e₂ s parent index key).2⟩

/-- The second turn is the first one, or is made in the course of it. -/
abbrev Reaches : Turn → Turn → Prop := Relation.ReflTransGen Makes

/-- The turn that the whole walk is. -/
def first (e : Engine) : Turn := ⟨depthBound e.template - 1, .root, e.template.root, e⟩

variable {t} {t' : Turn} {s : ElementState} {fault : WalkFault}

theorem Faces.result_eq {x : Except WalkFault Prospect} (h : t.Faces s x) :
    t.result = x >>= follow (process t.fuel) t.parent s t.node t.engine := by
  rw [result, process_succ _ h.element, show ElementState.resolve _ _ _ = _ from h.state,
    ← h.prospect]
  rfl

/-- A turn faces one thing. -/
theorem Faces.unique {s' : ElementState} {x x' : Except WalkFault Prospect} (h : t.Faces s x)
    (h' : t.Faces s' x') : s = s' ∧ x = x' := by
  obtain rfl : s = s' := Except.ok.inj (h.state.symm.trans h'.state)
  exact ⟨rfl, h.prospect.symm.trans h'.prospect⟩

/-- A turn that succeeds has followed what it faced. -/
theorem exists_faces (helement : t.engine.template.isComment t.node = false) {e' : Engine}
    (h : t.result = .ok e') :
    ∃ s x, t.Faces s (.ok x) ∧
      follow (process t.fuel) t.parent s t.node t.engine x = .ok e' := by
  rw [result, process_succ _ helement] at h
  obtain ⟨s, hs, h⟩ := bind_eq_ok.1 h
  obtain ⟨x, hx, h⟩ := bind_eq_ok.1 h
  exact ⟨s, x, ⟨helement, mapError_eq_ok.1 hs, hx⟩, h⟩

/-- What prevents an element from being walked makes its turn fail. -/
theorem Faces.error (h : t.Faces s (.error fault)) : t.result = .error fault := h.result_eq

/-- The copies of an element that is repeated are walked one after the other. -/
theorem Faces.exists_row {copies : Nat} {e' : Engine} (h : t.Faces s (.ok (.repeats copies)))
    (hok : t.result = .ok e') :
    ∃ ns e₁, withCopies t.node t.engine copies = some (ns, e₁) ∧
      walkRow (process t.fuel) (branches t.parent 0 ns) e₁ = .ok e' := by
  have hcopies : replicate (process t.fuel) t.parent t.node copies t.engine = .ok e' :=
    h.result_eq.symm.trans hok
  rw [replicate_eq_withCopies] at hcopies
  cases hns : withCopies t.node t.engine copies with
  | none =>
    rw [hns] at hcopies
    cases hcopies
  | some made =>
    obtain ⟨ns, e₁⟩ := made
    rw [hns] at hcopies
    exact ⟨ns, e₁, rfl, hcopies⟩

theorem branches_append (parent : ElementState) (i : Nat) (ns ms : List NodeId) :
    branches parent i (ns ++ ms) = branches parent i ns ++ branches parent (i + ns.length) ms := by
  induction ns generalizing i with
  | nil => rfl
  | cons n ns ih =>
    rw [List.cons_append, branches, branches, ih, List.cons_append, List.length_cons,
      Nat.add_right_comm, Nat.add_assoc]

theorem finishElement_inner {visit : Visit} {n : NodeId} {e : Engine}
    (hinner : e.template.hasElementChildren n = true) :
    finishElement visit s n e =
      walkRow visit ((e.template.children n).map (s, ·)) e >>= fun e' =>
        return e'.mapTemplate (·.stripDirectives n) := by
  rw [finishElement, walkContent, if_pos hinner, walkRow, List.foldlM_map]

/-- A turn fails as one that it makes. -/
theorem Makes.error (h : t.Makes t') (hfault : t'.result = .error fault) :
    t.result = .error fault := by
  cases h with
  | kid hfuel hs hinner hkids hfront =>
    rw [hs.result_eq, hfuel]
    change finishElement _ _ _ _ = _
    rw [finishElement_inner hinner, hkids, List.map_append, walkRow_append, hfront]
    change (walkRow _ (List.map _ (_ :: _)) _ >>= _) = _
    rw [List.map_cons, walkRow, List.foldlM_cons, show process _ _ _ _ = _ from hfault]
    rfl
  | branch hfuel hs hns hsplit hfront =>
    rw [hs.result_eq, hfuel]
    change replicate _ _ _ _ _ = _
    rw [replicate_eq_withCopies, hns, hsplit]
    change walkRow _ _ _ = _
    rw [branches_append, walkRow_append, hfront]
    change walkRow _ (branches _ _ (_ :: _)) _ = _
    rw [branches, Nat.zero_add, walkRow, List.foldlM_cons, show process _ _ _ _ = _ from hfault]
    rfl
  | source hfuel hs hout hkeys hfront =>
    rw [hs.result_eq, hfuel]
    change expandSources _ _ _ _ = _
    rw [expandSources_eq_takenOut, hout, hkeys]
    change walkSources _ _ _ _ _ _ _ = _
    rw [walkSources_append, hfront]
    change walkSources _ _ _ _ _ (_ :: _) _ = _
    rw [walkSources_cons, show process _ _ _ _ = _ from hfault]
    rfl

theorem Reaches.error (h : t.Reaches t') (hfault : t'.result = .error fault) :
    t.result = .error fault := by
  induction h using Relation.ReflTransGen.head_induction_on with
  | refl => exact hfault
  | head hmakes _ ih => exact hmakes.error ih

theorem first_result (e : Engine) :
    (first e).result = process (depthBound e.template) .root e.template.root e := by
  rw [result, first, depthBound_eq, Nat.add_sub_cancel]

end Turn

/-- The walk fails as any turn that it comes to. -/
theorem walk_eq_error {e : Engine} {t : Turn} {err : Error} (h : (Turn.first e).Reaches t)
    (herr : t.result = .error (.failed err)) : e.walk = .error err := by
  unfold walk
  rw [← Turn.first_result, h.error herr]

end Engine

end LabelTemplate
