import LabelTemplate.Proofs.Walk.Parts
import LabelTemplate.Proofs.Walk.TreeSteps
import Mathlib.Logic.Relation

/-!
# The calls of the walk on trees

What the walk does with an element depends on its state and on what its path
finds in the source: the element goes, stays, is repeated or is spread over
its sources (`Fate`, `process_succ`).

A `Call` is one use of the walk on trees with all that it is given, and
`Calls` relates a call to those that are made for what is below the element or
for its copies.  Calls that are made one below the other are related by
`Relation.ReflTransGen`.  What a call leaves is then part of what is left above
it (`holds_of_reaches`), and every element that is left has been left by a call
(`every_of_left`).
-/

namespace LabelTemplate

open Xml Outcome

namespace TreeWalk

/-! ## What becomes of an element -/

/-- What becomes of an element in the course of the walk. -/
inductive Fate where
  | goes
  /-- It stays, with what it takes from an element of a source. -/
  | stays (origin : Option (Document × NodeId))
  | repeats (copies : Nat)
  | spreads

/-- The tree of an element that stays, with the content of its counterpart if
it is a leaf. -/
def Fate.take (t : Tree) : Option (Document × NodeId) → Tree
  | some (source, m) =>
    if t.kids.hasElement then t
    else t.mapElement (·.takeContent (source.attributes m) (source.text? m))
  | none => t

variable (env : Environment)

/-- What becomes of an element with a given state at a given path. -/
def fate (s : ElementState) (path : ElementPath) : Except Stop Fate := do
  if !s.sources.secondary.isEmpty then return .spreads
  if s.fetch then
    let some key := s.sources.primary | .error .failed
    let some source := env.docs[key]? | .error .failed
    match source.findAll path with
    | [] => if s.required = some true then .error .failed else return .goes
    | [m] => return .stays (some (source, m))
    | found =>
      if s.multi.expected?.any (· ≠ found.length) then .error .failed
      else return .repeats (found.length - 1)
  else
    match s.multi with
    | .count k => return if k - 1 > 0 then .repeats (k - 1) else .stays none
    | .flag _ => return .stays none

/-- What is left of an element, given what becomes of it. -/
def follow (visit : Visit) (parent s : ElementState) (place : Place) (t : Tree) :
    Fate → Except Stop Forest
  | .goes => .ok .nil
  | .stays origin => finishElement env visit s place (Fate.take t origin)
  | .repeats copies => replicate visit parent place t copies
  | .spreads => expandSources env visit s place t

theorem process_succ (fuel : Nat) (parent : ElementState) (place : Place) (t : Tree) :
    process env (fuel + 1) parent place t =
      state env parent t >>= fun s => fate env s (place.path t.element.name) >>=
        follow env (process env fuel) parent s place t := by
  rw [process]
  refine bind_congr fun s => ?_
  unfold fate
  by_cases hsingle : s.sources.secondary.isEmpty = true
  · rw [if_pos hsingle]
    simp only [hsingle, Bool.not_true, Bool.false_eq_true, if_false]
    unfold walkElement
    cases hfetch : s.fetch with
    | true =>
      simp only [if_true]
      unfold TreeWalk.fetch
      cases s.sources.primary with
      | none => rfl
      | some key =>
        simp only []
        cases env.docs[key]? with
        | none => rfl
        | some source =>
          simp only []
          cases source.findAll (place.path t.element.name) with
          | nil =>
            by_cases hrequired : s.required = some true
            · simp only [hrequired, if_true]
              rfl
            · simp only [hrequired, if_false]
              rfl
          | cons m found =>
            cases found with
            | nil =>
              cases hinner : t.kids.hasElement with
              | true => simp [follow, Fate.take, hinner]
              | false => simp [follow, Fate.take, hinner]
            | cons m' found =>
              by_cases hcount : s.multi.expected?.any (· ≠ (m :: m' :: found).length) = true
              · simp only [hcount, if_true]
                rfl
              · simp only [hcount, Bool.false_eq_true, if_false]
                change _ = replicate (process env fuel) parent place t _
                cases replicate (process env fuel) parent place t ((m :: m' :: found).length - 1)
                · rfl
                · rfl
    | false =>
      simp only [Bool.false_eq_true, if_false]
      cases s.multi with
      | flag b => rfl
      | count k =>
        by_cases hk : k - 1 > 0
        · simp only [hk, if_true]
          rfl
        · simp only [hk, if_false]
          rfl
  · rw [if_neg hsingle]
    simp only [hsingle]
    rfl

/-! ## Calls -/

/-- One use of the walk on trees, `fuel` levels deep. -/
structure Call where
  fuel : Nat
  parent : ElementState
  place : Place
  tree : Tree

namespace Call

def path (c : Call) : ElementPath := c.place.path c.tree.element.name

def state (c : Call) : Except Stop ElementState := TreeWalk.state env c.parent c.tree

/-- What is left in the place of the tree. -/
def left (c : Call) : Except Stop Forest := process env c.fuel c.parent c.place c.tree

/-- The call for a child, after what has been left of those in front. -/
def kid (fuel : Nat) (s : ElementState) (above : ElementPath) (done rest : Forest) (t : Tree) :
    Call :=
  ⟨fuel, s, ⟨above, done.named t.element.name, rest.named t.element.name⟩, t⟩

/-- The call for a branch, with so many copies after it. -/
def branch (fuel : Nat) (parent : ElementState) (place : Place) (t : Tree) (i copies : Nat)
    (done : Forest) : Call :=
  ⟨fuel, { parent with multiBranch := some i },
    { place with before := place.before + done.named t.element.name
                 after := copies + place.after }, t⟩

/-- The call for the copy that is bound to one of several sources. -/
def bound (fuel : Nat) (s : ElementState) (place : Place) (t : Tree) (key : XPath.DocKey)
    (done : Forest) : Call :=
  ⟨fuel, s.rebindSource key env,
    { place with after := done.named t.element.name + place.after }, t⟩

end Call

section

variable (fuel : Nat)

/-- The calls that walking some children makes. -/
inductive KidCall (s : ElementState) (above : ElementPath) :
    (done todo : Forest) → Call → Prop where
  | here {done kids rest : Forest} {e : Element} {line : Option Nat} :
    KidCall s above done (.node (.element e) line kids rest)
      (.kid fuel s above done rest ⟨e, line, kids⟩)
  | later {done kids rest left : Forest} {e : Element} {line : Option Nat} {c : Call}
      (hleft : (Call.kid fuel s above done rest ⟨e, line, kids⟩).left env = .ok left)
      (h : KidCall s above (done ++ left) rest c) :
    KidCall s above done (.node (.element e) line kids rest) c
  | comment {done kids rest : Forest} {text : String} {line : Option Nat} {c : Call}
      (h : KidCall s above (done ++ .node (.comment text) line kids .nil) rest c) :
    KidCall s above done (.node (.comment text) line kids rest) c

/-- The calls that walking branches makes. -/
inductive BranchCall (parent : ElementState) (place : Place) (t : Tree) :
    (i copies : Nat) → (done : Forest) → Call → Prop where
  | here {i copies : Nat} {done : Forest} :
    BranchCall parent place t i (copies + 1) done (.branch fuel parent place t i copies done)
  | later {i copies : Nat} {done left : Forest} {c : Call}
      (hleft : (Call.branch fuel parent place t i copies done).left env = .ok left)
      (h : BranchCall parent place t (i + 1) copies (done ++ left) c) :
    BranchCall parent place t i (copies + 1) done c

/-- The calls that walking copies for several sources makes. -/
inductive BoundCall (s : ElementState) (place : Place) (t : Tree) :
    List XPath.DocKey → (done : Forest) → Call → Prop where
  | here {key : XPath.DocKey} {keys : List XPath.DocKey} {done : Forest} :
    BoundCall s place t (key :: keys) done (.bound env fuel s place t key done)
  | later {key : XPath.DocKey} {keys : List XPath.DocKey} {done left : Forest} {c : Call}
      (hleft : (Call.bound env fuel s place t key done).left env = .ok left)
      (h : BoundCall s place t keys (left ++ done) c) :
    BoundCall s place t (key :: keys) done c

end

/-- The calls that a call makes; those for children only where the state of
the element is `p`. -/
inductive Calls (p : ElementState → Prop) (c : Call) : Call → Prop where
  | kid {fuel : Nat} {s : ElementState} {origin : Option (Document × NodeId)} {c' : Call}
      (hfuel : c.fuel = fuel + 1) (hs : c.state env = .ok s)
      (hfate : fate env s c.path = .ok (.stays origin)) (hp : p s)
      (hc : KidCall env fuel s c.path .nil c.tree.kids c') : Calls p c c'
  | branch {fuel copies : Nat} {s : ElementState} {c' : Call} (hfuel : c.fuel = fuel + 1)
      (hs : c.state env = .ok s) (hfate : fate env s c.path = .ok (.repeats copies))
      (hc : BranchCall env fuel c.parent c.place (c.tree.mapElement (·.removeDirective .multi)) 0
        (copies + 1) .nil c') : Calls p c c'
  | bound {fuel : Nat} {s : ElementState} {c' : Call} (hfuel : c.fuel = fuel + 1)
      (hs : c.state env = .ok s) (hfate : fate env s c.path = .ok .spreads)
      (hc : BoundCall env fuel s c.place (c.tree.mapElement (·.removeDirective .sources))
        s.sources.members.reverse .nil c') : Calls p c c'

/-- The second call is the first one, or is made in the course of it. -/
abbrev Call.Reaches (c c' : Call) : Prop := Relation.ReflTransGen (Calls env fun _ => True) c c'

/-! ## What calls leave -/

section Left

variable {env} {fuel : Nat} {s parent : ElementState} {above : ElementPath} {place : Place}
  {t : Tree} {c c' : Call} {done f g : Forest}

/-- What is left by a call, given what becomes of the element. -/
theorem Call.left_of_fate {x : Fate} (hfuel : c.fuel = fuel + 1) (hs : c.state env = .ok s)
    (hfate : fate env s c.path = .ok x) :
    c.left env = follow env (process env fuel) c.parent s c.place c.tree x := by
  rw [Call.left, hfuel, process_succ, show TreeWalk.state env c.parent c.tree = _ from hs]
  change fate env s c.path >>= _ = _
  rw [hfate]
  rfl

theorem Call.exists_fate (h : c.left env = .ok f) :
    ∃ fuel s x, c.fuel = fuel + 1 ∧ c.state env = .ok s ∧ fate env s c.path = .ok x ∧
      follow env (process env fuel) c.parent s c.place c.tree x = .ok f := by
  cases hfuel : c.fuel with
  | zero =>
    rw [Call.left, hfuel] at h
    cases h
  | succ fuel =>
    rw [Call.left, hfuel, process_succ] at h
    obtain ⟨s, hs, h⟩ := bind_eq_ok.1 h
    obtain ⟨x, hx, h⟩ := bind_eq_ok.1 h
    exact ⟨fuel, s, x, rfl, hs, hx, h⟩

/-- What holds of what a call leaves when it holds of what the calls one level
deeper leave holds of what every call leaves. -/
theorem Call.left_induction {P : Call → Forest → Prop}
    (hstep : ∀ {c : Call} {f : Forest} {fuel : Nat} {s : ElementState} {x : Fate},
      c.fuel = fuel + 1 → c.state env = .ok s → fate env s c.path = .ok x → c.left env = .ok f →
      follow env (process env fuel) c.parent s c.place c.tree x = .ok f →
      (∀ c' f', c'.fuel = fuel → c'.left env = .ok f' → P c' f') → P c f)
    (h : c.left env = .ok f) : P c f := by
  induction hfuel : c.fuel generalizing c f with
  | zero =>
    obtain ⟨fuel, -, -, hsucc, -⟩ := Call.exists_fate h
    rw [hfuel] at hsucc
    cases hsucc
  | succ fuel ih =>
    obtain ⟨_, s, x, hsucc, hs, hx, hfollow⟩ := Call.exists_fate h
    cases hfuel.symm.trans hsucc
    exact hstep hsucc hs hx h hfollow fun c' f' hfuel' hleft => ih hleft hfuel'

theorem exists_back_of_walkKids {visit : Visit} (h : walkKids visit s above done f = .ok g) :
    ∃ back, g = done ++ back := by
  induction f generalizing done with
  | nil =>
    cases h
    exact ⟨.nil, (Forest.append_nil _).symm⟩
  | node kind line kids rest _ ih =>
    cases kind with
    | comment text =>
      obtain ⟨back, rfl⟩ := ih h
      exact ⟨_, Forest.append_assoc _ _ _⟩
    | element e =>
      obtain ⟨left, -, h⟩ := bind_eq_ok.1 h
      obtain ⟨back, rfl⟩ := ih h
      exact ⟨_, Forest.append_assoc _ _ _⟩

theorem exists_back_of_walkCopies {visit : Visit} {i copies : Nat}
    (h : walkCopies visit parent place t i copies done = .ok g) : ∃ back, g = done ++ back := by
  induction copies generalizing i done with
  | zero =>
    cases h
    exact ⟨.nil, (Forest.append_nil _).symm⟩
  | succ copies ih =>
    obtain ⟨left, -, h⟩ := bind_eq_ok.1 h
    obtain ⟨back, rfl⟩ := ih h
    exact ⟨_, Forest.append_assoc _ _ _⟩

theorem exists_front_of_walkSources {visit : Visit} {keys : List XPath.DocKey}
    (h : walkSources env visit s place t keys done = .ok g) : ∃ front, g = front ++ done := by
  induction keys generalizing done with
  | nil =>
    cases h
    exact ⟨.nil, rfl⟩
  | cons key keys ih =>
    obtain ⟨left, -, h⟩ := bind_eq_ok.1 h
    obtain ⟨front, rfl⟩ := ih h
    exact ⟨_, (Forest.append_assoc _ _ _).symm⟩

theorem KidCall.holds (hc : KidCall env fuel s above done f c)
    (h : walkKids (process env fuel) s above done f = .ok g) :
    ∃ left, c.left env = .ok left ∧ g.Holds left := by
  induction hc with
  | here =>
    obtain ⟨left, hleft, h⟩ := bind_eq_ok.1 h
    obtain ⟨back, rfl⟩ := exists_back_of_walkKids h
    refine ⟨left, hleft, ?_⟩
    rw [Forest.append_assoc]
    exact .row
  | later hleft _ ih =>
    obtain ⟨left, hleft', h⟩ := bind_eq_ok.1 h
    cases hleft.symm.trans hleft'
    exact ih h
  | comment _ ih => exact ih h

theorem BranchCall.holds {i copies : Nat} (hc : BranchCall env fuel parent place t i copies done c)
    (h : walkCopies (process env fuel) parent place t i copies done = .ok g) :
    ∃ left, c.left env = .ok left ∧ g.Holds left := by
  induction hc with
  | here =>
    obtain ⟨left, hleft, h⟩ := bind_eq_ok.1 h
    obtain ⟨back, rfl⟩ := exists_back_of_walkCopies h
    refine ⟨left, hleft, ?_⟩
    rw [Forest.append_assoc]
    exact .row
  | later hleft _ ih =>
    obtain ⟨left, hleft', h⟩ := bind_eq_ok.1 h
    cases hleft.symm.trans hleft'
    exact ih h

theorem BoundCall.holds {keys : List XPath.DocKey} (hc : BoundCall env fuel s place t keys done c)
    (h : walkSources env (process env fuel) s place t keys done = .ok g) :
    ∃ left, c.left env = .ok left ∧ g.Holds left := by
  induction hc with
  | here =>
    obtain ⟨left, hleft, h⟩ := bind_eq_ok.1 h
    obtain ⟨front, rfl⟩ := exists_front_of_walkSources h
    exact ⟨left, hleft, .row⟩
  | later hleft _ ih =>
    obtain ⟨left, hleft', h⟩ := bind_eq_ok.1 h
    cases hleft.symm.trans hleft'
    exact ih h

/-- An element that stays is left as one tree with its name, around what is
left of the elements inside it. -/
theorem finishElement_eq_ok {visit : Visit} (h : finishElement env visit s place t = .ok f) :
    ∃ u : Tree, f = u.forest ∧ u.element.name = t.element.name ∧
      (t.kids.hasElement = true →
        walkKids visit s (place.path t.element.name) .nil t.kids = .ok u.kids) ∧
      (t.kids.hasElement = false → u.kids = t.kids) := by
  obtain ⟨u, hu, h⟩ := bind_eq_ok.1 h
  cases h
  refine ⟨u.mapElement (·.stripDirectives), rfl, ?_⟩
  change u.element.name = t.element.name ∧ (_ → _ = Except.ok u.kids) ∧ (_ → u.kids = t.kids)
  unfold TreeWalk.walkContent at hu
  cases hinner : t.kids.hasElement with
  | true =>
    rw [if_pos hinner] at hu
    obtain ⟨kids, hkids, hu⟩ := bind_eq_ok.1 hu
    cases hu
    exact ⟨rfl, fun _ => hkids, fun hleaf => by cases hleaf⟩
  | false =>
    rw [if_neg (by rw [hinner]; exact Bool.false_ne_true)] at hu
    have hsame : u.element.name = t.element.name ∧ u.kids = t.kids := by
      split at hu
      case isTrue =>
        cases hu
        exact ⟨rfl, rfl⟩
      case isFalse =>
        obtain ⟨v, -, hu⟩ := bind_eq_ok.1 hu
        cases v with
        | none =>
          cases hu
          exact ⟨rfl, rfl⟩
        | some v =>
          obtain ⟨text, -, hu⟩ := bind_eq_ok.1 hu
          cases hu
          exact ⟨rfl, rfl⟩
    exact ⟨hsame.1, (fun hinner => by cases hinner), fun _ => hsame.2⟩

theorem KidCall.hasElement (hc : KidCall env fuel s above done f c) : f.hasElement = true := by
  induction hc with
  | here => rfl
  | later => rfl
  | comment _ ih => exact ih

theorem Fate.take_inner {origin : Option (Document × NodeId)} (h : t.kids.hasElement = true) :
    Fate.take t origin = t := by
  cases origin with
  | none => rfl
  | some origin => exact if_pos h

/-- Only text and attributes are taken. -/
theorem Fate.take_same (t : Tree) (origin : Option (Document × NodeId)) :
    (Fate.take t origin).element.name = t.element.name ∧ (Fate.take t origin).kids = t.kids := by
  cases origin with
  | none => exact ⟨rfl, rfl⟩
  | some origin =>
    by_cases hinner : t.kids.hasElement = true
    · rw [Fate.take_inner hinner]
      exact ⟨rfl, rfl⟩
    · rw [Fate.take, if_neg hinner]
      exact ⟨Element.name_takeContent _ _ _, rfl⟩

/-- What a call leaves is part of what the call that made it leaves. -/
theorem Calls.holds {p : ElementState → Prop} (hc : Calls env p c c') (h : c.left env = .ok f) :
    ∃ f', c'.left env = .ok f' ∧ f.Holds f' := by
  cases hc with
  | kid hfuel hs hfate hp hc =>
    rw [Call.left_of_fate hfuel hs hfate, follow, Fate.take_inner hc.hasElement] at h
    obtain ⟨u, rfl, -, hkids, -⟩ := finishElement_eq_ok h
    obtain ⟨f', hf', hholds⟩ := hc.holds (hkids hc.hasElement)
    exact ⟨f', hf', (Forest.Holds.kids _).trans hholds⟩
  | branch hfuel hs hfate hc =>
    rw [Call.left_of_fate hfuel hs hfate] at h
    exact hc.holds h
  | bound hfuel hs hfate hc =>
    rw [Call.left_of_fate hfuel hs hfate] at h
    exact hc.holds h

theorem holds_of_reaches {p : ElementState → Prop} (hc : Relation.ReflTransGen (Calls env p) c c')
    (h : c.left env = .ok f) : ∃ f', c'.left env = .ok f' ∧ f.Holds f' := by
  induction hc with
  | refl => exact ⟨f, h, .refl f⟩
  | tail _ hc ih =>
    obtain ⟨g, hg, hholds⟩ := ih
    obtain ⟨f', hf', hholds'⟩ := hc.holds hg
    exact ⟨f', hf', hholds.trans hholds'⟩

/-! ## Every element that is left -/

theorem KidCall.spec (hc : KidCall env fuel s above done f c) :
    c.fuel = fuel ∧ c.place.above = above ∧ c.tree ∈ f.trees := by
  induction hc with
  | here => exact ⟨rfl, rfl, List.mem_cons_self⟩
  | later _ _ ih => exact ⟨ih.1, ih.2.1, List.mem_cons_of_mem _ ih.2.2⟩
  | comment _ ih => exact ih

theorem BranchCall.spec {i copies : Nat}
    (hc : BranchCall env fuel parent place t i copies done c) :
    c.fuel = fuel ∧ c.place.above = place.above ∧ c.tree = t ∧
      ∃ b, c.parent = { parent with multiBranch := some b } := by
  induction hc with
  | here => exact ⟨rfl, rfl, rfl, _, rfl⟩
  | later _ _ ih => exact ih

theorem BoundCall.spec {keys : List XPath.DocKey}
    (hc : BoundCall env fuel s place t keys done c) :
    c.fuel = fuel ∧ c.place.above = place.above ∧ c.tree = t := by
  induction hc with
  | here => exact ⟨rfl, rfl, rfl⟩
  | later _ _ ih => exact ih

section Keeps

variable {Q : Forest → Prop} (happend : ∀ {f g : Forest}, Q f → Q g → Q (f ++ g))

include happend

/-- What holds of what each call leaves, and is not lost side by side, holds of
all that is left. -/
theorem walkKids_keeps (hcomment : ∀ text line kids, Q (.node (.comment text) line kids .nil))
    (h : walkKids (process env fuel) s above done f = .ok g) (hdone : Q done)
    (hc : ∀ c left, KidCall env fuel s above done f c → c.left env = .ok left → Q left) : Q g := by
  induction f generalizing done with
  | nil =>
    cases h
    exact hdone
  | node kind line kids rest _ ih =>
    cases kind with
    | comment text =>
      exact ih h (happend hdone (hcomment text line kids))
        fun c left hkid => hc c left (.comment hkid)
    | element e =>
      obtain ⟨left, hleft, h⟩ := bind_eq_ok.1 h
      exact ih h (happend hdone (hc _ left .here hleft))
        fun c left' hkid => hc c left' (.later hleft hkid)

theorem walkCopies_keeps {i copies : Nat}
    (h : walkCopies (process env fuel) parent place t i copies done = .ok g) (hdone : Q done)
    (hc : ∀ c left, BranchCall env fuel parent place t i copies done c → c.left env = .ok left →
      Q left) : Q g := by
  induction copies generalizing i done with
  | zero =>
    cases h
    exact hdone
  | succ copies ih =>
    obtain ⟨left, hleft, h⟩ := bind_eq_ok.1 h
    exact ih h (happend hdone (hc _ left .here hleft))
      fun c left' hbranch => hc c left' (.later hleft hbranch)

theorem walkSources_keeps {keys : List XPath.DocKey}
    (h : walkSources env (process env fuel) s place t keys done = .ok g) (hdone : Q done)
    (hc : ∀ c left, BoundCall env fuel s place t keys done c → c.left env = .ok left → Q left) :
    Q g := by
  induction keys generalizing done with
  | nil =>
    cases h
    exact hdone
  | cons key keys ih =>
    obtain ⟨left, hleft, h⟩ := bind_eq_ok.1 h
    exact ih h (happend (hc _ left .here hleft) hdone)
      fun c left' hbound => hc c left' (.later hleft hbound)

end Keeps

/-- Every element that is left has been left by a call. -/
theorem every_of_left (h : c.left env = .ok f) :
    f.Every fun u => ∃ c', c.Reaches env c' ∧ c'.left env = .ok u.forest := by
  refine Call.left_induction (P := fun c f => f.Every fun u =>
    ∃ c', c.Reaches env c' ∧ c'.left env = .ok u.forest)
    (fun {c f fuel s x} hfuel hs hx hleft hfollow ih => ?_) h
  have hbelow : ∀ c' left, Calls env (fun _ => True) c c' → c'.fuel = fuel →
      c'.left env = .ok left → left.Every fun u =>
        ∃ c'', c.Reaches env c'' ∧ c''.left env = .ok u.forest :=
    fun c' left hc hfuel hleft => (ih c' left hfuel hleft).mono fun u hu =>
      hu.imp fun c'' hu => ⟨.head hc hu.1, hu.2⟩
  cases x with
  | goes =>
    cases hfollow
    trivial
  | stays origin =>
    obtain ⟨u, rfl, -, hinside, hleaf⟩ := finishElement_eq_ok hfollow
    rw [(Fate.take_same c.tree origin).2] at hinside hleaf
    refine ⟨⟨c, .refl, hleft⟩, ?_, trivial⟩
    cases hinner : c.tree.kids.hasElement with
    | true =>
      rw [Fate.take_inner hinner] at hinside
      exact walkKids_keeps .append (fun _ _ _ => trivial) (hinside hinner) trivial
        fun c' left hkid => hbelow c' left (.kid hfuel hs hx trivial hkid) hkid.spec.1
    | false =>
      rw [hleaf hinner]
      exact Forest.every_of_hasElement hinner
  | repeats copies =>
    exact walkCopies_keeps .append hfollow trivial fun c' left hbranch =>
      hbelow c' left (.branch hfuel hs hx hbranch) hbranch.spec.1
  | spreads =>
    exact walkSources_keeps .append hfollow trivial fun c' left hbound =>
      hbelow c' left (.bound hfuel hs hx hbound) hbound.spec.1

/-! ## Siblings of one name -/

/-- What is left of an element that has not a name has not the name either. -/
theorem named_of_left {name : QName} (h : c.left env = .ok f)
    (hname : c.tree.element.name.hasName name.namespaceUri name.localName = false) :
    f.named name = 0 := by
  have happend : ∀ {f g : Forest}, f.named name = 0 → g.named name = 0 → (f ++ g).named name = 0 :=
    fun hf hg => by rw [Forest.named_append, hf, hg]
  refine Call.left_induction (P := fun c f =>
    c.tree.element.name.hasName name.namespaceUri name.localName = false → f.named name = 0)
    (fun {c f fuel s x} hfuel hs hx hleft hfollow ih hname => ?_) h hname
  cases x with
  | goes =>
    cases hfollow
    rfl
  | stays origin =>
    obtain ⟨u, rfl, hsame, -⟩ := finishElement_eq_ok hfollow
    rw [Tree.forest, Forest.named_element, hsame, (Fate.take_same c.tree origin).1, hname]
    rfl
  | repeats copies =>
    refine walkCopies_keeps (Q := (·.named name = 0)) happend hfollow rfl
      fun c' left hbranch hleft' => ?_
    obtain ⟨hfuel', -, htree, -⟩ := hbranch.spec
    exact ih c' left hfuel' hleft' (htree ▸ hname)
  | spreads =>
    refine walkSources_keeps (Q := (·.named name = 0)) happend hfollow rfl
      fun c' left hbound hleft' => ?_
    obtain ⟨hfuel', -, htree⟩ := hbound.spec
    exact ih c' left hfuel' hleft' (htree ▸ hname)

/-- The only child of a name stands alone, whatever has been left of the
children in front of it. -/
theorem KidCall.alone (hc : KidCall env fuel s above done f c)
    (hdone : done.named c.tree.element.name = 0) (honly : f.named c.tree.element.name = 1) :
    c.place.before = 0 ∧ c.place.after = 0 := by
  induction hc with
  | @here done kids rest e line =>
    refine ⟨hdone, ?_⟩
    rw [Forest.named_element, Call.kid, if_pos (QName.hasName_self e.name)] at honly
    exact Nat.add_left_cancel honly
  | @later done kids rest left e line c hleft hc ih =>
    have hpos : 0 < rest.named c.tree.element.name := Forest.named_pos_of_mem hc.spec.2.2
    rw [Forest.named_element] at honly
    cases hname : e.name.hasName c.tree.element.name.namespaceUri c.tree.element.name.localName with
    | true =>
      rw [hname, if_pos rfl] at honly
      omega
    | false =>
      rw [hname, if_neg Bool.false_ne_true, Nat.zero_add] at honly
      refine ih ?_ honly
      rw [Forest.named_append, hdone, named_of_left hleft hname]
  | comment hc ih =>
    rw [Forest.named_comment] at honly
    refine ih ?_ honly
    rw [Forest.named_append, hdone, Forest.named_comment]
    rfl

end Left

end TreeWalk

end LabelTemplate
