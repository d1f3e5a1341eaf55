import LabelTemplate.Proofs.Walk.Drafts
import LabelTemplate.Proofs.Walk.Walked

/-!
# Drafts in an arena

`Drafted env d ns δ q` says that the nodes `ns` of the arena and what hangs
below them are the draft `δ`, and that the queue `q` holds just its open
decisions.  A queue is in the order in which things were visited, a draft in
that of the template, so the two hold the same up to order.

Such a part stays as it is while other nodes change (`Drafted.frame`), and two of
them side by side make one (`Drafted.append`).
-/

namespace LabelTemplate

open Xml Document
open TreeWalk (quiet)

/-! ## Open decisions by node -/

namespace Draft

variable {α : Type} (pick : Pending → Option α)

/-- The open decisions of one kind, each with the node it is about. -/
def items (d : Document) : List NodeId → Draft → List (NodeId × α)
  | n :: ns, node _ _ pending kids rest =>
    ((pick pending).map (n, ·)).toList ++ kids.items d (d.children n) ++ rest.items d ns
  | _, _ => []

variable {pick} {d e : Document}

@[simp] theorem items_nil (ns : List NodeId) : nil.items pick d ns = [] := by
  cases ns <;> rfl

theorem items_node (n : NodeId) (ns : List NodeId) (kind : NodeKind) (line : Option Nat)
    (pending : Pending) (kids rest : Draft) :
    (node kind line pending kids rest).items pick d (n :: ns) =
      ((pick pending).map (n, ·)).toList ++ kids.items pick d (d.children n) ++
        rest.items pick d ns := rfl

theorem items_append {ns ms : List NodeId} {δ ε : Draft} (h : Spells d ns δ.forest) :
    (δ ++ ε).items pick d (ns ++ ms) = δ.items pick d ns ++ ε.items pick d ms := by
  induction δ generalizing ns with
  | nil =>
    cases h
    rfl
  | node kind line pending kids rest _ ih =>
    cases h with
    | node hx hkids hrest =>
      rw [node_append, List.cons_append, items_node, items_node, ih hrest]
      simp only [List.append_assoc]

/-- The decisions are about the same nodes where the nodes have the same
children. -/
theorem items_congr (hd : d.Linked) {δ : Draft} {ns : List NodeId}
    (h : ∀ n ∈ ns, ∀ m, Within d n m → e.children m = d.children m) :
    δ.items pick e ns = δ.items pick d ns := by
  induction δ generalizing ns with
  | nil => rw [items_nil, items_nil]
  | node kind line pending kids rest ihkids ihrest =>
    cases ns with
    | nil => rfl
    | cons n ns =>
      have hkids : ∀ c ∈ d.children n, ∀ m, Within d c m → e.children m = d.children m :=
        fun c hc m hm => h n List.mem_cons_self m
          (Within.trans (within_of_parent? ((hd.parent_iff_child n c).2 hc) (within_self d n)) hm)
      rw [items_node, items_node, h n List.mem_cons_self n (within_self d n), ihkids hkids,
        ihrest fun m hm => h m (List.mem_cons_of_mem _ hm)]

@[simp] theorem items_ofForest (hpick : pick {} = none) (f : Forest) (ns : List NodeId) :
    (ofForest f).items pick d ns = [] := by
  induction f generalizing ns with
  | nil => exact items_nil ns
  | node kind line kids rest ihkids ihrest =>
    cases ns with
    | nil => rfl
    | cons n ns =>
      rw [ofForest, items_node, hpick, ihkids, ihrest]
      rfl

end Draft

/-! ## Queues -/

namespace DeferredItem

variable (env : Environment) (item : DeferredItem)

/-- What a queued fill will come to. -/
def fill : NodeId × Result (Option FillValue) := (item.node, quiet (item.state.evalFill env))

/-- What a queued decision will come to. -/
def required : NodeId × Result Bool :=
  (item.node, quiet ((item.state.evalRequired env).map (·.1)))

end DeferredItem

/-- What is queued comes to the same whatever the template is by then. -/
structure Deferred.Steady (env : Environment) (q : Deferred) : Prop where
  fills : ∀ item ∈ q.fills, ∀ t, item.fill (env.setTemplate t) = item.fill env
  requireds : ∀ item ∈ q.requireds, ∀ t, item.required (env.setTemplate t) = item.required env

theorem Deferred.steady_empty (env : Environment) : Deferred.Steady env {} where
  fills _ h := absurd h List.not_mem_nil
  requireds _ h := absurd h List.not_mem_nil

theorem Deferred.Steady.append {env : Environment} {q r : Deferred} (h : q.Steady env)
    (h' : r.Steady env) : (q ++ r).Steady env where
  fills item hi := (List.mem_append.1 hi).elim (h.fills item) (h'.fills item)
  requireds item hi := (List.mem_append.1 hi).elim (h.requireds item) (h'.requireds item)

structure Drafted (env : Environment) (d : Document) (ns : List NodeId) (δ : Draft)
    (q : Deferred) : Prop where
  spells : Spells d ns δ.forest
  fills : (q.fills.map (·.fill env)).Perm (δ.items Pending.fill d ns)
  requireds : (q.requireds.map (·.required env)).Perm (δ.items Pending.required d ns)
  steady : q.Steady env

namespace Drafted

variable {env : Environment} {d e : Document} {ns ms : List NodeId} {δ ε : Draft} {q r : Deferred}

theorem ofForest {f : Forest} (h : Spells d ns f) : Drafted env d ns (.ofForest f) {} where
  spells := by rwa [Draft.forest_ofForest]
  fills := by rw [Draft.items_ofForest rfl]; exact .nil
  requireds := by rw [Draft.items_ofForest rfl]; exact .nil
  steady := ⟨by simp, by simp⟩

theorem nil : Drafted env d [] .nil {} := ofForest .nil

theorem lt_size (h : Drafted env d ns δ q) : ∀ n ∈ ns, n < d.size := by
  have hspells := h.spells
  clear h
  revert hspells
  generalize δ.forest = f
  intro hspells
  induction hspells with
  | nil => simp
  | node hx _ _ _ ih =>
    rintro n (_ | ⟨_, hn⟩)
    · exact lt_size_of_node? hx
    · exact ih n hn

/-- Changes elsewhere leave the part as it is. -/
theorem frame {out : NodeId → Prop} {p : NodeId} (h : Drafted env d ns δ q)
    (hframe : Frame out p d e) (hd : d.Linked)
    (hout : ∀ n ∈ ns, ∀ m, Within d n m → out m ∧ m ≠ p) : Drafted env e ns δ q := by
  have hchildren : ∀ n ∈ ns, ∀ m, Within d n m → e.children m = d.children m := by
    intro n hn m hm
    have hlt : m < d.size := by
      rcases hm with rfl | hm
      · exact h.lt_size _ hn
      · exact lt_size_of_parent? hm.exists_parent.choose_spec
    exact hframe.children m hlt (hout n hn m hm).1 (hout n hn m hm).2
  refine ⟨hframe.spells hd h.spells hout, ?_, ?_, h.steady⟩
  · rw [Draft.items_congr hd hchildren]
    exact h.fills
  · rw [Draft.items_congr hd hchildren]
    exact h.requireds

/-- Siblings of a node whose place was changed. -/
theorem beside {p n : NodeId} {before after left : List NodeId} (h : Drafted env d ns δ q)
    (hd : Stands d p before n after) (hspliced : Spliced d p before n after left e)
    (hns : ∀ c ∈ ns, c ∈ before ++ after) : Drafted env e ns δ q :=
  h.frame hspliced.frame hd.wellFormed.linked fun c hc _ hm => hd.not_within_sibling (hns c hc) hm

theorem append (h : Drafted env d ns δ q) (h' : Drafted env d ms ε r) :
    Drafted env d (ns ++ ms) (δ ++ ε) (q ++ r) where
  spells := by
    rw [Draft.forest_append]
    exact h.spells.append h'.spells
  fills := by
    rw [Draft.items_append h.spells, Deferred.fills_append, List.map_append]
    exact h.fills.append h'.fills
  requireds := by
    rw [Draft.items_append h.spells, Deferred.requireds_append, List.map_append]
    exact h.requireds.append h'.requireds
  steady := h.steady.append h'.steady

/-- The order of the queue does not matter. -/
theorem swap (h : Drafted env d ns δ (q ++ r)) : Drafted env d ns δ (r ++ q) where
  spells := h.spells
  fills := (List.perm_append_comm.map _).trans h.fills
  requireds := (List.perm_append_comm.map _).trans h.requireds
  steady := ⟨fun item hi => h.steady.fills item (List.mem_append.2 (List.mem_append.1 hi).symm),
    fun item hi => h.steady.requireds item (List.mem_append.2 (List.mem_append.1 hi).symm)⟩

/-- An element around the part of its children, with the decisions about the
element itself queued in front. -/
theorem close {n : NodeId} {x : Node} {pending : Pending} (hx : d.node? n = some x)
    (h : Drafted env d x.children δ q)
    (hfills : (r.fills.map (·.fill env)).Perm (pending.fill.map (n, ·)).toList)
    (hrequireds : (r.requireds.map (·.required env)).Perm (pending.required.map (n, ·)).toList)
    (hsteady : r.Steady env) :
    Drafted env d [n] (.node x.kind x.line pending δ .nil) (r ++ q) where
  spells := .node hx h.spells .nil
  fills := by
    rw [Draft.items_node, Draft.items_nil, List.append_nil, children_of_node? hx,
      Deferred.fills_append, List.map_append]
    exact hfills.append h.fills
  requireds := by
    rw [Draft.items_node, Draft.items_nil, List.append_nil, children_of_node? hx,
      Deferred.requireds_append, List.map_append]
    exact hrequireds.append h.requireds
  steady := hsteady.append h.steady

end Drafted

end LabelTemplate
