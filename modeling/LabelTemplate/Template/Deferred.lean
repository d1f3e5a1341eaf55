import LabelTemplate.Template.ElementState

/-!
# Deferred decisions

What the walk leaves to the export: fills, taken in the order in which they
were queued, and decisions whether an element is required, taken last first,
so that an inner element is decided before those around it.
-/

namespace LabelTemplate

open Xml

/-- An element and the state to evaluate its directive in. -/
structure DeferredItem where
  state : ElementState
  node : NodeId
  deriving Repr

structure Deferred where
  fills : List DeferredItem := []
  requireds : List DeferredItem := []
  deriving Repr

namespace Deferred

def addFill (q : Deferred) (item : DeferredItem) : Deferred :=
  { q with fills := q.fills ++ [item] }

def addRequired (q : Deferred) (item : DeferredItem) : Deferred :=
  { q with requireds := q.requireds ++ [item] }

/-- All fills, first queued first, and the queue without them. -/
def takeFills (q : Deferred) : List DeferredItem × Deferred :=
  (q.fills, { q with fills := [] })

/-- All required decisions, last queued first, and the queue without them. -/
def takeRequireds (q : Deferred) : List DeferredItem × Deferred :=
  (q.requireds.reverse, { q with requireds := [] })

end Deferred

end LabelTemplate
