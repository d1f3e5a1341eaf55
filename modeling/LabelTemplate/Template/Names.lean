import LabelTemplate.Text.Order
import LabelTemplate.XPath.Eval

/-!
# Names in expressions and messages

The prefixes that a document's root binds for expressions, and Clark names
and paths written with prefixes for messages.
-/

namespace LabelTemplate

open Xml

/-- The prefixes in scope at the root of a document, sorted; the default
namespace is bound to `defaultPrefix`, also where that prefix is declared. -/
def expressionNamespaces (d : Document) (defaultPrefix : String) : XPath.Namespaces :=
  let scope := d.namespacesInScope d.root
  let named := scope.filterMap fun (p, uri) => p.map (·, uri)
  let all := match scope.lookup none with
    | some uri =>
      if uri.isEmpty then named else (defaultPrefix, uri) :: named.filter (·.1 != defaultPrefix)
    | none => named
  Text.sortByKey all

namespace ClarkNames

/-- The prefix of a namespace; of several the last in order. -/
def prefixOf? (ns : XPath.Namespaces) (uri : String) : Option String :=
  (ns.filter (·.2 == uri)).getLast?.map (·.1)

/-- Replaces each namespace in braces by its prefix, if it has one. -/
def withPrefixesFrom (ns : XPath.Namespaces) : (fuel : Nat) → List Char → List Char
  | 0, cs => cs
  | _, [] => []
  | fuel + 1, c :: cs =>
    if c = '\x7b' then
      match Text.splitOnceChars '\x7d' cs with
      | none => c :: cs
      | some (uri, after) =>
        let shown := match prefixOf? ns (String.ofList uri) with
          | some p => p.toList ++ [':']
          | none => c :: uri ++ ['\x7d']
        shown ++ withPrefixesFrom ns fuel after
    else c :: withPrefixesFrom ns fuel cs

/-- A Clark name or path with prefixes in place of the namespaces that have
one. -/
def withPrefixes (ns : XPath.Namespaces) (clark : String) : String :=
  String.ofList (withPrefixesFrom ns (clark.length + 1) clark.toList)

end ClarkNames

end LabelTemplate
