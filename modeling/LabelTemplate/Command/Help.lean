import LabelTemplate.Command.Arguments

/-!
# Help

What the program tells about its commands and their options: what a command
does, how it is called, and a table of what can be given with it.
-/

namespace LabelTemplate.Command

/-- What the program is for. -/
def programSummary : String := "Render PDS4 labels from annotated type templates"

/-- The lines of a table: names, and beside them in one column what they mean. -/
def tableLines (rows : List (String × String)) : List String :=
  let width := rows.foldl (fun w (name, _) => max w name.length) 0
  rows.map fun (name, about) => "  " ++ name.pushn ' ' (width - name.length) ++ "  " ++ about

/-- A table under a heading; nothing for no rows. -/
def headedTable (heading : String) (rows : List (String × String)) : List String :=
  if rows.isEmpty then [] else "" :: (heading ++ ":") :: tableLines rows

/-- An option with its short name in front, if it has one. -/
def Flag.displayBoth (f : Flag) : String :=
  match f.short? with
  | some c => "-" ++ c.toString ++ ", " ++ f.display
  | none => "    " ++ f.display

/-- How the program or one of its commands is called. -/
def callOf : Option Verb → String
  | none => "pt [OPTIONS] <COMMAND>"
  | some .help => "pt help [COMMAND]..."
  | some verb => s!"pt {verb.name} [OPTIONS]"

/-- What can be given besides options. -/
def operands : Option Verb → List String
  | none => headedTable "Commands" (Verb.all.map fun v => (v.name, v.about))
  | some .help =>
    headedTable "Arguments" [("[COMMAND]...", "Print help for the subcommand(s)")]
  | some _ => []

/-- The help on a command, or on the program. -/
def helpLines (topic : Option Verb) : List String :=
  [(topic.map Verb.about).getD programSummary, "", "Usage: " ++ callOf topic] ++ operands topic ++
    headedTable "Options" ((Verb.options topic).map fun f => (f.displayBoth, f.about))

end LabelTemplate.Command
