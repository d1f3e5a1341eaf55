import LabelTemplate.Command.Execute
import Std.Time.DateTime.Timestamp

/-!
# The program

Reads the files that the arguments name, carries the request out on them as
values, and then writes what has changed.
-/

namespace LabelTemplate.Program

open Command

/-- The time now. -/
def clock : IO Time.Timestamp := do
  let now ← Std.Time.Timestamp.now
  return (Time.Timestamp.epoch.addNanos? now.toNanosecondsSinceUnixEpoch.val).getD .epoch

def pathOf (p : Place) : String := "/" ++ "/".intercalate p

def isDirectory (path : String) : IO Bool := do
  try
    (← IO.FS.realPath path).isDir
  catch _ => return false

/-- Adds the file or directory at a place, if there is one. -/
def addPlace (fs : Files) (p : Place) : IO Files := do
  if ← isDirectory (pathOf p) then
    return { fs with directories := p :: fs.directories }
  else
    try
      return fs.put p (← IO.FS.readBinFile (pathOf p))
    catch _ => return fs

/-- Adds what is there on the way of a path. -/
def addPath (fs : Files) (path : String) : IO Files :=
  let p := fs.placeOf path
  ((List.range (p.length + 1)).map fun n => p.take n).foldlM addPlace fs

/-- The files that arguments name. -/
def load (args : List String) : IO Files := do
  let home := (← IO.currentDir).toString
  let fs : Files := { home := ({} : Files).placeOf home }
  match Request.ofArgs args with
  | .error _ => return fs
  | .ok request =>
    let fs ← request.inputs.config.toList.foldlM addPath fs
    match request.run fs with
    | .error _ => return fs
    | .ok r => r.paths.foldlM addPath fs

/-- Writes the directories and files that were made or changed. -/
def save (before after : Files) : IO Unit := do
  for p in after.directories do
    if !before.isDirectory p then IO.FS.createDirAll (pathOf p)
  for (p, content) in after.files do
    if before.content? p != some content then IO.FS.writeBinFile (pathOf p) content

/-- Tells an entry of the log with its time in front. -/
def tell (time : Time.Timestamp) (entry : String) : IO Unit := do
  let shown := (Time.LabelTime.ofClock time none none).write.toOption.getD ""
  IO.println s!"{shown}  INFO {entry}"

/-- Runs the program and gives its exit code. -/
def run (args : List String) : IO UInt32 := do
  let fs ← load args
  let time ← clock
  let outcome := execute fs time args
  save fs outcome.files
  for entry in outcome.log do tell time entry
  for line in outcome.output do IO.println line
  for line in outcome.errors do IO.eprintln line
  return outcome.exitCode.toUInt32

end LabelTemplate.Program

def main (args : List String) : IO UInt32 := LabelTemplate.Program.run args
