import LabelTemplate.Error
import LabelTemplate.Xml.Writer

/-!
# Files

A directory tree as a value: files with their contents, directories without
files and the working directory, from which relative paths start.  Reading
and writing give the faults that an operating system gives for missing files,
for directories where a file is wanted and for files where a directory is
wanted.

A task changes the files and can fail on the way; a failed task leaves what it
had done before.
-/

namespace LabelTemplate

/-- The names on the way from the root of the tree to a file or directory. -/
abbrev Place := List String

structure Files where
  files : List (Place × ByteArray) := []
  directories : List Place := []
  /-- The working directory. -/
  home : Place := []

/-- What changes files and may fail, with the files as they are after it in
both cases. -/
abbrev FileTask (ε : Type) := EStateM ε Files

/-- Replaces the files, or fails and leaves them as they are. -/
def FileTask.ofChange {ε : Type} (change : Files → Except ε Files) : FileTask ε Unit := fun fs =>
  match change fs with
  | .ok changed => .ok () changed
  | .error e => .error e fs

/-! ## Paths as texts -/

namespace Path

def isAbsolute (path : String) : Bool := path.startsWith "/"

/-- The parts of a path between its slashes. -/
def parts (path : String) : List String := Text.split '/' path

/-- The parts of a path that count: neither empty ones nor dots, except a
dot in front. -/
def components (path : String) : List String :=
  let parts := (parts path).filter (!·.isEmpty)
  match parts with
  | [] => []
  | first :: rest =>
    let rest := rest.filter (· != ".")
    if isAbsolute path && first == "." then rest else first :: rest

/-- A part of a path that does not count. -/
def isSilent (part : String) : Bool := part.isEmpty || part == "."

/-- The parts without the silent ones at the end. -/
def trimEnd (parts : List String) : List String :=
  (parts.reverse.dropWhile isSilent).reverse

/-- The parts of a path without the slashes at its end. -/
def partsBeforeEnd (path : String) : List String :=
  ((parts path).reverse.dropWhile String.isEmpty).reverse

/-- The most bytes that a path can have. -/
def sizeLimit : Nat := 4095

/-- The most bytes that a name can have. -/
def nameLimit : Nat := 255

/-- What is wrong with a path, whatever files there are. -/
def fault? (path : String) : Option IoFault :=
  if path.isEmpty then some .notFound
  else if path.toList.contains '\x00' then some .nulInPath
  else if sizeLimit < path.utf8ByteSize then some .nameTooLong
  else none

/-- The fixed start of a path, a slash or a dot in front, and the parts after
it. -/
def splitStart (path : String) : String × List String :=
  match parts path with
  | "" :: parts => if parts.isEmpty then ("", []) else ("/", parts)
  | "." :: parts => (".", parts)
  | parts => ("", parts)

/-- The path without its last component, as it is spelled. -/
def parent? (path : String) : Option String :=
  let (start, parts) := splitStart path
  match trimEnd parts with
  | [] => if start == "." then some "" else none
  | parts =>
    let kept := trimEnd parts.dropLast
    let spelled := "/".intercalate kept
    some (if start == "." && !kept.isEmpty then "./" ++ spelled else start ++ spelled)

/-- The last component, unless it leads upwards. -/
def fileName? (path : String) : Option String :=
  match (components path).getLast? with
  | some ".." => none
  | some "." => none
  | last => last

/-- A path below a directory; an absolute path stands for itself. -/
def join (directory path : String) : String :=
  if isAbsolute path || directory.isEmpty then path
  else if directory.endsWith "/" then directory ++ path
  else directory ++ "/" ++ path

end Path

/-- What two spellings of one path have in common. -/
structure PathKey where
  absolute : Bool
  parts : List String
  deriving DecidableEq, Repr

def PathKey.of (path : String) : PathKey := ⟨Path.isAbsolute path, Path.components path⟩

namespace Files

/-! ## Looking up -/

def content? (fs : Files) (p : Place) : Option ByteArray := fs.files.lookup p

def isDirectory (fs : Files) (p : Place) : Bool :=
  p.isPrefixOf fs.home || fs.directories.any p.isPrefixOf ||
    fs.files.any fun (q, _) => p.isPrefixOf q && p.length < q.length

/-- The place that parts of a path lead to if everything on the way is
there. -/
def walk (at_ : Place) : List String → Place
  | [] => at_
  | part :: rest =>
    if Path.isSilent part then walk at_ rest
    else if part == ".." then walk at_.dropLast rest
    else walk (at_ ++ [part]) rest

/-- The place that a path starts from. -/
def startOf (fs : Files) (path : String) : Place :=
  if Path.isAbsolute path then [] else fs.home

/-- The place that a path leads to if everything on the way is there. -/
def placeOf (fs : Files) (path : String) : Place := walk (fs.startOf path) (Path.parts path)

/-- What keeps a place from being a directory. -/
def directoryFault? (fs : Files) (p : Place) : Option IoFault :=
  if fs.isDirectory p then none
  else some (if (fs.content? p).isSome then .notADirectory else .notFound)

/-- Follows the parts of a path from a place.  Every part needs a directory to
start from. -/
def follow (fs : Files) (at_ : Place) : List String → Except IoFault Place
  | [] => .ok at_
  | part :: rest =>
    match fs.directoryFault? at_ with
    | some fault => .error fault
    | none =>
      if Path.isSilent part then fs.follow at_ rest
      else if part == ".." then fs.follow at_.dropLast rest
      else if Path.nameLimit < part.utf8ByteSize then .error .nameTooLong
      else fs.follow (at_ ++ [part]) rest

/-- The place that some parts of a path lead to. -/
def locateParts (fs : Files) (path : String) (parts : List String) : Except IoFault Place :=
  match Path.fault? path with
  | some fault => .error fault
  | none => fs.follow (fs.startOf path) parts

/-- The place that a path leads to; whether something is there is left
open. -/
def locate (fs : Files) (path : String) : Except IoFault Place :=
  fs.locateParts path (Path.parts path)

def pathIsDirectory (fs : Files) (path : String) : Bool :=
  match fs.locate path with
  | .ok p => fs.isDirectory p
  | .error _ => false

/-! ## Reading and writing -/

def readBytes (fs : Files) (path : String) : Except IoFault ByteArray := do
  let p ← fs.locate path
  match fs.content? p with
  | some bytes => return bytes
  | none => throw (if fs.isDirectory p then .isADirectory else .notFound)

/-- Reads a file as a text. -/
def readText (fs : Files) (path : String) : Except IoFault String := do
  match String.fromUTF8? (← fs.readBytes path) with
  | some text => return text
  | none => throw .invalidUtf8

def put (fs : Files) (p : Place) (bytes : ByteArray) : Files :=
  if (fs.content? p).isSome then
    { fs with files := fs.files.map fun (q, old) => if q == p then (q, bytes) else (q, old) }
  else { fs with files := fs.files ++ [(p, bytes)] }

/-- Writes a text to a file, which is made or replaced.  A path with a slash at
its end names a directory, whatever is there. -/
def writeText (fs : Files) (path text : String) : Except IoFault Files := do
  if path.endsWith "/" then
    let above ← fs.locateParts path (Path.partsBeforeEnd path).dropLast
    throw ((fs.directoryFault? above).getD .isADirectory)
  let p ← fs.locate path
  if fs.isDirectory p then throw .isADirectory
  return fs.put p text.toUTF8

/-- Makes one directory.  Slashes at the end of its path say nothing. -/
def makeDirectory (fs : Files) (path : String) : Except IoFault Files := do
  let p ← fs.locateParts path (Path.partsBeforeEnd path)
  if fs.isDirectory p || (fs.content? p).isSome then throw .alreadyExists
  return { fs with directories := p :: fs.directories }

/-- Makes one directory, unless it is there. -/
def makeUnlessThere (path : String) : FileTask IoFault Unit := do
  match (← get).makeDirectory path with
  | .ok fs => set fs
  | .error e => if (← get).pathIsDirectory path then return else throw e

/-- Makes a directory and those above it that are missing, at most `fuel` of
them. -/
def makeDirectoriesFrom : (fuel : Nat) → String → FileTask IoFault Unit
  | 0, _ => throw .notFound
  | fuel + 1, path => do
    if path.isEmpty then return
    match (← get).makeDirectory path with
    | .ok fs => set fs
    | .error .notFound =>
      match Path.parent? path with
      | none => throw .notFound
      | some parent =>
        makeDirectoriesFrom fuel parent
        makeUnlessThere path
    | .error e => if (← get).pathIsDirectory path then return else throw e

/-- Makes a directory and those above it that are missing. -/
def makeDirectories (path : String) : FileTask IoFault Unit :=
  makeDirectoriesFrom (path.length + 2) path

end Files

namespace Xml.Document

/-- Reads a document from a text, with the error of the library. -/
def ofText (text : String) : Except Error Document :=
  (parse text).mapError .xml

/-- Reads a document from a file and remembers its path. -/
def ofFile (fs : Files) (path : String) : Except Error Document := do
  let text ← (fs.readText path).mapError .io
  let d ← ofText text
  return { d with url := some path }

/-- Writes a document to a file, making the directories above it. -/
def writeTo (d : Document) (path : String) : FileTask Error Unit :=
  EStateM.adaptExcept .io do
    match Path.parent? path with
    | some parent => if parent.isEmpty then pure () else Files.makeDirectories parent
    | none => pure ()
    FileTask.ofChange (·.writeText path d.toXml)

end Xml.Document

end LabelTemplate
