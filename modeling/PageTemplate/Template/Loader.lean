import PageTemplate.Assoc
import PageTemplate.Fault
import PageTemplate.Text.Percent

/-!
# PageTemplate.Template.Loader

Where the markup of templates comes from: a list held in memory, or the files below a directory.
-/

namespace PageTemplate

/-- Yields the markup of a template by its name. -/
abbrev Loader := Text → Except Fault Text

/-- Templates held in memory. Of two with one name the later one counts. -/
def Loader.ofList (templates : List (Text × Text)) : Loader := fun name =>
  match Assoc.find? name (Assoc.ofList templates) with
  | some markup => .ok markup
  | none => .error (.missingTemplate name)

/-- Files and directories. -/
inductive FileTree where
  | file (bytes : List UInt8)
  | directory (entries : List (Text × FileTree))
  deriving Inhabited

namespace FileTree

/-- Why there is no file at a path. -/
inductive Absence where
  | missing
  | nameTooLong
  deriving Repr, DecidableEq

/-- The longest name of an entry, in bytes. -/
def maxName : Nat := 255

/-- The longest path, in bytes. -/
def maxPath : Nat := 4095

/-- The entry of a directory. -/
def entry? (name : Text) : FileTree → Option FileTree
  | .file _ => none
  | .directory entries => Assoc.find? name entries

def isDirectory : FileTree → Bool
  | .file _ => false
  | .directory _ => true

/-- Follows the parts of a path; `above` holds the directories around the current one, innermost
first. -/
def follow (above : List FileTree) (current : FileTree) : List Text → Except Absence FileTree
  | [] => .ok current
  | part :: parts =>
    if !current.isDirectory then .error .missing
    else if part.isEmpty || part == Text.ofString "." then follow above current parts
    else if part == Text.ofString ".." then
      match above with
      | outer :: above => follow above outer parts
      | [] => .error .missing
    else if maxName < (Utf8.encode part).length then .error .nameTooLong
    else
      match current.entry? part with
      | some inner => follow (current :: above) inner parts
      | none => .error .missing

/-- What is at a path. -/
def find (path : Text) (root : FileTree) : Except Absence FileTree :=
  if maxPath < (Utf8.encode path).length then .error .nameTooLong
  else root.follow [] (Text.splitOn [unit '/'] path)

/-- Puts a file at a path of names, with the directories it needs. -/
def insert (bytes : List UInt8) : List Text → FileTree → FileTree
  | [], _ => .file bytes
  | part :: parts, tree =>
    let entries := match tree with
      | .directory entries => entries
      | .file _ => []
    let inner := (Assoc.find? part entries).getD (.directory [])
    .directory (Assoc.put part (insert bytes parts inner) entries)

end FileTree

/-- The name of a directory as it stands before the names of files. -/
def directoryName (directory : Text) : Text :=
  if directory.isEmpty || directory.getLast? == some (unit '/') then directory
  else directory ++ [unit '/']

/-- The files below a directory of a tree, as templates. -/
def Loader.ofFiles (root : FileTree) (directory : Text) : Loader := fun name =>
  let path := directoryName directory ++ name
  if path.contains 0 then .error (.library .typeError)
  else
    match root.find path with
    | .ok (.file bytes) => .ok (Utf8.decode bytes)
    | .ok (.directory _) => .error (.missingTemplate name)
    | .error .missing => .error (.missingTemplate name)
    | .error .nameTooLong => .error (.library .error)

end PageTemplate
