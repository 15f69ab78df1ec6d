import MaterialGraph.Text.Blank

/-!
# File trees

A file tree says which paths exist in a working directory with known contents, of whose surroundings nothing is known
but that one can go up. `FileTree.contains` walks along a path name by name: one may only go on from a directory, a
single point stays, two points go up, and a path that ends in a slash has to be a directory.
-/

namespace MaterialGraph

set_option autoImplicit false

/-- The contents of a working directory, each by the names that lead to it. -/
structure FileTree where
  files : List (List String) := []
  directories : List (List String) := []
deriving DecidableEq, Repr

namespace FileTree

def names (path : String) : List String :=
  (Text.splitOn '/' path).filter fun name => !name.isEmpty && name ≠ "."

/-- A list of names and those of the directories above it. -/
def lineage (names : List String) : List (List String) :=
  (List.range (names.length + 1)).map names.take

/-- The tree in which the given paths exist with the directories above them; a path that ends in a slash is a
directory. -/
def ofPaths (paths : List String) : FileTree where
  files := (paths.filter fun path => !path.endsWith "/").map names
  directories := paths.flatMap fun path => lineage (if path.endsWith "/" then names path else (names path).dropLast)

/-- A place on a walk. -/
inductive Place where
  | inside (names : List String)
  | above
  | file
deriving DecidableEq, Repr

def step (t : FileTree) : Place → String → Option Place
  | .file, _ => none
  | .above, name => if name = "." ∨ name = ".." then some .above else none
  | .inside here, name =>
    if name = "." then some (.inside here)
    else if name = ".." then some (if here.isEmpty then .above else .inside here.dropLast)
    else
      let there := here ++ [name]
      if t.directories.contains there then some (.inside there)
      else if t.files.contains there then some .file
      else none

/-- The longest path, in bytes, that a system takes. -/
def longest : Nat := 4095

def contains (t : FileTree) (path : String) : Bool :=
  let start : Place := if path.startsWith "/" then .above else .inside []
  let steps := (Text.splitOn '/' path).filter fun name => !name.isEmpty
  if path.isEmpty || longest < path.utf8ByteSize then false
  else
    match steps.foldlM t.step start with
    | some .file => !path.endsWith "/"
    | some _ => true
    | none => false

end FileTree

end MaterialGraph
