import MaterialGraph.Text.Blank

/-!
# Search paths

A search path is a list of directories in which relative file names are looked up. Which files there are is a
parameter: a function from paths to truth values.
-/

namespace MaterialGraph

set_option autoImplicit false

/-- Directories in the order in which they are searched. -/
structure SearchPath where
  dirs : List String := []
deriving DecidableEq, Repr

namespace SearchPath

def push (p : SearchPath) (dir : String) : SearchPath := ⟨p.dirs ++ [dir]⟩

/-- The directories of one path and then those of another. -/
def append (p q : SearchPath) : SearchPath := ⟨p.dirs ++ q.dirs⟩

instance : Append SearchPath := ⟨append⟩

/-- The directories of a list with colons between them; no list is an empty path. -/
def ofList? : Option String → SearchPath
  | none => {}
  | some s => ⟨Text.splitOn ':' s⟩

/-- A file name put behind a directory, with one slash between them unless the directory is empty or ends in one. -/
def join (dir file : String) : String :=
  if dir.isEmpty || dir.endsWith "/" then dir ++ file else dir ++ "/" ++ file

/-- Looks up a file name. An absolute name stands for itself; a relative one is put behind each directory in turn, and
the first path that exists is taken. -/
def find? (p : SearchPath) (fileExists : String → Bool) (file : String) : Option String :=
  if file.isEmpty then none
  else if file.startsWith "/" then if fileExists file then some file else none
  else (p.dirs.map fun dir => join dir file).find? fileExists

end SearchPath

end MaterialGraph
