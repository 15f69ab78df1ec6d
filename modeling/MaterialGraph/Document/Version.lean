import MaterialGraph.Document.Basic
import MaterialGraph.Number.Digits
import MaterialGraph.Text.Blank

/-!
# Versions of documents

A version is a major and a minor number. What cannot be read as a number counts as zero.
-/

namespace MaterialGraph

set_option autoImplicit false

/-- A major and a minor number. -/
structure Version where
  major : UInt32
  minor : UInt32
deriving DecidableEq, Repr

namespace Version

/-- The numbers before and behind the first point. -/
def ofText (s : String) : Version :=
  let parts := Text.splitOn '.' (Text.trim s)
  let number (i : Nat) : UInt32 := (parts[i]?.bind Number.readWord?).getD 0
  ⟨number 0, number 1⟩

/-- The order of versions: the major numbers decide first. -/
def atLeast (v w : Version) : Bool :=
  w.major < v.major || (v.major == w.major && w.minor ≤ v.minor)

end Version

def Document.versionNumbers (d : Document) : Version := .ofText d.version

end MaterialGraph
