import MaterialGraph.Document.Json
import MaterialGraph.Loader

/-!
# Load options in JSON

Options are a record of a list of directories and a pair of target paths; both may be missing.
-/

namespace MaterialGraph.LoadOptions

open Json (Decoder ReadError record defaulted sparse list pair text)

set_option autoImplicit false

def decode : Decoder LoadOptions :=
  record "LoaderOpts" <| (fun dirs targets => ⟨⟨dirs⟩, targets.map fun (s, d) => ⟨s, d⟩⟩) <$>
    defaulted "search_path" [] (list text) <*> sparse "targets" (pair text)

def encodePath (p : SearchPath) : Json := .ofList .ofText p.dirs

def encode (o : LoadOptions) : Json :=
  .ofMembers [("search_path", encodePath o.searchPath),
    ("targets", match o.targets with
      | some targets => .ofList .ofText targets.toList
      | none => .null)]

def parse (s : String) : Except ReadError LoadOptions :=
  match Json.parse? s with
  | some j => decode j
  | none => .error .malformed

end MaterialGraph.LoadOptions
