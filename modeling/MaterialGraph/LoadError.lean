import MaterialGraph.Renderer.Basic

/-!
# Errors

The causes for which a part of a document is not built, and their wording. Most are met while loading, where they are
reported and the load goes on.
-/

namespace MaterialGraph

set_option autoImplicit false

/-- Why something cannot be done; the text says what. -/
inductive LoadError where
  | unsupported (what : String)
  | malformed (what : String)
  | native (error : CallError)
  | noOutput (what : String)
  | coercion (what : String)
  | cycle (what : String)
  | document (what : String)
  | other (what : String)
deriving DecidableEq, Repr

namespace LoadError

def message : LoadError → String
  | unsupported what => "unsupported: " ++ what
  | malformed what => "malformed reference: " ++ what
  | native error => "native call failed: " ++ error.message
  | noOutput what => "no renderable output: " ++ what
  | coercion what => "coercion failed: " ++ what
  | cycle what => "cycle detected: " ++ what
  | document what => "document error: " ++ what
  | other what => what

/-- Whether the error only means that an input is not among those a node knows, so that another way may be tried. -/
def isUnsupported : LoadError → Bool
  | unsupported _ => true
  | native .unsupported => true
  | _ => false

end LoadError

end MaterialGraph
