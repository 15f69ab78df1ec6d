import MaterialGraph.Document.Basic
import MaterialGraph.LoadError

/-!
# Choosing an output

What has a single output is connected by it, whatever is asked for; what has several needs the name of one.
-/

namespace MaterialGraph

set_option autoImplicit false

/-- The output by which something of a type is connected to an input or output called `consumer`. None stands for the
first output. -/
def chooseOutput (type : String) (outputs : List Output) (requested : Option String) (consumer : String) :
    Except LoadError (Option String) :=
  if type ≠ multiOutput then .ok none
  else match nonEmpty requested with
    | none =>
      .error (.malformed ("output should be specified when connecting to multioutput element - port: " ++ consumer))
    | some name =>
      if outputs.any fun o => o.name = name then .ok (some name)
      else .error (.malformed ("cannot determine output " ++ name ++ " - port: " ++ consumer))

end MaterialGraph
