/-!
# JSON trees

A tree keeps the tokens of a text as they are written: a string or a number is held by its lexeme, the members of an
object stand in their order and may repeat a name. What a lexeme means is read on demand, so a part of a tree that
nobody reads need not mean anything.

* `Json.render` writes a tree without blanks.
-/

namespace MaterialGraph

set_option autoImplicit false

/-- A JSON text as a tree of lexemes. -/
inductive Json where
  | null
  | bool (value : Bool)
  | number (lexeme : List Char)
  | string (lexeme : List Char)
  | array (items : List Json)
  | object (members : List (List Char × Json))
deriving Inhabited

namespace Json

mutual

/-- The characters of a tree's text, before `rest`. -/
def renderChars (rest : List Char) : Json → List Char
  | null => 'n' :: 'u' :: 'l' :: 'l' :: rest
  | bool true => 't' :: 'r' :: 'u' :: 'e' :: rest
  | bool false => 'f' :: 'a' :: 'l' :: 's' :: 'e' :: rest
  | number lexeme => lexeme ++ rest
  | string lexeme => '"' :: (lexeme ++ '"' :: rest)
  | array [] => '[' :: ']' :: rest
  | array (item :: items) => '[' :: renderChars (renderItems rest items) item
  | object [] => '\x7b' :: '\x7d' :: rest
  | object ((name, value) :: members) =>
    '\x7b' :: '"' :: (name ++ '"' :: ':' :: renderChars (renderMembers rest members) value)

/-- The items after the first of an array, the closing bracket, and `rest`. -/
def renderItems (rest : List Char) : List Json → List Char
  | [] => ']' :: rest
  | item :: items => ',' :: renderChars (renderItems rest items) item

/-- The members after the first of an object, the closing brace, and `rest`. -/
def renderMembers (rest : List Char) : List (List Char × Json) → List Char
  | [] => '\x7d' :: rest
  | (name, value) :: members =>
    ',' :: '"' :: (name ++ '"' :: ':' :: renderChars (renderMembers rest members) value)

end

def render (j : Json) : String :=
  String.ofList (renderChars [] j)

end Json

end MaterialGraph
