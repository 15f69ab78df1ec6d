import MaterialGraph.Text.Visible

/-!
# Quotations

`quoted` puts a text between double quotes for a message. Quotes and backslashes get a backslash, line breaks, tabs
and NUL their letter, and every other hidden character its code point in hexadecimal digits between braces.
-/

namespace MaterialGraph.Text

set_option autoImplicit false

def quotedChar (c : Char) : List Char :=
  if c = '"' then ['\\', '"']
  else if c = '\\' then ['\\', '\\']
  else if c = '\n' then ['\\', 'n']
  else if c = '\r' then ['\\', 'r']
  else if c = '\t' then ['\\', 't']
  else if c = '\x00' then ['\\', '0']
  else if isVisible c then [c]
  else '\\' :: 'u' :: '\x7b' :: (Nat.toDigits 16 c.toNat ++ ['\x7d'])

def quoted (s : String) : String :=
  String.ofList ('"' :: (s.toList.flatMap quotedChar ++ ['"']))

end MaterialGraph.Text
