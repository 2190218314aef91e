/-!
# Writing JSON

Documents with an indentation of two columns a level. What is empty stands on one line.
-/

namespace ShaderReducer

namespace Json

inductive Document where
  | atom (text : String)
  | array (items : List Document)
  | object (fields : List (String × Document))

def hexChar (n : Nat) : Char :=
  Nat.digitChar (n % 16)

def escapeChar (c : Char) : List Char :=
  if c = '"' then ['\\', '"']
  else if c = '\\' then ['\\', '\\']
  else if c = '\x08' then ['\\', 'b']
  else if c = '\x0c' then ['\\', 'f']
  else if c = '\n' then ['\\', 'n']
  else if c = '\r' then ['\\', 'r']
  else if c = '\t' then ['\\', 't']
  else if c.toNat < 0x20 then ['\\', 'u', '0', '0', hexChar (c.toNat / 16), hexChar c.toNat]
  else [c]

def quote (s : String) : String :=
  String.ofList ('"' :: s.toList.flatMap escapeChar ++ ['"'])

def lineBreak (depth : Nat) : String :=
  String.ofList ('\n' :: List.replicate (2 * depth) ' ')

mutual

def Document.text (depth : Nat) : Document → String
  | .atom text => text
  | .array [] => "[]"
  | .array (item :: rest) =>
    "[" ++ lineBreak (depth + 1) ++ item.text (depth + 1) ++ moreItems (depth + 1) rest ++
      lineBreak depth ++ "]"
  | .object [] => "\x7b\x7d"
  | .object ((key, value) :: rest) =>
    "\x7b" ++ lineBreak (depth + 1) ++ quote key ++ ": " ++ value.text (depth + 1) ++
      moreFields (depth + 1) rest ++ lineBreak depth ++ "\x7d"

def moreItems (depth : Nat) : List Document → String
  | [] => ""
  | item :: rest => "," ++ lineBreak depth ++ item.text depth ++ moreItems depth rest

def moreFields (depth : Nat) : List (String × Document) → String
  | [] => ""
  | (key, value) :: rest =>
    "," ++ lineBreak depth ++ quote key ++ ": " ++ value.text depth ++ moreFields depth rest

end

def pretty (d : Document) : String :=
  d.text 0

end Json

end ShaderReducer
