import CudaProfile.Text.Digits
/-!
# JSON documents

Documents and their indented text.
-/

namespace CudaProfile

/-- A JSON document. Numbers are given by their texts, and the members of an
object keep their order. -/
inductive Json where
  | null
  | bool (value : Bool)
  | number (digits : String)
  | string (value : String)
  | array (items : List Json)
  | object (members : List (String × Json))

namespace Json

def nat (n : Nat) : Json :=
  number (toString n)

def escapedChar (c : Char) : String :=
  if c = '"' then "\\\""
  else if c = '\\' then "\\\\"
  else if c = '\n' then "\\n"
  else if c = '\r' then "\\r"
  else if c = '\t' then "\\t"
  else if c = '\x08' then "\\b"
  else if c = '\x0c' then "\\f"
  else if c.toNat < 0x20 then "\\u" ++ Text.padLeft 4 '0' (Text.hex c.toNat)
  else String.ofList [c]

def quotedText (value : String) : String :=
  "\"" ++ String.join (value.toList.map escapedChar) ++ "\""

def lineBreak (depth : Nat) : String :=
  "\n" ++ String.ofList (List.replicate (2 * depth) ' ')

mutual

/-- The text of a document, two blanks of indentation to a level; empty arrays
and objects take no lines. -/
def pretty (depth : Nat) : Json → String
  | null => "null"
  | bool value => if value then "true" else "false"
  | number digits => digits
  | string value => quotedText value
  | array [] => "[]"
  | array (item :: rest) =>
      "[" ++ lineBreak (depth + 1) ++ pretty (depth + 1) item ++
        prettyItems depth rest ++ lineBreak depth ++ "]"
  | object [] => "\x7b\x7d"
  | object ((name, item) :: rest) =>
      "\x7b" ++ lineBreak (depth + 1) ++ quotedText name ++ ": " ++
        pretty (depth + 1) item ++ prettyMembers depth rest ++
        lineBreak depth ++ "\x7d"

def prettyItems (depth : Nat) : List Json → String
  | [] => ""
  | item :: rest =>
      "," ++ lineBreak (depth + 1) ++ pretty (depth + 1) item ++
        prettyItems depth rest

def prettyMembers (depth : Nat) : List (String × Json) → String
  | [] => ""
  | (name, item) :: rest =>
      "," ++ lineBreak (depth + 1) ++ quotedText name ++ ": " ++
        pretty (depth + 1) item ++ prettyMembers depth rest

end

end Json
end CudaProfile
