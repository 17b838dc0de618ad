import CudaProfile.Text.Digits
import CudaProfile.Text.Invisible
/-!
# Quoted text

A text between double quotes, in which every character can be told: quotes and
backslashes are escaped, and characters that would not show are written by
their numbers.
-/

namespace CudaProfile
namespace Text

def escapeLetter? (c : Char) : Option Char :=
  if c = '\x00' then some '0'
  else if c = '\t' then some 't'
  else if c = '\r' then some 'r'
  else if c = '\n' then some 'n'
  else if c = '\\' then some '\\'
  else if c = '"' then some '"'
  else none

def quotedChar (c : Char) : String :=
  match escapeLetter? c with
  | some letter => String.ofList ['\\', letter]
  | none =>
      if isInvisible c then "\\u\x7b" ++ hex c.toNat ++ "\x7d"
      else String.ofList [c]

def quoted (text : String) : String :=
  "\"" ++ String.join (text.toList.map quotedChar) ++ "\""

end Text
end CudaProfile
