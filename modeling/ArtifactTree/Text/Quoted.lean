import ArtifactTree.Text.Hidden

/-!
# Quoted texts

A text between double quotes, as messages show it: a quote and a backslash are preceded by a
backslash, four control characters have letters of their own, and other hidden characters are shown
by their number.
-/

namespace ArtifactTree.Text

def quotedChar (c : Char) : List Char :=
  if c = '"' then ['\\', '"']
  else if c = '\\' then ['\\', '\\']
  else if c = '\n' then ['\\', 'n']
  else if c = '\r' then ['\\', 'r']
  else if c = '\t' then ['\\', 't']
  else if c.toNat = 0 then ['\\', '0']
  else if isHidden c then ['\\', 'u', '\x7b'] ++ Nat.toDigits 16 c.toNat ++ ['\x7d']
  else [c]

def quoted (text : String) : String :=
  .ofList ('"' :: text.toList.flatMap quotedChar ++ ['"'])

end ArtifactTree.Text
