import Lookahead.Text.Hidden

/-!
# Quoted strings

A string between double quotes, in which the quote, the backslash and every
character without a shape of its own are written as escapes.
-/

namespace Lookahead.Text

def hexadecimal (number : Nat) : List Char := Nat.toDigits 16 number

def escape (character : Char) : List Char :=
  if character = '\x00' then ['\\', '0']
  else if character = '\t' then ['\\', 't']
  else if character = '\r' then ['\\', 'r']
  else if character = '\n' then ['\\', 'n']
  else if character = '\\' then ['\\', '\\']
  else if character = '"' then ['\\', '"']
  else if isHidden character then
    ['\\', 'u', '\x7b'] ++ hexadecimal character.toNat ++ ['\x7d']
  else [character]

def quote (text : String) : String :=
  String.ofList ('"' :: text.toList.flatMap escape ++ ['"'])

end Lookahead.Text
