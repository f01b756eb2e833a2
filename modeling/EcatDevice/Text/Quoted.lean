import EcatDevice.Text.Digits
import EcatDevice.Text.Unshown

/-! # Quoted text

Text in double quotes, as messages and listings show it: a quote and a backslash take a backslash
in front, the four common control characters have short forms, and every other character without a
form of its own is written by its code point.
-/

namespace EcatDevice.Text

def quotedChar (c : Char) : List Char :=
  if c = '"' then ['\\', '"']
  else if c = '\\' then ['\\', '\\']
  else if c = '\x00' then ['\\', '0']
  else if c = '\t' then ['\\', 't']
  else if c = '\r' then ['\\', 'r']
  else if c = '\n' then ['\\', 'n']
  else if 0x20 ≤ c.toNat ∧ c.toNat < 0x7f then [c]
  else if isUnshown c then ['\\', 'u', '\x7b'] ++ Nat.toDigits 16 c.toNat ++ ['\x7d']
  else [c]

def quoted (text : String) : String :=
  String.ofList (['"'] ++ text.toList.flatMap quotedChar ++ ['"'])

end EcatDevice.Text
