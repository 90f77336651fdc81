import Cose.Text.Hidden

/-!
# Quoted text

Text for the eyes of a person: between double quotes, with every character that would not show, or
would end the quotation, written as an escape.
-/

set_option autoImplicit false
set_option relaxedAutoImplicit false

namespace Cose.Text

/-- A character by its number, in hexadecimal. -/
def numbered (character : Char) : List Char :=
  '\\' :: 'u' :: '\x7b' :: Nat.toDigits 16 character.toNat ++ ['\x7d']

/-- A character as it stands between double quotes. -/
def escape (character : Char) : List Char :=
  match character with
  | '\x00' => ['\\', '0']
  | '\t' => ['\\', 't']
  | '\n' => ['\\', 'n']
  | '\r' => ['\\', 'r']
  | '"' => ['\\', '"']
  | '\\' => ['\\', '\\']
  | character =>
    if character.toNat < 0x20 || character.toNat = 0x7f then numbered character
    else if character.toNat < 0x80 then [character]
    else if isHidden character then numbered character
    else [character]

/-- Text between double quotes. -/
def quote (content : String) : String :=
  String.ofList ('"' :: content.toList.flatMap escape ++ ['"'])

end Cose.Text
