import LiveMarkup.Text.Shown

/-
This file writes text between double quotes so that every character can be seen.
-/

namespace LiveMarkup.Text

def hexDigits (code : Nat) : List Char := Nat.toDigits 16 code

/-- Characters that are not shown are written by name or by their code in hexadecimal digits. -/
def quotedChar (c : Char) : List Char :=
  match c with
  | '"' => ['\\', '"']
  | '\\' => ['\\', '\\']
  | '\n' => ['\\', 'n']
  | '\r' => ['\\', 'r']
  | '\t' => ['\\', 't']
  | '\x00' => ['\\', '0']
  | other =>
      if isShown other then [other]
      else ['\\', 'u', '{'] ++ hexDigits other.toNat ++ ['}']

def quoted (text : String) : String :=
  String.ofList ('"' :: text.toList.flatMap quotedChar ++ ['"'])

end LiveMarkup.Text
