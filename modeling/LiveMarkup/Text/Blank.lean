/-
This file gives the Unicode white space characters and cuts text at them.
-/

namespace LiveMarkup.Text

/-- These are the characters with the Unicode property White_Space. -/
def isBlank (c : Char) : Bool :=
  let code := c.toNat
  (9 ≤ code && code ≤ 13) || code == 32 || code == 0x85 || code == 0xa0 || code == 0x1680 ||
    (0x2000 ≤ code && code ≤ 0x200a) || code == 0x2028 || code == 0x2029 || code == 0x202f ||
    code == 0x205f || code == 0x3000

theorem isBlank_of_isWhitespace (c : Char) (space : c.isWhitespace = true) : isBlank c = true := by
  simp only [Char.isWhitespace, Bool.or_eq_true, decide_eq_true_eq] at space
  rcases space with ((space | space) | space) | space <;> subst space <;> rfl

/-- This function drops the blanks at both ends. -/
def trim (text : List Char) : List Char :=
  ((text.dropWhile isBlank).reverse.dropWhile isBlank).reverse

def trimString (text : String) : String := String.ofList (trim text.toList)

/-- This function gives the longest runs without blanks. -/
def words (text : List Char) : List (List Char) := collect [] text
where
  finish (current : List Char) (rest : List (List Char)) : List (List Char) :=
    if current.isEmpty then rest else current.reverse :: rest
  collect (current : List Char) : List Char → List (List Char)
    | [] => finish current []
    | c :: rest =>
        if isBlank c then finish current (collect [] rest) else collect (c :: current) rest

/-- This function writes one blank between the words of a text. -/
def compact (text : String) : String :=
  String.intercalate " " ((words text.toList).map String.ofList)

end LiveMarkup.Text
