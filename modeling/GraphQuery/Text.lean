/-!
# Texts and their characters

Names are compared up to the case of ASCII letters, an indent holds white space only, and an alias or a label is a plain
identifier. Any other text is set between quotes: a string literal stands between single quotes and escapes with a
backslash, an identifier stands between copies of a chosen quote character and doubles that character.
-/

namespace GraphQuery.Text

/-! ## Case -/

/-- Equality up to the case of ASCII letters. -/
def sameLetters (a b : String) : Bool :=
  a.toList.map Char.toLower == b.toList.map Char.toLower

/-! ## White space -/

/-- The code points with the Unicode property `White_Space`, as ranges that include both ends. -/
def blankRanges : List (Nat × Nat) :=
  [(0x09, 0x0D), (0x20, 0x20), (0x85, 0x85), (0xA0, 0xA0), (0x1680, 0x1680), (0x2000, 0x200A),
    (0x2028, 0x2029), (0x202F, 0x202F), (0x205F, 0x205F), (0x3000, 0x3000)]

/-- Whether a character has the Unicode property `White_Space`. -/
def isBlank (c : Char) : Bool :=
  blankRanges.any fun (first, last) => first ≤ c.toNat && c.toNat ≤ last

/-! ## Plain identifiers -/

/-- An ASCII letter or an underscore. -/
def isIdentifierStart (c : Char) : Bool :=
  c.isAlpha || c == '_'

/-- An ASCII letter, an ASCII digit or an underscore. -/
def isIdentifierPart (c : Char) : Bool :=
  c.isAlphanum || c == '_'

/-- A letter or underscore followed by letters, digits and underscores. -/
def isIdentifier (name : String) : Bool :=
  match name.toList with
  | [] => false
  | first :: rest => isIdentifierStart first && rest.all isIdentifierPart

/-! ## Quotes -/

/-- The single quote, which opens and closes a string literal. -/
def apostrophe : Char := '\x27'

/-- Writes a backslash in front of each backslash and each single quote. -/
def escape : List Char → List Char
  | [] => []
  | c :: rest =>
    if c = '\\' ∨ c = apostrophe then '\\' :: c :: escape rest else c :: escape rest

/-- A string literal: the escaped text between single quotes. -/
def quote (text : String) : String :=
  String.ofList (apostrophe :: (escape text.toList ++ [apostrophe]))

/-- Writes each occurrence of `mark` twice. -/
def double (mark : Char) : List Char → List Char
  | [] => []
  | c :: rest => if c = mark then c :: c :: double mark rest else c :: double mark rest

/-- A delimited identifier: the name between two marks, with each mark inside it doubled. -/
def delimit (mark : Char) (name : String) : String :=
  String.ofList (mark :: (double mark name.toList ++ [mark]))

end GraphQuery.Text
