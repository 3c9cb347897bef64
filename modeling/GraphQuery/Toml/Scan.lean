/-!
# Reading characters

A scanner reads from the front of a list of characters and fails where the text is not what it expects. White space
inside a line is made of spaces and tabs; a line ends with a line feed, which a carriage return may precede.
-/

namespace GraphQuery.Toml

/-- A reader of characters. -/
abbrev Scan := StateT (List Char) Option

namespace Scan

/-- The next character, which stays to be read. -/
def peek? : Scan (Option Char) := do
  return (← get).head?

/-- Reads one character. -/
def next : Scan Char := do
  match ← get with
  | [] => failure
  | c :: rest =>
    set rest
    return c

/-- Reads a character if it comes next. -/
def accept (c : Char) : Scan Bool := do
  match ← get with
  | [] => return false
  | d :: rest =>
    if d = c then
      set rest
      return true
    else return false

/-- Reads a character that has to come next. -/
def expect (c : Char) : Scan Unit := do
  if !(← accept c) then failure

/-- Reads characters as long as they are of a class. -/
def takeWhile (p : Char → Bool) : Scan (List Char) := do
  let cs ← get
  set (cs.dropWhile p)
  return cs.takeWhile p

/-- Whether nothing is left to read. -/
def atEnd : Scan Bool := do
  return (← get).isEmpty

end Scan

/-- A space or a tab. -/
def isSpace (c : Char) : Bool :=
  c = ' ' || c = '\t'

/-- A character that may stand in a comment or a string: a tab, or anything but a control character of ASCII. -/
def isPrintable (c : Char) : Bool :=
  c = '\t' || (Nat.ble 0x20 c.toNat && c.toNat != 0x7F)

/-- Skips spaces and tabs. -/
def skipSpaces : Scan Unit := do
  let _ ← Scan.takeWhile isSpace

/-- Reads the end of a line if it comes next. -/
def acceptLineEnd : Scan Bool := do
  match ← get with
  | '\n' :: rest =>
    set rest
    return true
  | '\r' :: '\n' :: rest =>
    set rest
    return true
  | _ => return false

/-- Skips a comment if one comes next, up to the end of its line. -/
def skipComment : Scan Unit := do
  if ← Scan.accept '#' then
    let _ ← Scan.takeWhile isPrintable
    match ← get with
    | [] => return
    | '\n' :: _ => return
    | '\r' :: '\n' :: _ => return
    | _ => failure

/-- Skips white space, line ends and comments, at most as many as the given number. -/
def skipBlanks : Nat → Scan Unit
  | 0 => return
  | count + 1 => do
    skipSpaces
    skipComment
    if ← acceptLineEnd then skipBlanks count

/-- Skips white space, line ends and comments. -/
def skipAllBlanks : Scan Unit := do
  skipBlanks ((← get).length + 1)

/-- Reads what may stand behind a statement on its line, and the end of the line. -/
def endStatement : Scan Unit := do
  skipSpaces
  skipComment
  if !(← acceptLineEnd) then
    if !(← Scan.atEnd) then failure

end GraphQuery.Toml
