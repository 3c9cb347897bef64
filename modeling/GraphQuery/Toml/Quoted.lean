import GraphQuery.Toml.Scan

/-!
# Strings and keys

Strings stand between double quotes, with escapes, or between single quotes, where every character stands for itself.
With three quotes on each side a string may go over several lines. A key is a bare word or a string on one line, and
a path is a row of keys with dots between them.
-/

namespace GraphQuery.Toml

/-- The double quote. -/
def doubleQuote : Char := '\x22'

/-- The single quote. -/
def singleQuote : Char := '\x27'

/-- The value of a hexadecimal digit. -/
def hexValue? (c : Char) : Option Nat :=
  if c.isDigit then some (c.toNat - '0'.toNat)
  else if 'a'.toNat ≤ c.toNat ∧ c.toNat ≤ 'f'.toNat then some (c.toNat - 'a'.toNat + 10)
  else if 'A'.toNat ≤ c.toNat ∧ c.toNat ≤ 'F'.toNat then some (c.toNat - 'A'.toNat + 10)
  else none

/-- Reads a number of hexadecimal digits behind a value read so far. -/
def hexDigits : Nat → Nat → Scan Nat
  | 0, value => return value
  | count + 1, value => do
    match hexValue? (← Scan.next) with
    | some digit => hexDigits count (value * 16 + digit)
    | none => failure

/-- Reads the code point of a character as a number of hexadecimal digits. Surrogates are no characters. -/
def codePoint (count : Nat) : Scan Char := do
  let n ← hexDigits count 0
  if n.isValidChar then return Char.ofNat n else failure

/-- Reads the rest of an escape behind its backslash. -/
def escaped : Scan Char := do
  match ← Scan.next with
  | 'b' => return '\x08'
  | 't' => return '\t'
  | 'n' => return '\n'
  | 'f' => return '\x0c'
  | 'r' => return '\r'
  | '\x22' => return doubleQuote
  | '\\' => return '\\'
  | 'u' => codePoint 4
  | 'U' => codePoint 8
  | _ => failure

/-- Reads a string on one line behind its opening quote, of at most the given number of characters. -/
def lineBody (mark : Char) : Nat → Scan (List Char)
  | 0 => failure
  | count + 1 => do
    let c ← Scan.next
    if c = mark then return []
    else if c = '\\' ∧ mark = doubleQuote then return (← escaped) :: (← lineBody mark count)
    else if isPrintable c then return c :: (← lineBody mark count)
    else failure

/-- The text behind white space and line ends. -/
def dropBlankLines : List Char → List Char
  | ' ' :: rest => dropBlankLines rest
  | '\t' :: rest => dropBlankLines rest
  | '\n' :: rest => dropBlankLines rest
  | '\r' :: '\n' :: rest => dropBlankLines rest
  | cs => cs

/-- Reads the end of a line that a backslash joins with the next text, and all white space in front of that. -/
def joinedLineEnd : Scan Unit := do
  skipSpaces
  if !(← acceptLineEnd) then failure
  modify dropBlankLines

/-- Reads a string over several lines behind its opening quotes, of at most the given number of characters. Up to two
quotes may stand in front of the closing three. -/
def blockBody (mark : Char) : Nat → Scan (List Char)
  | 0 => failure
  | count + 1 => do
    match ← get with
    | [] => failure
    | '\n' :: rest =>
      set rest
      return '\n' :: (← blockBody mark count)
    | '\r' :: '\n' :: rest =>
      set rest
      return '\r' :: '\n' :: (← blockBody mark count)
    | c :: rest =>
      set rest
      if c = mark then
        match rest with
        | d :: e :: more =>
          if d = mark ∧ e = mark then
            set more
            if ← Scan.accept mark then
              if ← Scan.accept mark then return [mark, mark] else return [mark]
            else return []
          else return c :: (← blockBody mark count)
        | _ => return c :: (← blockBody mark count)
      else if c = '\\' ∧ mark = doubleQuote then
        if rest.head?.any fun d => isSpace d || d = '\n' || d = '\r' then
          joinedLineEnd
          blockBody mark count
        else return (← escaped) :: (← blockBody mark count)
      else if isPrintable c then return c :: (← blockBody mark count)
      else failure

/-- Reads a string on one line, whose opening quote comes next. -/
def lineString (mark : Char) : Scan String := do
  Scan.expect mark
  return String.ofList (← lineBody mark ((← get).length + 1))

/-- Reads a string, whose opening quote comes next. A line end right behind three opening quotes does not count. -/
def anyString (mark : Char) : Scan String := do
  Scan.expect mark
  match ← get with
  | c :: d :: rest =>
    if c = mark ∧ d = mark then
      set rest
      let _ ← acceptLineEnd
      return String.ofList (← blockBody mark ((← get).length + 1))
    else return String.ofList (← lineBody mark ((← get).length + 1))
  | _ => return String.ofList (← lineBody mark ((← get).length + 1))

/-- A character of a bare key. -/
def isBareKeyChar (c : Char) : Bool :=
  c.isAlphanum || c = '_' || c = '-'

/-- Reads a key. -/
def key : Scan String := do
  match ← Scan.peek? with
  | some '\x22' => lineString doubleQuote
  | some '\x27' => lineString singleQuote
  | _ =>
    let cs ← Scan.takeWhile isBareKeyChar
    if cs.isEmpty then failure else return String.ofList cs

/-- Reads the keys behind the first of a path, at most as many as the given number. -/
def furtherKeys : Nat → Scan (List String)
  | 0 => failure
  | count + 1 => do
    skipSpaces
    if ← Scan.accept '.' then
      skipSpaces
      let k ← key
      return k :: (← furtherKeys count)
    else return []

/-- Reads a path: the keys in front of the last one, and the last one. -/
def path : Scan (List String × String) := do
  let first ← key
  let others ← furtherKeys ((← get).length + 1)
  let keys := first :: others
  return (keys.dropLast, others.getLastD first)

end GraphQuery.Toml
