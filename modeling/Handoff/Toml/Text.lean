import Handoff.Numeral
import Handoff.Toml.Value

namespace Handoff.Toml

abbrev Parser := StateT (List Char) Option

namespace Parser

variable {α : Type}

def char (c : Char) : Parser Unit := fun
  | d :: rest => if d = c then some ((), rest) else none
  | [] => none

def takeWhile (p : Char → Bool) : Parser (List Char) := fun cs =>
  some (cs.takeWhile p, cs.dropWhile p)

def endOfText : Parser Unit := fun cs => if cs.isEmpty then some ((), []) else none

def upTo (p : Parser α) : Nat → List Char → List α × List Char
  | 0, cs => ([], cs)
  | fuel + 1, cs =>
    match p cs with
    | none => ([], cs)
    | some (a, rest) =>
      let (as, last) := upTo p fuel rest
      (a :: as, last)

/-- Reads values as long as there are any. Each of them takes at least one character, so that
there are no more of them than characters. -/
def many (p : Parser α) : Parser (List α) := fun cs => some (upTo p cs.length cs)

/-- One item after the other with commas between them, up to a closing mark. `skip` reads what may
stand around an item, and `trailing` says whether a comma may follow the last one. -/
def itemsUpTo (skip : Parser Unit) (item : Parser α) (close : Char) (trailing : Bool) :
    Nat → List Char → Option (List α × List Char)
  | 0, _ => none
  | fuel + 1, cs =>
    match (do skip; let a ← item; skip; return a : Parser α) cs with
    | some (a, ',' :: rest) =>
      match skip rest with
      | some (_, c :: last) =>
        if trailing ∧ c = close then some ([a], last)
        else (itemsUpTo skip item close trailing fuel rest).map fun (as, last) => (a :: as, last)
      | _ => none
    | some (a, c :: rest) => if c = close then some ([a], rest) else none
    | _ => none

def items (skip : Parser Unit) (item : Parser α) (close : Char) (trailing : Bool) :
    Parser (List α) := fun cs =>
  match skip cs with
  | some (_, c :: rest) =>
    if c = close then some ([], rest) else itemsUpTo skip item close trailing cs.length cs
  | _ => none

end Parser

open Handoff.Toml.Parser

def isBlank (c : Char) : Bool := c == ' ' || c == '\t'

/-- What may stand in a comment: no control characters but the tab. -/
def isText (c : Char) : Bool := c == '\t' || (' ' ≤ c && c != '\x7f')

def isLetter (c : Char) : Bool := ('a' ≤ c && c ≤ 'z') || ('A' ≤ c && c ≤ 'Z')

def isKeyChar (c : Char) : Bool := isLetter c || isDigit c || c == '_' || c == '-'

def blanks : Parser Unit := do let _ ← takeWhile isBlank

def newline : Parser Unit := fun
  | '\n' :: rest => some ((), rest)
  | '\r' :: '\n' :: rest => some ((), rest)
  | _ => none

def comment : Parser Unit := do
  char '#'
  let _ ← takeWhile isText

def gap : Parser Unit := do
  let _ ← many (newline <|> (do comment; newline) <|> (do char ' ') <|> char '\t')

def lineEnd : Parser Unit := do
  blanks
  comment <|> return
  newline <|> endOfText

def scalar? (n : Nat) : Option Char := if n.isValidChar then some (Char.ofNat n) else none

def hexScalar? (digits : List Char) : Option Char :=
  if digits.all isHexDigit then scalar? (numeral 16 digits) else none

def escape : Parser Char := fun
  | 'b' :: rest => some ('\x08', rest)
  | 'f' :: rest => some ('\x0c', rest)
  | 'n' :: rest => some ('\n', rest)
  | 'r' :: rest => some ('\r', rest)
  | 't' :: rest => some ('\t', rest)
  | '"' :: rest => some ('"', rest)
  | '\\' :: rest => some ('\\', rest)
  | 'u' :: rest =>
    if rest.length < 4 then none else (hexScalar? (rest.take 4)).map fun c => (c, rest.drop 4)
  | 'U' :: rest =>
    if rest.length < 8 then none else (hexScalar? (rest.take 8)).map fun c => (c, rest.drop 8)
  | _ => none

/-- One character of a string on one line. Only between double quotes is a backslash special. -/
def lineChar (quote : Char) : Parser Char := fun
  | c :: rest =>
    if c = quote then none
    else if c = '\\' ∧ quote = '"' then escape rest
    else if isText c then some (c, rest) else none
  | [] => none

/-- A backslash at the end of a line, with all blanks and line ends after it. -/
def continuation : Parser Unit := do
  char '\\'
  blanks
  newline
  let _ ← many (newline <|> (do char ' ') <|> char '\t')

/-- A piece of a string over several lines; up to two quotes in a row belong to it. -/
def blockPiece (quote : Char) : Parser (List Char) := fun cs =>
  match cs with
  | a :: b :: c :: _ =>
    if a = quote ∧ b = quote ∧ c = quote then none else piece cs
  | _ => piece cs
where
  piece (cs : List Char) : Option (List Char × List Char) :=
    match cs with
    | c :: rest =>
      if c = quote then some ([c], rest)
      else if c = '\\' ∧ quote = '"' then
        ((do continuation; return []) <|> (do char '\\'; return [← escape]) :
          Parser (List Char)) cs
      else if isText c then some ([c], rest)
      else (do newline; return ['\n'] : Parser (List Char)) cs
    | [] => none

/-- The three closing quotes, before which up to two more belong to the string. -/
def blockEnd (quote : Char) : Parser (List Char) := do
  char quote
  char quote
  char quote
  let extra ← (do char quote; char quote; return [quote, quote]) <|>
    (do char quote; return [quote]) <|> return []
  return extra

def lineString (quote : Char) : Parser String := do
  char quote
  let cs ← many (lineChar quote)
  char quote
  return String.ofList cs

/-- A string over several lines; a line end right after the opening quotes is dropped. -/
def blockString (quote : Char) : Parser String := do
  char quote
  char quote
  char quote
  newline <|> return
  let pieces ← many (blockPiece quote)
  let last ← blockEnd quote
  return String.ofList (pieces.flatten ++ last)

def startsBlock (quote : Char) (cs : List Char) : Bool := cs.take 3 == [quote, quote, quote]

def string (quote : Char) : Parser String := fun cs =>
  if startsBlock quote cs then blockString quote cs else lineString quote cs

def simpleKey : Parser String := fun
  | '"' :: rest => lineString '"' ('"' :: rest)
  | '\'' :: rest => lineString '\'' ('\'' :: rest)
  | cs =>
    let key := cs.takeWhile isKeyChar
    if key.isEmpty then none else some (String.ofList key, cs.dropWhile isKeyChar)

/-- How deep arrays, inline tables and dotted keys may go. -/
def depthLimit : Nat := 80

def key : Parser (List String × String) := do
  let part : Parser String := do
    blanks
    let name ← simpleKey
    blanks
    return name
  let first ← part
  let rest ← many (do char '.'; part)
  if depthLimit ≤ rest.length + 1 then failure
  let names := first :: rest
  return (names.dropLast, names.getLast?.getD first)

end Handoff.Toml
