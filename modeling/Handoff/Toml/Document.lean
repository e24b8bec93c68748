import Handoff.Toml.Number

namespace Handoff.Toml

open Handoff.Toml.Parser

def isWordChar (c : Char) : Bool :=
  isLetter c || isDigit c || c == '+' || c == '-' || c == '_' || c == '.' || c == ':'

def word? (cs : List Char) : Option Value :=
  if cs = ['t', 'r', 'u', 'e'] then some (.boolean true)
  else if cs = ['f', 'a', 'l', 's', 'e'] then some (.boolean false)
  else if isDate cs then some .date
  else (float? cs).map .float <|> (integer? cs).map .integer

def word : Parser Value := fun cs =>
  let first := cs.takeWhile isWordChar
  let rest := cs.dropWhile isWordChar
  match date? first, rest with
  | some [], ' ' :: later =>
    if isTimeWithOffset (later.takeWhile isWordChar) then
      some (.date, later.dropWhile isWordChar)
    else some (.date, rest)
  | _, _ => (word? first).map fun v => (v, rest)

def array (item : Parser Value) : Parser Value := do
  char '['
  return .array (← items gap item ']' true)

def assignment (value : Parser Value) : Parser (List String × String × Value) := do
  let (path, name) ← key
  char '='
  blanks
  return (path, name, ← value)

def inlineTable (value : Parser Value) : Parser Value := do
  char '\x7b'
  let assignments ← items blanks (assignment value) '\x7d' false
  match assignments.foldlM (fun t (path, name, v) => Entries.insert t path name v) [] with
  | some entries => return .table .inline entries
  | none => failure

/-- A value in which arrays and inline tables nest up to a given depth. -/
def value : Nat → Parser Value
  | 0 => scalar
  | depth + 1 => fun cs =>
    match cs with
    | '[' :: _ => array (value depth) cs
    | '\x7b' :: _ => inlineTable (value depth) cs
    | _ => scalar cs
where
  scalar : Parser Value := fun
    | '"' :: rest => (do return .string (← string '"') : Parser Value) ('"' :: rest)
    | '\'' :: rest => (do return .string (← string '\'') : Parser Value) ('\'' :: rest)
    | cs => word cs

def header : Parser Statement := do
  char '['
  let double ← (do char '['; return true) <|> return false
  let (path, name) ← key
  char ']'
  if double then
    char ']'
    return .doubleHeader path name
  else return .header path name

def statement : Parser Statement := fun
  | '[' :: rest => header ('[' :: rest)
  | cs => (do
    let (path, name, v) ← assignment (value (depthLimit - 1))
    return .assign path name v : Parser Statement) cs

def line : Parser (Option Statement) := fun cs =>
  if cs.isEmpty then none
  else (do
    blanks
    (do lineEnd; return none) <|> (do
      let s ← statement
      lineEnd
      return some s) : Parser (Option Statement)) cs

/-- The tree of a text, if the text is well formed. A byte order mark at its front is skipped. -/
def parse? (text : String) : Option Entries := do
  let cs := match text.toList with
    | '\ufeff' :: cs => cs
    | cs => cs
  let (statements, _) ← (do
    let lines ← many line
    endOfText
    return lines.filterMap id : Parser (List Statement)) cs
  build statements

end Handoff.Toml
