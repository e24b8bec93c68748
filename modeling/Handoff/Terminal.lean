/-!
What a terminal shows of a text: everything but the control sequences, which it acts on, and the
other control characters. Only white space is both a control and shown.
-/

namespace Handoff.Terminal

/-- What a terminal takes the next character for. -/
inductive Reading
  | text
  | escape
  | intermediate
  | controlSequence
  /-- Ends at a bell. -/
  | systemCommand
  | deviceStart
  | deviceParameters
  | deviceIntermediate
  /-- Ends at a string terminator. -/
  | controlString
deriving DecidableEq, Repr

def isWithin (first last c : Char) : Bool := first ≤ c && c ≤ last

def isParameter (c : Char) : Bool := isWithin '0' '?' c

def isIntermediate (c : Char) : Bool := isWithin ' ' '/' c

def isFinal (c : Char) : Bool := isWithin '@' '~' c

def isBlankControl (c : Char) : Bool := c == '\t' || c == '\n' || c == '\x0c' || c == '\r'

/-- The byte of the string terminator, which also ends a string as a part of another character. -/
def hasTerminator (c : Char) : Bool := (String.utf8EncodeChar c).contains 0x9C

namespace Reading

def ofEscape : Char → Reading
  | '[' => controlSequence
  | ']' => systemCommand
  | 'P' => deviceStart
  | 'X' => controlString
  | '^' => controlString
  | '_' => controlString
  | _ => text

/-- An escape character begins a sequence anywhere, and two characters cancel one. -/
def next (r : Reading) (c : Char) : Reading :=
  if c == '\x1b' then escape
  else if c == '\x18' || c == '\x1a' then text
  else match r with
    | text => text
    | escape =>
      if isParameter c || isFinal c then ofEscape c
      else if isIntermediate c then intermediate else escape
    | intermediate => if isParameter c || isFinal c then text else intermediate
    | controlSequence => if isFinal c then text else controlSequence
    | systemCommand => if c == '\x07' then text else systemCommand
    | deviceStart =>
      if isFinal c then controlString
      else if isParameter c then deviceParameters
      else if isIntermediate c then deviceIntermediate else deviceStart
    | deviceParameters =>
      if isFinal c || isWithin '<' '?' c then controlString
      else if isIntermediate c then deviceIntermediate else deviceParameters
    | deviceIntermediate =>
      if isFinal c || isParameter c then controlString else deviceIntermediate
    | controlString => if hasTerminator c then text else controlString

/-- White space is shown also inside a sequence, but not inside a string. -/
def shows (r : Reading) (c : Char) : Bool :=
  match r with
  | text => isBlankControl c || (' ' ≤ c && c != '\x7f')
  | escape | intermediate | controlSequence => isBlankControl c
  | _ => false

end Reading

/-- The characters that are shown. Once something was shown, all text is until the next control
character, even if white space has interrupted a sequence, which that character goes on with. -/
def shownFrom (r : Reading) (showing : Bool) : List Char → List Char
  | [] => []
  | c :: cs =>
    if showing && Reading.text.shows c then
      c :: shownFrom (if c.toNat < 0x80 then r else .text) true cs
    else if r.shows c then c :: shownFrom (r.next c) true cs
    else shownFrom (r.next c) false cs

def shown (cs : List Char) : List Char := shownFrom .text false cs

/-- The lines of a text after its first one are indented. -/
def indented (cs : List Char) : List Char :=
  cs.flatMap fun c => if c == '\n' then '\n' :: List.replicate 4 ' ' else [c]

/-- The first line of a text, without its end, which is a line feed or a carriage return and a line
feed. -/
def firstLine (cs : List Char) : List Char :=
  let line := cs.takeWhile (· != '\n')
  if line.length < cs.length && line.getLast? == some '\r' then line.dropLast else line

/-- The first line that is shown of a text that is written with a line feed after it. The line feed
does not end the line if a string that was begun takes it in. -/
def headline (text : String) : String :=
  String.ofList (firstLine (shown (indented text.toList ++ ['\n'])))

end Handoff.Terminal
