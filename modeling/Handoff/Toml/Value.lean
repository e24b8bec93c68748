import Handoff.Binary.Basic

namespace Handoff.Toml

/-- How a table came to be, which decides what may still be added to it. -/
inductive Origin
  | header
  | parent
  | dotted
  | inline
deriving DecidableEq, Repr

inductive Value
  | string (text : String)
  | integer (n : Int)
  | float (x : Binary64)
  | boolean (b : Bool)
  | date
  | array (items : List Value)
  | table (origin : Origin) (entries : List (String × Value))
  /-- Tables that were added one by one under a double header. -/
  | tables (items : List (List (String × Value)))

abbrev Entries := List (String × Value)

namespace Entries

def replace (t : Entries) (key : String) (v : Value) : Entries :=
  t.map fun e => if e.1 = key then (key, v) else e

/-- Edits the table that a path leads to, and makes the tables that are missing on the way.
A path through an array of tables goes on in the last of them; a dotted key may not reopen a
table that has a header. -/
def update (edit : Origin → Entries → Option Entries) (dotted : Bool) :
    List String → Origin → Entries → Option Entries
  | [], origin, t => edit origin t
  | key :: path, _, t =>
    match t.lookup key with
    | none => do
      let origin := if dotted then .dotted else .parent
      let sub ← update edit dotted path origin []
      return t ++ [(key, .table origin sub)]
    | some (.table origin sub) => do
      if origin = .inline ∨ (dotted ∧ origin = .header) then none
      let sub ← update edit dotted path origin sub
      return t.replace key (.table origin sub)
    | some (.tables subs) => do
      let last ← update edit dotted path .header (subs.getLast?.getD [])
      return t.replace key (.tables (subs.dropLast ++ [last]))
    | some _ => none

/-- Adds a value under a dotted key. A key is given once, and what a dotted key extends was made
by dotted keys. -/
def insert (t : Entries) (path : List String) (key : String) (v : Value) : Option Entries :=
  t.update (fun origin sub =>
    if (path ≠ [] ∧ origin ≠ .dotted) ∨ (sub.lookup key).isSome then none
    else some (sub ++ [(key, v)])) true path .header

/-- What a header of this path starts from. Only a table that was a parent so far may get one. -/
def opened? (t : Entries) (path : List String) (key : String) : Option Entries := do
  let t ← parentOf t path
  match t.lookup key with
  | none => return []
  | some (.table .parent sub) => return sub
  | some _ => none
where
  parentOf (t : Entries) : List String → Option Entries
    | [] => some t
    | key :: path =>
      match t.lookup key with
      | none => some []
      | some (.table origin sub) => if origin = .inline then none else parentOf sub path
      | some (.tables subs) => parentOf (subs.getLast?.getD []) path
      | some _ => none

def close (t : Entries) (path : List String) (key : String) (sub : Entries) : Option Entries :=
  t.update (fun _ parent =>
    if (parent.lookup key).isSome then some (parent.replace key (.table .header sub))
    else some (parent ++ [(key, .table .header sub)])) false path .header

def append (t : Entries) (path : List String) (key : String) (sub : Entries) : Option Entries :=
  t.update (fun _ parent =>
    match parent.lookup key with
    | none => some (parent ++ [(key, .tables [sub])])
    | some (.tables subs) => some (parent.replace key (.tables (subs ++ [sub])))
    | some _ => none) false path .header

end Entries

/-- One line of a document that says something; a key is a path and a last name. -/
inductive Statement
  | assign (path : List String) (key : String) (v : Value)
  | header (path : List String) (key : String)
  | doubleHeader (path : List String) (key : String)

inductive OpenTable
  | root
  | header (path : List String) (key : String)
  | doubleHeader (path : List String) (key : String)

structure Draft where
  done : Entries
  current : OpenTable
  entries : Entries

namespace Draft

def new : Draft := ⟨[], .root, []⟩

def finish (d : Draft) : Option Entries :=
  match d.current with
  | .root => some d.entries
  | .header path key => d.done.close path key d.entries
  | .doubleHeader path key => d.done.append path key d.entries

def step (d : Draft) : Statement → Option Draft
  | .assign path key v => do return { d with entries := ← d.entries.insert path key v }
  | .header path key => do
    let done ← d.finish
    return ⟨done, .header path key, ← done.opened? path key⟩
  | .doubleHeader path key => do
    let done ← d.finish
    -- an array has to be possible here before its table is read
    let _ ← done.append path key []
    return ⟨done, .doubleHeader path key, []⟩

end Draft

def build (statements : List Statement) : Option Entries := do
  (← statements.foldlM Draft.step .new).finish

end Handoff.Toml
