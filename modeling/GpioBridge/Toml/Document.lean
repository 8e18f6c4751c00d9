import GpioBridge.Toml.Lexeme

namespace GpioBridge.Toml

-- How a table came to be, which decides what may be added to it: a header defines it, the path of a
-- longer header only implies it, and a dotted key opens it for dotted keys beside it.
inductive Origin where
  | defined
  | implied
  | dotted
  deriving DecidableEq, Repr

inductive Node where
  -- A value, closed to additions.
  | leaf (value : Value)
  | table (origin : Origin) (entries : List (String × Node))
  -- An array of tables, each opened by a header of its own.
  | tables (elements : List (List (String × Node)))

abbrev Entries := List (String × Node)

namespace Node

mutual

def value : Node → Value
  | leaf value => value
  | table _ entries => .table (entryValues entries)
  | tables elements => .array (elementValues elements)

def entryValues : List (String × Node) → List (String × Value)
  | [] => []
  | (key, node) :: rest => (key, value node) :: entryValues rest

def elementValues : List (List (String × Node)) → List Value
  | [] => []
  | entries :: rest => .table (entryValues entries) :: elementValues rest

end

end Node

namespace Entries

def replace (key : String) (node : Node) (entries : Entries) : Entries :=
  entries.map fun entry => if entry.1 = key then (key, node) else entry

-- Changes the table at the end of a path, opening the tables on the way that are not there yet. In
-- an array of tables the way leads through the last one. A path of dotted keys may not enter a
-- table that a header defined.
def within (dotted : Bool) (change : Origin → Entries → Option Entries) :
    (path : List String) → Origin → Entries → Option Entries
  | [], origin, entries => change origin entries
  | key :: path, _, entries =>
    match entries.lookup key with
    | none => do
      let origin := if dotted then Origin.dotted else .implied
      let inner ← within dotted change path origin []
      return entries ++ [(key, .table origin inner)]
    | some (.leaf _) => none
    | some (.tables elements) => do
      let inner ← within dotted change path .defined (← elements.getLast?)
      return replace key (.tables (elements.dropLast ++ [inner])) entries
    | some (.table origin inner) =>
      if dotted && origin == .defined then none
      else do
        let inner ← within dotted change path origin inner
        return replace key (.table origin inner) entries

-- Defines the table of a header; one that was only implied may still be defined.
def define (key : String) (entries : Entries) : Option Entries :=
  match entries.lookup key with
  | none => some (entries ++ [(key, .table .defined [])])
  | some (.table .implied inner) => some (replace key (.table .defined inner) entries)
  | some _ => none

def extend (key : String) (entries : Entries) : Option Entries :=
  match entries.lookup key with
  | none => some (entries ++ [(key, .tables [[]])])
  | some (.tables elements) => some (replace key (.tables (elements ++ [[]])) entries)
  | some _ => none

def add (key : String) (value : Value) (entries : Entries) : Option Entries :=
  if (entries.lookup key).isSome then none else some (entries ++ [(key, .leaf value)])

-- Adds a value under a dotted key; the table it ends in must have been opened by dotted keys.
def assign (path : List String) (value : Value) (origin : Origin) (entries : Entries) :
    Option Entries := do
  let last ← path.getLast?
  let parents := path.dropLast
  let change := fun origin entries =>
    if (origin == .dotted) == parents.isEmpty then none else add last value entries
  within true change parents origin entries

end Entries

mutual

def value : (depth : Nat) → Chars → Option (Value × Chars)
  | depth, '[' :: rest =>
    match depth with
    | 0 => none
    | depth + 1 => items depth (rest.length + 1) (skipSpace rest) []
  | depth, '\x7b' :: rest =>
    match depth with
    | 0 => none
    | depth + 1 => do
      let (entries, rest) ← inlineEntries depth (rest.length + 1) (skipSpace rest) []
      return (.table (Node.entryValues entries), rest)
  | _, cs =>
    match quotedText true cs with
    | some (s, rest) => some (.text s, rest)
    | none => scalar cs
termination_by depth => (depth, 0)

def items (depth : Nat) : (most : Nat) → Chars → (read : List Value) → Option (Value × Chars)
  | _, ']' :: rest, read => some (.array read.reverse, rest)
  | 0, _, _ => none
  | most + 1, cs, read => do
    let (item, rest) ← value depth cs
    match skipSpace rest with
    | ',' :: rest => items depth most (skipSpace rest) (item :: read)
    | ']' :: rest => return (.array (item :: read).reverse, rest)
    | _ => none
termination_by most => (depth, most + 1)

def inlineEntries (depth : Nat) : (most : Nat) → Chars → Entries → Option (Entries × Chars)
  | _, '\x7d' :: rest, entries => some (entries, rest)
  | 0, _, _ => none
  | most + 1, cs, entries => do
    let (path, rest) ← key cs
    let '=' :: rest := skipSpace rest | none
    let (v, rest) ← value depth (skipSpace rest)
    let entries ← Entries.assign path v .defined entries
    match skipSpace rest with
    | ',' :: rest => inlineEntries depth most (skipSpace rest) entries
    | '\x7d' :: rest => return (entries, rest)
    | _ => none
termination_by most => (depth, most + 1)

end

structure Draft where
  root : Entries := []
  header : List String := []

def Draft.opened (change : String → Entries → Option Entries) (path : List String)
    (draft : Draft) : Option Draft := do
  let last ← path.getLast?
  let root ← Entries.within false (fun _ => change last) path.dropLast .defined draft.root
  return { root, header := path }

def Draft.assigned (path : List String) (v : Value) (draft : Draft) : Option Draft := do
  let root ← Entries.within false (Entries.assign path v) draft.header .defined draft.root
  return { draft with root }

def expression (cs : Chars) (draft : Draft) : Option (Draft × Chars) :=
  match skipBlanks cs with
  | '[' :: '[' :: rest => do
    let (path, rest) ← key rest
    let ']' :: ']' :: rest := rest | none
    return (← draft.opened Entries.extend path, rest)
  | '[' :: rest => do
    let (path, rest) ← key rest
    let ']' :: rest := rest | none
    return (← draft.opened Entries.define path, rest)
  | [] => some (draft, [])
  | c :: rest =>
    if c = '#' || c = '\n' || c = '\r' then some (draft, c :: rest)
    else do
      let (path, rest) ← key (c :: rest)
      let '=' :: rest := rest | none
      let (v, rest) ← value maxDepth (skipBlanks rest)
      return (← draft.assigned path v, rest)

def lines : (most : Nat) → Chars → Draft → Option Draft
  | _, [], draft => some draft
  | 0, _, _ => none
  | most + 1, cs, draft => do
    let (draft, rest) ← expression cs draft
    lines most (← lineEnd rest) draft

-- The entries of a document, or nothing if the text is not one. A byte order mark in front is
-- passed over.
def parse? (text : String) : Option (List (String × Value)) :=
  let cs := match text.toList with
    | '\ufeff' :: rest => rest
    | cs => cs
  (lines (cs.length + 1) cs {}).map fun draft => Node.entryValues draft.root

end GpioBridge.Toml
