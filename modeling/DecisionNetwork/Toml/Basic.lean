import DecisionNetwork.Number.Binary64

/-!
Contract: TOML documents as trees, and the rules by which tables grow.

Owns:
- `Toml`, where a table knows how it came to be;
- `Toml.within?`, which goes down a path and changes the table at its end;
- `addPair?`, `openTable?` and `openRow?`, the effects of a pair, a table header and a header of an
  array of tables.

A table is defined once: by a header, by dotted keys or inline. A table that headers only passed
through may still get a header of its own; an inline table is closed.
-/

namespace DecisionNetwork

/-- How a table came to be. -/
inductive TableOrigin where
  | inlineTable
  | header
  | passedThrough
  | dotted
deriving DecidableEq, Repr

inductive Toml where
  | string (text : String)
  | integer (integer : Int)
  | float (double : Binary64)
  | boolean (flag : Bool)
  | datetime
  | array (items : List Toml)
  | table (origin : TableOrigin) (entries : List (String × Toml))
  | tables (rows : List Toml)
deriving Repr, Inhabited

namespace Toml

abbrev Entries := List (String × Toml)

/-- The entries with a key bound; a key that is bound already keeps its place. -/
def setEntry (entries : Entries) (key : String) (item : Toml) : Entries :=
  if entries.any fun entry => entry.1 == key then
    entries.map fun entry => if entry.1 == key then (key, item) else entry
  else entries ++ [(key, item)]

/-- Whether a path of the given kind may go through a table. -/
def isPassable (isDotted : Bool) : TableOrigin → Bool
  | .inlineTable => false
  | .header => !isDotted
  | .passedThrough | .dotted => true

/-- Changes the table at the end of a path. Missing tables on the way are created, and of an array
of tables the last one is meant. The change sees how the table came to be. -/
def within? (isDotted : Bool) (change : TableOrigin → Entries → Option Entries) :
    List String → TableOrigin → Entries → Option Entries
  | [], origin, entries => change origin entries
  | key :: path, _, entries => do
    let next ← match entries.lookup key with
      | none =>
        let origin : TableOrigin := if isDotted then .dotted else .passedThrough
        (within? isDotted change path origin []).map (Toml.table origin)
      | some (.table origin inner) =>
        if isPassable isDotted origin then
          (within? isDotted change path origin inner).map (Toml.table origin)
        else none
      | some (.tables rows) =>
        match rows.getLast? with
        | some (.table origin inner) =>
          (within? isDotted change path origin inner).map fun entries =>
            .tables (rows.dropLast ++ [.table origin entries])
        | _ => none
      | some _ => none
    return setEntry entries key next

/-- Binds a key that is not bound yet. -/
def bindNew? (key : String) (item : Toml) (entries : Entries) : Option Entries :=
  if (entries.lookup key).isSome then none else some (entries ++ [(key, item)])

/-- Adds a pair whose key is dotted or not. A dotted key ends in a table made by dotted keys. -/
def addPair? (path : List String) (key : String) (item : Toml) (origin : TableOrigin)
    (entries : Entries) : Option Entries :=
  within? true
    (fun reached entries =>
      if !path.isEmpty && reached != .dotted then none else bindNew? key item entries)
    path origin entries

/-- Opens the table of a header. -/
def openTable? (path : List String) (key : String) (entries : Entries) : Option Entries :=
  within? false
    (fun _ entries =>
      match entries.lookup key with
      | none => some (entries ++ [(key, .table .header [])])
      | some (.table .passedThrough inner) => some (setEntry entries key (.table .header inner))
      | some _ => none)
    path .header entries

/-- Opens one more table of an array of tables. -/
def openRow? (path : List String) (key : String) (entries : Entries) : Option Entries :=
  within? false
    (fun _ entries =>
      match entries.lookup key with
      | none => some (entries ++ [(key, .tables [.table .header []])])
      | some (.tables rows) => some (setEntry entries key (.tables (rows ++ [.table .header []])))
      | some _ => none)
    path .header entries

/-- An inline table of pairs. -/
def ofPairs? (pairs : List (List String × String × Toml)) : Option Toml :=
  (pairs.foldlM (fun entries pair => addPair? pair.1 pair.2.1 pair.2.2 .inlineTable entries)
    []).map (.table .inlineTable)

end Toml

end DecisionNetwork
