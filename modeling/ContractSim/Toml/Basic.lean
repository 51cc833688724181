namespace ContractSim.Toml

-- How a table came to be, which decides what may be added to it.
inductive TableKind where
  -- On the way to the table of a header.
  | implicit
  -- On the way of a dotted key.
  | dotted
  -- By a header of its own.
  | header
  -- Between braces.
  | inline
deriving DecidableEq, Repr

-- TOML values. Tables keep their entries in order.
inductive Value where
  | string (value : String)
  | integer (value : Int)
  -- The number itself is not kept.
  | real
  | bool (value : Bool)
  -- The date or time itself is not kept.
  | datetime
  | list (elements : List Value)
  | table (kind : TableKind) (entries : List (String × Value))
  -- Tables under one header, each with a header of its own.
  | tables (elements : List (List (String × Value)))

-- Integers go from -2^63 to 2^63 - 1.
def integerBound : Nat := 9223372036854775808

abbrev Entries := List (String × Value)

-- A line of a document with something on it.
inductive Statement where
  | header (path : List String)
  -- A header that adds a table to those with the same path.
  | element (path : List String)
  | assign (path : List String) (value : Value)

-- Changes the value under a key, which is there or added.
def update? (key : String) (change : Option Value → Option Value) : Entries → Option Entries
  | [] => do return [(key, ← change none)]
  | (other, value) :: rest =>
      if other = key then do return (other, ← change (some value)) :: rest
      else do return (other, value) :: (← update? key change rest)

-- Changes the last one of several tables.
def updateLast? (change : Entries → Option Entries) : List Entries → Option (List Entries)
  | [] => none
  | [last] => (change last).map ([·])
  | first :: rest => (updateLast? change rest).map (first :: ·)

-- Adds a value under the last key of a dotted path. Tables on the way are made as needed; tables
-- that a header or braces have made are closed. A table on the way to the table of a header, or
-- one of several tables, takes further tables, but no values.
def assign? (value : Value) : List String → Entries → Option Entries
  | [], _ => none
  | [key], entries => update? key (fun | none => some value | some _ => none) entries
  | key :: rest, entries =>
      update? key (fun
        | none => (assign? value rest []).map (.table .dotted)
        | some (.table .dotted inner) => (assign? value rest inner).map (.table .dotted)
        | some (.table .implicit inner) =>
            if rest.length < 2 then none else (assign? value rest inner).map (.table .implicit)
        | some (.tables elements) =>
            if rest.length < 2 then none
            else (updateLast? (fun inner => assign? value rest inner) elements).map .tables
        | some _ => none) entries

-- Works on the entries of the table at a path, making tables on the way as needed. Of several
-- tables under one header the last one is meant.
def within? (work : Entries → Option Entries) : List String → Entries → Option Entries
  | [], entries => work entries
  | key :: rest, entries =>
      update? key (fun
        | none => (within? work rest []).map (.table .implicit)
        | some (.table .inline _) => none
        | some (.table kind inner) => (within? work rest inner).map (.table kind)
        | some (.tables elements) =>
            (updateLast? (fun inner => within? work rest inner) elements).map .tables
        | some _ => none) entries

-- Opens the table of a header, which may not have been opened before.
def open? (key : String) : Entries → Option Entries :=
  update? key fun
    | none => some (.table .header [])
    | some (.table .implicit inner) => some (.table .header inner)
    | some _ => none

-- Opens one more of several tables.
def openElement? (key : String) : Entries → Option Entries :=
  update? key fun
    | none => some (.tables [[]])
    | some (.tables elements) => some (.tables (elements ++ [[]]))
    | some _ => none

-- Opens the table at a path.
def openAt? (opening : String → Entries → Option Entries) (path : List String)
    (entries : Entries) : Option Entries := do
  within? (opening (← path.getLast?)) path.dropLast entries

-- Takes in a statement. The path is that of the table that is open.
def addStatement? (state : Entries × List String) : Statement → Option (Entries × List String)
  | .header path => (openAt? open? path state.1).map (·, path)
  | .element path => (openAt? openElement? path state.1).map (·, path)
  | .assign path value => (within? (assign? value path) state.2 state.1).map (·, state.2)

-- The entries of a document.
def ofStatements? (statements : List Statement) : Option Entries :=
  (statements.foldlM addStatement? ([], [])).map Prod.fst

end ContractSim.Toml
