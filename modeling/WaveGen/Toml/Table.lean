import WaveGen.Configuration.Value

/-!
# Tables of TOML

A document defines tables by headers, by keys with dots, and as values. None may be defined twice,
and each way has its rule for what may be added to a table that is there already.

* `Toml.insert` — a key with dots and its value.
* `Toml.define`, `Toml.append` — a table, or one more of several tables, under a header.
* `Toml.within` — a change to the table that a header names.
-/

namespace WaveGen

namespace Toml

/-- The entries of a table. -/
abbrev Entries := List (Text × Value)

/-- Changes the value of a key, which may not be there yet. The change may be refused. -/
def update (key : Text) (change : Option Value → Option Value) : Entries → Option Entries
  | [] => (change none).map fun v => [(key, v)]
  | (k, v) :: rest =>
    if k = key then (change (some v)).map fun v => (k, v) :: rest
    else (update key change rest).map ((k, v) :: ·)

/-- Adds a key with its value, at the end of a path of keys with dots. The tables on the path are
made, or were made on the way to other tables. The last of them must have been made by keys with
dots, and the key must be new. -/
def insert (key : Text) (v : Value) : List Text → Entries → Option Entries
  | [], entries =>
    update key (fun
      | none => some v
      | some _ => none) entries
  | part :: path, entries =>
    update part (fun
      | none => (insert key v path []).map (.table .dotted)
      | some (.table .dotted inner) => (insert key v path inner).map (.table .dotted)
      | some (.table .implied inner) =>
        if path.isEmpty then none else (insert key v path inner).map (.table .implied)
      | some (.tables (last :: earlier)) =>
        if path.isEmpty then none
        else (insert key v path last).map fun changed => .tables (changed :: earlier)
      | some _ => none) entries

/-- Changes the table at the end of a path of headers. Tables on the path that are not there are
made; of several tables under one header, the latest is meant. -/
def within (change : Entries → Option Entries) : List Text → Entries → Option Entries
  | [], entries => change entries
  | part :: path, entries =>
    update part (fun
      | none => (within change path []).map (.table .implied)
      | some (.table .inline _) => none
      | some (.table origin inner) => (within change path inner).map (.table origin)
      | some (.tables (last :: earlier)) =>
        (within change path last).map fun changed => .tables (changed :: earlier)
      | some _ => none) entries

/-- Defines the table that a header names. It must be new, but for being on the way to others. -/
def define (key : Text) (entries : Entries) : Option Entries :=
  update key (fun
    | none => some (.table .header [])
    | some (.table .implied inner) => some (.table .header inner)
    | some _ => none) entries

/-- Adds one more to the tables that a header in double brackets names. -/
def append (key : Text) (entries : Entries) : Option Entries :=
  update key (fun
    | none => some (.tables [[]])
    | some (.tables items) => some (.tables ([] :: items))
    | some _ => none) entries

end Toml

end WaveGen
