import WaveGen.Configuration.Value

/-!
# Wrapped values

A file may wrap a value into a table, under a reserved key: the table then stands for that value,
whatever else it holds. A second reserved key is kept for marks that no file can give, so a table
with that key spoils the file. Both keys are reserved at every depth, except among the keys of the
file itself. All of this is assumed behaviour of the library that reads the file.

* `Value.unwrap?` — a value with all that is wrapped inside it taken out.
* `Value.unwrapEntries?` — the same for the entries of a file.
-/

namespace WaveGen

namespace Value

/-- The key under which a table wraps a value. -/
def wrappedKey : Text := "___figment_value_value".toList

/-- The key of marks, which no file can give. -/
def markKey : Text := "___figment_value_id".toList

/-- What a table with these entries stands for, once what is wrapped inside them was taken out. -/
def ofUnwrapped (origin : TableOrigin) (entries : List (Text × Value)) : Option Value :=
  if (entries.lookup markKey).isSome then none
  else
    match entries.lookup wrappedKey with
    | some v => some v
    | none => some (.table origin entries)

mutual

/-- A value with all that is wrapped inside it taken out; nothing if a mark is in it. Several tables
under one header become a list. -/
def unwrap? : Value → Option Value
  | .list items => (unwrapAll? items).map .list
  | .table origin entries => do ofUnwrapped origin (← unwrapEntries? entries)
  | .tables each => (unwrapTables? each).map fun items => .list items.reverse
  | v => some v

/-- Several values, each with all that is wrapped inside it taken out. -/
def unwrapAll? : List Value → Option (List Value)
  | [] => some []
  | v :: rest => do return (← unwrap? v) :: (← unwrapAll? rest)

/-- Entries whose values have all that is wrapped inside them taken out. -/
def unwrapEntries? : List (Text × Value) → Option (List (Text × Value))
  | [] => some []
  | (key, v) :: rest => do return (key, ← unwrap? v) :: (← unwrapEntries? rest)

/-- Several tables under one header, each with all that is wrapped inside it taken out. -/
def unwrapTables? : List (List (Text × Value)) → Option (List Value)
  | [] => some []
  | entries :: rest => do
    let v ← ofUnwrapped .header (← unwrapEntries? entries)
    return v :: (← unwrapTables? rest)

end

end Value

end WaveGen
