import WaveGen.Toml.Scalar
import WaveGen.Toml.Table

/-!
# TOML documents

The format of configuration files, version 1.0: lines of keys with values, under headers that name
tables. `Toml.parse?` gives the entries of the whole document, or nothing if it breaks a rule of the
format. The format is assumed of the library that reads the file, with the rules of its version.
-/

namespace WaveGen

namespace Toml

/-! ## Values -/

/-- Takes the rest of a list off the front, behind its opening bracket. A comma may stand behind the
last item. Every item but the last uses up a comma, so the length of the text is enough of `steps`.
-/
def readItems (value : Reader Value) : Nat → Reader (List Value)
  | 0, _ => none
  | steps + 1, t =>
    let t := dropAllLines t
    match Reader.mark ']' t with
    | some rest => some ([], rest)
    | none => do
      let (v, t) ← value t
      let t := dropAllLines t
      match Reader.mark ',' t with
      | none => return ([v], ← Reader.mark ']' t)
      | some t =>
        let (more, rest) ← readItems value steps t
        return (v :: more, rest)

/-- Takes entries with commas between them off the front, up to the closing brace. Every entry but
the last uses up a comma, so the length of the text is enough of `steps`. -/
def readEntries (value : Reader Value) : Nat → Entries → Reader Entries
  | 0, _, _ => none
  | steps + 1, entries, t => do
    let ((path, key), t) ← readKey t
    let (v, t) ← value (dropBlanks (← Reader.mark '=' t))
    let entries ← insert key v path entries
    let t := dropBlanks t
    match Reader.mark ',' t with
    | none => return (entries, ← Reader.mark '\x7d' t)
    | some t => readEntries value steps entries t

/-- Takes a list or a table in braces off the front. -/
def readContainer (value : Reader Value) : Reader Value
  | '[' :: t => do
    let (items, rest) ← readItems value (t.length + 1) t
    return (.list items, rest)
  | '\x7b' :: t =>
    match Reader.mark '\x7d' (dropBlanks t) with
    | some rest => some (.table .inline [], rest)
    | none => do
      let (entries, rest) ← readEntries value (t.length + 1) [] t
      return (.table .inline entries, rest)
  | _ => none

/-- Takes a string or another scalar off the front. -/
def readAtom : Reader Value := fun t =>
  match readString t with
  | some (s, rest) => some (.text s, rest)
  | none => readScalar t

/-- Takes a value off the front. Lists and tables lie within each other at most `levels` deep. -/
def readValue : Nat → Reader Value
  | 0 => readAtom
  | levels + 1 => firstOf [readContainer (readValue levels), readAtom]

/-! ## Lines -/

/-- The part of a document that was read. -/
structure Document where
  /-- The entries of the whole document. -/
  entries : Entries
  /-- The path to the table that lines of keys and values add to. -/
  header : List Text

/-- Takes a line with a key and a value off the front. -/
def readPair (d : Document) (t : Text) : Option (Document × Text) := do
  let ((path, key), t) ← readKey t
  let (v, t) ← readValue (depthLimit - 1) (dropBlanks (← Reader.mark '=' t))
  let rest ← readLineRest t
  return ({ d with entries := ← within (insert key v path) d.header d.entries }, rest)

/-- Takes a header off the front, behind its opening bracket. -/
def readHeader (d : Document) (t : Text) : Option (Document × Text) := do
  let ((path, key), t) ← readKey t
  let rest ← readLineRest (← Reader.mark ']' t)
  return (⟨← within (define key) path d.entries, path ++ [key]⟩, rest)

/-- Takes a header of one of several tables off the front, behind its opening brackets. -/
def readTablesHeader (d : Document) (t : Text) : Option (Document × Text) := do
  let ((path, key), t) ← readKey t
  let rest ← readLineRest (← Reader.word "]]".toList t)
  return (⟨← within (append key) path d.entries, path ++ [key]⟩, rest)

/-- Takes a line off the front, without blanks before it. -/
def readLine (d : Document) (t : Text) : Option (Document × Text) :=
  match t with
  | '[' :: '[' :: rest => readTablesHeader d rest
  | '[' :: rest => readHeader d rest
  | _ =>
    match readLineRest t with
    | some rest => some (d, rest)
    | none => readPair d t

/-- Reads lines up to the end. Every line uses up a character, so the length of the text is enough
of `steps`. -/
def readDocument : Nat → Document → Text → Option Document
  | 0, d, t => if t.isEmpty then some d else none
  | steps + 1, d, t =>
    match dropBlanks t with
    | [] => some d
    | line => do
      let (d, rest) ← readLine d line
      readDocument steps d rest

/-- The entries of a document. A byte order mark at its start is passed over. -/
def parse? (t : Text) : Option Entries :=
  let t :=
    match t with
    | '\ufeff' :: rest => rest
    | _ => t
  (readDocument t.length ⟨[], []⟩ t).map (·.entries)

end Toml

end WaveGen
