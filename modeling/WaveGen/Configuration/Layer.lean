import WaveGen.Configuration
import WaveGen.Configuration.Value

/-!
# Layers of a configuration (specification §10.4)

A configuration is put together from layers: what is built in, what a file says, and what the
environment says. A layer has sections, and the sections have fields. The layers are read and put
together by a library, whose behaviour is assumed here: what a section may look like
(`Section.ofValue`, `Section.field?`), and how one layer lies upon another (`Layer.above`). Loading
takes the latter as a parameter.

* `Section.above`, `Layer.above` — one layer upon another. Where both give the fields of a section,
  the fields are put together; otherwise the upper one hides the lower one.
* `Configuration.ofLayer?` — the configuration that a layer describes. A field that the layer leaves
  out has the value that is built in; a value of the wrong kind makes the layer useless.
-/

namespace WaveGen

/-! ## Sections -/

/-- What a layer says of a section. -/
inductive Section where
  /-- The fields by name. Of two with one name, the first is the one that counts. -/
  | fields (entries : List (Text × Value))
  /-- The fields by their order. -/
  | items (values : List Value)
  /-- Something that cannot be a section. -/
  | unfit
deriving Repr

namespace Section

/-- What a value says of a section. -/
def ofValue : Value → Section
  | .table _ entries => .fields entries
  | .list values => .items values
  | _ => .unfit

/-- A section of one layer upon the same section of another. -/
def above (upper lower : Section) : Section :=
  match upper, lower with
  | .fields u, .fields l => .fields (u ++ l)
  | _, _ => upper

/-- What the section says of the field with this name and this place in the order. It fails if it
can have no such field. -/
def field? (s : Section) (place : Nat) (name : Text) : Option (Option Value) :=
  match s with
  | .fields entries => some (entries.lookup name)
  | .items values => some values[place]?
  | .unfit => none

end Section

/-! ## Layers -/

/-- A layer says something of each section, or nothing. -/
abbrev Layer := Text → Option Section

namespace Layer

/-- The layer that says nothing. -/
def empty : Layer := fun _ => none

/-- The layer of a table. -/
def ofTable (entries : List (Text × Value)) : Layer := fun name =>
  (entries.lookup name).map Section.ofValue

/-- What is said of a section, upon what was said of it before. -/
def aboveSection : Option Section → Option Section → Option Section
  | none, lower => lower
  | some upper, none => some upper
  | some upper, some lower => some (upper.above lower)

/-- A layer upon another. -/
def above (upper lower : Layer) : Layer := fun name => aboveSection (upper name) (lower name)

end Layer

/-! ## Configurations -/

namespace Value

/-- The text of a value that is a text. -/
def text? : Value → Option Text
  | .text t => some t
  | _ => none

/-- The number of a value that is a whole number from 0 to below `bound`. -/
def below? (bound : Nat) : Value → Option Nat
  | .whole n => if 0 ≤ n ∧ n < bound then some n.toNat else none
  | _ => none

/-- The number of a value, as a word of 16 bits. -/
def uint16? (v : Value) : Option UInt16 := (v.below? UInt16.size).map UInt16.ofNat

/-- The number of a value, as a word of 64 bits. -/
def uint64? (v : Value) : Option UInt64 := (v.below? UInt64.size).map UInt64.ofNat

end Value

namespace Configuration

/-- Reads a field of a section: its built-in value if the section leaves it out, and nothing if its
value is of the wrong kind. -/
def readField {α : Type} (s : Section) (place : Nat) (name : String) (builtIn : α)
    (read : Value → Option α) : Option α :=
  match s.field? place name.toList with
  | none => none
  | some none => some builtIn
  | some (some value) => read value

/-- The section of a layer; one without fields if the layer says nothing of it. -/
def sectionOf (l : Layer) (name : String) : Section := (l name.toList).getD (.fields [])

/-- The configuration that a layer describes. -/
def ofLayer? (l : Layer) : Option Configuration := do
  let application := sectionOf l "application"
  let server := sectionOf l "server"
  let instrument := sectionOf l "instrument"
  return {
    name := ← readField application 0 "name" default.name Value.text?
    logLevel := ← readField application 1 "log_level" default.logLevel Value.text?
    logFormat := ← readField application 2 "log_format" default.logFormat Value.text?
    bindAddress := ← readField server 0 "bind_address" default.bindAddress Value.text?
    port := ← readField server 1 "port" default.port Value.uint16?
    bindRetry := ← readField server 2 "bind_retry_ms" default.bindRetry Value.uint64?
    lineLimit := ← readField server 3 "max_line_bytes" default.lineLimit Value.uint64?
    model := ← readField instrument 0 "model" default.model Value.text? }

end Configuration

end WaveGen
