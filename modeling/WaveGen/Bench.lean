import WaveGen.Instrument

/-!
# Benches (specification §5)

A bench is a set of instruments that several users drive at once. Each user holds handles
(`SharedEngine`, specification §10.1); a handle belongs to one instrument for good, and several
handles may belong to the same one. Whatever is sent through any of them acts on the one instrument
they share.
-/

namespace WaveGen

/-- Instruments and the handles on them. -/
structure Bench where
  /-- The instruments, in the order in which they were added. -/
  instruments : List Instrument
  /-- The place of the instrument that each handle belongs to. -/
  handles : List Nat
deriving DecidableEq, Repr

namespace Bench

/-- A bench without instruments. -/
def empty : Bench := ⟨[], []⟩

/-- The place of the instrument that a handle belongs to, if the handle was made. -/
def place? (b : Bench) (handle : Nat) : Option Nat := b.handles[handle]?

/-- The instrument that a handle belongs to, if the handle was made. -/
def instrument? (b : Bench) (handle : Nat) : Option Instrument :=
  (b.place? handle).bind (b.instruments[·]?)

/-- Adds an instrument, and a first handle on it: the bench and the handle's number. -/
def add (b : Bench) (i : Instrument) : Bench × Nat :=
  (⟨b.instruments ++ [i], b.handles ++ [b.instruments.length]⟩, b.handles.length)

/-- Adds an instrument of the model with this name. -/
def addModel (b : Bench) (id : Text) : Except ModelFault (Bench × Nat) :=
  (Instrument.ofModelName id).map b.add

/-- Makes another handle on the instrument of an existing one. -/
def clone? (b : Bench) (handle : Nat) : Option (Bench × Nat) :=
  (b.place? handle).map fun place =>
    (⟨b.instruments, b.handles ++ [place]⟩, b.handles.length)

/-- Processes a command through a handle: the bench and the reply. -/
def process? (b : Bench) (handle : Nat) (command : Text) : Option (Bench × Text) := do
  let place ← b.place? handle
  let i ← b.instruments[place]?
  let (changed, reply) := i.process command
  return ({ b with instruments := b.instruments.set place changed }, reply)

/-- The model of the instrument that a handle belongs to. -/
def model? (b : Bench) (handle : Nat) : Option Model := (b.instrument? handle).map (·.model)

end Bench

end WaveGen
