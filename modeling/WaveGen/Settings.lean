import WaveGen.Text

/-!
# Settings (specification §3)

A `Settings` is an ordered store of texts under a fixed set of keys: those of the defaults it was
built from. A write to a key that is not there is refused. Should the defaults name a key twice, the
first entry is the one that reads and writes see.
-/

namespace WaveGen

/-- An ordered store of texts with a fixed set of keys. -/
structure Settings where
  /-- The keys with their present values, in the order of the defaults. -/
  entries : List (Text × Text)
deriving DecidableEq, Repr

namespace Settings

/-- The store that holds the defaults. -/
def ofDefaults (defaults : List (Text × Text)) : Settings := ⟨defaults⟩

/-- The keys in their order. -/
def keys (s : Settings) : List Text := s.entries.map Prod.fst

/-- The value of a key, if the store has the key. -/
def get? (s : Settings) (key : Text) : Option Text := s.entries.lookup key

/-- The value of a key for display; empty if the store does not have the key. -/
def value (s : Settings) (key : Text) : Text := (s.get? key).getD []

/-- Whether the store has the key. -/
def contains (s : Settings) (key : Text) : Bool := s.keys.contains key

/-- Replaces the value of the first entry with this key; nothing if there is no such entry. -/
def replace? (key value : Text) : List (Text × Text) → Option (List (Text × Text))
  | [] => none
  | entry :: rest =>
    if entry.1 = key then some ((key, value) :: rest)
    else (replace? key value rest).map (entry :: ·)

/-- The store after a write; nothing if it does not have the key. -/
def set? (s : Settings) (key value : Text) : Option Settings :=
  (replace? key value s.entries).map .mk

/-- The store after a write; the same store if it does not have the key. -/
def set (s : Settings) (key value : Text) : Settings := (s.set? key value).getD s

/-- The store after several writes, one after the other. -/
def setAll (s : Settings) (writes : List (Text × Text)) : Settings :=
  writes.foldl (fun s (key, value) => s.set key value) s

/-- The keys whose value differs between two stores, with the value that the second one has. -/
def changes (old new : Settings) : List (Text × Text) :=
  new.entries.filter fun (key, value) => old.get? key != some value

end Settings

end WaveGen
