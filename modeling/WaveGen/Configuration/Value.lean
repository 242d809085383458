import WaveGen.Binary64
import WaveGen.Text

/-!
# Values

The values that configuration files and environment variables hold.
-/

namespace WaveGen

/-- How a table came about, which decides what may still be added to it. -/
inductive TableOrigin where
  /-- By a header of its own. -/
  | header
  /-- On the way to a table that a header names. -/
  | implied
  /-- On the way to a key with dots. -/
  | dotted
  /-- As a value, which is complete as it stands. -/
  | inline
deriving DecidableEq, Repr

/-- A value of a configuration. -/
inductive Value where
  | text (t : Text)
  | whole (n : Int)
  /-- A number that was written with a fraction or an exponent, or by name. -/
  | real (x : Binary64)
  | flag (b : Bool)
  | list (items : List Value)
  /-- A table; of two entries with one key, the first is the one that counts. -/
  | table (origin : TableOrigin) (entries : List (Text × Value))
  /-- Several tables under one header, the latest first. -/
  | tables (items : List (List (Text × Value)))
deriving Repr

end WaveGen
