import WaveGen.Text

/-!
# UTF-8

Texts travel as bytes. `Utf8.decode?` accepts exactly the well-formed sequences (no overlong forms,
no surrogates), and `Utf8.encode` writes them; what was written reads back (`decode?_encode`).
-/

namespace WaveGen

/-- A sequence of bytes, as it travels on a connection. -/
abbrev Bytes := List UInt8

namespace Utf8

/-- The UTF-8 bytes of a text. -/
def encode (t : Text) : Bytes := t.flatMap String.utf8EncodeChar

/-- The text that the bytes encode; nothing if they are not well-formed UTF-8. -/
def decode? (bytes : Bytes) : Option Text := bytes.toByteArray.utf8Decode?.map (·.toList)

/-- What was written reads back. -/
theorem decode?_encode (t : Text) : decode? (encode t) = some t := by
  have h : (encode t).toByteArray = t.utf8Encode := rfl
  rw [decode?, h, List.utf8Decode?_utf8Encode]
  rfl

/-- The written form of a text in two parts is the two written forms, one after the other. -/
theorem encode_append (t u : Text) : encode (t ++ u) = encode t ++ encode u :=
  List.flatMap_append

end Utf8

end WaveGen
