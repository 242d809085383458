import WaveGen.Instrument
import WaveGen.Proofs.Text

/-!
# Normal forms

An instrument brings every command to a normal form before it looks at it. Blanks at the ends and
the case of letters are lost there, so trimming and raising a command beforehand makes no
difference (`Instrument.process_upper_trim`), and a blank command does nothing.
-/

namespace WaveGen

namespace Instrument

/-- A command that was trimmed and raised already has the normal form it had before. -/
theorem normalize_upper_trim (command : Text) :
    normalize (Text.upper (Text.trim command)) = normalize command := by
  rw [normalize, Text.trim_upper, Text.trim_trim, Text.upper_upper, normalize]

theorem process_upper_trim (i : Instrument) (command : Text) :
    i.process (Text.upper (Text.trim command)) = i.process command := by
  rw [process, normalize_upper_trim, process]

/-- A blank command changes nothing and gets no reply. -/
theorem process_blank (i : Instrument) {command : Text} (h : Text.trim command = []) :
    i.process command = (i, []) := by
  have hnormal : normalize command = [] := by rw [normalize, h]; rfl
  rw [process, hnormal]
  rfl

end Instrument

end WaveGen
