import Mathlib.Data.List.Forall2
import WaveGen.Proofs.Spellings

/-!
# Long and short verbs (specification §4.2)

The table of verbs can be read in both directions: no word is on both sides of it, and none is there
twice. So it does not matter which spelling a verb had before it is respelled. Respelling goes verb
by verb, and neither the number of verbs, nor the question mark behind a verb, nor the parameters are
touched by it.

* `Verb.respell_respell` — a verb that was respelled before is respelled as it would have been.
* `Header.verbs_respell` — the verbs of a respelled command.
* `Header.respelling_laws` — the laws of `Header.shorten`, `Header.lengthen` and `Header.strip`.
-/

namespace WaveGen

namespace Verb

variable {table other : Text → Option Text}

/-- Both spellings of a verb come to its long one, with or without a question mark. -/
theorem respell_long_pairs : ∀ pair ∈ pairs, ∀ mark ∈ [[], ['?']],
    respell long? (pair.1 ++ mark) = pair.1 ++ mark ∧
      respell long? (pair.2 ++ mark) = pair.1 ++ mark := by
  decide +kernel

/-- A table by which the two spellings of a verb come to the same one. -/
def Unifies (table : Text → Option Text) : Prop :=
  ∀ pair ∈ pairs, ∀ mark ∈ [[], ['?']],
    respell table (pair.1 ++ mark) = respell table (pair.2 ++ mark)

theorem unifies_short? : Unifies short? := by
  intro pair hpair mark hmark
  obtain ⟨-, -, hlong, hshort⟩ := respell_short_pairs pair hpair mark hmark
  exact hlong.trans hshort.symm

theorem unifies_long? : Unifies long? := by
  intro pair hpair mark hmark
  obtain ⟨hlong, hshort⟩ := respell_long_pairs pair hpair mark hmark
  exact hlong.trans hshort.symm

/-- **The spelling before does not matter**: whatever table a verb was respelled by, it comes to the
same spelling. -/
theorem respell_respell (htable : Unifies table) (hother : IsTable other) (verb : Text) :
    respell table (respell other verb) = respell table verb := by
  rcases hother.respell_cases verb with hsame | ⟨stem, word, mark, hpair, hmark, hupper, hrespelled⟩
  · rw [hsame, respell_congr (Text.upper_upper verb)]
  · have hverb : respell table verb = respell table (stem ++ mark) := by
      rw [← hupper, respell_congr (Text.upper_upper verb)]
    rw [hrespelled, hverb]
    rcases hpair with hpair | hpair
    · exact (htable _ hpair mark hmark).symm
    · exact htable _ hpair mark hmark

theorem IsTable.isPlain (htable : IsTable table) :
    ∀ stem word, table stem = some word → IsPlain word := by
  intro stem word hword
  rcases htable stem word hword with hpair | hpair
  · exact (isPlain_pairs _ hpair).2
  · exact (isPlain_pairs _ hpair).1

end Verb

namespace Header

variable {table other : Text → Option Text}

/-- The verbs of a command. -/
def verbs (command : Text) : List Text := Text.split ':' (path command)

/-- Respelling a command respells its verbs one by one. -/
theorem verbs_respell (htable : Verb.IsTable table) (command : Text) :
    verbs (respell table command) = (verbs command).map (Verb.respell table) := by
  rw [verbs, path_respell htable.isPlain, respelledPath]
  apply Text.split_join
  · simpa using Text.split_ne_nil ':' (path command)
  · intro piece hpiece
    obtain ⟨verb, hverb, rfl⟩ := List.mem_map.mp hpiece
    exact Verb.not_mem_respell htable.isPlain (.inr rfl) (Text.not_mem_of_mem_split hverb)

theorem respell_respell (htable : Verb.Unifies table) (hother : Verb.IsTable other)
    (command : Text) : respell table (respell other command) = respell table command := by
  have hpath : respelledPath table (respell other command) = respelledPath table command := by
    rw [respelledPath, ← verbs, verbs_respell hother, List.map_map, respelledPath, verbs]
    congr 2
    funext verb
    exact Verb.respell_respell htable hother verb
  rw [respell_eq, hpath, parameters?_respell hother.isPlain, respell_eq]

/-- What respelling keeps of a command: the parameters, if there are any, the number of verbs, and
behind which of them there is a question mark. -/
def SameShape (command respelled : Text) : Prop :=
  parameters? respelled = parameters? command ∧
    (verbs respelled).length = (verbs command).length ∧
    List.Forall₂ (fun verb word => word.getLast? = some '?' ↔ verb.getLast? = some '?')
      (verbs command) (verbs respelled)

theorem sameShape_respell (htable : Verb.IsTable table) (command : Text) :
    SameShape command (respell table command) := by
  refine ⟨parameters?_respell htable.isPlain command, ?_, ?_⟩
  · rw [verbs_respell htable, List.length_map]
  · rw [verbs_respell htable, List.forall₂_map_right_iff, List.forall₂_same]
    exact fun verb _ => Verb.getLast?_respell htable.isPlain verb

/-- **The laws of respelling.** Shortening and lengthening undo each other as far as the other one's
spelling goes, doing either twice is doing it once, and neither touches anything but the words of the
verbs, so that the same is left when the verbs are dropped. -/
theorem respelling_laws (command : Text) :
    shorten (lengthen command) = shorten command ∧
      lengthen (shorten command) = lengthen command ∧
      shorten (shorten command) = shorten command ∧
      lengthen (lengthen command) = lengthen command ∧
      strip (shorten command) = strip command ∧ strip (lengthen command) = strip command ∧
      SameShape command (shorten command) ∧ SameShape command (lengthen command) := by
  have hshort := sameShape_respell Verb.isTable_short? command
  have hlong := sameShape_respell Verb.isTable_long? command
  refine ⟨?_, ?_, ?_, ?_, congrArg (·.getD []) hshort.1, congrArg (·.getD []) hlong.1, hshort, hlong⟩
  · exact respell_respell Verb.unifies_short? Verb.isTable_long? command
  · exact respell_respell Verb.unifies_long? Verb.isTable_short? command
  · exact respell_respell Verb.unifies_short? Verb.isTable_short? command
  · exact respell_respell Verb.unifies_long? Verb.isTable_long? command

end Header

end WaveGen
