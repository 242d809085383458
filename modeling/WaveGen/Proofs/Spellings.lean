import WaveGen.Proofs.Header
import WaveGen.Proofs.NormalForm

/-!
# Spellings of a command (specification §4.5)

How a command is spelled is no matter to an instrument: verbs in their long or short spelling, the
case of letters and blanks at the ends are all lost in its normal form. A respelled command is
trimmed only afterwards, so respelling may have left a verb alone to which a blank still stuck. But
then the trimmed verb is found in the table, and comes to the same short spelling.

* `Verb.Alike` — two verbs that come to the same short one, even after trimming.
* `Header.SameVerbs`, `Header.SameCommand` — commands with such verbs. Trimming and raising keep
  them so, and their short spellings are equal.
* `Instrument.Spelling` — the spellings of a command, and mixtures of them.
* `Instrument.process_spelling` — they are all processed alike.
-/

namespace WaveGen

/-! ## Verbs -/

namespace Verb

/-- A word that is cut nowhere: there is neither a blank nor a colon in it. -/
def IsWord (verb : Text) : Prop :=
  verb ≠ [] ∧ verb.all (fun c => !Text.isBlank c && c != ':') = true

instance (verb : Text) : Decidable (IsWord verb) := inferInstanceAs (Decidable (_ ∧ _))

/-- Both spellings of a verb come to its short one, with or without a question mark. -/
theorem respell_short_pairs : ∀ pair ∈ pairs, ∀ mark ∈ [[], ['?']],
    IsWord (pair.1 ++ mark) ∧ IsWord (pair.2 ++ mark) ∧
      respell short? (pair.1 ++ mark) = pair.2 ++ mark ∧
      respell short? (pair.2 ++ mark) = pair.2 ++ mark := by
  decide +kernel

theorem IsWord.not_mem {verb : Text} (h : IsWord verb) : ' ' ∉ verb ∧ ':' ∉ verb := by
  have hall := List.all_eq_true.mp h.2
  exact ⟨fun hspace => absurd (hall _ hspace) (by decide),
    fun hcolon => absurd (hall _ hcolon) (by decide)⟩

theorem IsWord.not_isBlank {verb : Text} (h : IsWord verb) :
    ∀ c ∈ verb, Text.isBlank c = false := by
  intro c hc
  have hchar := List.all_eq_true.mp h.2 c hc
  rw [Bool.and_eq_true, Bool.not_eq_true'] at hchar
  exact hchar.1

theorem IsWord.trimStart {verb : Text} (h : IsWord verb) : Text.trimStart verb = verb :=
  Text.trimStart_of_head fun c hc => h.not_isBlank c (List.mem_of_head? hc)

theorem IsWord.trimEnd {verb : Text} (h : IsWord verb) : Text.trimEnd verb = verb :=
  Text.trimEnd_of_last fun c hc => h.not_isBlank c (List.mem_of_getLast? hc)

/-- Raising letters makes neither a blank nor a colon, nor takes one away. -/
theorem isWord_upper_iff {verb : Text} : IsWord (Text.upper verb) ↔ IsWord verb := by
  have hchar : ((fun c => !Text.isBlank c && c != ':') ∘ Char.toUpper) =
      fun c => !Text.isBlank c && c != ':' := by
    funext c
    have hcolon : (c.toUpper != ':') = (c != ':') := by
      rw [Bool.eq_iff_iff, bne_iff_ne, bne_iff_ne, ne_eq, ne_eq,
        Text.toUpper_eq_iff (by decide)]
    rw [Function.comp, Text.isBlank_toUpper, hcolon]
  rw [IsWord, IsWord, Text.upper, List.all_map, hchar, ne_eq, ne_eq, List.map_eq_nil_iff]

/-- Respelling looks at capital letters only. -/
theorem respell_congr {table : Text → Option Text} {verb other : Text}
    (h : Text.upper verb = Text.upper other) : respell table verb = respell table other := by
  rw [respell, respell, h]

/-- Two verbs that come to the same short one: they differ in the case of letters only, or they are
words, so that nothing is trimmed from either. -/
inductive Alike : Text → Text → Prop where
  | letters {verb other : Text} (hspace : ' ' ∉ verb) (hcolon : ':' ∉ verb)
      (h : Text.upper verb = Text.upper other) : Alike verb other
  | words {verb other : Text} (hverb : IsWord verb) (hother : IsWord other)
      (h : respell short? verb = respell short? other) : Alike verb other

namespace Alike

variable {verb other : Text}

theorem respell_eq (h : Alike verb other) : respell short? verb = respell short? other := by
  cases h with
  | letters _ _ h => exact respell_congr h
  | words _ _ h => exact h

theorem not_mem (h : Alike verb other) {c : Char} (hc : c = ' ' ∨ c = ':') :
    c ∉ verb ∧ c ∉ other := by
  have hletter : c.toNat < 65 ∨ 122 < c.toNat := by rcases hc with rfl | rfl <;> decide
  cases h with
  | letters hspace hcolon h =>
    have hverb : c ∉ verb := by rcases hc with rfl | rfl <;> assumption
    refine ⟨hverb, ?_⟩
    rw [← Text.mem_upper hletter, ← h, Text.mem_upper hletter]
    exact hverb
  | words hverb hother _ =>
    rcases hc with rfl | rfl
    · exact ⟨hverb.not_mem.1, hother.not_mem.1⟩
    · exact ⟨hverb.not_mem.2, hother.not_mem.2⟩

theorem nil_iff (h : Alike verb other) : verb = [] ↔ other = [] := by
  cases h with
  | letters _ _ h =>
    have hlength := congrArg List.length h
    rw [Text.upper, Text.upper, List.length_map, List.length_map] at hlength
    rw [← List.length_eq_zero_iff, hlength, List.length_eq_zero_iff]
  | words hverb hother _ => exact iff_of_false hverb.1 hother.1

theorem trimStart (h : Alike verb other) : Alike (Text.trimStart verb) (Text.trimStart other) := by
  cases h with
  | letters hspace hcolon h =>
    have hsub : Text.trimStart verb ⊆ verb := (List.dropWhile_sublist _).subset
    refine .letters (fun hmem => hspace (hsub hmem)) (fun hmem => hcolon (hsub hmem)) ?_
    rw [← Text.trimStart_upper, ← Text.trimStart_upper, h]
  | words hverb hother h =>
    rw [hverb.trimStart, hother.trimStart]
    exact .words hverb hother h

theorem trimEnd (h : Alike verb other) : Alike (Text.trimEnd verb) (Text.trimEnd other) := by
  cases h with
  | letters hspace hcolon h =>
    have hsub : Text.trimEnd verb ⊆ verb := (List.rdropWhile_prefix Text.isBlank verb).subset
    refine .letters (fun hmem => hspace (hsub hmem)) (fun hmem => hcolon (hsub hmem)) ?_
    rw [← Text.trimEnd_upper, ← Text.trimEnd_upper, h]
  | words hverb hother h =>
    rw [hverb.trimEnd, hother.trimEnd]
    exact .words hverb hother h

theorem upper (h : Alike verb other) : Alike (Text.upper verb) (Text.upper other) := by
  have hspace := h.not_mem (.inl rfl)
  have hcolon := h.not_mem (.inr rfl)
  cases h with
  | letters _ _ h =>
    refine .letters ?_ ?_ (congrArg Text.upper h)
    · rw [Text.mem_upper (by decide)]
      exact hspace.1
    · rw [Text.mem_upper (by decide)]
      exact hcolon.1
  | words hverb hother h =>
    refine .words (isWord_upper_iff.mpr hverb) (isWord_upper_iff.mpr hother) ?_
    rw [respell_congr (Text.upper_upper verb), respell_congr (Text.upper_upper other), h]

end Alike

/-- A table that takes each verb to its other spelling. -/
def IsTable (table : Text → Option Text) : Prop :=
  ∀ stem other, table stem = some other → (stem, other) ∈ pairs ∨ (other, stem) ∈ pairs

theorem isTable_short? : IsTable short? := fun _ _ h => .inl (mem_pairs_of_short? h)

theorem isTable_long? : IsTable long? := fun _ _ h => .inr (mem_pairs_of_long? h)

/-- A respelled verb is the verb in capitals, or the other spelling of a pair, with the question mark
that was there. -/
theorem IsTable.respell_cases {table : Text → Option Text} (htable : IsTable table) (verb : Text) :
    respell table verb = Text.upper verb ∨
      ∃ stem other mark, ((stem, other) ∈ pairs ∨ (other, stem) ∈ pairs) ∧ mark ∈ [[], ['?']] ∧
        Text.upper verb = stem ++ mark ∧ respell table verb = other ++ mark := by
  rcases Verb.respell_cases table verb with hsame | ⟨other, hother, hrespelled⟩
  · exact .inl hsame
  · obtain ⟨hcut, hmark⟩ := cutQuery_spec (Text.upper verb)
    have hmarks : (cutQuery (Text.upper verb)).2 ∈ [[], ['?']] := by
      rcases hmark with hquery | ⟨hnone, -⟩
      · rw [hquery]
        decide
      · rw [hnone]
        decide
    exact .inr ⟨_, other, _, htable _ other hother, hmarks, hcut.symm, hrespelled⟩

/-- **A respelled verb is a verb alike.** -/
theorem alike_respell {table : Text → Option Text} (htable : IsTable table) {verb : Text}
    (hspace : ' ' ∉ verb) (hcolon : ':' ∉ verb) : Alike verb (respell table verb) := by
  rcases htable.respell_cases verb with hsame | ⟨stem, other, mark, hpair, hmark, hupper, hrespelled⟩
  · rw [hsame]
    exact .letters hspace hcolon (Text.upper_upper verb).symm
  · have hraised : respell short? verb = respell short? (stem ++ mark) := by
      rw [← hupper, respell_congr (Text.upper_upper verb)]
    -- the verb in capitals is one spelling, and what it comes to is the other
    have hword : IsWord (stem ++ mark) ∧ IsWord (other ++ mark) ∧
        respell short? (stem ++ mark) = respell short? (other ++ mark) := by
      rcases hpair with hpair | hpair
      · obtain ⟨hstem, hword, hlong, hshort⟩ := respell_short_pairs _ hpair mark hmark
        exact ⟨hstem, hword, hlong.trans hshort.symm⟩
      · obtain ⟨hword, hstem, hlong, hshort⟩ := respell_short_pairs _ hpair mark hmark
        exact ⟨hstem, hword, hshort.trans hlong.symm⟩
    obtain ⟨hstem, hword, heq⟩ := hword
    rw [← hupper] at hstem
    rw [hrespelled]
    exact .words (isWord_upper_iff.mp hstem) hword (hraised.trans heq)

end Verb

namespace Header

/-! ## Verb paths -/

/-- Two verb paths whose verbs are alike, one by one. -/
inductive SameVerbs : Text → Text → Prop where
  | last {verb other : Text} (h : Verb.Alike verb other) : SameVerbs verb other
  | cons {verb other path rest : Text} (h : Verb.Alike verb other) (hrest : SameVerbs path rest) :
      SameVerbs (verb ++ ':' :: path) (other ++ ':' :: rest)

namespace SameVerbs

variable {path other : Text}

theorem space_not_mem (h : SameVerbs path other) : ' ' ∉ path ∧ ' ' ∉ other := by
  induction h with
  | last h => exact h.not_mem (.inl rfl)
  | cons h _ ih =>
    obtain ⟨hverb, hother⟩ := h.not_mem (.inl rfl)
    simp [hverb, hother, ih]

theorem nil_iff (h : SameVerbs path other) : path = [] ↔ other = [] := by
  cases h with
  | last h => exact h.nil_iff
  | cons => simp

theorem trimStart (h : SameVerbs path other) :
    SameVerbs (Text.trimStart path) (Text.trimStart other) := by
  cases h with
  | last h => exact .last h.trimStart
  | cons h hrest =>
    rw [Text.trimStart_append_cons (by decide), Text.trimStart_append_cons (by decide)]
    exact .cons h.trimStart hrest

theorem trimEnd (h : SameVerbs path other) :
    SameVerbs (Text.trimEnd path) (Text.trimEnd other) := by
  induction h with
  | last h => exact .last h.trimEnd
  | cons h _ ih =>
    rw [Text.trimEnd_append_cons (by decide), Text.trimEnd_append_cons (by decide)]
    exact .cons h ih

theorem upper (h : SameVerbs path other) : SameVerbs (Text.upper path) (Text.upper other) := by
  induction h with
  | last h => exact .last h.upper
  | cons h _ ih =>
    rw [Text.upper, Text.upper, List.map_append, List.map_append]
    exact .cons h.upper ih

/-- Verbs that are alike are joined to the same short path. -/
theorem join_eq (h : SameVerbs path other) :
    Text.join ':' ((Text.split ':' path).map (Verb.respell Verb.short?)) =
      Text.join ':' ((Text.split ':' other).map (Verb.respell Verb.short?)) := by
  induction h with
  | last h =>
    obtain ⟨hverb, hother⟩ := h.not_mem (.inr rfl)
    rw [Text.split_eq_splitOn, Text.split_eq_splitOn, List.splitOn_eq_singleton hverb,
      List.splitOn_eq_singleton hother, List.map_singleton, List.map_singleton, h.respell_eq]
  | @cons verb other path rest h _ ih =>
    have hcons : ∀ verb path : Text, ':' ∉ verb →
        Text.join ':' ((Text.split ':' (verb ++ ':' :: path)).map (Verb.respell Verb.short?)) =
          Verb.respell Verb.short? verb ++ ':' ::
            Text.join ':' ((Text.split ':' path).map (Verb.respell Verb.short?)) := by
      intro verb path hverb
      obtain ⟨next, more, hpieces⟩ := List.exists_cons_of_ne_nil (Text.split_ne_nil ':' path)
      rw [Text.split_eq_splitOn, List.splitOn_append_cons_self_of_not_mem hverb,
        ← Text.split_eq_splitOn, hpieces, List.map_cons, List.map_cons, Text.join_cons_cons]
    obtain ⟨hverb, hother⟩ := h.not_mem (.inr rfl)
    rw [hcons verb path hverb, hcons other rest hother, h.respell_eq, ih]

end SameVerbs

/-- Respelling the verbs of a path. -/
theorem sameVerbs_respell {table : Text → Option Text} (htable : Verb.IsTable table)
    {verbs : List Text} (hne : verbs ≠ []) (h : ∀ verb ∈ verbs, ' ' ∉ verb ∧ ':' ∉ verb) :
    SameVerbs (Text.join ':' verbs) (Text.join ':' (verbs.map (Verb.respell table))) := by
  induction verbs with
  | nil => exact absurd rfl hne
  | cons verb rest ih =>
    obtain ⟨⟨hspace, hcolon⟩, hrest⟩ := List.forall_mem_cons.mp h
    have hverb := Verb.alike_respell htable hspace hcolon
    cases rest with
    | nil =>
      rw [List.map_singleton, Text.join_singleton, Text.join_singleton]
      exact .last hverb
    | cons next more =>
      rw [List.map_cons, List.map_cons, Text.join_cons_cons, Text.join_cons_cons]
      exact .cons hverb (ih (List.cons_ne_nil _ _) hrest)

/-! ## Commands -/

/-- Two commands with the same verbs, and the same parameters if they have any. -/
inductive SameCommand : Text → Text → Prop where
  | refl (command : Text) : SameCommand command command
  | path {path other : Text} (h : SameVerbs path other) : SameCommand path other
  | parameters {path other : Text} (h : SameVerbs path other) (parameters : Text) :
      SameCommand (path ++ ' ' :: parameters) (other ++ ' ' :: parameters)

namespace SameCommand

variable {command other : Text}

theorem trimStart (h : SameCommand command other) :
    SameCommand (Text.trimStart command) (Text.trimStart other) := by
  cases h with
  | refl => exact .refl _
  | path h => exact .path h.trimStart
  | @parameters path other h parameters =>
    rw [Text.trimStart_append, Text.trimStart_append]
    by_cases hblank : Text.trimStart path = []
    · -- both paths are blank, so the verbs stand among the parameters
      rw [if_pos hblank, if_pos (h.trimStart.nil_iff.mp hblank)]
      exact .refl _
    · rw [if_neg hblank, if_neg (mt h.trimStart.nil_iff.mpr hblank)]
      exact .parameters h.trimStart parameters

theorem trimEnd (h : SameCommand command other) :
    SameCommand (Text.trimEnd command) (Text.trimEnd other) := by
  cases h with
  | refl => exact .refl _
  | path h => exact .path h.trimEnd
  | @parameters path other h parameters =>
    have hend : Text.trimEnd (' ' :: parameters) =
        if Text.trimEnd parameters = [] then [] else ' ' :: Text.trimEnd parameters :=
      Text.trimEnd_append [' '] parameters
    rw [Text.trimEnd_append, Text.trimEnd_append, hend]
    by_cases hblank : Text.trimEnd parameters = []
    · rw [if_pos hblank, if_pos rfl, if_pos rfl]
      exact .path h.trimEnd
    · rw [if_neg hblank, if_neg (List.cons_ne_nil _ _), if_neg (List.cons_ne_nil _ _)]
      exact .parameters h _

theorem trim (h : SameCommand command other) :
    SameCommand (Text.trim command) (Text.trim other) := h.trimStart.trimEnd

theorem upper (h : SameCommand command other) :
    SameCommand (Text.upper command) (Text.upper other) := by
  cases h with
  | refl => exact .refl _
  | path h => exact .path h.upper
  | parameters h parameters =>
    rw [Text.upper, Text.upper, List.map_append, List.map_append]
    exact .parameters h.upper (Text.upper parameters)

/-- Commands with the same verbs have one short spelling. -/
theorem shorten_eq (h : SameCommand command other) : shorten command = shorten other := by
  cases h with
  | refl => rfl
  | path h =>
    obtain ⟨hpath, hother⟩ := h.space_not_mem
    rw [shorten, shorten, respell_of_not_mem hpath, respell_of_not_mem hother, h.join_eq]
  | parameters h parameters =>
    obtain ⟨hpath, hother⟩ := h.space_not_mem
    rw [shorten, shorten, respell_append hpath, respell_append hother,
      respell_of_not_mem hpath, respell_of_not_mem hother, h.join_eq]

end SameCommand

/-- **A respelled command has the same verbs.** -/
theorem sameCommand_respell {table : Text → Option Text} (htable : Verb.IsTable table)
    (command : Text) : SameCommand command (respell table command) := by
  have hspace : ' ' ∉ path command := Text.not_mem_before ' ' command
  have hverbs : SameVerbs (path command) (respelledPath table command) := by
    have hpieces : ∀ verb ∈ Text.split ':' (path command), ' ' ∉ verb ∧ ':' ∉ verb :=
      fun verb hverb =>
        ⟨fun hmem => hspace (Text.mem_of_mem_split hverb hmem), Text.not_mem_of_mem_split hverb⟩
    have hrespelled := sameVerbs_respell htable (Text.split_ne_nil ':' _) hpieces
    rw [Text.join_split] at hrespelled
    exact hrespelled
  rw [respell_eq]
  cases hparameters : parameters? command with
  | none =>
    have hwhole : path command = command :=
      Text.before_of_not_mem (Text.not_mem_of_after? hparameters)
    rw [hwhole] at hverbs
    exact .path hverbs
  | some parameters =>
    have hwhole : path command ++ ' ' :: parameters = command :=
      Text.before_append_after? hparameters
    have hsame := SameCommand.parameters hverbs parameters
    rw [hwhole] at hsame
    exact hsame

end Header

namespace Instrument

/-! ## Normal forms -/

theorem normalize_respell {table : Text → Option Text} (htable : Verb.IsTable table)
    (command : Text) : normalize (Header.respell table command) = normalize command :=
  (Header.sameCommand_respell htable command).trim.upper.shorten_eq.symm

theorem normalize_of_sameLetters {command other : Text}
    (h : Text.sameLetters other command = true) : normalize other = normalize command := by
  have hupper : Text.upper other = Text.upper command := beq_iff_eq.mp h
  rw [normalize, normalize, ← Text.trim_upper, hupper, Text.trim_upper]

theorem normalize_blanks {front behind : Text} (hfront : front.all Text.isBlank = true)
    (hbehind : behind.all Text.isBlank = true) (command : Text) :
    normalize (front ++ command ++ behind) = normalize command := by
  rw [normalize, Text.trim_blanks hfront hbehind, normalize]

/-! ## Spellings -/

/-- The spellings of a command: the command itself, and every spelling with its verbs in the long or
the short spelling, with any of its letters in the other case, or with blanks around it. -/
inductive Spelling (command : Text) : Text → Prop where
  | self : Spelling command command
  | long {spelling : Text} (h : Spelling command spelling) :
      Spelling command (Header.lengthen spelling)
  | short {spelling : Text} (h : Spelling command spelling) :
      Spelling command (Header.shorten spelling)
  | letters {spelling other : Text} (h : Spelling command spelling)
      (hletters : Text.sameLetters other spelling = true) : Spelling command other
  | blanks {spelling front behind : Text} (h : Spelling command spelling)
      (hfront : front.all Text.isBlank = true) (hbehind : behind.all Text.isBlank = true) :
      Spelling command (front ++ spelling ++ behind)

/-- Each way to spell a command anew keeps its normal form. -/
theorem Spelling.normalize_eq {command spelling : Text} (h : Spelling command spelling) :
    normalize spelling = normalize command := by
  induction h with
  | self => rfl
  | long _ ih => exact (normalize_respell Verb.isTable_long? _).trans ih
  | short _ ih => exact (normalize_respell Verb.isTable_short? _).trans ih
  | letters _ hletters ih => exact (normalize_of_sameLetters hletters).trans ih
  | blanks _ hfront hbehind ih => exact (normalize_blanks hfront hbehind _).trans ih

/-- **Spelling does not matter.** Whatever an instrument has come to, it is changed in the same way
and gives the same reply for all spellings of a command. -/
theorem process_spelling (i : Instrument) {command spelling : Text}
    (h : Spelling command spelling) : i.process spelling = i.process command := by
  rw [process, h.normalize_eq, process]

/-- A long verb in mixed letters, with a tab in front and a wide blank behind. -/
theorem process_spelling_mixed :
    let command := "C2:BSWV FRQ,50".toList
    let spelling := "\t".toList ++ "c2:Basic_Wave frq,50".toList ++ "\u3000".toList
    let i := (new .sdg1032x).after ["CHDR OFF".toList]
    Spelling command spelling ∧ i.process spelling = i.process command ∧
      ((i.process spelling).1.channel .second).settings.value "PERI".toList = "0.02".toList := by
  intro command spelling i
  have hspelling : Spelling command spelling :=
    .blanks (.letters (.long .self) (by decide +kernel)) (by decide) (by decide)
  have hprocess := process_spelling i hspelling
  refine ⟨hspelling, hprocess, ?_⟩
  rw [hprocess]
  decide +kernel

end Instrument

end WaveGen
