import WaveGen.Client
import WaveGen.Proofs.Text

/-!
# Laws of headers

Respelling touches nothing of a command but its verbs: the path stays the path, since no word of the
table holds a space, the parameters stay as they are, and a question mark at the end of the path
stays there. So the test by which a client tells queries from other commands has the same answer
before and after respelling.

* `Header.respell_verb` — the verb in front of a colon.
* `Header.path_respell`, `Header.parameters?_respell` — the two sides of a respelled command.
* `Client.isQuery_respell` — respelling a query gives a query, and nothing else does.
-/

namespace WaveGen

/-! ## Verbs -/

namespace Verb

/-- A word that can stand for a verb: no space, colon or question mark would cut it short. -/
def IsPlain (word : Text) : Prop := ' ' ∉ word ∧ ':' ∉ word ∧ '?' ∉ word

instance (word : Text) : Decidable (IsPlain word) :=
  inferInstanceAs (Decidable (' ' ∉ word ∧ ':' ∉ word ∧ '?' ∉ word))

/-- All spellings in the table are plain words. -/
theorem isPlain_pairs : ∀ pair ∈ pairs, IsPlain pair.1 ∧ IsPlain pair.2 := by decide +kernel

theorem mem_pairs_of_short? {long short : Text} (h : short? long = some short) :
    (long, short) ∈ pairs := by
  obtain ⟨front, behind, hpairs, -⟩ := List.lookup_eq_some_iff.mp h
  rw [hpairs]
  simp

theorem mem_pairs_of_long? {short long : Text} (h : long? short = some long) :
    (long, short) ∈ pairs := by
  obtain ⟨front, behind, hpairs, -⟩ := List.lookup_eq_some_iff.mp h
  have hmem : (short, long) ∈ pairs.map Prod.swap := by
    rw [hpairs]
    simp
  obtain ⟨pair, hpair, hswap⟩ := List.mem_map.mp hmem
  rw [← Prod.swap_swap pair, hswap] at hpair
  exact hpair

theorem isPlain_short? {long short : Text} (h : short? long = some short) : IsPlain short :=
  (isPlain_pairs _ (mem_pairs_of_short? h)).2

/-- Cutting loses nothing, and what it cuts off is the question mark at the end, if there is one. -/
theorem cutQuery_spec (verb : Text) :
    (cutQuery verb).1 ++ (cutQuery verb).2 = verb ∧
      ((cutQuery verb).2 = ['?'] ∨ (cutQuery verb).2 = [] ∧ verb.getLast? ≠ some '?') := by
  rw [cutQuery]
  split
  · rename_i rest hreverse
    refine ⟨?_, .inl rfl⟩
    rw [← verb.reverse_reverse, hreverse, List.reverse_cons]
  · rename_i hnone
    refine ⟨List.append_nil verb, .inr ⟨rfl, fun hlast => ?_⟩⟩
    obtain ⟨stem, hstem⟩ := List.getLast?_eq_some_iff.mp hlast
    exact hnone stem.reverse (by rw [hstem, List.reverse_append]; rfl)

variable {table : Text → Option Text}

/-- A respelled verb is the verb in capitals, or the table's word with the mark that was cut off. -/
theorem respell_cases (table : Text → Option Text) (verb : Text) :
    respell table verb = Text.upper verb ∨
      ∃ other, table (cutQuery (Text.upper verb)).1 = some other ∧
        respell table verb = other ++ (cutQuery (Text.upper verb)).2 := by
  rw [respell]
  dsimp only
  cases hother : table (cutQuery (Text.upper verb)).1 with
  | none => exact .inl rfl
  | some other => exact .inr ⟨other, rfl, rfl⟩

/-- Respelling keeps the question mark at the end of a verb, and adds none. -/
theorem getLast?_respell (htable : ∀ stem other, table stem = some other → IsPlain other)
    (verb : Text) : (respell table verb).getLast? = some '?' ↔ verb.getLast? = some '?' := by
  rw [← Text.getLast?_upper (by decide) verb]
  obtain ⟨hcut, hmark⟩ := cutQuery_spec (Text.upper verb)
  rcases respell_cases table verb with hsame | ⟨other, hother, hrespelled⟩
  · rw [hsame]
  · rw [hrespelled]
    rcases hmark with hmark | ⟨hmark, hlast⟩
    · have hraised : (Text.upper verb).getLast? = some '?' := by
        rw [hmark] at hcut
        exact List.getLast?_eq_some_iff.mpr ⟨_, hcut.symm⟩
      rw [hmark, iff_true_right hraised]
      exact List.getLast?_concat
    · rw [hmark, List.append_nil, iff_false_right hlast]
      intro hquery
      exact (htable _ other hother).2.2 (List.mem_of_getLast? hquery)

/-- A respelled verb holds a space or a colon only if the verb did. -/
theorem not_mem_respell (htable : ∀ stem other, table stem = some other → IsPlain other)
    {verb : Text} {c : Char} (hc : c = ' ' ∨ c = ':') (h : c ∉ verb) : c ∉ respell table verb := by
  obtain ⟨-, hmark⟩ := cutQuery_spec (Text.upper verb)
  rcases respell_cases table verb with hsame | ⟨other, hother, hrespelled⟩
  · rw [hsame, Text.mem_upper (by rcases hc with rfl | rfl <;> decide)]
    exact h
  · obtain ⟨hspace, hcolon, -⟩ := htable _ other hother
    rw [hrespelled, List.mem_append, not_or]
    constructor
    · rcases hc with rfl | rfl
      · exact hspace
      · exact hcolon
    · rcases hmark with hmark | ⟨hmark, -⟩ <;> rcases hc with rfl | rfl <;> rw [hmark] <;> decide

end Verb

/-! ## Commands -/

namespace Header

variable {table : Text → Option Text}

/-- The respelled verbs of a command, joined again. -/
def respelledPath (table : Text → Option Text) (command : Text) : Text :=
  Text.join ':' ((Text.split ':' (path command)).map (Verb.respell table))

theorem respell_eq (table : Text → Option Text) (command : Text) :
    respell table command =
      match parameters? command with
      | some parameters => respelledPath table command ++ ' ' :: parameters
      | none => respelledPath table command := rfl

/-- Respelling a path without parameters respells its verbs. -/
theorem respell_of_not_mem {verbs : Text} (h : ' ' ∉ verbs) :
    respell table verbs = Text.join ':' ((Text.split ':' verbs).map (Verb.respell table)) := by
  rw [respell_eq, parameters?, Text.after?_of_not_mem h]
  dsimp only
  rw [respelledPath, path, Text.before_of_not_mem h]

/-- Respelling a path and parameters behind it respells the path. -/
theorem respell_append {path : Text} (hpath : ' ' ∉ path) (parameters : Text) :
    respell table (path ++ ' ' :: parameters) = respell table path ++ ' ' :: parameters := by
  have hfront : Header.path (path ++ ' ' :: parameters) = path := Text.before_append_cons hpath _
  have hbehind : parameters? (path ++ ' ' :: parameters) = some parameters :=
    Text.after?_append_cons hpath parameters
  rw [respell_eq, hbehind, respell_of_not_mem hpath]
  dsimp only
  rw [respelledPath, hfront]

/-- A verb in front of a colon is respelled by itself. -/
theorem respell_verb {verb : Text} (hspace : ' ' ∉ verb) (hcolon : ':' ∉ verb) (rest : Text) :
    respell table (verb ++ ':' :: rest) = Verb.respell table verb ++ ':' :: respell table rest := by
  have hpath : ∀ {path : Text}, ' ' ∉ path →
      respell table (verb ++ ':' :: path) = Verb.respell table verb ++ ':' :: respell table path := by
    intro path hpath
    have hwhole : ' ' ∉ verb ++ ':' :: path := by
      rw [List.mem_append, List.mem_cons, not_or, not_or]
      exact ⟨hspace, by decide, hpath⟩
    obtain ⟨first, others, hpieces⟩ := List.exists_cons_of_ne_nil (Text.split_ne_nil ':' path)
    rw [respell_of_not_mem hwhole, respell_of_not_mem hpath, Text.split_append_cons hcolon, hpieces]
    exact Text.join_cons_cons ':' _ _ _
  cases hrest : Text.after? ' ' rest with
  | none => exact hpath (Text.not_mem_of_after? hrest)
  | some parameters =>
    -- the parameters stay behind, whatever stands in front of the path
    have hfront := hpath (Text.not_mem_before ' ' rest)
    have hverb : ' ' ∉ verb ++ ':' :: Text.before ' ' rest := by
      rw [List.mem_append, List.mem_cons, not_or, not_or]
      exact ⟨hspace, by decide, Text.not_mem_before ' ' rest⟩
    rw [← Text.before_append_after? hrest, ← List.cons_append, ← List.append_assoc,
      respell_append hverb, hfront, respell_append (Text.not_mem_before ' ' rest), List.append_assoc,
      List.cons_append]

theorem space_not_mem_respelledPath
    (htable : ∀ stem other, table stem = some other → Verb.IsPlain other) (command : Text) :
    ' ' ∉ respelledPath table command := by
  apply Text.not_mem_join (by decide)
  intro piece hpiece
  obtain ⟨verb, hverb, rfl⟩ := List.mem_map.mp hpiece
  apply Verb.not_mem_respell htable (.inl rfl)
  intro hspace
  have hpath : ' ' ∉ path command := Text.not_mem_before ' ' command
  exact hpath (Text.mem_of_mem_split hverb hspace)

theorem path_respell (htable : ∀ stem other, table stem = some other → Verb.IsPlain other)
    (command : Text) : path (respell table command) = respelledPath table command := by
  have hspace := space_not_mem_respelledPath htable command
  rw [respell_eq]
  cases parameters? command with
  | none => exact Text.before_of_not_mem hspace
  | some parameters => exact Text.before_append_cons hspace parameters

/-- The parameters of a command stay as they are. -/
theorem parameters?_respell (htable : ∀ stem other, table stem = some other → Verb.IsPlain other)
    (command : Text) : parameters? (respell table command) = parameters? command := by
  have hspace := space_not_mem_respelledPath htable command
  rw [respell_eq]
  cases parameters? command with
  | none => exact Text.after?_of_not_mem hspace
  | some parameters => exact Text.after?_append_cons hspace parameters

end Header

/-! ## Queries -/

namespace Client

theorem isQuery_iff {command : Text} :
    isQuery command = true ↔ (Header.path command).getLast? = some '?' := beq_iff_eq

/-- **Queries stay queries** when their verbs are respelled, and no other command becomes one. -/
theorem isQuery_respell {table : Text → Option Text}
    (htable : ∀ stem other, table stem = some other → Verb.IsPlain other) (command : Text) :
    isQuery (Header.respell table command) = isQuery command := by
  have hlast : (Header.respelledPath table command).getLast? = some '?' ↔
      (Text.join ':' (Text.split ':' (Header.path command))).getLast? = some '?' :=
    Text.getLast?_join_map (by decide) (Verb.getLast?_respell htable) _
  rw [Text.join_split] at hlast
  rw [Bool.eq_iff_iff, isQuery_iff, isQuery_iff, Header.path_respell htable]
  exact hlast

/-- Raising the letters of a command does not make a query of it either. -/
theorem isQuery_upper (command : Text) : isQuery (Text.upper command) = isQuery command := by
  rw [Bool.eq_iff_iff, isQuery_iff, isQuery_iff, Header.path, Text.before_upper (by decide)]
  exact Text.getLast?_upper (by decide) (Header.path command)

end Client

end WaveGen
