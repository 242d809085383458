import WaveGen.Proofs.Replies
import WaveGen.Proofs.StoredValues

/-!
# A reply is one line (specification §6)

Commands come as lines, so none of them holds a line feed. A reply is made of fixed words and of
settings, and a setting holds one only if a command brought it. So no reply ever does, and a client
that reads up to the next line feed has read just one reply.

* `Text.IsLine` — a text without a line feed.
* `Utf8.feed_not_mem_encode_iff` — such a text is sent without that byte too.
* `Instrument.HoldsLines` — no setting holds a line feed.
* `Instrument.HoldsLines.isLine_reply` — neither does a reply.
-/

namespace WaveGen

namespace Text

/-- A text that fits on one line: there is no line feed in it. -/
def IsLine (t : Text) : Prop := '\n' ∉ t

instance (t : Text) : Decidable (IsLine t) := inferInstanceAs (Decidable ('\n' ∉ t))

@[simp] theorem isLine_nil : IsLine [] := List.not_mem_nil

@[simp] theorem isLine_cons_iff {c : Char} {t : Text} :
    IsLine (c :: t) ↔ c ≠ '\n' ∧ IsLine t := by
  rw [IsLine, List.mem_cons, not_or]
  exact and_congr_left' ne_comm

@[simp] theorem isLine_append_iff {t u : Text} : IsLine (t ++ u) ↔ IsLine t ∧ IsLine u := by
  rw [IsLine, List.mem_append, not_or]
  rfl

theorem IsLine.of_subset {t u : Text} (h : IsLine t) (hsub : ∀ c ∈ u, c ∈ t) : IsLine u :=
  fun hmem => h (hsub _ hmem)

@[simp] theorem isLine_upper_iff {t : Text} : IsLine (upper t) ↔ IsLine t :=
  not_congr (mem_upper (by decide) t)

theorem IsLine.trim {t : Text} (h : IsLine t) : IsLine (trim t) := by
  refine h.of_subset fun c hc => ?_
  have hstart : c ∈ trimStart t := (List.rdropWhile_prefix isBlank _).subset hc
  exact (List.dropWhile_suffix isBlank).subset hstart

theorem IsLine.before {t : Text} (h : IsLine t) (sep : Char) : IsLine (before sep t) :=
  h.of_subset fun _ hc => (List.takeWhile_prefix _).subset hc

theorem IsLine.after? {sep : Char} {t rest : Text} (h : IsLine t)
    (hrest : after? sep t = some rest) : IsLine rest := by
  rw [Text.after?] at hrest
  split at hrest
  · cases hrest
  · rename_i hdrop
    cases hrest
    refine h.of_subset fun c hc => (List.dropWhile_suffix (· != sep)).subset ?_
    rw [hdrop]
    exact List.mem_cons_of_mem _ hc

end Text

/-! ## Bytes -/

namespace Utf8

/-- Only the line feed itself is written with its byte: the bytes of longer forms are all large. -/
theorem feed_mem_encodeChar_iff {c : Char} : Line.feed ∈ String.utf8EncodeChar c ↔ c = '\n' := by
  constructor
  · intro h
    have hcode : c.toNat = 10 := by
      have hval : c.val.toNat = c.toNat := rfl
      rw [String.utf8EncodeChar.eq_1, hval] at h
      split at h
      · simp [Line.feed, ← UInt8.toNat_inj] at h
        omega
      · split at h
        · simp [Line.feed, ← UInt8.toNat_inj] at h
          omega
        · split at h <;>
            · simp [Line.feed, ← UInt8.toNat_inj] at h
              omega
    exact Char.toNat_inj.mp hcode
  · rintro rfl
    decide

/-- A text is a line when its bytes are. -/
theorem feed_not_mem_encode_iff {t : Text} : Line.feed ∉ encode t ↔ t.IsLine := by
  rw [Text.IsLine, encode, List.mem_flatMap]
  simp [feed_mem_encodeChar_iff]

theorem length_encode_le (t : Text) : (encode t).length ≤ 4 * t.length := by
  induction t with
  | nil => rfl
  | cons c rest ih =>
    have hchar := c.utf8Size_le_four
    rw [encode, List.flatMap_cons, List.length_append, ← encode, String.length_utf8EncodeChar,
      List.length_cons]
    omega

end Utf8

/-! ## Headers -/

namespace Header

variable {table : Text → Option Text}

/-- Respelling brings no line feed into a command. -/
theorem isLine_respell (htable : ∀ stem other, table stem = some other → other.IsLine)
    {command : Text} (h : command.IsLine) : (respell table command).IsLine := by
  have hpath : (respelledPath table command).IsLine := by
    apply Text.not_mem_join (by decide)
    intro piece hpiece
    obtain ⟨verb, hverb, rfl⟩ := List.mem_map.mp hpiece
    have hraised : (Text.upper verb).IsLine :=
      Text.isLine_upper_iff.mpr
        ((h.before ' ').of_subset fun c hc => Text.mem_of_mem_split hverb hc)
    rcases Verb.respell_cases table verb with hsame | ⟨other, hother, hrespelled⟩
    · rw [hsame]
      exact hraised
    · rw [← (Verb.cutQuery_spec (Text.upper verb)).1, Text.isLine_append_iff] at hraised
      rw [hrespelled]
      exact Text.isLine_append_iff.mpr ⟨htable _ other hother, hraised.2⟩
  rw [respell_eq]
  cases hparameters : parameters? command with
  | none => exact hpath
  | some parameters =>
    have hrest : parameters.IsLine := h.after? hparameters
    simp [hpath, hrest]

end Header

theorem Verb.isLine_pairs : ∀ pair ∈ pairs, pair.1.IsLine ∧ pair.2.IsLine := by decide +kernel

theorem Header.isLine_shorten {command : Text} (h : command.IsLine) : (shorten command).IsLine :=
  isLine_respell (fun _ _ hpair => (Verb.isLine_pairs _ (Verb.mem_pairs_of_short? hpair)).2) h

theorem Header.isLine_lengthen {command : Text} (h : command.IsLine) : (lengthen command).IsLine :=
  isLine_respell (fun _ _ hpair => (Verb.isLine_pairs _ (Verb.mem_pairs_of_long? hpair)).1) h

/-- No header mode breaks a reply into lines. -/
theorem HeaderMode.isLine_format (mode : HeaderMode) {reply : Text} (h : reply.IsLine) :
    (mode.format reply).IsLine := by
  cases mode with
  | short => exact Header.isLine_shorten h
  | long => exact Header.isLine_lengthen h
  | off =>
    show (Header.strip reply).IsLine
    rw [Header.strip]
    cases hparameters : Header.parameters? reply with
    | none => exact Text.isLine_nil
    | some parameters => exact h.after? hparameters

namespace Instrument

theorem isLine_normalize {command : Text} (h : command.IsLine) : (normalize command).IsLine :=
  Header.isLine_shorten (Text.isLine_upper_iff.mpr h.trim)

/-! ## Settings -/

/-- No setting of an instrument holds a line feed. -/
structure HoldsLines (i : Instrument) : Prop where
  device : ∀ key, (i.settings.value key).IsLine
  channel : ∀ id key, ((i.channel id).settings.value key).IsLine

theorem isLine_defaultSettings : ∀ key, (defaultSettings.value key).IsLine :=
  Settings.values_of_entries (by decide) (by decide +kernel)

theorem isLine_channelDefaults : ∀ key, (Channel.defaultSettings.value key).IsLine :=
  Settings.values_of_entries (by decide) (by decide)

theorem holdsLines_new (model : Model) : (new model).HoldsLines where
  device := isLine_defaultSettings
  channel id := by cases id <;> exact isLine_channelDefaults

theorem isLine_display (x : Binary64) : (Quantity.display x).IsLine :=
  fun hmem => absurd (Binary64.toText_chars x _ hmem) (by decide)

/-- A command without a line feed stores none. -/
theorem HoldsLines.process {i : Instrument} (h : i.HoldsLines) {command : Text}
    (hcommand : command.IsLine) : (i.process command).1.HoldsLines where
  device := by
    have heffect := process_effect i command
    generalize (i.process command).1 = changed at heffect ⊢
    cases heffect with
    | none => exact h.device
    | header tail name mode =>
      exact Settings.values_set h.device (by cases mode <;> decide) Key.header
    | buzzer tail value _ _ hstate =>
      exact Settings.values_set h.device (by rcases hstate with rfl | rfl <;> decide) Key.buzzer
    | copy tail target source =>
      rw [settings_withChannel]
      exact h.device
    | reset => exact isLine_defaultSettings
    | channel id settings =>
      rw [settings_withChannel]
      exact h.device
  channel := by
    refine values_process isLine_display isLine_channelDefaults ?_ h.channel
    intro front parameters hnormal token htoken
    have hline : parameters.IsLine := by
      have hwhole := isLine_normalize hcommand
      rw [hnormal, Text.isLine_append_iff] at hwhole
      exact hwhole.2
    exact (hline.before ' ').of_subset fun c hc => Text.mem_of_mem_split htoken hc

theorem HoldsLines.after {i : Instrument} (h : i.HoldsLines) {commands : List Text}
    (hcommands : ∀ command ∈ commands, command.IsLine) : (i.after commands).HoldsLines :=
  after_preserves_of_mem (fun _ command hmem hi => hi.process (hcommands command hmem)) h

/-! ## Replies -/

theorem isLine_address (i : Instrument) (id : ChannelId) : (i.channel id).address.IsLine := by
  rw [address_channel]
  cases id <;> decide

theorem isLine_outputReport {i : Instrument} (h : i.HoldsLines) (id : ChannelId) :
    (i.channel id).outputReport.IsLine := by
  simp only [Channel.outputReport, Text.isLine_append_iff, h.channel, isLine_address, and_true,
    true_and]
  decide

theorem isLine_basicWaveReport {i : Instrument} (h : i.HoldsLines) (id : ChannelId) :
    (i.channel id).basicWaveReport.IsLine := by
  unfold Channel.basicWaveReport
  dsimp only
  split <;>
    · simp only [Text.isLine_append_iff, h.channel, isLine_address, and_true, true_and]
      decide

/-- What is answered is made of fixed words and of settings. -/
theorem Answer.isLine_replyText {i : Instrument} (hi : i.HoldsLines) {command : Text}
    {reply : Reply} (h : Answer i command reply) : (i.replyText reply).IsLine := by
  have hheaded : ∀ {text : Text}, text.IsLine → (i.replyText (.headed text)).IsLine :=
    fun htext => i.headerMode.isLine_format htext
  cases h with
  | identification =>
    show i.model.identification.IsLine
    cases i.model <;> decide
  | complete => exact hheaded (by decide)
  | header => exact hheaded (Text.isLine_append_iff.mpr ⟨by decide, hi.device _⟩)
  | buzzer => exact hheaded (Text.isLine_append_iff.mpr ⟨by decide, hi.device _⟩)
  | storeList => exact hheaded (hi.device _)
  | builtIn tail htail => exact hheaded (hi.device _)
  | user tail htail => exact hheaded (hi.device _)
  | output id => exact hheaded (isLine_outputReport hi id)
  | wave id => exact hheaded (isLine_basicWaveReport hi id)

/-- **A reply is one line**, whatever the command was. -/
theorem HoldsLines.isLine_reply {i : Instrument} (h : i.HoldsLines) (command : Text) :
    (i.process command).2.IsLine := by
  rcases process_snd_eq_nil_or_answer i command with hnone | ⟨reply, hanswer⟩
  · rw [hnone]
    exact Text.isLine_nil
  · rw [hanswer.process]
    exact hanswer.isLine_replyText h

end Instrument

end WaveGen
