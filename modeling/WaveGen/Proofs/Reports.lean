import WaveGen.Proofs.Header
import WaveGen.Proofs.Replies
import WaveGen.Proofs.StoredValues

/-!
# Reports tell the settings (specification §4.3)

A channel reports its settings between commas, some with a unit behind them, and one of them only for
one of the loads. It writes them as they were stored, and most of them were stored as a client wrote
them. Still no value can pass for two fields or for another one: the tokens of a command hold no
comma, and neither do displayed numbers. So cutting a report at its commas gives the fields back, and
from the fields the settings can be read.

* `Instrument.values_isToken` — no value holds a comma or a space, after any run.
* `Channel.outputFields`, `Channel.waveFields` — the fields of the two reports.
* `Instrument.reports_determine_settings` — instruments with equal reports have equal settings.
-/

namespace WaveGen

/-! ## Tokens -/

/-- A text that can stand between the commas of a command or a report. -/
def IsToken (t : Text) : Prop := ',' ∉ t ∧ ' ' ∉ t

instance (t : Text) : Decidable (IsToken t) := inferInstanceAs (Decidable (',' ∉ t ∧ ' ' ∉ t))

theorem isToken_display (x : Binary64) : IsToken (Quantity.display x) := by
  constructor <;> intro hmem <;> exact absurd (Binary64.toText_chars x _ hmem) (by decide)

/-- The pieces of a word are tokens. -/
theorem isToken_of_mem_split {parameters token : Text}
    (h : token ∈ Text.split ',' (Text.before ' ' parameters)) : IsToken token :=
  ⟨Text.not_mem_of_mem_split h,
    fun hspace => Text.not_mem_before ' ' parameters (Text.mem_of_mem_split h hspace)⟩

theorem isToken_defaultSettings : ∀ key, IsToken (Channel.defaultSettings.value key) :=
  Settings.values_of_entries (by decide) (by decide)

/-- **No stored value holds a comma or a space**, whatever an instrument has been through. -/
theorem Instrument.values_isToken (model : Model) (history : List Text) (id : ChannelId)
    (key : Text) : IsToken ((((new model).after history).channel id).settings.value key) := by
  have hnew : ∀ id key, IsToken (((new model).channel id).settings.value key) := by
    intro id
    cases id <;> exact isToken_defaultSettings
  refine after_preserves (P := fun i => ∀ id key, IsToken ((i.channel id).settings.value key)) ?_
    hnew history id key
  intro i command hi
  exact values_process isToken_display isToken_defaultSettings
    (fun _ _ _ _ => isToken_of_mem_split) hi

/-! ## Fields -/

namespace Channel

/-- The fields of the output report. -/
def outputFields (s : Settings) : List Text :=
  [s.value Key.output, "LOAD".toList, s.value Key.load, "PLRT".toList, s.value Key.polarity]

/-- The fields of the basic wave report. Those of the level of power are there for one load only. -/
def waveFields (s : Settings) : List Text :=
  ["WVTP".toList, s.value Key.waveType, "FRQ".toList, s.value Key.frequency ++ "HZ".toList,
    "PERI".toList, s.value Key.period ++ "S".toList, "AMP".toList,
    s.value Key.amplitude ++ "V".toList, "AMPVRMS".toList,
    s.value Key.effective ++ "Vrms".toList] ++
  (if s.value Key.load = "50".toList then
    ["AMPDBM".toList, s.value Key.powerLevel ++ "dBm".toList] else []) ++
  ["OFST".toList, s.value Key.offset ++ "V".toList, "HLEV".toList, s.value Key.high ++ "V".toList,
    "LLEV".toList, s.value Key.low ++ "V".toList, "PHSE".toList, s.value Key.phase]

theorem outputReport_eq (c : Channel) :
    c.outputReport = c.address ++ "OUTP".toList ++ ' ' :: Text.join ',' (outputFields c.settings) := by
  simp only [outputReport, outputFields, Text.join_cons_cons, Text.join_singleton,
    List.append_assoc]
  rfl

theorem basicWaveReport_eq (c : Channel) :
    c.basicWaveReport =
      c.address ++ "BSWV".toList ++ ' ' :: Text.join ',' (waveFields c.settings) := by
  unfold basicWaveReport waveFields
  by_cases hload : c.settings.value Key.load = "50".toList
  · simp only [if_pos hload, List.cons_append, List.nil_append, Text.join_cons_cons,
      Text.join_singleton, List.append_assoc]
    rfl
  · simp only [if_neg hload, List.cons_append, List.nil_append, Text.join_cons_cons,
      Text.join_singleton, List.append_assoc]
    rfl

theorem waveFields_ne_nil (s : Settings) : waveFields s ≠ [] := by
  rw [waveFields, List.append_assoc, List.cons_append]
  exact List.cons_ne_nil _ _

theorem join_outputFields_ne_nil (s : Settings) : Text.join ',' (outputFields s) ≠ [] := by
  rw [outputFields, Text.join_cons_cons]
  exact List.append_ne_nil_of_right_ne_nil _ (List.cons_ne_nil _ _)

theorem join_waveFields_ne_nil (s : Settings) : Text.join ',' (waveFields s) ≠ [] := by
  rw [waveFields, List.append_assoc, List.cons_append, List.cons_append, Text.join_cons_cons]
  exact List.append_ne_nil_of_right_ne_nil _ (List.cons_ne_nil _ _)

/-- No field of an output report holds a comma when no value does. -/
theorem comma_not_mem_outputFields {s : Settings} (hs : ∀ key, IsToken (s.value key)) :
    ∀ field ∈ outputFields s, ',' ∉ field := by
  have hvalue : ∀ key, ',' ∉ s.value key := fun key => (hs key).1
  simp only [outputFields, List.forall_mem_cons, hvalue, not_false_eq_true, true_and,
    List.not_mem_nil, false_implies, implies_true, and_true]
  decide

/-- Nor does any field of a report of the basic wave. -/
theorem comma_not_mem_waveFields {s : Settings} (hs : ∀ key, IsToken (s.value key)) :
    ∀ field ∈ waveFields s, ',' ∉ field := by
  have hvalue : ∀ key, ',' ∉ s.value key := fun key => (hs key).1
  by_cases hload : s.value Key.load = "50".toList
  · simp only [waveFields, if_pos hload, List.cons_append, List.nil_append, List.forall_mem_cons,
      List.mem_append, hvalue, not_false_eq_true, true_and, false_or, List.not_mem_nil,
      false_implies, implies_true, and_true]
    decide
  · simp only [waveFields, if_neg hload, List.cons_append, List.nil_append, List.forall_mem_cons,
      List.mem_append, hvalue, not_false_eq_true, true_and, false_or, List.not_mem_nil,
      false_implies, implies_true, and_true]
    decide

/-- The settings that both reports together tell for every load. -/
def reportedKeys : List Text :=
  [Key.output, Key.load, Key.polarity, Key.waveType, Key.frequency, Key.period, Key.amplitude,
    Key.effective, Key.offset, Key.high, Key.low, Key.phase]

/-- Equal fields come from equal settings. -/
theorem values_eq_of_fields_eq {s t : Settings} (houtput : outputFields s = outputFields t)
    (hwave : waveFields s = waveFields t) :
    (∀ key ∈ reportedKeys, s.value key = t.value key) ∧
      (s.value Key.load = load50 → s.value Key.powerLevel = t.value Key.powerLevel) := by
  simp only [outputFields, List.cons.injEq, and_true, true_and] at houtput
  obtain ⟨houtput, hload, hpolarity⟩ := houtput
  simp only [reportedKeys, List.forall_mem_cons, List.not_mem_nil, false_implies, implies_true,
    and_true]
  -- the loads are equal, so both reports of the wave have the level of power or neither has it
  by_cases h50 : s.value Key.load = "50".toList
  · simp only [waveFields, if_pos h50, if_pos (hload ▸ h50), List.cons_append, List.nil_append,
      List.cons.injEq, List.append_cancel_right_eq, and_true, true_and] at hwave
    obtain ⟨htype, hfrequency, hperiod, hamplitude, heffective, hpower, hoffset, hhigh, hlow,
      hphase⟩ := hwave
    exact ⟨⟨houtput, hload, hpolarity, htype, hfrequency, hperiod, hamplitude, heffective, hoffset,
      hhigh, hlow, hphase⟩, fun _ => hpower⟩
  · simp only [waveFields, if_neg h50, if_neg (hload ▸ h50), List.cons_append, List.nil_append,
      List.cons.injEq, List.append_cancel_right_eq, and_true, true_and] at hwave
    obtain ⟨htype, hfrequency, hperiod, hamplitude, heffective, hoffset, hhigh, hlow, hphase⟩ :=
      hwave
    exact ⟨⟨houtput, hload, hpolarity, htype, hfrequency, hperiod, hamplitude, heffective, hoffset,
      hhigh, hlow, hphase⟩, fun hpower => absurd hpower h50⟩

end Channel

namespace Instrument

/-! ## Replies -/

/-- The fields of a reply: what stands behind its header, cut at the commas. -/
def replyFields (reply : Text) : List Text := Text.split ',' (Header.strip reply)

theorem space_not_mem_address_append (id : ChannelId) {verb : Text} (hverb : ' ' ∉ verb) :
    ' ' ∉ id.address ++ verb := by
  have haddress : ' ' ∉ id.address := by cases id <;> decide
  rw [List.mem_append, not_or]
  exact ⟨haddress, hverb⟩

/-- A report is never sent as an empty text, whatever the header mode is. -/
theorem replyText_report_ne_nil (i : Instrument) (id : ChannelId) {verb parameters : Text}
    (hverb : ' ' ∉ verb) (hparameters : parameters ≠ []) :
    i.replyText (.headed (id.address ++ verb ++ ' ' :: parameters)) ≠ [] :=
  format_ne_nil i.headerMode (space_not_mem_address_append id hverb) hparameters

theorem replyText_outputReport_ne_nil (i : Instrument) (id : ChannelId) :
    i.replyText (.headed (i.channel id).outputReport) ≠ [] := by
  rw [Channel.outputReport_eq, address_channel]
  exact replyText_report_ne_nil i id (by decide) (Channel.join_outputFields_ne_nil _)

theorem replyText_basicWaveReport_ne_nil (i : Instrument) (id : ChannelId) :
    i.replyText (.headed (i.channel id).basicWaveReport) ≠ [] := by
  rw [Channel.basicWaveReport_eq, address_channel]
  exact replyText_report_ne_nil i id (by decide) (Channel.join_waveFields_ne_nil _)

/-- With short headers a report is sent as it is, and its fields are those that were joined. -/
theorem replyFields_report {i : Instrument} {query : Text} {id : ChannelId} {verb : Text}
    {fields : List Text} (hmode : i.headerMode = .short) (hverb : ' ' ∉ verb)
    (hanswer : Answer i (normalize query)
      (.headed (id.address ++ verb ++ ' ' :: Text.join ',' fields)))
    (hne : fields ≠ []) (hfields : ∀ field ∈ fields, ',' ∉ field) :
    replyFields (i.process query).2 = fields := by
  have hheader := space_not_mem_address_append id hverb
  have hreply : (i.process query).2 =
      Header.shorten (id.address ++ verb ++ ' ' :: Text.join ',' fields) := by
    rw [hanswer.process]
    show i.headerMode.format _ = _
    rw [hmode]
    rfl
  rw [replyFields, hreply, Header.strip, Header.shorten,
    Header.parameters?_respell (fun _ _ => Verb.isPlain_short?), Header.parameters?,
    Text.after?_append_cons hheader, Option.getD_some, Text.split_join hne hfields]

theorem normalize_outputQuery (id : ChannelId) :
    normalize (id.address ++ "OUTP?".toList) = id.address ++ "OUTP?".toList := by
  cases id <;> decide +kernel

theorem normalize_waveQuery (id : ChannelId) :
    normalize (id.address ++ "BSWV?".toList) = id.address ++ "BSWV?".toList := by
  cases id <;> decide +kernel

/-- The fields of the reply to the output query are those of the channel. -/
theorem replyFields_output {i : Instrument} (id : ChannelId) (hmode : i.headerMode = .short)
    (htokens : ∀ key, IsToken ((i.channel id).settings.value key)) :
    replyFields (i.process (id.address ++ "OUTP?".toList)).2 =
      Channel.outputFields (i.channel id).settings := by
  have hanswer : Answer i (normalize (id.address ++ "OUTP?".toList))
      (.headed (i.channel id).outputReport) := by
    rw [normalize_outputQuery]
    exact .output id
  rw [Channel.outputReport_eq, address_channel] at hanswer
  exact replyFields_report hmode (by decide) hanswer (List.cons_ne_nil _ _)
    (Channel.comma_not_mem_outputFields htokens)

theorem replyFields_wave {i : Instrument} (id : ChannelId) (hmode : i.headerMode = .short)
    (htokens : ∀ key, IsToken ((i.channel id).settings.value key)) :
    replyFields (i.process (id.address ++ "BSWV?".toList)).2 =
      Channel.waveFields (i.channel id).settings := by
  have hanswer : Answer i (normalize (id.address ++ "BSWV?".toList))
      (.headed (i.channel id).basicWaveReport) := by
    rw [normalize_waveQuery]
    exact .wave id
  rw [Channel.basicWaveReport_eq, address_channel] at hanswer
  exact replyFields_report hmode (by decide) hanswer (Channel.waveFields_ne_nil _)
    (Channel.comma_not_mem_waveFields htokens)

/-- **Reports tell the settings.** Two instruments with short headers, whatever each has been
through, whose channels give the same two reports have the same settings there: the replies cut at
their commas are the fields of the channel, whatever was stored in it. -/
theorem reports_determine_settings (model other : Model) (history history' : List Text)
    (id : ChannelId) (hmode : ((new model).after history).headerMode = .short)
    (hmode' : ((new other).after history').headerMode = .short)
    (houtput : (((new model).after history).process (id.address ++ "OUTP?".toList)).2 =
      (((new other).after history').process (id.address ++ "OUTP?".toList)).2)
    (hwave : (((new model).after history).process (id.address ++ "BSWV?".toList)).2 =
      (((new other).after history').process (id.address ++ "BSWV?".toList)).2) :
    let s := (((new model).after history).channel id).settings
    let t := (((new other).after history').channel id).settings
    replyFields (((new model).after history).process (id.address ++ "OUTP?".toList)).2 =
        Channel.outputFields s ∧
      replyFields (((new model).after history).process (id.address ++ "BSWV?".toList)).2 =
        Channel.waveFields s ∧
      (∀ key ∈ Channel.reportedKeys, s.value key = t.value key) ∧
      (s.value Channel.Key.load = Channel.load50 →
        s.value Channel.Key.powerLevel = t.value Channel.Key.powerLevel) := by
  intro s t
  have houtput_s := replyFields_output id hmode (values_isToken model history id)
  have houtput_t := replyFields_output id hmode' (values_isToken other history' id)
  have hwave_s := replyFields_wave id hmode (values_isToken model history id)
  have hwave_t := replyFields_wave id hmode' (values_isToken other history' id)
  refine ⟨houtput_s, hwave_s, ?_⟩
  apply Channel.values_eq_of_fields_eq
  · exact (houtput_s.symm.trans (congrArg replyFields houtput)).trans houtput_t
  · exact (hwave_s.symm.trans (congrArg replyFields hwave)).trans hwave_t

/-- Two ways to the same settings: one channel is set by commands, and the other is copied from a
channel that was. Both loads are 50 ohms, so the level of power is told too. -/
theorem reports_determine_settings_copied :
    ((((new .sdg1032x).after
          ["C1:BSWV WVTP,V;HLEV".toList, "C1:OUTP LOAD,50".toList]).channel .first).settings.value
        Channel.Key.powerLevel) =
      ((((new .sdg1062x).after
          ["c2:output load,50".toList, "c2:bswv wvtp,v;hlev x".toList,
            "PACP C1,C2".toList]).channel .first).settings.value Channel.Key.powerLevel) :=
  (reports_determine_settings .sdg1032x .sdg1062x
    ["C1:BSWV WVTP,V;HLEV".toList, "C1:OUTP LOAD,50".toList]
    ["c2:output load,50".toList, "c2:bswv wvtp,v;hlev x".toList, "PACP C1,C2".toList] .first
    (by decide +kernel) (by decide +kernel) (by decide +kernel) (by decide +kernel)).2.2.2
    (by decide +kernel)

end Instrument

end WaveGen
