import WaveGen.Proofs.ComparisonRuns
import WaveGen.Proofs.Exchanges
import WaveGen.Proofs.Models
import WaveGen.Proofs.Reports

/-!
# Comparing the instrument with itself (specification §10.8)

A comparison between the server of one instrument and another instrument behind a plain line
connection finds what it should: nothing if they are of the same model, and otherwise that they
identify themselves differently. What the two have been through before makes no difference, since
the first command resets both.

* `Comparison.Comparable` — a command that both sides respond to: it is one line, and answered just
  if it is a query. All commands of the scripts are.
* `Comparison.world` — the two sides after the same commands. It is the invariant: an exchange leads
  to the world of one command more, and its verdict is known beforehand (`exchange_world`).
* `Comparison.compares_with_itself` — the report of a full comparison.
-/

namespace WaveGen

namespace Comparison

/-! ## Comparable commands -/

/-- A command to which an instrument responds on either side of a comparison. -/
structure Comparable (command : Text) : Prop where
  isLine : command.IsLine
  fits : (Utf8.encode command).length ≤ 4096
  /-- The command is answered if and only if a client waits for a reply. -/
  answered : ∀ i : Instrument, i.HasStoreLists →
    ((i.process command).2 ≠ [] ↔ Client.isQuery command = true)
  /-- The identification query has one spelling. -/
  identifies : command = "*IDN?".toList ∨ Instrument.normalize command ≠ "*IDN?".toList

/-- The queries of all scripts. -/
def askedQueries : List Text :=
  ["*IDN?", "STL?", "STL? BUILDIN", "STL? USER", "C1:OUTP?", "C2:OUTP?", "C1:BSWV?",
    "C2:BSWV?"].map String.toList

theorem asked_spec {query : Text} (h : query ∈ askedQueries) :
    Instrument.normalize query = query ∧ query.IsLine ∧ (Utf8.encode query).length ≤ 4096 ∧
      Client.isQuery query = true := by
  have hall : ∀ query ∈ askedQueries, Instrument.normalize query = query ∧ query.IsLine ∧
      (Utf8.encode query).length ≤ 4096 ∧ Client.isQuery query = true := by decide +kernel
  exact hall query h

/-- Every query of the scripts gets a reply, in any header mode. -/
theorem process_asked_ne_nil {i : Instrument} (hi : i.HasStoreLists) {query : Text}
    (hquery : query ∈ askedQueries) : (i.process query).2 ≠ [] := by
  have hanswers : ∀ query ∈ askedQueries,
      ∃ reply, Instrument.Answer i query reply ∧ i.replyText reply ≠ [] := by
    simp only [askedQueries, List.map_cons, List.map_nil, List.forall_mem_cons, List.not_mem_nil,
      false_implies, implies_true, and_true]
    refine ⟨⟨_, .identification, ?_⟩, ⟨_, .storeList, hi.replyText_builtIn_ne_nil⟩,
      ⟨_, .builtIn ['?'] (by decide), hi.replyText_builtIn_ne_nil⟩,
      ⟨_, .user ['?'] (by decide), hi.replyText_user_ne_nil⟩,
      ⟨_, .output .first, i.replyText_outputReport_ne_nil .first⟩,
      ⟨_, .output .second, i.replyText_outputReport_ne_nil .second⟩,
      ⟨_, .wave .first, i.replyText_basicWaveReport_ne_nil .first⟩,
      ⟨_, .wave .second, i.replyText_basicWaveReport_ne_nil .second⟩⟩
    show i.model.identification ≠ []
    cases i.model <;> decide
  obtain ⟨reply, hanswer, hreply⟩ := hanswers query hquery
  rw [← (asked_spec hquery).1] at hanswer
  rw [hanswer.process]
  exact hreply

/-- A command that is no query, and whose parameters name no list of waveforms, gets no reply. -/
theorem process_write_eq_nil (i : Instrument) {command : Text} (htrim : Text.trim command = command)
    (hquery : Client.isQuery command = false)
    (hparameters : Header.parameters? (Text.upper command) ∉
      [some "BUILDIN".toList, some "USER".toList]) : (i.process command).2 = [] := by
  refine (Instrument.process_snd_eq_nil_or_answer i command).resolve_right ?_
  rintro ⟨reply, hanswer⟩
  rw [← Instrument.isQuery_normalize htrim] at hquery
  have hnames := (hanswer.namesListUnasked hquery).parameters
  rw [Instrument.normalize, htrim, Header.shorten,
    Header.parameters?_respell fun _ _ => Verb.isPlain_short?] at hnames
  simp only [List.mem_cons, List.not_mem_nil, or_false] at hparameters
  exact hparameters hnames

theorem comparable_query {query : Text} (h : query ∈ askedQueries) : Comparable query := by
  obtain ⟨hnormal, hline, hfits, hquery⟩ := asked_spec h
  refine ⟨hline, hfits, fun i hi => iff_of_true (process_asked_ne_nil hi h) hquery, ?_⟩
  rw [hnormal]
  exact em _

theorem comparable_write {command : Text} (hline : command.IsLine)
    (hfits : (Utf8.encode command).length ≤ 4096) (htrim : Text.trim command = command)
    (hquery : Client.isQuery command = false)
    (hparameters : Header.parameters? (Text.upper command) ∉
      [some "BUILDIN".toList, some "USER".toList]) : Comparable command where
  isLine := hline
  fits := hfits
  answered i _ := by
    rw [process_write_eq_nil i htrim hquery hparameters, hquery]
    simp
  identifies := by
    right
    intro hidentity
    rw [← Instrument.isQuery_normalize htrim, hidentity] at hquery
    cases hquery

/-- The commands that are written out in the scripts. -/
theorem comparable_script :
    ((∀ command ∈ resetPreamble, Comparable command) ∧
        ∀ command ∈ commandScript, Comparable command) ∧
      (∀ query ∈ stateQueries, Comparable query) ∧ ∀ query ∈ sweepQueries, Comparable query := by
  have hall : ∀ command ∈ (resetPreamble ++ commandScript) ++ (stateQueries ++ sweepQueries),
      command ∈ askedQueries ∨
        command.IsLine ∧ (Utf8.encode command).length ≤ 4096 ∧ Text.trim command = command ∧
          Client.isQuery command = false ∧
          Header.parameters? (Text.upper command) ∉
            [some "BUILDIN".toList, some "USER".toList] := by decide +kernel
  rw [← List.forall_mem_append, ← List.forall_mem_append, ← List.forall_mem_append]
  intro command hcommand
  rcases hall command hcommand with hquery | ⟨hline, hfits, htrim, hquery, hparameters⟩
  · exact comparable_query hquery
  · exact comparable_write hline hfits htrim hquery hparameters

/-- A command that sets the amplitude or the frequency of the first channel to a number. -/
structure SetsNumber (head number : Text) : Prop where
  head : head = "C1:BSWV AMP,".toList ∨ head = "C1:BSWV FRQ,".toList
  ne_nil : number ≠ []
  length : number.length ≤ 1000
  chars : ∀ c ∈ number, IsNumberChar c

theorem SetsNumber.comparable {head number : Text} (h : SetsNumber head number) :
    Comparable (head ++ number) := by
  have hhead_line : head.IsLine := by rcases h.head with rfl | rfl <;> decide
  have hnumber_line : number.IsLine := fun hmem => absurd (h.chars _ hmem) (by decide)
  have hhead_length : head.length = 12 := by rcases h.head with rfl | rfl <;> rfl
  refine comparable_write (Text.isLine_append_iff.mpr ⟨hhead_line, hnumber_line⟩) ?_ ?_ ?_ ?_
  · have hbytes := Utf8.length_encode_le (head ++ number)
    have hlength := h.length
    rw [List.length_append] at hbytes
    omega
  · refine Text.trim_of_ends (fun c hc => ?_) fun c hc => ?_
    · rcases h.head with rfl | rfl <;> obtain rfl := Option.some.inj hc <;> rfl
    · rw [List.getLast?_append_of_ne_nil _ h.ne_nil] at hc
      exact (h.chars c (List.mem_of_getLast? hc)).not_isBlank
  · rcases h.head with rfl | rfl <;> rfl
  · have hparameters : Header.parameters? (Text.upper (head ++ number)) =
        some (head.drop 8 ++ Text.upper number) := by rcases h.head with rfl | rfl <;> rfl
    rw [hparameters]
    rcases h.head with rfl | rfl <;> simp

/-- All that the sweeps do is to set numbers. -/
theorem sweeps_set_numbers {command : Text} (h : command ∈ amplitudeSweep ++ frequencySweep) :
    ∃ head number, SetsNumber head number ∧ command = head ++ number := by
  have hdigits : ∀ n, n < 1000 → (Text.ofNat n).length ≤ 3 := fun n hn =>
    (Nat.length_toDigits_le_iff (by decide) (by decide)).mpr hn
  rcases List.mem_append.mp h with hamplitude | hfrequency
  · obtain ⟨whole, hwhole, hamplitude⟩ := List.mem_flatMap.mp hamplitude
    obtain ⟨tenth, htenth, rfl⟩ := List.mem_map.mp hamplitude
    have hwhole_length := hdigits whole (by have := List.mem_range.mp hwhole; omega)
    have htenth_length := hdigits tenth (by have := List.mem_range.mp htenth; omega)
    refine ⟨_, Text.ofNat whole ++ '.' :: Text.ofNat tenth, ⟨.inl rfl, by simp, ?_, ?_⟩,
      List.append_assoc ..⟩
    · rw [List.length_append, List.length_cons]
      omega
    · intro c hc
      rcases List.mem_append.mp hc with hc | hc
      · exact isNumberChar_ofNat whole c hc
      · rcases List.mem_cons.mp hc with rfl | hc
        · decide
        · exact isNumberChar_ofNat tenth c hc
  · obtain ⟨n, hn, rfl⟩ := List.mem_map.mp hfrequency
    have hlength := hdigits n (List.mem_range.mp (List.mem_of_mem_filter hn))
    exact ⟨_, Text.ofNat n,
      ⟨.inr rfl, Nat.toDigits_ne_nil, hlength.trans (by decide), isNumberChar_ofNat n⟩, rfl⟩

theorem comparable_sweeps {command : Text} (h : command ∈ amplitudeSweep ++ frequencySweep) :
    Comparable command := by
  obtain ⟨head, number, hsets, rfl⟩ := sweeps_set_numbers h
  exact hsets.comparable

/-! ## Exchanges -/

/-- The connections of a comparison: to the server of an instrument, and to an instrument behind a
plain line connection. -/
abbrev Connections := Connection Session × Connection Station

/-- The side that is served. -/
abbrev served : Respondent (StateM Connections) := .onFirst Session.peer.respond

/-- The side behind a plain line connection. -/
abbrev plain : Respondent (StateM Connections) := .onSecond Station.peer.respond

/-- New connections to two instruments. -/
def connections (i j : Instrument) : Connections :=
  (Client.newConnection (.start i 4096), Client.newConnection (.plain j))

/-- An exchange in which both sides are answered if and only if a client waits for a reply. -/
theorem exchange_connections {i j : Instrument} (step : Step) (hline : step.command.IsLine)
    (hfits : (Utf8.encode step.command).length ≤ 4096)
    (hi : (i.process step.command).2.IsLine) (hj : (j.process step.command).2.IsLine)
    (hanswered : (i.process step.command).2 ≠ [] ↔ Client.isQuery step.command = true)
    (hanswered' : (j.process step.command).2 ≠ [] ↔ Client.isQuery step.command = true) :
    exchange served plain step (connections i j) =
      (⟨step, .ok (Client.outcome step.command (i.process step.command).2),
          some (.ok (Client.outcome step.command (j.process step.command).2))⟩,
        connections (i.process step.command).1 (j.process step.command).1) := by
  have hserved := Client.respond_of_receive (Session.peer_receive i hline hfits) hi hanswered
  have hplain := Client.respond_of_receive (Station.peer_receive j hline hj) hj hanswered'
  simp [exchange, connections, Respondent.onFirst, Respondent.onSecond, StateT.run, hserved, hplain]

/-- A reset makes both sides new, whatever they have been through. -/
theorem exchange_reset (i j : Instrument) :
    exchange served plain ⟨"*RST".toList, true⟩ (connections i j) =
      (⟨⟨"*RST".toList, true⟩, .ok none, some (.ok none)⟩,
        connections (.new i.model) (.new j.model)) := by
  have hsilent : ∀ i : Instrument, (i.process "*RST".toList).2 = [] := fun i => by
    rw [Instrument.process_reset]
  have hline : ∀ i : Instrument, (i.process "*RST".toList).2.IsLine := fun i => by
    rw [hsilent]
    exact Text.isLine_nil
  have hanswered : ∀ i : Instrument,
      (i.process "*RST".toList).2 ≠ [] ↔ Client.isQuery "*RST".toList = true :=
    fun i => iff_of_false (not_not.mpr (hsilent i)) (by decide)
  rw [exchange_connections ⟨"*RST".toList, true⟩ (by decide) (by decide) (hline i) (hline j)
    (hanswered i) (hanswered j)]
  dsimp only
  rw [Instrument.process_reset, Instrument.process_reset]
  rfl

/-- The difference that a command shows between two models, if it shows one. -/
def mismatchOf (model other : Model) (command : Text) : Option Mismatch :=
  if command = "*IDN?".toList ∧ model ≠ other then
    some ⟨"*IDN?".toList, visible (model.identification ++ ['\n']),
      visible (other.identification ++ ['\n'])⟩
  else none

theorem mismatchOf_of_ne {model other : Model} {command : Text} (h : command ≠ "*IDN?".toList) :
    mismatchOf model other command = none := if_neg fun hboth => h hboth.1

/-- The verdict on a command that shows this difference, or none. -/
def verdictOf : Option Mismatch → Verdict
  | some mismatch => .differs mismatch
  | none => .agrees

theorem verdictOf_ne_fails (found : Option Mismatch) : verdictOf found ≠ .fails := by
  cases found <;> exact Verdict.noConfusion

/-- The two sides as new instruments that have processed the same commands. -/
def world (model other : Model) (history : List Text) : Connections :=
  connections ((Instrument.new model).after history) ((Instrument.new other).after history)

theorem normalize_identification : Instrument.normalize "*IDN?".toList = "*IDN?".toList :=
  (asked_spec List.mem_cons_self).1

theorem identification_after (model : Model) (history : List Text) :
    (((Instrument.new model).after history).process "*IDN?".toList).2 = model.identification := by
  rw [Instrument.process_identification normalize_identification, Instrument.model_after]
  rfl

/-- What is made of the responses of two models to the same command. -/
theorem verdict_of_models (model other : Model) (history : List Text) {step : Step}
    (h : Comparable step.command) :
    Exchange.verdict ⟨step,
        .ok (Client.outcome step.command
          (((Instrument.new model).after history).process step.command).2),
        some (.ok (Client.outcome step.command
          (((Instrument.new other).after history).process step.command).2))⟩ =
      verdictOf (mismatchOf model other step.command) := by
  rcases h.identifies with hidentity | hother
  · obtain ⟨command, own⟩ := step
    subst hidentity
    rw [identification_after, identification_after]
    cases model <;> cases other <;> rfl
  · have hne : step.command ≠ "*IDN?".toList := by
      intro hidentity
      rw [hidentity] at hother
      exact hother normalize_identification
    rw [Instrument.reply_of_models model other history hother, mismatchOf_of_ne hne]
    exact if_pos rfl

/-- **An exchange** leads on to the next world. The sides agree, or differ in how they identify
themselves. -/
theorem exchange_world (model other : Model) {history : List Text}
    (hhistory : ∀ command ∈ history, command.IsLine) (step : Step) (h : Comparable step.command) :
    (exchange served plain step (world model other history)).1.verdict =
        verdictOf (mismatchOf model other step.command) ∧
      (exchange served plain step (world model other history)).2 =
        world model other (history ++ [step.command]) := by
  have hline : ∀ model, (((Instrument.new model).after history).process step.command).2.IsLine :=
    fun model => ((Instrument.holdsLines_new model).after hhistory).isLine_reply step.command
  have hanswered := fun model => h.answered _ (Instrument.hasStoreLists_after model history)
  rw [world, exchange_connections step h.isLine h.fits (hline model) (hline other) (hanswered model)
    (hanswered other), world, Instrument.after_append, Instrument.after_append]
  exact ⟨verdict_of_models model other history h, rfl⟩

/-! ## Runs -/

section Runs

variable (model other : Model) {history : List Text}

/-- Exchanges one after the other lead on from world to world. -/
theorem exchangeAll_world (hhistory : ∀ command ∈ history, command.IsLine) {list : List Step}
    (hlist : ∀ step ∈ list, Comparable step.command) :
    (∀ x ∈ (exchangeAll served plain list (world model other history)).1,
        x.verdict = verdictOf (mismatchOf model other x.step.command)) ∧
      (exchangeAll served plain list (world model other history)).2 =
        world model other (history ++ list.map (·.command)) := by
  induction list generalizing history with
  | nil =>
    rw [List.map_nil, List.append_nil]
    exact ⟨fun _ hx => absurd hx List.not_mem_nil, rfl⟩
  | cons step rest ih =>
    obtain ⟨hstep, hrest⟩ := List.forall_mem_cons.mp hlist
    obtain ⟨hverdict, hnext⟩ := exchange_world model other hhistory step hstep
    have hlines : ∀ command ∈ history ++ [step.command], command.IsLine :=
      List.forall_mem_append.mpr ⟨hhistory, List.forall_mem_singleton.mpr hstep.isLine⟩
    rw [exchangeAll_cons, hnext]
    obtain ⟨hverdicts, hlast⟩ := ih hlines hrest
    refine ⟨List.forall_mem_cons.mpr ⟨?_, hverdicts⟩, ?_⟩
    · rw [exchange_step]
      exact hverdict
    · rw [hlast, List.append_assoc, List.singleton_append, List.map_cons]

/-- A script that can be run: commands and queries of the state that both sides respond to, with no
question for the identification among the queries. -/
structure Runnable (queries commands : List Text) : Prop where
  commands : ∀ command ∈ commands, Comparable command
  queries : ∀ query ∈ queries, Comparable query ∧ query ≠ "*IDN?".toList

variable {queries commands : List Text}

theorem mem_steps {step : Step} (h : step ∈ steps queries commands) :
    step.own = true ∧ step.command ∈ commands ∨ step.own = false ∧ step.command ∈ queries := by
  obtain ⟨command, hcommand, hstep⟩ := List.mem_flatMap.mp h
  rcases List.mem_cons.mp hstep with rfl | hstate
  · exact .inl ⟨rfl, hcommand⟩
  · obtain ⟨query, hquery, rfl⟩ := List.mem_map.mp hstate
    exact .inr ⟨rfl, hquery⟩

theorem Runnable.comparable (h : Runnable queries commands) :
    ∀ step ∈ steps queries commands, Comparable step.command := by
  intro step hstep
  rcases mem_steps hstep with ⟨-, hcommand⟩ | ⟨-, hquery⟩
  · exact h.commands _ hcommand
  · exact (h.queries _ hquery).1

/-- The queries of the state show no difference, so those of a script are its commands'. -/
theorem filterMap_steps (hqueries : ∀ query ∈ queries, query ≠ "*IDN?".toList) :
    (steps queries commands).filterMap (mismatchOf model other ·.command) =
      commands.filterMap (mismatchOf model other) := by
  have hstates : (stateSteps queries).filterMap (mismatchOf model other ·.command) = [] := by
    refine List.filterMap_eq_nil_iff.mpr fun step hstep => ?_
    obtain ⟨query, hquery, rfl⟩ := List.mem_map.mp hstep
    exact mismatchOf_of_ne (hqueries query hquery)
  induction commands with
  | nil => rfl
  | cons command rest ih =>
    rw [steps, List.flatMap_cons, ← steps, List.filterMap_append, List.filterMap_cons, hstates,
      List.filterMap_cons, ih]
    cases mismatchOf model other command <;> rfl

/-- **A script is gone through to its end**, and its report has the differences that its commands
show. -/
theorem runScript_world (hhistory : ∀ command ∈ history, command.IsLine)
    (h : Runnable queries commands) :
    (runScript served plain queries commands).run (world model other history) =
      (⟨commands.length, (commands.filterMap (mismatchOf model other)).length,
          commands.filterMap (mismatchOf model other)⟩,
        world model other (history ++ (steps queries commands).map (·.command))) := by
  obtain ⟨hverdicts, hlast⟩ := exchangeAll_world model other hhistory h.comparable
  have hsteps := exchangeAll_steps served plain (steps queries commands)
    (world model other history)
  have hcomplete := exchangeUntilEnd_complete served plain (steps queries commands)
    (world model other history)
  have hfront := exchangeUntilEnd_prefix served plain (steps queries commands)
    (world model other history)
  have hfails : ∀ x ∈ (exchangeAll served plain (steps queries commands)
      (world model other history)).1, x.verdict ≠ .fails := by
    intro x hx
    rw [hverdicts x hx]
    exact verdictOf_ne_fails _
  have hends : ∀ x ∈ (exchangeAll served plain (steps queries commands)
      (world model other history)).1, x.ends = false := by
    intro x hx
    refine Bool.eq_false_iff.mpr fun hend => ?_
    have hmem : x.step ∈ steps queries commands := hsteps ▸ List.mem_map_of_mem hx
    rcases mem_steps hmem with ⟨hown, -⟩ | ⟨hown, hquery⟩
    · exact hfails x hx ((Exchange.ends_of_own hown).mp hend)
    · refine (Exchange.ends_of_not_own hown).mp hend ?_
      rw [hverdicts x hx, mismatchOf_of_ne (h.queries _ hquery).2]
      rfl
  rw [runScript_run, hcomplete fun x hx => hends x (hfront.subset hx)]
  generalize exchangeAll served plain (steps queries commands) (world model other history) =
    record at *
  obtain ⟨xs, final⟩ := record
  dsimp only at hverdicts hlast hsteps hfails ⊢
  have hattempts : (reportOf xs).attempts = commands.length := by
    rw [attempts_reportOf, ← countP_steps queries, ← hsteps, List.countP_map]
    rfl
  have hmismatches : (reportOf xs).mismatches = commands.filterMap (mismatchOf model other) := by
    rw [mismatches_reportOf, ← filterMap_steps model other fun query hquery =>
      (h.queries query hquery).2, ← hsteps, List.filterMap_map]
    refine List.filterMap_congr fun x hx => ?_
    rw [Exchange.mismatch?, hverdicts x hx]
    cases hfound : mismatchOf model other x.step.command <;> simp [verdictOf, hfound]
  have hfailures :
      (reportOf xs).failures = (commands.filterMap (mismatchOf model other)).length := by
    have hnone : xs.countP (·.verdict == .fails) = 0 :=
      List.countP_eq_zero.mpr fun x hx hfailed => hfails x hx (beq_iff_eq.mp hfailed)
    rw [failures_reportOf, hmismatches, hnone, Nat.add_zero]
  rw [← hlast, ← hattempts, ← hfailures, ← hmismatches]

/-- The commands of several scripts with their queries, in the order in which they are sent. -/
def sentBy (list : List (List Text × List Text)) : List Text :=
  list.flatMap fun script => (steps script.2 script.1).map (·.command)

/-- Scripts that can be run are gone through one after the other. -/
theorem runScripts_world {list : List (List Text × List Text)}
    (hhistory : ∀ command ∈ history, command.IsLine)
    (hlist : ∀ script ∈ list, Runnable script.2 script.1) :
    let found := list.flatMap (·.1.filterMap (mismatchOf model other))
    (runScripts served plain list).run (world model other history) =
      (⟨(list.map (·.1.length)).sum, found.length, found⟩,
        world model other (history ++ sentBy list)) := by
  induction list generalizing history with
  | nil =>
    intro found
    rw [sentBy, List.flatMap_nil, List.append_nil]
    rfl
  | cons script rest ih =>
    obtain ⟨commands, queries⟩ := script
    intro found
    obtain ⟨hscript, hrest⟩ := List.forall_mem_cons.mp hlist
    have hlines : ∀ command ∈ history ++ (steps queries commands).map (·.command),
        command.IsLine := by
      refine List.forall_mem_append.mpr ⟨hhistory, fun command hcommand => ?_⟩
      obtain ⟨step, hstep, rfl⟩ := List.mem_map.mp hcommand
      exact (hscript.comparable step hstep).isLine
    rw [runScripts, run_bind, runScript_world model other hhistory hscript]
    dsimp only
    rw [run_bind, ih hlines hrest, run_pure, Report.merge, List.append_assoc, ← List.length_append]
    rfl

end Runs

/-! ## Full comparisons -/

theorem runnable_scripts (sweeps : Bool) :
    ∀ script ∈ scripts sweeps, Runnable script.2 script.1 := by
  obtain ⟨⟨-, hscript⟩, hstates, hsweep⟩ := comparable_script
  have hsweeps : ∀ command ∈ amplitudeSweep ++ frequencySweep, Comparable command :=
    fun _ => comparable_sweeps
  obtain ⟨hamplitudes, hfrequencies⟩ := List.forall_mem_append.mp hsweeps
  have hstates_ne : ∀ query ∈ stateQueries, query ≠ "*IDN?".toList := by decide
  have hsweep_ne : ∀ query ∈ sweepQueries, query ≠ "*IDN?".toList := by decide
  have hlast : Runnable stateQueries commandScript :=
    ⟨hscript, fun query hquery => ⟨hstates query hquery, hstates_ne query hquery⟩⟩
  have hqueries : ∀ query ∈ sweepQueries, Comparable query ∧ query ≠ "*IDN?".toList :=
    fun query hquery => ⟨hsweep query hquery, hsweep_ne query hquery⟩
  intro script hmem
  cases sweeps with
  | false =>
    obtain rfl := List.mem_singleton.mp hmem
    exact hlast
  | true =>
    simp only [scripts, if_true, List.mem_append, List.mem_cons, List.not_mem_nil, or_false] at hmem
    rcases hmem with (rfl | rfl) | rfl
    · exact ⟨hamplitudes, hqueries⟩
    · dsimp only
      exact ⟨hfrequencies, hqueries⟩
    · exact hlast

/-- The only difference that the scripts can show is that between the identifications. -/
theorem flatMap_scripts (model other : Model) (sweeps : Bool) :
    (scripts sweeps).flatMap (·.1.filterMap (mismatchOf model other)) =
      (mismatchOf model other "*IDN?".toList).toList := by
  have hnone : ∀ {commands : List Text}, (∀ command ∈ commands, command ≠ "*IDN?".toList) →
      commands.filterMap (mismatchOf model other) = [] := fun h =>
    List.filterMap_eq_nil_iff.mpr fun command hcommand => mismatchOf_of_ne (h command hcommand)
  have hscript : commandScript.filterMap (mismatchOf model other) =
      (mismatchOf model other "*IDN?".toList).toList := by
    have hrest : ∀ command ∈ commandScript.tail, command ≠ "*IDN?".toList := by decide
    have hcons : commandScript = "*IDN?".toList :: commandScript.tail := rfl
    rw [hcons, List.filterMap_cons, hnone hrest]
    cases mismatchOf model other "*IDN?".toList <;> rfl
  have hsweeps : ∀ command ∈ amplitudeSweep ++ frequencySweep, command ≠ "*IDN?".toList := by
    intro command hcommand
    obtain ⟨head, number, hsets, rfl⟩ := sweeps_set_numbers hcommand
    rcases hsets.head with rfl | rfl <;> simp
  obtain ⟨hamplitudes, hfrequencies⟩ := List.forall_mem_append.mp hsweeps
  cases sweeps with
  | false => simp [scripts, hscript]
  | true => simp [scripts, hscript, hnone hamplitudes, hnone hfrequencies]

theorem world_reset (model other : Model) (history : List Text) :
    world model other ("*RST".toList :: history) = world model other history := by
  rw [world, Instrument.after_cons, Instrument.after_cons, Instrument.process_reset,
    Instrument.process_reset]
  rfl

/-- Commands that are sent without comparing lead on from world to world too. -/
theorem sendAll_world (model other : Model) {history commands : List Text}
    (hhistory : ∀ command ∈ history, command.IsLine)
    (hcommands : ∀ command ∈ commands, Comparable command) :
    (sendAll served plain commands).run (world model other history) =
      (true, world model other (history ++ commands)) := by
  induction commands generalizing history with
  | nil =>
    rw [List.append_nil]
    rfl
  | cons command rest ih =>
    obtain ⟨hcommand, hrest⟩ := List.forall_mem_cons.mp hcommands
    obtain ⟨hverdict, hnext⟩ := exchange_world model other hhistory ⟨command, true⟩ hcommand
    have hlines : ∀ line ∈ history ++ [command], line.IsLine :=
      List.forall_mem_append.mpr ⟨hhistory, List.forall_mem_singleton.mpr hcommand.isLine⟩
    rw [sendAll_cons_run]
    dsimp only
    rw [hverdict, if_neg, hnext, ih hlines hrest, List.append_assoc, List.singleton_append]
    exact verdictOf_ne_fails _

/-- A reset makes new instruments of both sides, and the commands behind it are sent to these. -/
theorem sendAll_reset (i j : Instrument) {commands : List Text}
    (h : ∀ command ∈ commands, Comparable command) :
    (sendAll served plain ("*RST".toList :: commands)).run (connections i j) =
      (true, world i.model j.model ("*RST".toList :: commands)) := by
  rw [sendAll_cons_run, exchange_reset]
  dsimp only
  have hnew : connections (.new i.model) (.new j.model) = world i.model j.model [] := rfl
  rw [if_neg Verdict.noConfusion, hnew, world_reset]
  exact sendAll_world i.model j.model (fun _ hmem => absurd hmem List.not_mem_nil) h

/-- **Comparing an instrument with itself.** Whatever the two sides have been through, a comparison
goes through all commands of its scripts on both sides, and leaves both as new instruments that have
processed just these. If the sides are of the same model nothing fails; if they are not, there is
one difference, in how they identify themselves. -/
theorem compares_with_itself (model other : Model) (preset preset' : List Text) (sweeps : Bool) :
    let sides := (Client.newConnection (.start ((Instrument.new model).after preset) 4096),
      Client.newConnection (.plain ((Instrument.new other).after preset')))
    let sent := resetPreamble ++ sentBy (scripts sweeps)
    ∃ report, (runAll (.onFirst Session.peer.respond) (.onSecond Station.peer.respond) sweeps).run
          sides =
        (report, (Client.newConnection (.start ((Instrument.new model).after sent) 4096),
          Client.newConnection (.plain ((Instrument.new other).after sent)))) ∧
      report.attempts = (if sweeps then 220 + 996 + 28 else 28) ∧
      (model = other → report.failures = 0 ∧ report.mismatches = []) ∧
      (model ≠ other → report.failures = 1 ∧ report.mismatches =
        [⟨"*IDN?".toList, visible (model.identification ++ ['\n']),
          visible (other.identification ++ ['\n'])⟩]) := by
  intro sides sent
  have hcomparable := comparable_script.1.1
  have hreset := sendAll_reset ((Instrument.new model).after preset)
    ((Instrument.new other).after preset')
    fun command hcommand => hcomparable command (List.mem_of_mem_tail hcommand)
  have hpreamble : "*RST".toList :: resetPreamble.tail = resetPreamble := rfl
  rw [hpreamble, Instrument.model_after, Instrument.model_after] at hreset
  have hscripts := runScripts_world model other
    (fun command hcommand => (hcomparable command hcommand).isLine) (runnable_scripts sweeps)
  have hattempts : ((scripts sweeps).map (·.1.length)).sum =
      if sweeps then 220 + 996 + 28 else 28 := by cases sweeps <;> decide +kernel
  rw [flatMap_scripts, hattempts] at hscripts
  have hrun : (runAll served plain sweeps).run sides =
      (⟨if sweeps then 220 + 996 + 28 else 28,
          (mismatchOf model other "*IDN?".toList).toList.length,
          (mismatchOf model other "*IDN?".toList).toList⟩, world model other sent) := by
    show (runAll served plain sweeps).run (connections _ _) = _
    rw [runAll, run_bind, hreset]
    exact hscripts
  refine ⟨_, hrun, rfl, fun hmodel => ?_, fun hmodel => ?_⟩
  · have hnone : mismatchOf model other "*IDN?".toList = none := if_neg fun h => h.2 hmodel
    rw [hnone]
    exact ⟨rfl, rfl⟩
  · have hsome : mismatchOf model other "*IDN?".toList = some _ := if_pos ⟨rfl, hmodel⟩
    rw [hsome]
    exact ⟨rfl, rfl⟩

end Comparison

end WaveGen
