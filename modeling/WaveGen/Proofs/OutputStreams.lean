import WaveGen.Proofs.ChannelWrites

/-!
# Output streams take effect from left to right (specification §4.3)

The parameters of an output command form a stream. Each of them is carried out completely or not at
all: `ON` or `OFF`, or a key with the value behind it. A load ends the stream, and so does the first
parameter that is faulty. So a stream is cut in one way into the parameters that were carried out and
what was left, and nothing of what was left has any effect.

* `Channel.CarriedOut` — parameters in front of any load, and what they make of the settings.
* `Channel.outputStream_append` — what follows such parameters finds the settings that they left.
* `Channel.outputStream_of_ok`, `Channel.outputStream_of_error` — how a stream ends.
* `Channel.output_left_to_right` — commands with longer streams, by commands with shorter ones.
-/

namespace WaveGen

/-- The fault, with another command in the place of the one that it names. -/
def CommandFault.inCommand (command : Text) : CommandFault → CommandFault
  | missingParameter _ => missingParameter command
  | unknownSetting key _ => unknownSetting key command
  | invalidValue key value => invalidValue key value
  | notANumber fault => notANumber fault
  | invalidChannel token => invalidChannel token
  | wrongChannel _ => wrongChannel command
  | unsupportedForm _ => unsupportedForm command

namespace Channel

/-! ## Parameters that are carried out -/

/-- The tokens are parameters that are carried out one after the other, none of them a load, and take
the first settings to the second ones. -/
inductive CarriedOut : List Text → Settings → Settings → Prop where
  | nil (s : Settings) : CarriedOut [] s s
  /-- The output is switched. -/
  | state {token : Text} {rest : List Text} {s t : Settings}
      (htoken : token = "ON".toList ∨ token = "OFF".toList)
      (hrest : CarriedOut rest (s.set Key.output token) t) : CarriedOut (token :: rest) s t
  /-- A setting takes a value that it may have. -/
  | set {key value : Text} {rest : List Text} {s t : Settings}
      (hstate : ¬(key = "ON".toList ∨ key = "OFF".toList)) (hload : key ≠ Key.load)
      (hkey : s.contains key = true) (hvalue : admits key value = true)
      (hrest : CarriedOut rest (s.set key value) t) : CarriedOut (key :: value :: rest) s t

/-- Behind parameters that are carried out the stream comes to a load. -/
def ReachesLoad (tokens : List Text) (s : Settings) : Prop :=
  ∃ front rest t, tokens = front ++ Key.load :: rest ∧ CarriedOut front s t

/-- `front` is all of the stream that is carried out, and leaves the settings `t`. -/
structure Longest (front tokens : List Text) (s t : Settings) : Prop where
  isPrefix : front <+: tokens
  carriedOut : CarriedOut front s t
  longest : ∀ other u, other <+: tokens → CarriedOut other s u → other <+: front

variable {c : Channel} {front rest tokens : List Text} {s t u : Settings} {command : Text}

/-- The stream goes on behind parameters that were carried out. -/
theorem outputStream_append (h : CarriedOut front s t) (command : Text) (rest : List Text) :
    outputStream command (front ++ rest) s = outputStream command rest t := by
  induction h with
  | nil s => rfl
  | state htoken hrest ih => rw [List.cons_append, outputStream.eq_def, ← ih]; exact if_pos htoken
  | set hstate hload hkey hvalue hrest ih =>
    rw [List.cons_append, List.cons_append, outputStream, if_neg hstate, if_neg hload, if_pos hkey,
      if_pos hvalue, ih]

/-- At a load that can be changed the stream ends, whatever follows. -/
theorem outputStream_of_load {load : Text} (h : changeLoad s load = .ok t) (command : Text)
    (rest : List Text) : outputStream command (Key.load :: load :: rest) s = (t, .ok ()) := by
  rw [outputStream, if_neg (by decide), if_pos rfl, h]

/-- At a load that cannot be changed it ends too. -/
theorem outputStream_of_faulty_load {load : Text} {fault : CommandFault}
    (h : changeLoad s load = .error fault) (command : Text) (rest : List Text) :
    outputStream command (Key.load :: load :: rest) s = (s, .error fault) := by
  rw [outputStream, if_neg (by decide), if_pos rfl, h]

theorem carriedOut_state_iff {token : Text} (htoken : token = "ON".toList ∨ token = "OFF".toList) :
    CarriedOut (token :: rest) s t ↔ CarriedOut rest (s.set Key.output token) t := by
  constructor
  · intro h
    cases h with
    | state _ hrest => exact hrest
    | set hstate => exact absurd htoken hstate
  · exact .state htoken

theorem carriedOut_set_iff {key value : Text} (hstate : ¬(key = "ON".toList ∨ key = "OFF".toList))
    (hload : key ≠ Key.load) (hkey : s.contains key = true) (hvalue : admits key value = true) :
    CarriedOut (key :: value :: rest) s t ↔ CarriedOut rest (s.set key value) t := by
  constructor
  · intro h
    cases h with
    | state htoken => exact absurd htoken hstate
    | set _ _ _ _ hrest => exact hrest
  · exact .set hstate hload hkey hvalue

/-- A cut behind parameters that were carried out falls between two parameters. -/
theorem CarriedOut.append_iff (h : CarriedOut front s t) :
    CarriedOut (front ++ rest) s u ↔ CarriedOut rest t u := by
  induction h with
  | nil s => exact Iff.rfl
  | state htoken hrest ih => exact (carriedOut_state_iff htoken).trans ih
  | set hstate hload hkey hvalue hrest ih =>
    exact (carriedOut_set_iff hstate hload hkey hvalue).trans ih

/-- A load is no parameter of this kind, so a stream of them comes to none. -/
theorem CarriedOut.not_reachesLoad (h : CarriedOut tokens s t) : ¬ReachesLoad tokens s := by
  rintro ⟨front, rest, u, rfl, hfront⟩
  have hrest := hfront.append_iff.mp h
  cases hrest with
  | state htoken => exact absurd htoken (by decide)
  | set _ hload => exact hload rfl

/-- No parameter at the start of the stream can be carried out, unless it is a load. -/
def Stuck (tokens : List Text) (s : Settings) : Prop :=
  ∀ front t, front <+: tokens → CarriedOut front s t → front = []

theorem stuck_of_forall_ne {token : Text} {rest : List Text}
    (hstate : ¬(token = "ON".toList ∨ token = "OFF".toList))
    (h : ∀ value more, rest = value :: more → token ≠ Key.load → s.contains token = true →
      admits token value = false) : Stuck (token :: rest) s := by
  intro front t hfront hcarried
  obtain ⟨more, hmore⟩ := hfront
  cases hcarried with
  | nil => rfl
  | state htoken =>
    rw [List.cons_append] at hmore
    exact absurd ((List.cons.inj hmore).1 ▸ htoken) hstate
  | set _ hload hkey hvalue =>
    rw [List.cons_append, List.cons_append] at hmore
    obtain ⟨rfl, hrest⟩ := List.cons.inj hmore
    rw [h _ _ hrest.symm hload hkey] at hvalue
    cases hvalue

/-- What is carried out in front of a point where the stream is stuck is all that is carried out. -/
theorem CarriedOut.longest (h : CarriedOut front s t) (hstuck : Stuck rest t) :
    Longest front (front ++ rest) s t := by
  refine ⟨List.prefix_append front rest, h, fun other u hother hcarried => ?_⟩
  rcases List.prefix_or_prefix_of_prefix hother (List.prefix_append front rest) with hle | hge
  · exact hle
  · -- a longer part would go on where the stream is stuck
    obtain ⟨more, rfl⟩ := hge
    have hmore := hstuck more u ((List.prefix_append_right_inj front).mp hother)
      (h.append_iff.mp hcarried)
    simp [hmore]

/-! ## How a stream ends -/

/-- A stream succeeds at its end, or at a load that can be changed. -/
theorem outputStream_of_ok (h : outputStream command tokens s = (u, .ok ())) :
    CarriedOut tokens s u ∨
      ∃ front load rest t, tokens = front ++ Key.load :: load :: rest ∧ CarriedOut front s t ∧
        changeLoad t load = .ok u := by
  fun_induction outputStream command tokens s with
  | case1 s =>
    cases h
    exact .inl (.nil _)
  | case2 token rest s htoken ih =>
    rcases ih h with hall | ⟨front, load, more, t, rfl, hfront, hchange⟩
    · exact .inl (.state htoken hall)
    · exact .inr ⟨token :: front, load, more, t, rfl, .state htoken hfront, hchange⟩
  | case3 s => cases h
  | case4 s load rest changed hchange =>
    cases h
    exact .inr ⟨[], load, rest, s, rfl, .nil s, hchange⟩
  | case5 s => cases h
  | case6 token s => cases h
  | case7 token s hstate hload hkey value rest hvalue ih =>
    rcases ih h with hall | ⟨front, load, more, t, rfl, hfront, hchange⟩
    · exact .inl (.set hstate hload hkey hvalue hall)
    · exact .inr ⟨token :: value :: front, load, more, t, rfl,
        .set hstate hload hkey hvalue hfront, hchange⟩
  | case8 token s => cases h
  | case9 token rest s => cases h

/-- **A stream that fails leaves what was carried out in front of the fault**, and nothing else. -/
theorem outputStream_of_error {fault : CommandFault}
    (h : outputStream command tokens s = (u, .error fault)) :
    ∃ front rest, tokens = front ++ rest ∧ CarriedOut front s u ∧ Stuck rest u := by
  -- a parameter that is carried out joins those in front of the fault; at any other one it lies
  fun_induction outputStream command tokens s with
  | case1 s => cases h
  | case2 token rest s htoken ih =>
    obtain ⟨front, more, rfl, hfront, hstuck⟩ := ih h
    exact ⟨token :: front, more, rfl, .state htoken hfront, hstuck⟩
  | case3 s hstate =>
    cases h
    exact ⟨[], _, rfl, .nil _, stuck_of_forall_ne hstate fun _ _ hrest => by cases hrest⟩
  | case4 s load rest changed => cases h
  | case5 s load rest fault hchange hstate =>
    cases h
    exact ⟨[], _, rfl, .nil _, stuck_of_forall_ne hstate fun _ _ _ hne => absurd rfl hne⟩
  | case6 token s hstate =>
    cases h
    exact ⟨[], _, rfl, .nil _, stuck_of_forall_ne hstate fun _ _ hrest => by cases hrest⟩
  | case7 token s hstate hload hkey value rest hvalue ih =>
    obtain ⟨front, more, rfl, hfront, hstuck⟩ := ih h
    exact ⟨token :: value :: front, more, rfl, .set hstate hload hkey hvalue hfront, hstuck⟩
  | case8 token s hstate hload hkey value rest hvalue =>
    cases h
    refine ⟨[], _, rfl, .nil _, stuck_of_forall_ne hstate fun other more hrest _ _ => ?_⟩
    cases hrest
    exact Bool.eq_false_iff.mpr hvalue
  | case9 token rest s hstate hload hkey =>
    cases h
    exact ⟨[], _, rfl, .nil _, stuck_of_forall_ne hstate fun _ _ _ _ hmem => absurd hmem hkey⟩

/-- A change of load that fails names no command. -/
theorem inCommand_of_changeLoad {load : Text} {fault : CommandFault}
    (h : changeLoad s load = .error fault) (command : Text) : fault.inCommand command = fault := by
  rw [changeLoad] at h
  split at h
  · cases h
  · split at h
    · cases h
      rfl
    · split at h
      · cases h
      · cases h
        rfl

/-- The command matters to the faults only that name it. -/
theorem outputStream_inCommand (command other : Text) (tokens : List Text) (s : Settings) :
    outputStream other tokens s =
      ((outputStream command tokens s).1,
        (outputStream command tokens s).2.mapError (.inCommand other)) := by
  fun_induction outputStream command tokens s with
  | case1 s => rfl
  | case2 token rest s htoken ih =>
    rw [outputStream.eq_def, ← ih]
    exact if_pos htoken
  | case3 s hstate =>
    rw [outputStream, if_neg hstate, if_pos rfl]
    rfl
  | case4 s load rest changed hchange hstate => exact outputStream_of_load hchange other rest
  | case5 s load rest fault hchange hstate =>
    rw [outputStream_of_faulty_load hchange, Except.mapError, inCommand_of_changeLoad hchange]
  | case6 token s hstate hload hkey =>
    rw [outputStream, if_neg hstate, if_neg hload, if_pos hkey]
    rfl
  | case7 token s hstate hload hkey value rest hvalue ih =>
    rw [outputStream, if_neg hstate, if_neg hload, if_pos hkey, if_pos hvalue, ih]
  | case8 token s hstate hload hkey value rest hvalue =>
    rw [outputStream, if_neg hstate, if_neg hload, if_pos hkey, if_neg hvalue]
    rfl
  | case9 token rest s hstate hload hkey =>
    rw [outputStream.eq_def]
    dsimp only
    rw [if_neg hstate, if_neg hload, if_neg hkey]
    rfl

/-! ## Commands -/

/-- An output command with these parameters, without the address of a channel. -/
def outputBody (tokens : List Text) : Text := "OUTP ".toList ++ Text.join ',' tokens

/-- An output command with these parameters. -/
def outputCommand (c : Channel) (tokens : List Text) : Text := c.address ++ outputBody tokens

/-- The parameters of an output command that was given without the address of a channel. A command
that has no space behind its verb has none. -/
def outputTokens (body : Text) : List Text :=
  match parameterWord outputVerb body with
  | .ok word => Text.split ',' word
  | .error _ => []

/-- Parameters that can stand in a command: there is one at least, and none holds a character that
ends it. -/
structure IsStream (tokens : List Text) : Prop where
  ne_nil : tokens ≠ []
  comma : ∀ token ∈ tokens, ',' ∉ token
  space : ∀ token ∈ tokens, ' ' ∉ token

theorem IsStream.append {A B : List Text} (hA : IsStream A) (hB : IsStream B) :
    IsStream (A ++ B) where
  ne_nil := List.append_ne_nil_of_left_ne_nil hA.ne_nil B
  comma := List.forall_mem_append.mpr ⟨hA.comma, hB.comma⟩
  space := List.forall_mem_append.mpr ⟨hA.space, hB.space⟩

/-- The tokens between the commas of a word are parameters that can stand in a command. -/
theorem IsStream.of_prefix_split {parameters : Text} (hne : front ≠ [])
    (h : front <+: Text.split ',' (Text.before ' ' parameters)) : IsStream front where
  ne_nil := hne
  comma := fun _ htoken => Text.not_mem_of_mem_split (h.subset htoken)
  space := fun _ htoken hspace =>
    Text.not_mem_before ' ' parameters (Text.mem_of_mem_split (h.subset htoken) hspace)

theorem process_output (c : Channel) (tail : Text) :
    c.process (c.address ++ (outputVerb ++ tail)) = c.output (outputVerb ++ tail) := by
  have hverb : Text.startsWith outputVerb (outputVerb ++ tail) = true :=
    Text.startsWith_iff.mpr ⟨tail, rfl⟩
  rw [process, Text.dropHead?_eq_some_iff.mpr rfl]
  dsimp only
  rw [if_pos hverb]

/-- What an output command with parameters comes to. -/
theorem output_parameters (c : Channel) (parameters : Text) :
    c.output ("OUTP ".toList ++ parameters) =
      Prod.map (fun settings => { c with settings }) (Except.map fun _ => .silent)
        (outputStream ("OUTP ".toList ++ parameters) (Text.split ',' (Text.before ' ' parameters))
          c.settings) := by
  have hword : parameterWord outputVerb ("OUTP ".toList ++ parameters) =
      .ok (Text.before ' ' parameters) := rfl
  rw [output, if_neg (by simp), hword]
  rfl

theorem process_outputCommand (c : Channel) (h : IsStream tokens) :
    c.process (c.outputCommand tokens) =
      Prod.map (fun settings => { c with settings }) (Except.map fun _ => .silent)
        (outputStream (outputBody tokens) tokens c.settings) := by
  have hspace : ' ' ∉ Text.join ',' tokens := Text.not_mem_join (by decide) h.space
  have hpieces : Text.split ',' (Text.before ' ' (Text.join ',' tokens)) = tokens := by
    rw [Text.before_of_not_mem hspace, Text.split_join h.ne_nil h.comma]
  have hbody := (process_output c (' ' :: Text.join ',' tokens)).trans
    (output_parameters c (Text.join ',' tokens))
  rw [hpieces] at hbody
  exact hbody

/-- A command succeeds when its stream does. -/
theorem outputStream_of_process {left : Channel} (h : IsStream tokens)
    (hleft : c.process (c.outputCommand tokens) = (left, .ok .silent)) :
    ∃ settings, left = { c with settings } ∧
      outputStream (outputBody tokens) tokens c.settings = (settings, .ok ()) := by
  rw [process_outputCommand c h] at hleft
  rcases hstream : outputStream (outputBody tokens) tokens c.settings with ⟨settings, fault | ⟨⟨⟩⟩⟩
  · rw [hstream] at hleft
    cases hleft
  · rw [hstream] at hleft
    exact ⟨settings, (Prod.mk.inj hleft).1.symm, rfl⟩

/-- A longer stream goes on where a shorter one ended, unless that came to a load. -/
theorem process_append_of_not_reachesLoad {left : Channel} {A B : List Text} (hA : IsStream A)
    (hB : IsStream B) (hleft : c.process (c.outputCommand A) = (left, .ok .silent))
    (hload : ¬ReachesLoad A c.settings) :
    c.process (c.outputCommand (A ++ B)) =
      Prod.map id (Except.mapError (.inCommand (outputBody (A ++ B))))
        (left.process (c.outputCommand B)) := by
  obtain ⟨settings, rfl, hstream⟩ := outputStream_of_process hA hleft
  rcases outputStream_of_ok hstream with hall | ⟨front, load, rest, t, htokens, hfront, -⟩
  · have hB' := process_outputCommand { c with settings } hB
    rw [process_outputCommand c (hA.append hB), outputStream_append hall,
      outputStream_inCommand (outputBody B)]
    show _ = Prod.map id _ (process _ (outputCommand { c with settings } B))
    rw [hB']
    rcases outputStream (outputBody B) B settings with ⟨after, fault | ⟨⟨⟩⟩⟩
    · rfl
    · rfl
  · exact absurd ⟨front, load :: rest, t, htokens, hfront⟩ hload

/-- What stands behind a load does not count. -/
theorem process_append_of_reachesLoad {left : Channel} {A B : List Text} (hA : IsStream A)
    (hB : IsStream B) (hleft : c.process (c.outputCommand A) = (left, .ok .silent))
    (hload : ReachesLoad A c.settings) :
    c.process (c.outputCommand (A ++ B)) = (left, .ok .silent) := by
  obtain ⟨settings, rfl, hstream⟩ := outputStream_of_process hA hleft
  obtain ⟨front, rest, t, rfl, hfront⟩ := hload
  rw [outputStream_append hfront] at hstream
  cases rest with
  | nil =>
    rw [outputStream, if_neg (by decide), if_pos rfl] at hstream
    cases hstream
  | cons load more =>
    cases hchange : changeLoad t load with
    | error fault =>
      rw [outputStream_of_faulty_load hchange] at hstream
      cases hstream
    | ok changed =>
      rw [outputStream_of_load hchange] at hstream
      cases hstream
      rw [process_outputCommand c (hA.append hB), List.append_assoc, outputStream_append hfront,
        List.cons_append, List.cons_append, outputStream_of_load hchange]
      rfl

/-- A command that fails leaves what was carried out in front of the fault. -/
theorem process_output_of_error {failed : Channel} {tail : Text} {fault : CommandFault}
    (h : c.process (c.address ++ (outputVerb ++ tail)) = (failed, .error fault)) :
    ∃ front settings, failed = { c with settings } ∧
      Longest front (outputTokens (outputVerb ++ tail)) c.settings settings ∧
      (front ≠ [] → c.process (c.outputCommand front) = (failed, .ok .silent)) := by
  rw [process_output] at h
  cases hword : parameterWord outputVerb (outputVerb ++ tail) with
  | error found =>
    -- without parameters there is nothing to carry out
    refine ⟨[], c.settings, ?_, ?_, fun hne => absurd rfl hne⟩
    · rw [output, hword] at h
      split at h
      · cases h
      · exact (Prod.mk.inj h).1.symm
    · rw [outputTokens, hword]
      have hstuck : Stuck [] c.settings := fun front t hfront _ => List.prefix_nil.mp hfront
      exact CarriedOut.longest (.nil _) hstuck
  | ok word =>
    obtain ⟨parameters, hbody, rfl⟩ := parameterWord_eq_ok hword
    rw [outputTokens, hword]
    dsimp only
    rw [hbody] at h
    have hparameters := output_parameters c parameters
    rcases hstream : outputStream ("OUTP ".toList ++ parameters)
        (Text.split ',' (Text.before ' ' parameters)) c.settings with ⟨settings, found | ⟨⟨⟩⟩⟩
    · rw [hstream] at hparameters
      have hfailed : failed = { c with settings } := by
        exact (Prod.mk.inj (h.symm.trans hparameters)).1
      obtain ⟨front, rest, htokens, hfront, hstuck⟩ := outputStream_of_error hstream
      refine ⟨front, settings, hfailed, htokens ▸ hfront.longest hstuck, fun hne => ?_⟩
      have hprefix := (hfront.longest hstuck).isPrefix
      rw [process_outputCommand c (.of_prefix_split hne (htokens ▸ hprefix)), hfailed]
      have hall := outputStream_append hfront (outputBody front) []
      rw [List.append_nil] at hall
      rw [hall]
      rfl
    · rw [hstream] at hparameters
      cases h.symm.trans hparameters

/-- **Output streams act from left to right and fail cleanly.** Behind parameters that were carried
out, a longer stream does what the rest alone does on the settings that they left, and has the fault
that the rest has, which names the longer command. Behind a load, the rest does nothing. A command
that fails leaves the settings that the parameters in front of its first faulty one leave. -/
theorem output_left_to_right (c : Channel) :
    (∀ A B, IsStream A → IsStream B → ∀ left,
      c.process (c.outputCommand A) = (left, .ok .silent) →
        (¬ReachesLoad A c.settings → c.process (c.outputCommand (A ++ B)) =
          Prod.map id (Except.mapError (.inCommand (outputBody (A ++ B))))
            (left.process (c.outputCommand B))) ∧
        (ReachesLoad A c.settings → c.process (c.outputCommand (A ++ B)) = (left, .ok .silent))) ∧
    ∀ tail failed fault, c.process (c.address ++ (outputVerb ++ tail)) = (failed, .error fault) →
      ∃ front settings, failed = { c with settings } ∧
        Longest front (outputTokens (outputVerb ++ tail)) c.settings settings ∧
        (front ≠ [] → c.process (c.outputCommand front) = (failed, .ok .silent)) := by
  constructor
  · intro A B hA hB left hleft
    exact ⟨process_append_of_not_reachesLoad hA hB hleft, process_append_of_reachesLoad hA hB hleft⟩
  · intro tail failed fault hfailed
    exact process_output_of_error hfailed

/-- A load that is a value, a load that ends the stream, and a load that there is not. -/
theorem output_left_to_right_loads :
    let c := new 1
    (∃ left, c.process (c.outputCommand ["WVTP".toList, Key.load]) = (left, .ok .silent) ∧
      ¬ReachesLoad ["WVTP".toList, Key.load] c.settings ∧
      c.process (c.outputCommand ["WVTP".toList, Key.load, "BOGUS".toList]) =
        Prod.map id (Except.mapError
            (.inCommand (outputBody ["WVTP".toList, Key.load, "BOGUS".toList])))
          (left.process (c.outputCommand ["BOGUS".toList]))) ∧
    (∃ left, c.process (c.outputCommand ["ON".toList, Key.load, load50]) = (left, .ok .silent) ∧
      ReachesLoad ["ON".toList, Key.load, load50] c.settings ∧
      c.process (c.outputCommand ["ON".toList, Key.load, load50, "PLRT".toList]) =
        (left, .ok .silent)) ∧
    ∃ failed fault,
      c.process (c.address ++ (outputVerb ++ " ON,LOAD,75".toList)) = (failed, .error fault) ∧
      ∃ front settings, failed = { c with settings } ∧
        Longest front (outputTokens (outputVerb ++ " ON,LOAD,75".toList)) c.settings settings ∧
        (front ≠ [] → c.process (c.outputCommand front) = (failed, .ok .silent)) := by
  intro c
  have hvalue : CarriedOut ["WVTP".toList, Key.load] c.settings _ :=
    .set (by decide) (by decide) (by decide) (by decide) (.nil _)
  have hload : ReachesLoad ["ON".toList, Key.load, load50] c.settings :=
    ⟨["ON".toList], [load50], _, rfl, .state (.inl rfl) (.nil _)⟩
  have hleft : c.process (c.outputCommand ["WVTP".toList, Key.load]) = (_, .ok .silent) :=
    Prod.ext rfl (by decide +kernel)
  have hleft' : c.process (c.outputCommand ["ON".toList, Key.load, load50]) = (_, .ok .silent) :=
    Prod.ext rfl (by decide +kernel)
  have hfailed : c.process (c.address ++ (outputVerb ++ " ON,LOAD,75".toList)) =
      (_, .error (.invalidValue Key.load "75".toList)) := Prod.ext rfl (by decide +kernel)
  refine ⟨⟨_, hleft, hvalue.not_reachesLoad, ?_⟩, ⟨_, hleft', hload, ?_⟩, _, _, hfailed, ?_⟩
  · exact ((output_left_to_right c).1 _ ["BOGUS".toList] ⟨by decide, by decide, by decide⟩
      ⟨by decide, by decide, by decide⟩ _ hleft).1 hvalue.not_reachesLoad
  · exact ((output_left_to_right c).1 _ ["PLRT".toList] ⟨by decide, by decide, by decide⟩
      ⟨by decide, by decide, by decide⟩ _ hleft').2 hload
  · exact (output_left_to_right c).2 _ _ _ hfailed

end Channel

end WaveGen
