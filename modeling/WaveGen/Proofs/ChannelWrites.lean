import WaveGen.Channel
import WaveGen.Proofs.Settings
import WaveGen.Proofs.Text

/-!
# What a channel command writes

Every command for a channel comes to a few kinds of writes to the channel's settings. This module
says which, so that no later proof has to take the command handlers apart again.

* `Channel.changeLoad_cases` — a change of load.
* `Channel.outputStream_preserves` — what every parameter of a stream preserves, the stream does.
* `Channel.waveWrites_cases` — the writes of a basic wave command.
* `Channel.Effect`, `Channel.process_effect` — all that a command does to a channel's settings, with
  what the command says in each case.
-/

namespace WaveGen

/-- A computation of two steps succeeds if both do. -/
theorem bind_eq_ok_iff {ε α β : Type} {x : Except ε α} {f : α → Except ε β} {b : β} :
    (x >>= f) = .ok b ↔ ∃ a, x = .ok a ∧ f a = .ok b := by
  constructor
  · intro h
    cases x with
    | error fault => cases h
    | ok a => exact ⟨a, rfl, h⟩
  · rintro ⟨a, rfl, h⟩
    exact h

/-- A result that was found by computing. -/
theorem eq_ok_of_toOption {ε α : Type} {x : Except ε α} {a : α} (h : x.toOption = some a) :
    x = .ok a := by
  cases x with
  | error fault => cases h
  | ok b =>
    cases h
    rfl

namespace Channel

/-! ## Changes of load -/

theorem loadScale?_isSome {load : Text} {scale : Text → Except QuantityFault Text}
    (h : loadScale? load = some scale) : load = load50 ∨ load = loadHighZ := by
  rw [loadScale?] at h
  split at h
  · exact .inl ‹_›
  · split at h
    · exact .inr ‹_›
    · cases h

/-- Scaling gives one write for each key. -/
theorem scaled_keys {s : Settings} {scale : Text → Except QuantityFault Text} {keys : List Text}
    {writes : List (Text × Text)} (h : scaled s scale keys = .ok writes) :
    writes.map Prod.fst = keys := by
  induction keys generalizing writes with
  | nil =>
    cases h
    rfl
  | cons key rest ih =>
    obtain ⟨value, -, h⟩ := bind_eq_ok_iff.mp h
    obtain ⟨others, hothers, h⟩ := bind_eq_ok_iff.mp h
    cases h
    rw [List.map_cons, ih hothers]

/-- A change of load succeeds if the load is there already, or if there is such a load and all that
depends on it can be scaled. -/
theorem changeLoad_eq_ok_iff {s changed : Settings} {load : Text} :
    changeLoad s load = .ok changed ↔
      s.value Key.load = load ∧ changed = s ∨
        s.value Key.load ≠ load ∧ ∃ scale writes, loadScale? load = some scale ∧
          scaled s scale loadScaled = .ok writes ∧
          changed = (s.set Key.load load).setAll writes := by
  rw [changeLoad]
  by_cases hsame : s.value Key.load = load
  · rw [if_pos hsame]
    simp [hsame, eq_comm]
  · rw [if_neg hsame]
    cases hscale : loadScale? load with
    | none => simp [hsame]
    | some scale =>
      cases hwrites : scaled s scale loadScaled with
      | error fault => simp [hsame, hwrites]
      | ok writes => simp [hsame, hwrites, eq_comm]

/-- A change of load that succeeds changes nothing, or writes one of the two loads and the settings
that are scaled with it. -/
theorem changeLoad_cases {s changed : Settings} {load : Text}
    (h : changeLoad s load = .ok changed) :
    changed = s ∨
      ∃ writes : List (Text × Text), (load = load50 ∨ load = loadHighZ) ∧
        writes.map Prod.fst = loadScaled ∧ changed = (s.set Key.load load).setAll writes := by
  rcases changeLoad_eq_ok_iff.mp h with ⟨-, hsame⟩ | ⟨-, scale, writes, hscale, hwrites, hchanged⟩
  · exact .inl hsame
  · exact .inr ⟨writes, loadScale?_isSome hscale, scaled_keys hwrites, hchanged⟩

/-! ## Streams of parameters -/

/-- **Invariants of streams.** What each parameter of an output command preserves, any stream of
them does, whether it ends in a fault or not. A value that a stream stores is one of its tokens. -/
theorem outputStream_preserves_of_mem {P : Settings → Prop} (command : Text) (tokens : List Text)
    (hstate : ∀ s, ∀ token ∈ tokens, P s → token = "ON".toList ∨ token = "OFF".toList →
      P (s.set Key.output token))
    (hload : ∀ s, ∀ load ∈ tokens, ∀ changed, P s → changeLoad s load = .ok changed → P changed)
    (hset : ∀ s key, ∀ value ∈ tokens, P s → key ≠ Key.load → s.contains key = true →
      admits key value = true → P (s.set key value))
    (s : Settings) (hs : P s) : P (outputStream command tokens s).1 := by
  -- two cases write and go on, a load ends the stream, and the others leave the state as it is
  fun_induction outputStream command tokens s with
  | case1 s => exact hs
  | case2 token rest s htoken ih =>
    exact ih (fun s t ht => hstate s t (.tail _ ht)) (fun s l hl => hload s l (.tail _ hl))
      (fun s k v hv => hset s k v (.tail _ hv)) (hstate s token (.head _) hs htoken)
  | case3 s => exact hs
  | case4 s load rest changed hchange =>
    exact hload s load (.tail _ (.head _)) changed hs hchange
  | case5 s => exact hs
  | case6 token s => exact hs
  | case7 token s hstates hkey hcontains value rest hadmits ih =>
    exact ih (fun s t ht => hstate s t (.tail _ (.tail _ ht)))
      (fun s l hl => hload s l (.tail _ (.tail _ hl)))
      (fun s k v hv => hset s k v (.tail _ (.tail _ hv)))
      (hset s token value (.tail _ (.head _)) hs hkey hcontains hadmits)
  | case8 token s => exact hs
  | case9 token rest s => exact hs

theorem outputStream_preserves {P : Settings → Prop} (command : Text)
    (hstate : ∀ s token, P s → token = "ON".toList ∨ token = "OFF".toList →
      P (s.set Key.output token))
    (hload : ∀ s load changed, P s → changeLoad s load = .ok changed → P changed)
    (hset : ∀ s key value, P s → key ≠ Key.load → s.contains key = true →
      admits key value = true → P (s.set key value))
    (tokens : List Text) (s : Settings) (hs : P s) : P (outputStream command tokens s).1 :=
  outputStream_preserves_of_mem command tokens (fun s token _ => hstate s token)
    (fun s load _ changed => hload s load changed) (fun s key value _ => hset s key value) s hs

/-! ## Parameters of the wave -/

theorem frequencyWrites_keys {value : Text} {writes : List (Text × Text)}
    (h : frequencyWrites value = .ok writes) :
    writes.map Prod.fst = [Key.frequency, Key.period] := by
  obtain ⟨frequency, -, h⟩ := bind_eq_ok_iff.mp h
  obtain ⟨period, -, h⟩ := bind_eq_ok_iff.mp h
  cases h
  rfl

theorem amplitudeWrites_keys {value : Text} {writes : List (Text × Text)}
    (h : amplitudeWrites value = .ok writes) :
    writes.map Prod.fst = [Key.amplitude, Key.effective, Key.high, Key.low] := by
  obtain ⟨wanted, -, h⟩ := bind_eq_ok_iff.mp h
  obtain ⟨effective, -, h⟩ := bind_eq_ok_iff.mp h
  obtain ⟨high, -, h⟩ := bind_eq_ok_iff.mp h
  obtain ⟨low, -, h⟩ := bind_eq_ok_iff.mp h
  cases h
  rfl

theorem ofQuantity_eq_ok {α : Type} {r : Except QuantityFault α} {found : α}
    (h : CommandFault.ofQuantity r = .ok found) : r = .ok found := by
  cases r with
  | ok stored =>
    cases h
    rfl
  | error fault => cases h

/-- Without a value there is nothing to write. -/
theorem waveWrites_none (s : Settings) (command key : Text) :
    ∃ fault, waveWrites s command key none = .error fault := by
  rw [waveWrites]
  split
  · exact ⟨_, rfl⟩
  · exact ⟨_, rfl⟩

/-- A basic wave command that succeeds sets the frequency or the amplitude with what follows from
it, or stores its value as it stands. -/
theorem waveWrites_cases {s : Settings} {command key value : Text} {writes : List (Text × Text)}
    (h : waveWrites s command key (some value) = .ok writes) :
    s.contains key = true ∧
      (key = Key.frequency ∧ frequencyWrites value = .ok writes ∨
        key = Key.amplitude ∧ amplitudeWrites value = .ok writes ∨
        key ≠ Key.frequency ∧ key ≠ Key.amplitude ∧ writes = [(key, value)]) := by
  rw [waveWrites] at h
  split at h
  · rename_i hcontains
    refine ⟨hcontains, ?_⟩
    split at h
    · exact .inl ⟨‹_›, ofQuantity_eq_ok h⟩
    · split at h
      · exact .inr (.inl ⟨‹_›, ofQuantity_eq_ok h⟩)
      · cases h
        exact .inr (.inr ⟨‹_›, ‹_›, rfl⟩)
  · cases h

/-! ## Commands -/

theorem parameterWord_eq_ok {verb command word : Text} (h : parameterWord verb command = .ok word) :
    ∃ parameters, command = verb ++ ' ' :: parameters ∧ word = Text.before ' ' parameters := by
  rw [parameterWord] at h
  cases hrest : Text.dropHead? (verb ++ [' ']) command with
  | none =>
    rw [hrest] at h
    cases h
  | some parameters =>
    rw [hrest] at h
    cases h
    refine ⟨parameters, ?_, rfl⟩
    rw [Text.dropHead?_eq_some_iff.mp hrest, List.append_assoc]
    rfl

/-- What a command may do to the settings of a channel, and what the command says in each case. -/
inductive Effect (c : Channel) (command : Text) : Settings → Prop where
  /-- Nothing is written. -/
  | none : Effect c command c.settings
  /-- An output command carries out the stream of its parameters. -/
  | output (parameters : Text)
      (hcommand : command = c.address ++ "OUTP ".toList ++ parameters) :
      Effect c command
        (outputStream ("OUTP ".toList ++ parameters)
          (Text.split ',' (Text.before ' ' parameters)) c.settings).1
  /-- A basic wave command writes what follows from its first parameter. -/
  | wave (parameters key value : Text) (more : List Text) (writes : List (Text × Text))
      (hcommand : command = c.address ++ "BSWV ".toList ++ parameters)
      (hpieces : Text.split ',' (Text.before ' ' parameters) = key :: value :: more)
      (hwrites :
        waveWrites c.settings ("BSWV ".toList ++ parameters) key (some value) = .ok writes) :
      Effect c command (c.settings.setAll writes)

/-- The first two pieces of a word, when there are two. -/
theorem split_of_second_piece {word value : Text}
    (h : (Text.after? ',' word).map (Text.before ',') = some value) :
    ∃ more, Text.split ',' word = Text.before ',' word :: value :: more := by
  obtain ⟨rest, hrest, rfl⟩ := Option.map_eq_some_iff.mp h
  refine ⟨((Text.after? ',' rest).map (Text.split ',')).getD [], ?_⟩
  rw [Text.split_eq_before_after, hrest, Option.map_some, Option.getD_some,
    ← Text.split_eq_before_after]

theorem first_pieces_of_split {word key value : Text} {more : List Text}
    (h : Text.split ',' word = key :: value :: more) :
    Text.before ',' word = key ∧ (Text.after? ',' word).map (Text.before ',') = some value := by
  rw [Text.split_eq_before_after] at h
  obtain ⟨hkey, hrest⟩ := List.cons.inj h
  cases hafter : Text.after? ',' word with
  | none =>
    rw [hafter] at hrest
    cases hrest
  | some rest =>
    rw [hafter, Option.map_some, Option.getD_some, Text.split_eq_before_after] at hrest
    exact ⟨hkey, congrArg some (List.cons.inj hrest).1⟩

theorem output_effect (c : Channel) {command body : Text} (hbody : command = c.address ++ body) :
    Effect c command (c.output body).1.settings := by
  rw [output]
  split
  · exact .none
  · cases hword : parameterWord outputVerb body with
    | error fault => exact .none
    | ok word =>
      obtain ⟨parameters, rfl, rfl⟩ := parameterWord_eq_ok hword
      refine .output parameters ?_
      rw [hbody, List.append_assoc]
      rfl

theorem basicWave_effect (c : Channel) {command body : Text} (hbody : command = c.address ++ body) :
    Effect c command (c.basicWave body).1.settings := by
  rw [basicWave]
  split
  · exact .none
  · cases hword : parameterWord basicWaveVerb body with
    | error fault => exact .none
    | ok word =>
      obtain ⟨parameters, rfl, rfl⟩ := parameterWord_eq_ok hword
      dsimp only
      cases hvalue : (Text.after? ',' (Text.before ' ' parameters)).map (Text.before ',') with
      | none =>
        obtain ⟨fault, hfault⟩ := waveWrites_none c.settings (basicWaveVerb ++ ' ' :: parameters)
          (Text.before ',' (Text.before ' ' parameters))
        rw [hfault]
        exact .none
      | some value =>
        obtain ⟨more, hpieces⟩ := split_of_second_piece hvalue
        cases hwrites : waveWrites c.settings (basicWaveVerb ++ ' ' :: parameters)
            (Text.before ',' (Text.before ' ' parameters)) (some value) with
        | error fault => exact .none
        | ok writes =>
          refine .wave parameters _ value more writes ?_ hpieces hwrites
          rw [hbody, List.append_assoc]
          rfl

/-- **All that a command does to a channel's settings.** -/
theorem process_effect (c : Channel) (command : Text) :
    Effect c command (c.process command).1.settings := by
  rw [process]
  cases hbody : Text.dropHead? c.address command with
  | none => exact .none
  | some body =>
    dsimp only
    split
    · exact output_effect c (Text.dropHead?_eq_some_iff.mp hbody)
    · split
      · exact basicWave_effect c (Text.dropHead?_eq_some_iff.mp hbody)
      · exact .none

/-- A command never changes the keys of a channel's settings. -/
theorem Effect.keys_eq {c : Channel} {command : Text} {settings : Settings}
    (h : Effect c command settings) : settings.keys = c.settings.keys := by
  cases h with
  | none => rfl
  | output parameters =>
    -- one goal for each way a parameter of the stream writes
    refine outputStream_preserves (P := fun s => s.keys = c.settings.keys) _ ?_ ?_ ?_ _ _ rfl
    · intro s token hs _
      rw [Settings.keys_set, hs]
    · intro s load changed hs hchange
      rcases changeLoad_cases hchange with rfl | ⟨writes, -, -, rfl⟩
      · exact hs
      · rw [Settings.keys_setAll, Settings.keys_set, hs]
    · intro s key value hs _ _ _
      rw [Settings.keys_set, hs]
  | wave parameters key value more writes => exact Settings.keys_setAll c.settings writes

/-- What a basic wave command with a parameter and its value comes to. -/
theorem process_basicWave (c : Channel) {parameters key value : Text} {more : List Text}
    (hpieces : Text.split ',' (Text.before ' ' parameters) = key :: value :: more) :
    c.process (c.address ++ ("BSWV ".toList ++ parameters)) =
      match waveWrites c.settings ("BSWV ".toList ++ parameters) key (some value) with
      | .error fault => (c, .error fault)
      | .ok writes => ({ c with settings := c.settings.setAll writes }, .ok .silent) := by
  have hbody : Text.dropHead? c.address (c.address ++ ("BSWV ".toList ++ parameters)) =
      some ("BSWV ".toList ++ parameters) := Text.dropHead?_eq_some_iff.mpr rfl
  have hword : parameterWord basicWaveVerb ("BSWV ".toList ++ parameters) =
      .ok (Text.before ' ' parameters) := rfl
  obtain ⟨hkey, hvalue⟩ := first_pieces_of_split hpieces
  rw [process, hbody]
  show c.basicWave ("BSWV ".toList ++ parameters) = _
  rw [basicWave, if_neg (by simp), hword]
  dsimp only
  cases hwrites : waveWrites c.settings ("BSWV ".toList ++ parameters) key (some value) with
  | error fault => rw [hkey, hvalue, hwrites]
  | ok writes => rw [hkey, hvalue, hwrites]

/-- What a basic wave command comes to that names one parameter and can be carried out. -/
theorem process_waveWrites (c : Channel) {key value : Text} {writes : List (Text × Text)}
    (hkey : ',' ∉ key ∧ ' ' ∉ key) (hvalue : ',' ∉ value ∧ ' ' ∉ value)
    (hwrites : ∀ command, waveWrites c.settings command key (some value) = .ok writes) :
    c.process (c.address ++ ("BSWV ".toList ++ (key ++ ',' :: value))) =
      ({ c with settings := c.settings.setAll writes }, .ok .silent) := by
  have hword : ' ' ∉ key ++ ',' :: value := by
    simp only [List.mem_append, List.mem_cons, not_or]
    exact ⟨hkey.2, by decide, hvalue.2⟩
  have hpieces : Text.split ',' (Text.before ' ' (key ++ ',' :: value)) = [key, value] := by
    rw [Text.before_of_not_mem hword]
    exact Text.split_eq_pair_iff.mpr ⟨rfl, hkey.1, hvalue.1⟩
  have hprocess := process_basicWave c hpieces
  rw [hwrites] at hprocess
  exact hprocess

end Channel

end WaveGen
