import WaveGen.CommandLine

/-!
# What the layers of a configuration come to (specification §10.4)

A configuration is what the environment says, upon what the file says, upon what is built in, and
the flags of the command line come on top. Layers are put together by sections, so that one which
gives a single field of a section must leave the others of that section as they are. The values are
read only when the layers lie upon each other, and looked at only when the flags were applied: what
is hidden is neither read nor looked at.

How layers are put together is a library's affair, and all that is used of it is said by
`Layer.Merges`. The way that the program has, `Layer.above`, is one such way (`Layer.merges_above`).

* `Layer.Combined`, `Layer.Merges` — what is assumed of putting one layer upon another.
* `Field` — the eight fields, each with its place in a layer, its values and its flag.
* `Field.loaded?`, `Field.final?` — what a field comes to, by the layers and the flag.
* `Configuration.ofLayer?_merge_eq_some_iff` — loading a configuration is loading each field.
* `CommandLine.configuration_of_layers` — what serving starts with, or why it does not start.
-/

namespace WaveGen

/-! ## Fields -/

/-- The fields of a configuration. -/
inductive Field where
  | name
  | logLevel
  | logFormat
  | bindAddress
  | port
  | bindRetry
  | lineLimit
  | model
deriving DecidableEq, Repr

namespace Field

/-- What the values of a field are. -/
@[reducible] def Carrier : Field → Type
  | name => Text
  | logLevel => Text
  | logFormat => Text
  | bindAddress => Text
  | port => UInt16
  | bindRetry => UInt64
  | lineLimit => UInt64
  | model => Text

/-- The section that a field belongs to. -/
def heading : Field → String
  | name => "application"
  | logLevel => "application"
  | logFormat => "application"
  | bindAddress => "server"
  | port => "server"
  | bindRetry => "server"
  | lineLimit => "server"
  | model => "instrument"

/-- The name of a field in its section. -/
def key : Field → String
  | name => "name"
  | logLevel => "log_level"
  | logFormat => "log_format"
  | bindAddress => "bind_address"
  | port => "port"
  | bindRetry => "bind_retry_ms"
  | lineLimit => "max_line_bytes"
  | model => "model"

/-- The place of a field in its section, where a section is given by the order of its fields. -/
def place : Field → Nat
  | name => 0
  | logLevel => 1
  | logFormat => 2
  | bindAddress => 0
  | port => 1
  | bindRetry => 2
  | lineLimit => 3
  | model => 0

/-- The value of a field. -/
def of (c : Configuration) : (f : Field) → f.Carrier
  | name => c.name
  | logLevel => c.logLevel
  | logFormat => c.logFormat
  | bindAddress => c.bindAddress
  | port => c.port
  | bindRetry => c.bindRetry
  | lineLimit => c.lineLimit
  | model => c.model

/-- The value that a field has from what a layer says of it, if it fits the field. -/
def read : (f : Field) → Value → Option f.Carrier
  | name => Value.text?
  | logLevel => Value.text?
  | logFormat => Value.text?
  | bindAddress => Value.text?
  | port => Value.uint16?
  | bindRetry => Value.uint64?
  | lineLimit => Value.uint64?
  | model => Value.text?

/-- The value of a field's flag, if the field has one and it was given. -/
def flag? (flags : Configuration.Flags) : (f : Field) → Option f.Carrier
  | name => none
  | logLevel => flags.logLevel
  | logFormat => none
  | bindAddress => flags.bindAddress
  | port => flags.port
  | bindRetry => none
  | lineLimit => none
  | model => flags.model

/-- What holds of each of the fields holds of all. -/
theorem forall_of {P : Field → Prop}
    (h : P name ∧ P logLevel ∧ P logFormat ∧ P bindAddress ∧ P port ∧ P bindRetry ∧ P lineLimit ∧
      P model) (f : Field) : P f := by
  obtain ⟨h1, h2, h3, h4, h5, h6, h7, h8⟩ := h
  cases f <;> assumption

theorem eq_of_heading_key {f g : Field} (hheading : f.heading = g.heading) (hkey : f.key = g.key) :
    f = g := by
  revert hheading hkey
  cases f <;> cases g <;> decide

/-- A configuration is no more than its fields. -/
theorem configuration_ext {c d : Configuration} (h : ∀ f : Field, f.of c = f.of d) : c = d := by
  cases c
  cases d
  exact Configuration.mk.injEq .. |>.mpr
    ⟨h name, h logLevel, h logFormat, h bindAddress, h port, h bindRetry, h lineLimit, h model⟩

/-- Values for all fields make a configuration. -/
theorem exists_configuration (v : (f : Field) → f.Carrier) : ∃ c, ∀ f : Field, f.of c = v f :=
  ⟨⟨v name, v logLevel, v logFormat, v bindAddress, v port, v bindRetry, v lineLimit, v model⟩,
    fun f => by cases f <;> rfl⟩

theorem of_withFlags (c : Configuration) (flags : Configuration.Flags) (f : Field) :
    f.of (c.withFlags flags) = (f.flag? flags).getD (f.of c) := by
  cases f <;> rfl

end Field

/-! ## What a layer says of a field -/

/-- Whether a section gives its fields by name. -/
def Section.isTable : Section → Bool
  | .fields _ => true
  | _ => false

namespace Layer

/-- The entries that a layer has in a section. -/
def entries (l : Layer) (heading : Text) : List (Text × Value) :=
  match l heading with
  | some (.fields entries) => entries
  | _ => []

/-- What a layer says of a field. -/
def value? (l : Layer) (f : Field) : Option Value :=
  (l.entries f.heading.toList).lookup f.key.toList

/-- Whatever a layer says of a section, it says by the names of the fields. -/
def IsTables (l : Layer) : Prop :=
  ∀ f : Field, ∀ s ∈ l f.heading.toList, ∃ entries, s = .fields entries

/-- Sections may be looked at one by one. -/
theorem isTables_of_all {l : Layer}
    (h : ∀ f : Field, (l f.heading.toList).all Section.isTable = true) : l.IsTables := by
  intro f s hs
  have hall := h f
  rw [hs] at hall
  cases s with
  | fields entries => exact ⟨entries, rfl⟩
  | items values => cases hall
  | unfit => cases hall

/-- The layer that says this of a field, and otherwise what it said before. -/
def set (l : Layer) (f : Field) (v : Value) : Layer := fun heading =>
  if heading = f.heading.toList then some (.fields ((f.key.toList, v) :: l.entries heading))
  else l heading

theorem IsTables.set {l : Layer} (h : l.IsTables) (f : Field) (v : Value) :
    (l.set f v).IsTables := by
  intro g s hs
  by_cases hheading : g.heading.toList = f.heading.toList
  · rw [Layer.set, if_pos hheading] at hs
    cases hs
    exact ⟨_, rfl⟩
  · rw [Layer.set, if_neg hheading] at hs
    exact h g s hs

theorem value?_set_self (l : Layer) (f : Field) (v : Value) : (l.set f v).value? f = some v := by
  simp [value?, entries, set]

/-- What a layer says of one field does not matter to the others, those of its section included. -/
theorem value?_set_of_ne {f g : Field} (h : g ≠ f) (l : Layer) (v : Value) :
    (l.set f v).value? g = l.value? g := by
  by_cases hheading : g.heading = f.heading
  · have hkey : (g.key.toList == f.key.toList) = false := by
      refine beq_eq_false_iff_ne.mpr fun hkey => h ?_
      exact Field.eq_of_heading_key hheading (String.toList_inj.mp hkey)
    simp [value?, entries, set, hheading, List.lookup_cons, hkey]
  · have hsection : (l.set f v) g.heading.toList = l g.heading.toList :=
      if_neg (mt String.toList_inj.mp hheading)
    rw [value?, entries, hsection]
    rfl

end Layer

/-! ## Putting layers together -/

namespace Layer

/-- What becomes of an entry of two tables that are put together: the upper one counts if there are
two. Where both are tables it is only said that a table comes out of them. -/
def Combined (upper lower result : Option Value) : Prop :=
  match upper, lower with
  | some (.table _ _), some (.table _ _) => ∃ origin entries, result = some (.table origin entries)
  | _, _ => result = upper.or lower

/-- A way to put an upper layer upon a lower one, by what it does to sections that are tables. -/
structure Merges (merge : Layer → Layer → Layer) : Prop where
  /-- What only the upper layer has is there as it is. -/
  upperOnly : ∀ {upper lower : Layer} {name : Text}, lower name = none →
    merge upper lower name = upper name
  /-- What only the lower layer has is there as it is. -/
  lowerOnly : ∀ {upper lower : Layer} {name : Text}, upper name = none →
    merge upper lower name = lower name
  /-- Tables are combined key by key. -/
  combines : ∀ {upper lower : Layer} {name : Text} {u l : List (Text × Value)},
    upper name = some (.fields u) → lower name = some (.fields l) →
    ∃ entries, merge upper lower name = some (.fields entries) ∧
      ∀ key, Combined (u.lookup key) (l.lookup key) (entries.lookup key)

theorem combined_or (upper lower : Option Value) : Combined upper lower (upper.or lower) := by
  unfold Combined
  split
  · exact ⟨_, _, rfl⟩
  · rfl

theorem combined_none_left {lower result : Option Value} :
    Combined none lower result ↔ result = lower := by
  simp [Combined]

theorem combined_none_right {upper result : Option Value} :
    Combined upper none result ↔ result = upper := by
  cases upper with
  | none => rfl
  | some v => cases v <;> rfl

/-- Putting the entries of the upper layer before those of the lower one is such a way. -/
theorem merges_above : Merges above where
  upperOnly {upper lower name} hlower := by
    rw [above, hlower]
    cases upper name <;> rfl
  lowerOnly {upper lower name} hupper := by
    rw [above, hupper]
    rfl
  combines {upper lower name u l} hupper hlower := by
    refine ⟨u ++ l, ?_, fun key => ?_⟩
    · rw [above, hupper, hlower]
      rfl
    · rw [List.lookup_append]
      exact combined_or _ _

end Layer

/-! ## Loading -/

namespace Field

/-- What a field is loaded with: what the upper layer says of it, or else the lower one, or else
what is built in; nothing if the layer that counts says what does not fit the field. -/
def loaded? (upper lower : Layer) (f : Field) : Option f.Carrier :=
  match (upper.value? f).or (lower.value? f) with
  | some v => f.read v
  | none => some (f.of .default)

/-- What a field comes to: the value of its flag, or else what it is loaded with. A flag does not
make up for a field that cannot be loaded. -/
def final? (flags : Configuration.Flags) (upper lower : Layer) (f : Field) : Option f.Carrier :=
  (f.loaded? upper lower).map ((f.flag? flags).getD ·)

end Field

variable {merge : Layer → Layer → Layer} {upper lower : Layer}

/-- A section of two layers has the entries of both, combined. -/
theorem Layer.Merges.sectionOf_eq (hmerge : Merges merge) (hupper : upper.IsTables)
    (hlower : lower.IsTables) (f : Field) :
    ∃ entries, Configuration.sectionOf (merge upper lower) f.heading = .fields entries ∧
      Combined (upper.value? f) (lower.value? f) (entries.lookup f.key.toList) := by
  rw [Configuration.sectionOf, Layer.value?, Layer.value?, Layer.entries, Layer.entries]
  cases hu : upper f.heading.toList with
  | none =>
    rw [hmerge.lowerOnly hu]
    cases hl : lower f.heading.toList with
    | none => exact ⟨[], rfl, rfl⟩
    | some l =>
      obtain ⟨entries, rfl⟩ := hlower f l hl
      exact ⟨entries, rfl, combined_none_left.mpr rfl⟩
  | some u =>
    obtain ⟨entries, rfl⟩ := hupper f u hu
    cases hl : lower f.heading.toList with
    | none =>
      rw [hmerge.upperOnly hl, hu]
      exact ⟨entries, rfl, combined_none_right.mpr rfl⟩
    | some l =>
      -- only here is there anything to put together
      obtain ⟨more, rfl⟩ := hlower f l hl
      obtain ⟨both, hboth, hcombined⟩ := hmerge.combines hu hl
      rw [hboth]
      exact ⟨both, rfl, hcombined _⟩

/-- A table fits no field. -/
theorem Field.read_table (f : Field) (origin : TableOrigin) (entries : List (Text × Value)) :
    f.read (.table origin entries) = none := by
  cases f <;> rfl

/-- What is read of a combined entry is what is read of the one that counts. -/
theorem Field.read_combined (f : Field) {u l result : Option Value}
    (h : Layer.Combined u l result) :
    (match result with
      | none => some (f.of .default)
      | some v => f.read v) =
      match u.or l with
      | some v => f.read v
      | none => some (f.of .default) := by
  unfold Layer.Combined at h
  split at h
  · obtain ⟨origin, entries, rfl⟩ := h
    exact (f.read_table origin entries).trans (f.read_table _ _).symm
  · subst h
    cases u.or l <;> rfl

theorem Field.readField_merge (hmerge : Layer.Merges merge) (hupper : upper.IsTables)
    (hlower : lower.IsTables) (f : Field) :
    Configuration.readField (Configuration.sectionOf (merge upper lower) f.heading) f.place f.key
      (f.of .default) f.read = f.loaded? upper lower := by
  obtain ⟨entries, hsection, hcombined⟩ := hmerge.sectionOf_eq hupper hlower f
  have hread := f.read_combined hcombined
  rw [hsection, Configuration.readField, Section.field?, loaded?, ← hread]
  cases List.lookup f.key.toList entries <;> rfl

namespace Configuration

/-- A configuration is loaded field by field. -/
theorem ofLayer?_eq_some_iff (l : Layer) (c : Configuration) :
    ofLayer? l = some c ↔
      ∀ f : Field, readField (sectionOf l f.heading) f.place f.key (f.of default) f.read =
        some (f.of c) := by
  constructor
  · intro h f
    obtain ⟨name, hname, h⟩ := Option.bind_eq_some_iff.mp h
    obtain ⟨logLevel, hlogLevel, h⟩ := Option.bind_eq_some_iff.mp h
    obtain ⟨logFormat, hlogFormat, h⟩ := Option.bind_eq_some_iff.mp h
    obtain ⟨bindAddress, hbindAddress, h⟩ := Option.bind_eq_some_iff.mp h
    obtain ⟨port, hport, h⟩ := Option.bind_eq_some_iff.mp h
    obtain ⟨bindRetry, hbindRetry, h⟩ := Option.bind_eq_some_iff.mp h
    obtain ⟨lineLimit, hlineLimit, h⟩ := Option.bind_eq_some_iff.mp h
    obtain ⟨model, hmodel, h⟩ := Option.bind_eq_some_iff.mp h
    cases h
    cases f with
    | name => exact hname
    | logLevel => exact hlogLevel
    | logFormat => exact hlogFormat
    | bindAddress => exact hbindAddress
    | port => exact hport
    | bindRetry => exact hbindRetry
    | lineLimit => exact hlineLimit
    | model => exact hmodel
  · intro h
    simp only [ofLayer?, Option.bind_eq_bind, Option.bind_eq_some_iff]
    exact ⟨_, h .name, _, h .logLevel, _, h .logFormat, _, h .bindAddress, _, h .port, _,
      h .bindRetry, _, h .lineLimit, _, h .model, rfl⟩

theorem ofLayer?_merge_eq_some_iff (hmerge : Layer.Merges merge) (hupper : upper.IsTables)
    (hlower : lower.IsTables) (c : Configuration) :
    ofLayer? (merge upper lower) = some c ↔
      ∀ f : Field, f.loaded? upper lower = some (f.of c) := by
  rw [ofLayer?_eq_some_iff]
  exact forall_congr' fun f => by rw [f.readField_merge hmerge hupper hlower]

/-- No configuration is loaded exactly if there is a field that cannot be loaded. -/
theorem ofLayer?_merge_eq_none_iff (hmerge : Layer.Merges merge) (hupper : upper.IsTables)
    (hlower : lower.IsTables) :
    ofLayer? (merge upper lower) = none ↔ ∃ f : Field, f.loaded? upper lower = none := by
  constructor
  · intro hnone
    refine Classical.byContradiction fun hall => ?_
    have hsome (f : Field) : (f.loaded? upper lower).isSome = true :=
      Option.isSome_iff_ne_none.mpr fun hf => hall ⟨f, hf⟩
    obtain ⟨c, hc⟩ := Field.exists_configuration fun f => (f.loaded? upper lower).get (hsome f)
    have hloaded := (ofLayer?_merge_eq_some_iff hmerge hupper hlower c).mpr fun f => by
      rw [hc f, Option.some_get]
    rw [hnone] at hloaded
    cases hloaded
  · rintro ⟨f, hf⟩
    refine Option.eq_none_iff_forall_ne_some.mpr fun c hc => ?_
    rw [(ofLayer?_merge_eq_some_iff hmerge hupper hlower c).mp hc f] at hf
    cases hf

/-- The final values of the fields are those of the loaded configuration with the flags. -/
theorem forall_final?_iff {flags : Flags} {upper lower : Layer} {loaded c : Configuration}
    (h : ∀ f : Field, f.loaded? upper lower = some (f.of loaded)) :
    (∀ f : Field, f.final? flags upper lower = some (f.of c)) ↔ loaded.withFlags flags = c := by
  have hfinal (f : Field) :
      f.final? flags upper lower = some (f.of (loaded.withFlags flags)) := by
    rw [Field.final?, h f, Field.of_withFlags]
    rfl
  constructor
  · intro hc
    exact Field.configuration_ext fun f => Option.some.inj ((hfinal f).symm.trans (hc f))
  · rintro rfl
    exact hfinal

/-- The flags with this one given, where the field has a flag. -/
def Flags.set (flags : Flags) : (f : Field) → f.Carrier → Flags
  | .logLevel, level => { flags with logLevel := some level }
  | .bindAddress, address => { flags with bindAddress := some address }
  | .port, port => { flags with port := some port }
  | .model, model => { flags with model := some model }
  | _, _ => flags

theorem Flags.flag?_set_of_ne {f g : Field} (h : g ≠ f) (flags : Flags) (v : f.Carrier) :
    g.flag? (flags.set f v) = g.flag? flags := by
  cases f <;> cases g <;> first | rfl | exact absurd rfl h

/-- No command line flags. -/
def Flags.none : Flags := ⟨Option.none, Option.none, Option.none, Option.none⟩

end Configuration

/-! ## The environment -/

/-- The variable for a field. -/
def Field.variable (f : Field) : Text :=
  Environment.nameStart ++
    Text.upper (f.heading.toList ++ '_' :: '_' :: f.key.toList)

theorem Environment.path?_variable (f : Field) :
    path? f.variable = some [f.heading.toList, f.key.toList] := by
  revert f
  exact Field.forall_of (by decide +kernel)

/-- One more variable sets its field, and leaves what the others say. -/
theorem Environment.layer_concat_variable (given : List (Text × Text)) (f : Field) (text : Text) :
    layer (given ++ [(f.variable, text)]) = (layer given).set f (parseValue text) := by
  have hlast : layer (given ++ [(f.variable, text)]) =
      (variableLayer f.variable text).above (layer given) := by
    rw [layer, List.foldl_append, List.foldl_cons, List.foldl_nil, layer]
  funext heading
  rw [hlast, Layer.above, variableLayer, path?_variable, Layer.set]
  dsimp only
  split
  · rw [Layer.entries]
    rcases layer given heading with _ | entries | items | _ <;> rfl
  · rfl

/-! ## Serving -/

namespace Configuration

/-- The fields come to these values exactly if a configuration is loaded that the flags turn into
this one. -/
theorem exists_ofLayer?_withFlags_iff (hmerge : Layer.Merges merge) (hupper : upper.IsTables)
    (hlower : lower.IsTables) (flags : Flags) (c : Configuration) :
    (∃ loaded, ofLayer? (merge upper lower) = some loaded ∧ loaded.withFlags flags = c) ↔
      ∀ f : Field, f.final? flags upper lower = some (f.of c) := by
  constructor
  · rintro ⟨loaded, hloaded, hc⟩
    have hfields := (ofLayer?_merge_eq_some_iff hmerge hupper hlower loaded).mp hloaded
    exact (forall_final?_iff hfields).mpr hc
  · intro hfinal
    cases hload : ofLayer? (merge upper lower) with
    | none =>
      obtain ⟨f, hf⟩ := (ofLayer?_merge_eq_none_iff hmerge hupper hlower).mp hload
      have hnone := hfinal f
      rw [Field.final?, hf] at hnone
      cases hnone
    | some loaded =>
      have hloaded := (ofLayer?_merge_eq_some_iff hmerge hupper hlower loaded).mp hload
      exact ⟨loaded, rfl, (forall_final?_iff hloaded).mp hfinal⟩

end Configuration

theorem Field.final?_congr {f : Field} {flags flags' : Configuration.Flags}
    {upper upper' lower lower' : Layer} (hflag : f.flag? flags = f.flag? flags')
    (hupper : upper.value? f = upper'.value? f) (hlower : lower.value? f = lower'.value? f) :
    f.final? flags upper lower = f.final? flags' upper' lower' := by
  rw [final?, final?, loaded?, loaded?, hflag, hupper, hlower]

namespace CommandLine

variable (merge : Layer → Layer → Layer) (flags : Configuration.Flags) (file : Text)
  (content : Option Text) (environment : List (Text × Text))

theorem configurationWith_eq_unreadable_iff :
    configurationWith merge flags file content environment = .error (.unreadable file) ↔
      Configuration.readWith? merge content environment = none := by
  rw [configurationWith]
  cases Configuration.readWith? merge content environment with
  | none => simp
  | some loaded => cases hvalid : (loaded.withFlags flags).validate <;> simp [hvalid]

theorem configurationWith_eq_ok_iff (c : Configuration) :
    configurationWith merge flags file content environment = .ok c ↔
      c.validate = .ok () ∧ ∃ loaded,
        Configuration.readWith? merge content environment = some loaded ∧
          loaded.withFlags flags = c := by
  rw [configurationWith]
  cases Configuration.readWith? merge content environment with
  | none => simp
  | some loaded =>
    cases hvalid : (loaded.withFlags flags).validate with
    | error fault =>
      have hfault : loaded.withFlags flags = c → c.validate ≠ .ok () := by
        rintro rfl hc
        rw [hvalid] at hc
        cases hc
      simpa [hvalid] using fun hc heq => hfault heq hc
    | ok _ =>
      have hok : loaded.withFlags flags = c → c.validate = .ok () := by
        rintro rfl
        exact hvalid
      simpa [hvalid] using hok

theorem configurationWith_eq_unusable_iff (fault : ConfigurationFault) :
    configurationWith merge flags file content environment = .error (.unusable fault) ↔
      ∃ c : Configuration, c.validate = .error fault ∧ ∃ loaded,
        Configuration.readWith? merge content environment = some loaded ∧
          loaded.withFlags flags = c := by
  rw [configurationWith]
  cases Configuration.readWith? merge content environment with
  | none => simp
  | some loaded => cases hvalid : (loaded.withFlags flags).validate <;> simp [hvalid]

/-- A fault of serving, seen as a fault of loading. -/
def ServeFault.toLoadFault : ServeFault → LoadFault
  | .unreadable _ => .unreadable
  | .unusable fault => .unusable fault

/-- Loading is serving without flags. -/
theorem mapError_configurationWith_none :
    (configurationWith merge .none file content environment).mapError ServeFault.toLoadFault =
      Configuration.loadWith merge content environment := by
  rw [configurationWith, Configuration.loadWith]
  cases Configuration.readWith? merge content environment with
  | none => rfl
  | some loaded =>
    have hsame : loaded.withFlags .none = loaded := rfl
    dsimp only
    rw [hsame]
    cases loaded.validate <;> rfl

/-- **The layers of a configuration.** Where the environment and the file say by tables what they
say of the sections, and in whatever way that combines tables their layers are put together, serving
starts with the configuration that has for each field the value of its flag, else what the
environment says, else what the file says, else what is built in. It cannot be loaded exactly if for
some field what counts among these, the flags apart, does not fit the field. What is judged is that
configuration alone. Loading is the same without flags. What a layer or flag says of a field changes
no other field, and a variable says something of its own field only. -/
theorem configuration_of_layers {merge : Layer → Layer → Layer} (hmerge : Layer.Merges merge)
    {lower : Layer} (hfile : Configuration.fileLayer? content = some lower) (hlower : lower.IsTables)
    (hupper : (Environment.layer environment).IsTables) :
    (configurationWith merge flags file content environment = .error (.unreadable file) ↔
      ∃ f : Field, f.loaded? (Environment.layer environment) lower = none) ∧
    (∀ c, configurationWith merge flags file content environment = .ok c ↔
      c.validate = .ok () ∧
        ∀ f : Field, f.final? flags (Environment.layer environment) lower = some (f.of c)) ∧
    (∀ fault, configurationWith merge flags file content environment = .error (.unusable fault) ↔
      ∃ c : Configuration, c.validate = .error fault ∧
        ∀ f : Field, f.final? flags (Environment.layer environment) lower = some (f.of c)) ∧
    Configuration.loadWith merge content environment =
      (configurationWith merge .none file content environment).mapError ServeFault.toLoadFault ∧
    (∀ f g : Field, g ≠ f → ∀ (v : Value) (w : f.Carrier) (upper : Layer),
      g.final? flags (upper.set f v) lower = g.final? flags upper lower ∧
      g.final? flags upper (lower.set f v) = g.final? flags upper lower ∧
      g.final? (flags.set f w) upper lower = g.final? flags upper lower) ∧
    ∀ (f : Field) (text : Text),
      Environment.layer (environment ++ [(f.variable, text)]) =
        (Environment.layer environment).set f (Environment.parseValue text) ∧
      ((Environment.layer environment).set f (Environment.parseValue text)).IsTables ∧
      ((Environment.layer environment).set f (Environment.parseValue text)).value? f =
        some (Environment.parseValue text) := by
  have hread : Configuration.readWith? merge content environment =
      Configuration.ofLayer? (merge (Environment.layer environment) lower) := by
    rw [Configuration.readWith?, hfile]
    rfl
  have hfinal := Configuration.exists_ofLayer?_withFlags_iff hmerge hupper hlower flags
  refine ⟨?_, fun c => ?_, fun fault => ?_, ?_, fun f g hne v w upper => ⟨?_, ?_, ?_⟩,
    fun f text => ⟨?_, ?_, ?_⟩⟩
  · rw [configurationWith_eq_unreadable_iff, hread]
    exact Configuration.ofLayer?_merge_eq_none_iff hmerge hupper hlower
  · rw [configurationWith_eq_ok_iff, hread, hfinal]
  · rw [configurationWith_eq_unusable_iff, hread]
    simp only [hfinal]
  · exact (mapError_configurationWith_none merge file content environment).symm
  · exact Field.final?_congr rfl (Layer.value?_set_of_ne hne upper v) rfl
  · exact Field.final?_congr rfl rfl (Layer.value?_set_of_ne hne lower v)
  · exact Field.final?_congr (Configuration.Flags.flag?_set_of_ne hne flags w) rfl rfl
  · exact Environment.layer_concat_variable environment f text
  · exact hupper.set f _
  · exact Layer.value?_set_self _ f _

/-- The file gives no room for a line, and the environment a port that cannot be listened on. The
environment comes before the one, and the command line before the other. -/
theorem configuration_of_layers_hidden :
    configuration ⟨none, some 21112, none, none⟩ defaultFile
      (some "server.max_line_bytes=0".toList)
      [("SDG_EMU_SERVER__PORT".toList, "0".toList),
        ("SDG_EMU_SERVER__MAX_LINE_BYTES".toList, "64".toList)] =
      .ok { Configuration.default with port := 21112, lineLimit := 64 } := by
  have hfile :
      (Configuration.fileLayer? (some "server.max_line_bytes=0".toList)).isSome = true := by
    decide +kernel
  refine ((configuration_of_layers _ _ _ _ Layer.merges_above (Option.some_get hfile).symm
    (Layer.isTables_of_all (Field.forall_of ?_)) (Layer.isTables_of_all (Field.forall_of ?_))).2.1
    _).mpr ⟨rfl, Field.forall_of ?_⟩
  · decide +kernel +revert
  · decide +kernel
  · decide +kernel +revert

end CommandLine

end WaveGen
