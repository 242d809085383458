import WaveGen.Proofs.Queries
import WaveGen.Proofs.Reports

/-!
# Copying one channel to another (specification §4.4)

The copy command names two channels and gives the first one the settings of the second. It does not
ask for the exact tokens `C1` and `C2`: only the digit behind the leading letter counts, so `C29`
names the second channel too. Tokens without the digit of a channel in that place name none, and
nothing happens if there is one. Tokens that have such a digit behind some other character are
malformed. The instrument looks at the digit alone, but what it copies with them is no more than how
it happens to be built, and `dispatch_copy` leaves it open. In any case the command gets no answer,
and changes no other channel than the one it writes.

* `Instrument.Names` — a token that names a channel. `Instrument.Reads` is the part of it that the
  instrument looks at.
* `Instrument.copyParameters_copyCommand` — what the instrument reads of two tokens.
* `Instrument.dispatch_copy` — what the command does.
-/

namespace WaveGen

/-- The exact token of a channel. -/
def ChannelId.token (id : ChannelId) : Text := ['C', id.digit]

namespace Instrument

/-! ## Tokens -/

/-- A token that names a channel: it begins like the channel's own. -/
def Names (token : Text) (id : ChannelId) : Prop := id.token <+: token

instance (token : Text) (id : ChannelId) : Decidable (Names token id) :=
  inferInstanceAs (Decidable (_ <+: _))

/-- A token has the digit of a channel behind its first character. -/
def Reads (token : Text) (id : ChannelId) : Prop := token[1]? = some id.digit

instance (token : Text) (id : ChannelId) : Decidable (Reads token id) :=
  inferInstanceAs (Decidable (token[1]? = some id.digit))

theorem names_token (id : ChannelId) : Names id.token id := List.prefix_refl _

theorem reads_iff {token : Text} {id : ChannelId} :
    Reads token id ↔ ∃ lead rest, token = lead :: id.digit :: rest := by
  constructor
  · intro h
    match token, h with
    | lead :: digit :: rest, h =>
      have hdigit : digit = id.digit := Option.some.inj h
      exact ⟨lead, rest, by rw [hdigit]⟩
  · rintro ⟨lead, rest, rfl⟩
    rfl

theorem Names.reads {token : Text} {id : ChannelId} (h : Names token id) : Reads token id := by
  obtain ⟨rest, rfl⟩ := h
  rfl

/-- A token has the digit of one channel at most. -/
theorem Reads.unique {token : Text} {id other : ChannelId} (h : Reads token id)
    (hother : Reads token other) : id = other := by
  have hdigit : id.digit = other.digit := Option.some.inj (h.symm.trans hother)
  revert hdigit
  cases id <;> cases other <;> decide

/-! ## The command -/

/-- The copy command with these tokens: the channel that is written, and the one that is read. -/
def copyCommand (first second : Text) : Text := "PACP".toList ++ ' ' :: (first ++ ',' :: second)

/-- Of two tokens, the digits behind their first characters are read. -/
theorem copyParameters_copyCommand {first second : Text} (hfirst : IsToken first)
    (hsecond : IsToken second) {target source : ChannelId} :
    copyParameters (copyCommand first second) = .ok (target, source) ↔
      Reads first target ∧ Reads second source := by
  have hspace : ' ' ∉ first ++ ',' :: second := by
    rw [List.mem_append, List.mem_cons, not_or, not_or]
    exact ⟨hfirst.2, by decide, hsecond.2⟩
  have hpair : soleParameter (copyCommand first second) = .ok (first ++ ',' :: second) :=
    soleParameter_append (by decide) hspace
  rw [copyParameters_eq_ok_iff, reads_iff, reads_iff]
  constructor
  · rintro ⟨first', second', hpair', hcomma, hcomma', htarget, hsource⟩
    -- the pair has one comma only, so these are the tokens of the command
    have hsame : first ++ ',' :: second = first' ++ ',' :: second' :=
      Except.ok.inj (hpair.symm.trans hpair')
    have hpieces := Text.split_eq_pair_iff.mpr ⟨rfl, hfirst.1, hsecond.1⟩
    rw [Text.split_eq_pair_iff.mpr ⟨hsame, hcomma, hcomma'⟩] at hpieces
    obtain ⟨rfl, htail⟩ := List.cons.inj hpieces
    obtain rfl := (List.cons.inj htail).1
    exact ⟨channelOfToken_eq_ok_iff.mp htarget, channelOfToken_eq_ok_iff.mp hsource⟩
  · rintro ⟨htarget, hsource⟩
    exact ⟨first, second, hpair, hfirst.1, hsecond.1, channelOfToken_eq_ok_iff.mpr htarget,
      channelOfToken_eq_ok_iff.mpr hsource⟩

theorem route_copyCommand (i : Instrument) (first second : Text) :
    i.route (copyCommand first second) = i.parameterCopy (copyCommand first second) := rfl

theorem dispatch_copy_of_reads (i : Instrument) {first second : Text} (hfirst : IsToken first)
    (hsecond : IsToken second) {target source : ChannelId} (htarget : Reads first target)
    (hsource : Reads second source) :
    i.dispatch (copyCommand first second) =
      (i.withChannel target (i.channel source).settings, .silent) := by
  have hchannels := (copyParameters_copyCommand hfirst hsecond).mpr ⟨htarget, hsource⟩
  rw [dispatch, route_copyCommand, parameterCopy, hchannels]
  rfl

theorem dispatch_copy_of_not_reads (i : Instrument) {first second : Text} (hfirst : IsToken first)
    (hsecond : IsToken second)
    (hnone : ∀ target source, ¬ (Reads first target ∧ Reads second source)) :
    i.dispatch (copyCommand first second) = (i, .silent) := by
  rw [dispatch, route_copyCommand, parameterCopy]
  cases hchannels : copyParameters (copyCommand first second) with
  | error fault => rfl
  | ok pair =>
    exact absurd ((copyParameters_copyCommand hfirst hsecond).mp hchannels) (hnone pair.1 pair.2)

/-- A copy leaves the channel that it reads as it is, and all that it does not write. -/
theorem channel_copy {i : Instrument} {target source id : ChannelId}
    (h : id ≠ target ∨ id = source) :
    (i.withChannel target (i.channel source).settings).channel id = i.channel id := by
  by_cases htarget : id = target
  · -- a channel that is copied to itself
    obtain rfl := h.resolve_left (not_not.mpr htarget)
    rw [htarget, withChannel_channel]
  · exact channel_withChannel_of_ne htarget i _

/-- **What a copy command does**, whatever the state of the instrument and whatever two tokens it is
given:

* it is not answered;
* tokens that name channels give the first of them the settings of the second;
* nothing changes if one of the tokens has no digit of a channel behind its first character;
* the model and the instrument's own settings stay as they are, and so do the channel that the
  second token names, and every channel but the one that the first token names. -/
theorem dispatch_copy (i : Instrument) {first second : Text} (hfirst : IsToken first)
    (hsecond : IsToken second) :
    let changed := (i.dispatch (copyCommand first second)).1
    (i.dispatch (copyCommand first second)).2 = .silent ∧
      (∀ target source, Names first target → Names second source →
        changed = i.withChannel target (i.channel source).settings) ∧
      ((∀ id, ¬ Reads first id) ∨ (∀ id, ¬ Reads second id) → changed = i) ∧
      changed.model = i.model ∧ changed.settings = i.settings ∧
      (∀ id, Names second id → changed.channel id = i.channel id) ∧
      ∀ target id, Names first target → id ≠ target → changed.channel id = i.channel id := by
  intro changed
  by_cases hreads : ∃ target source, Reads first target ∧ Reads second source
  · obtain ⟨target, source, htarget, hsource⟩ := hreads
    have hcopy := dispatch_copy_of_reads i hfirst hsecond htarget hsource
    have hchanged : changed = i.withChannel target (i.channel source).settings :=
      congrArg Prod.fst hcopy
    rw [hchanged, hcopy]
    refine ⟨rfl, ?_, ?_, model_withChannel i target _, settings_withChannel i target _, ?_, ?_⟩
    · intro target' source' htarget' hsource'
      rw [htarget.unique htarget'.reads, hsource.unique hsource'.reads]
    · rintro (hnone | hnone)
      · exact absurd htarget (hnone target)
      · exact absurd hsource (hnone source)
    · intro id hread
      exact channel_copy (.inr (hread.reads.unique hsource))
    · intro target' id htarget' hother
      exact channel_copy (.inl (htarget'.reads.unique htarget ▸ hother))
  · have hnone : ∀ target source, ¬ (Reads first target ∧ Reads second source) :=
      fun target source h => hreads ⟨target, source, h⟩
    have hcopy := dispatch_copy_of_not_reads i hfirst hsecond hnone
    have hchanged : changed = i := congrArg Prod.fst hcopy
    rw [hchanged, hcopy]
    refine ⟨rfl, ?_, fun _ => rfl, rfl, rfl, fun _ _ => rfl, fun _ _ _ _ => rfl⟩
    intro target source htarget hsource
    exact absurd ⟨htarget.reads, hsource.reads⟩ (hnone target source)

/-- A switched-on output is copied by tokens with more behind the digits. -/
theorem dispatch_copy_trailing :
    IsToken "C29".toList ∧ IsToken "C1:é".toList ∧
      let i := (new .sdg1032x).after ["C1:OUTP ON".toList]
      (i.dispatch (copyCommand "C29".toList "C1:é".toList)).1 =
        i.withChannel .second (i.channel .first).settings := by
  have hfirst : IsToken "C29".toList := by decide
  have hsecond : IsToken "C1:é".toList := by decide
  have htarget : Names "C29".toList .second := by decide
  have hsource : Names "C1:é".toList .first := by decide
  exact ⟨hfirst, hsecond, (dispatch_copy _ hfirst hsecond).2.1 .second .first htarget hsource⟩

/-- A copy does not need the exact tokens of the channels. -/
theorem copy_without_exact_tokens :
    ¬ ∀ (i : Instrument) (first second : Text), IsToken first → IsToken second →
      ¬ (∃ target source : ChannelId, first = target.token ∧ second = source.token) →
      (i.dispatch (copyCommand first second)).1 = i := by
  intro hexact
  have hinexact : ¬ ∃ target source : ChannelId,
      "C29".toList = target.token ∧ "C1".toList = source.token := by
    rintro ⟨target, source, htarget, -⟩
    revert htarget
    cases target <;> decide
  have hsame := hexact ((new .sdg1032x).after ["C1:OUTP ON".toList]) "C29".toList "C1".toList
    (by decide) (by decide) hinexact
  have houtput := congrArg (fun i => (i.channel .second).settings.value Channel.Key.output) hsame
  revert houtput
  decide +kernel

end Instrument

end WaveGen
