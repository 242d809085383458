import WaveGen.Proofs.CommandEffects

/-!
# Rejected commands change nothing (specification §7)

A handler that turns a command down has written nothing by then: it takes its parameters apart and
computes all that it would write before the first write. The output command alone writes while it
reads on, and only when it has parameters. So a command that is turned down leaves the whole
instrument as it was, unless it is a stream of parameters for the output of a channel.

* `Channel.basicWave_of_error`, `Instrument.commHeader_of_error` and its like — one handler each.
* `Instrument.route_of_error` — all commands, in any state.
-/

namespace WaveGen

namespace Channel

/-- The output command is turned down before it writes if it has no parameters. -/
theorem output_of_error {c failed : Channel} {body : Text} {fault : CommandFault}
    (h : c.output body = (failed, .error fault))
    (hstream : ∀ parameters, body ≠ "OUTP ".toList ++ parameters) : failed = c := by
  rw [output] at h
  split at h
  · cases h
  · cases hword : parameterWord outputVerb body with
    | error found =>
      rw [hword] at h
      exact (Prod.mk.inj h).1.symm
    | ok word =>
      obtain ⟨parameters, hbody, -⟩ := parameterWord_eq_ok hword
      exact absurd hbody (hstream parameters)

/-- All that a basic wave command writes is computed before the first write. -/
theorem basicWave_of_error {c failed : Channel} {body : Text} {fault : CommandFault}
    (h : c.basicWave body = (failed, .error fault)) : failed = c := by
  rw [basicWave] at h
  split at h
  · cases h
  · cases hword : parameterWord basicWaveVerb body with
    | error found =>
      rw [hword] at h
      exact (Prod.mk.inj h).1.symm
    | ok word =>
      rw [hword] at h
      dsimp only at h
      -- the writes, or the fault of the computation that has no result
      split at h
      · exact (Prod.mk.inj h).1.symm
      · cases h

theorem process_of_error {c failed : Channel} {command : Text} {fault : CommandFault}
    (h : c.process command = (failed, .error fault))
    (hstream : ∀ parameters, command ≠ c.address ++ ("OUTP ".toList ++ parameters)) :
    failed = c := by
  rw [process] at h
  cases hbody : Text.dropHead? c.address command with
  | none =>
    rw [hbody] at h
    exact (Prod.mk.inj h).1.symm
  | some body =>
    rw [hbody] at h
    dsimp only at h
    have hcommand := Text.dropHead?_eq_some_iff.mp hbody
    split at h
    · refine output_of_error h fun parameters hparameters => ?_
      exact hstream parameters (hparameters ▸ hcommand)
    · split at h
      · exact basicWave_of_error h
      · exact (Prod.mk.inj h).1.symm

end Channel

namespace Instrument

variable {i changed : Instrument} {command : Text} {fault : CommandFault}

theorem commHeader_of_error (h : i.commHeader command = (changed, .error fault)) : changed = i := by
  rw [commHeader] at h
  split at h
  · cases h
  · cases hname : soleParameter command with
    | error found =>
      rw [hname] at h
      exact (Prod.mk.inj h).1.symm
    | ok name =>
      rw [hname] at h
      dsimp only at h
      split at h
      · exact (Prod.mk.inj h).1.symm
      · cases h

theorem buzzer_of_error (h : i.buzzer command = (changed, .error fault)) : changed = i := by
  rw [buzzer] at h
  split at h
  · cases h
  · cases hvalue : soleParameter command with
    | error found =>
      rw [hvalue] at h
      exact (Prod.mk.inj h).1.symm
    | ok value =>
      rw [hvalue] at h
      dsimp only at h
      split at h
      · cases h
      · exact (Prod.mk.inj h).1.symm

/-- Both channels of a copy are found before anything is copied. -/
theorem parameterCopy_of_error (h : i.parameterCopy command = (changed, .error fault)) :
    changed = i := by
  rw [parameterCopy] at h
  split at h
  · exact (Prod.mk.inj h).1.symm
  · cases h

theorem channelCommand_of_error {index : ℕ}
    (h : i.channelCommand index command = (changed, .error fault))
    (hstream : ∀ (id : ChannelId) parameters,
      command ≠ id.address ++ ("OUTP ".toList ++ parameters)) : changed = i := by
  rw [channelCommand] at h
  cases hid : ChannelId.ofIndex? index with
  | none =>
    rw [hid] at h
    exact (Prod.mk.inj h).1.symm
  | some id =>
    rw [hid] at h
    dsimp only at h
    rcases hprocess : (i.channel id).process command with ⟨failed, outcome⟩
    rw [hprocess] at h
    obtain ⟨hchanged, rfl⟩ := Prod.mk.inj h
    have hfailed : failed = i.channel id := by
      refine Channel.process_of_error hprocess fun parameters => ?_
      rw [address_channel]
      exact hstream id parameters
    rw [← hchanged, hfailed, withChannel_channel]

/-- **Rejected commands change nothing.** In any state a command that is turned down leaves the
instrument and both channels as they were, and is answered with silence, unless it is a stream of
parameters for the output of a channel. -/
theorem route_of_error (h : i.route command = (changed, .error fault))
    (hstream : ∀ (id : ChannelId) parameters,
      command ≠ id.address ++ ("OUTP ".toList ++ parameters)) :
    changed = i ∧ i.dispatch command = (i, .silent) := by
  have hsame : changed = i := by
    rw [route] at h
    cases hroute : Route.ofCommand command with
    | identification | operationComplete | reset | nowhere =>
      rw [hroute] at h
      cases h
    | parameterCopy =>
      rw [hroute] at h
      exact parameterCopy_of_error h
    | commHeader =>
      rw [hroute] at h
      exact commHeader_of_error h
    | buzzer =>
      rw [hroute] at h
      exact buzzer_of_error h
    | storeList =>
      rw [hroute] at h
      exact (Prod.mk.inj h).1.symm
    | channel index =>
      rw [hroute] at h
      exact channelCommand_of_error h hstream
  refine ⟨hsame, ?_⟩
  rw [dispatch, h, hsame]

/-- A copy whose second channel there is not, on an instrument that was used before. -/
theorem route_of_error_copy :
    let i := (new .sdg1032x).after ["C1:BSWV PLRT,SIDEWAYS".toList, "C1:OUTP LOAD,50".toList]
    (∃ changed, i.route "PACP C2,C3".toList =
        (changed, .error (.invalidChannel "C3".toList)) ∧ changed = i) ∧
      (∀ (id : ChannelId) parameters,
        "PACP C2,C3".toList ≠ id.address ++ ("OUTP ".toList ++ parameters)) ∧
      i.dispatch "PACP C2,C3".toList = (i, .silent) := by
  intro i
  have hfault : i.route "PACP C2,C3".toList = (_, .error (.invalidChannel "C3".toList)) :=
    Prod.ext rfl (by decide +kernel)
  have hstream : ∀ (id : ChannelId) parameters,
      "PACP C2,C3".toList ≠ id.address ++ ("OUTP ".toList ++ parameters) := by
    intro id parameters
    cases id <;> simp [ChannelId.address]
  obtain ⟨hsame, hsilent⟩ := route_of_error hfault hstream
  exact ⟨⟨_, hfault, hsame⟩, hstream, hsilent⟩

end Instrument

end WaveGen
