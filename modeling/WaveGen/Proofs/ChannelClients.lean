import Mathlib.Logic.Function.Basic
import WaveGen.Bench
import WaveGen.Proofs.CommandEffects

/-!
# Clients of different channels (specification §5)

Two clients share an instrument, each through handles of its own, and each sends commands for one
channel only. Their commands reach the instrument in some order. Neither client can tell that the
other one is there: what a command for a channel does and what it is answered depends on the
instrument's own settings, which it leaves alone, and on its channel (`Instrument.SameFor`).

* `Instrument.SameFor.process` — a command for a channel, on two instruments that look alike there.
* `Instrument.process_sameFor_other` — the other channel is left alone.
* `Bench.clients_keep_apart` — any order of the commands of two clients.
-/

namespace WaveGen

namespace Instrument

/-! ## Commands for one channel -/

/-- Two instruments that look alike to the client of a channel: it sees the settings of the
instrument as a whole, and the channel. -/
structure SameFor (id : ChannelId) (i j : Instrument) : Prop where
  settings : i.settings = j.settings
  channel : i.channel id = j.channel id

/-- A command in normal form that is for a channel. -/
def IsFor (id : ChannelId) (command : Text) : Prop := id.address <+: command

instance (id : ChannelId) (command : Text) : Decidable (IsFor id command) :=
  inferInstanceAs (Decidable (id.address <+: command))

theorem SameFor.refl (id : ChannelId) (i : Instrument) : SameFor id i i := ⟨rfl, rfl⟩

theorem SameFor.trans {id : ChannelId} {i j k : Instrument} (h : SameFor id i j)
    (h' : SameFor id j k) : SameFor id i k :=
  ⟨h.settings.trans h'.settings, h.channel.trans h'.channel⟩

theorem SameFor.replyText_eq {id : ChannelId} {i j : Instrument} (h : SameFor id i j)
    (reply : Reply) : i.replyText reply = j.replyText reply := by
  cases reply with
  | silent => rfl
  | headed text => rw [replyText, replyText, headerMode, headerMode, h.settings]
  | bare text => rfl

theorem channel_withChannel_self (i : Instrument) (id : ChannelId) (s : Settings) :
    (i.withChannel id s).channel id = { i.channel id with settings := s } := by cases id <;> rfl

/-- A command for a channel does to the instrument what the channel makes of it. -/
theorem process_isFor (i : Instrument) {id : ChannelId} {command : Text}
    (h : IsFor id (normalize command)) :
    (i.process command).1 =
      i.withChannel id ((i.channel id).process (normalize command)).1.settings := by
  obtain ⟨body, hbody⟩ := h
  rw [process_fst, ← hbody, route_channel]

/-- **A client sees its channel only**: on instruments that look alike to it, a command gets the
same reply, and the instruments look alike afterwards. -/
theorem SameFor.process {id : ChannelId} {i j : Instrument} (h : SameFor id i j) {command : Text}
    (hcommand : IsFor id (normalize command)) :
    (i.process command).2 = (j.process command).2 ∧
      SameFor id (i.process command).1 (j.process command).1 := by
  have hafter : SameFor id (i.process command).1 (j.process command).1 := by
    rw [process_isFor i hcommand, process_isFor j hcommand]
    constructor
    · rw [settings_withChannel, settings_withChannel, h.settings]
    · rw [channel_withChannel_self, channel_withChannel_self, h.channel]
  refine ⟨?_, hafter⟩
  obtain ⟨body, hbody⟩ := hcommand
  rw [process_snd, process_snd, ← hbody, route_channel, route_channel, h.channel]
  cases ((j.channel id).process (id.address ++ body)).2 with
  | error fault => rfl
  | ok reply => exact hafter.replyText_eq reply

/-- To the client of another channel the instrument looks as it did before. -/
theorem process_sameFor_other (i : Instrument) {id other : ChannelId} (hother : other ≠ id)
    {command : Text} (hcommand : IsFor id (normalize command)) :
    SameFor other (i.process command).1 i := by
  rw [process_isFor i hcommand]
  exact ⟨settings_withChannel i id _, channel_withChannel_of_ne hother i _⟩

end Instrument

/-! ## Two clients -/

/-- A command as a client sends it. -/
structure Send where
  /-- The channel that the client drives. -/
  client : ChannelId
  /-- The handle that the client uses. -/
  handle : Nat
  command : Text
deriving DecidableEq, Repr

namespace Send

/-- The commands of one client, in the order in which it sent them. -/
def commandsOf (id : ChannelId) (sends : List Send) : List Text :=
  (sends.filter (·.client = id)).map (·.command)

/-- What one client was answered, given the replies to the commands of both. -/
def repliesTo (id : ChannelId) (sends : List Send) (replies : List Text) : List Text :=
  ((sends.zip replies).filter (·.1.client = id)).map (·.2)

theorem commandsOf_cons (id : ChannelId) (send : Send) (rest : List Send) :
    commandsOf id (send :: rest) =
      if send.client = id then send.command :: commandsOf id rest else commandsOf id rest := by
  by_cases h : send.client = id <;> simp [commandsOf, h]

theorem repliesTo_cons (id : ChannelId) (send : Send) (rest : List Send) (reply : Text)
    (replies : List Text) :
    repliesTo id (send :: rest) (reply :: replies) =
      if send.client = id then reply :: repliesTo id rest replies
      else repliesTo id rest replies := by
  by_cases h : send.client = id <;> simp [repliesTo, h]

end Send

namespace Bench

/-- Processes commands in the order in which they arrive: the bench and the replies. -/
def processAll? (b : Bench) : List Send → Option (Bench × List Text)
  | [] => some (b, [])
  | send :: rest => do
    let (next, reply) ← b.process? send.handle send.command
    let (last, replies) ← next.processAll? rest
    return (last, reply :: replies)

/-- The invariant of a run: to each client the shared instrument looks like one of its own, which has
processed the commands of this client and no others. -/
theorem processAll?_alone {sends : List Send} {b : Bench} {place : Nat} {i : Instrument}
    (hinstrument : b.instruments[place]? = some i)
    (hhandle : ∀ send ∈ sends, b.place? send.handle = some place)
    (hclient : ∀ send ∈ sends, Instrument.IsFor send.client (Instrument.normalize send.command))
    (alone : ChannelId → Instrument) (halone : ∀ id, Instrument.SameFor id i (alone id)) :
    ∃ final replies,
      b.processAll? sends = some (⟨b.instruments.set place final, b.handles⟩, replies) ∧
        final.model = i.model ∧ final.settings = i.settings ∧
        replies.length = sends.length ∧
        ∀ id, Send.repliesTo id sends replies = (alone id).replies (Send.commandsOf id sends) ∧
          Instrument.SameFor id final ((alone id).after (Send.commandsOf id sends)) := by
  induction sends generalizing b i alone with
  | nil =>
    refine ⟨i, [], ?_, rfl, rfl, rfl, fun id => ⟨rfl, halone id⟩⟩
    obtain ⟨hlength, rfl⟩ := List.getElem?_eq_some_iff.mp hinstrument
    rw [List.set_getElem_self hlength]
    rfl
  | cons send rest ih =>
    obtain ⟨hplace, hhandle⟩ := List.forall_mem_cons.mp hhandle
    obtain ⟨hfor, hclient⟩ := List.forall_mem_cons.mp hclient
    have hlength := (List.getElem?_eq_some_iff.mp hinstrument).1
    -- the client that sent the command goes on from what the command made of its own instrument
    have hnext : ∀ id, Instrument.SameFor id (i.process send.command).1
        (Function.update alone send.client ((alone send.client).process send.command).1 id) := by
      intro id
      by_cases hid : id = send.client
      · subst hid
        rw [Function.update_self]
        exact ((halone send.client).process hfor).2
      · rw [Function.update_of_ne hid]
        exact (Instrument.process_sameFor_other i hid hfor).trans (halone id)
    have hprocess : b.process? send.handle send.command =
        some ({ b with instruments := b.instruments.set place (i.process send.command).1 },
          (i.process send.command).2) := by
      rw [process?, hplace]
      simp only [Option.bind_eq_bind, Option.bind_some, hinstrument]
      rfl
    obtain ⟨final, replies, hrest, hmodel, hsettings, hreplies, hall⟩ :=
      ih (b := { b with instruments := b.instruments.set place (i.process send.command).1 })
        (List.getElem?_set_self hlength) hhandle hclient _ hnext
    refine ⟨final, (i.process send.command).2 :: replies, ?_, ?_, ?_, ?_, fun id => ?_⟩
    · rw [processAll?, hprocess]
      simp only [Option.bind_eq_bind, Option.bind_some, hrest, List.set_set]
      rfl
    · rw [hmodel, Instrument.model_process]
    · rw [hsettings, Instrument.process_isFor i hfor, Instrument.settings_withChannel]
    · rw [List.length_cons, List.length_cons, hreplies]
    · obtain ⟨hid, hsame⟩ := hall id
      rw [Send.repliesTo_cons, Send.commandsOf_cons]
      by_cases hsender : send.client = id
      · subst hsender
        rw [Function.update_self] at hid hsame
        rw [if_pos rfl, if_pos rfl, hid, ((halone send.client).process hfor).1]
        exact ⟨rfl, hsame⟩
      · rw [Function.update_of_ne (Ne.symm hsender)] at hid hsame
        rw [if_neg hsender, if_neg hsender]
        exact ⟨hid, hsame⟩

/-- **Clients of different channels keep apart.** Whatever the state of an instrument, and in
whatever order the commands of its two clients arrive, each through some handle on it:

* each client is answered as if its commands alone had been sent;
* each channel ends as its own client's commands alone would leave it;
* the instrument's own settings stay as they are, and so do all other instruments. -/
theorem clients_keep_apart {b : Bench} {place : Nat} {i : Instrument}
    (hinstrument : b.instruments[place]? = some i) (sends : List Send)
    (hhandle : ∀ send ∈ sends, b.place? send.handle = some place)
    (hclient : ∀ send ∈ sends, Instrument.IsFor send.client (Instrument.normalize send.command)) :
    ∃ final replies,
      b.processAll? sends = some (⟨b.instruments.set place final, b.handles⟩, replies) ∧
        replies.length = sends.length ∧ final.model = i.model ∧ final.settings = i.settings ∧
        ∀ id, Send.repliesTo id sends replies = i.replies (Send.commandsOf id sends) ∧
          final.channel id = (i.after (Send.commandsOf id sends)).channel id := by
  obtain ⟨final, replies, hrun, hmodel, hsettings, hlength, hall⟩ :=
    processAll?_alone hinstrument hhandle hclient (fun _ => i) fun id => .refl id i
  exact ⟨final, replies, hrun, hlength, hmodel, hsettings,
    fun id => ⟨(hall id).1, (hall id).2.channel⟩⟩

/-- Two clients with a handle each. The first one's stream fails behind its first parameter, which
stays in effect; the second one asks in between. -/
theorem clients_keep_apart_failing :
    let b : Bench := ⟨[.new .sdg1062x], [0, 0]⟩
    let sends := [Send.mk .first 0 "c1:output on,plrt,sideways".toList,
      Send.mk .second 1 "C2:OUTP?".toList, Send.mk .first 0 "C1:OUTP?".toList]
    ∃ final replies, b.processAll? sends = some (⟨[final], [0, 0]⟩, replies) ∧
      Send.repliesTo .first sends replies = [[], "C1:OUTP ON,LOAD,HZ,PLRT,NOR".toList] := by
  intro b sends
  have hinstrument : b.instruments[0]? = some (.new .sdg1062x) := rfl
  have hsends : ∀ send ∈ sends, b.place? send.handle = some 0 ∧
      Instrument.IsFor send.client (Instrument.normalize send.command) := by decide +kernel
  obtain ⟨final, replies, hrun, -, -, -, hall⟩ :=
    clients_keep_apart hinstrument sends (fun send hsend => (hsends send hsend).1)
      fun send hsend => (hsends send hsend).2
  refine ⟨final, replies, hrun, (hall .first).1.trans ?_⟩
  decide +kernel

end Bench

end WaveGen
