import Mathlib.Data.List.Induction
import Mathlib.Logic.Function.Basic
import WaveGen.Proofs.Settings

/-!
# Histories of stores (specification §3)

Stores of settings are written to, cloned, and put back from their clones, in any order. Each one is
a finite map all the while: it has the keys of the defaults, in their order, and under each key the
value that was last set there in the history of this store, or else the first default.

A store is a list, and the defaults may name a key twice. Reads and writes meet at the first entry of
a key; an entry behind it is never read and never written. So two stores from the same defaults that
read the same are the same, also in what cannot be read.

* `Settings.IsMap` — a store is the finite map that its defaults and its history make.
* `Settings.setAll_eq_iff` — stores from the same defaults are told apart by what is read from them.
* `Settings.Shelf` — stores from the same defaults, each in a place of its own.
* `Settings.Shelf.Step` — a set, or a copy of one store to the place of another.
* `Settings.Shelf.history` — what was set in the store of a place, told from the steps alone.
* `Settings.Shelf.after_eq_setAll` — a store is its defaults with the writes of its history; one step
  keeps this so (`step_eq_setAll`).
* `Settings.Shelf.after_of_not_copied` — what is done with other stores makes no difference to a store.
* `Settings.Shelf.stores_refine_maps` — the finite map of each store, how a store and its clone part,
  and when two stores are equal.
-/

namespace WaveGen

namespace Settings

/-! ## The values given for a key -/

/-- The values that the pairs give for a key, in their order. -/
def valuesFor (key : Text) (pairs : List (Text × Text)) : List Text :=
  (pairs.filter fun pair => pair.1 = key).map Prod.snd

theorem valuesFor_cons (key : Text) (pair : Text × Text) (rest : List (Text × Text)) :
    valuesFor key (pair :: rest) =
      if pair.1 = key then pair.2 :: valuesFor key rest else valuesFor key rest := by
  by_cases hkey : pair.1 = key <;> simp [valuesFor, hkey]

/-- What is read is the first value that the entries give. -/
theorem get?_eq_head? (s : Settings) (key : Text) :
    s.get? key = (valuesFor key s.entries).head? := by
  obtain ⟨entries⟩ := s
  induction entries with
  | nil => rfl
  | cons entry rest ih =>
    show List.lookup key (entry :: rest) = _
    rw [List.lookup_cons, valuesFor_cons]
    by_cases hkey : entry.1 = key
    · rw [if_pos hkey, hkey, beq_self_eq_true]
      rfl
    · rw [if_neg hkey, beq_eq_false_iff_ne.mpr (Ne.symm hkey)]
      exact ih

/-! ## Stores from the same defaults -/

/-- After several writes the last one to a key is read, or else what was there. -/
theorem get?_setAll {s : Settings} {writes : List (Text × Text)}
    (h : ∀ write ∈ writes, write.1 ∈ s.keys) (key : Text) :
    (s.setAll writes).get? key = (valuesFor key writes).getLast?.or (s.get? key) := by
  induction writes generalizing s with
  | nil => rfl
  | cons write rest ih =>
    obtain ⟨hwrite, hrest⟩ := List.forall_mem_cons.mp h
    show ((s.set write.1 write.2).setAll rest).get? key = _
    rw [ih (by simpa using hrest), get?_set, valuesFor_cons]
    by_cases hkey : write.1 = key
    · rw [if_pos ⟨hkey.symm, contains_iff_mem_keys.mpr hwrite⟩, if_pos hkey, List.getLast?_cons,
        Option.or_some]
      rfl
    · rw [if_neg fun hsame => hkey hsame.1.symm, if_neg hkey]

/-- **Stores from the same defaults are told apart by what is read from them.** Entries that cannot
be read are the same in both. -/
theorem setAll_eq_iff {s : Settings} {writes others : List (Text × Text)}
    (hwrites : ∀ write ∈ writes, write.1 ∈ s.keys) (hothers : ∀ write ∈ others, write.1 ∈ s.keys) :
    s.setAll writes = s.setAll others ↔
      ∀ key, (s.setAll writes).get? key = (s.setAll others).get? key := by
  refine ⟨fun h key => by rw [h], fun h => ?_⟩
  -- what is read from both, written to every key there is, leaves both as they are
  let present := s.keys.map fun key => (key, (s.setAll writes).value key)
  have hkeys : present.map Prod.fst = s.keys := keys_writes _ _
  have hpresent : ∀ t : Settings, (∀ key, (s.setAll writes).get? key = t.get? key) →
      t.setAll present = t := by
    intro t ht
    refine setAll_eq_self fun write hwrite => ?_
    obtain ⟨key, -, rfl⟩ := List.mem_map.mp hwrite
    rw [value, value, ht key]
  calc s.setAll writes
      = (s.setAll writes).setAll present := (hpresent _ fun _ => rfl).symm
    _ = s.setAll present := setAll_setAll (by rwa [hkeys]) s
    _ = (s.setAll others).setAll present := (setAll_setAll (by rwa [hkeys]) s).symm
    _ = s.setAll others := hpresent _ h

/-! ## Stores as finite maps -/

/-- The store `s` is a finite map. Its keys are those of `defaults`, and it holds what `history` has
set. -/
structure IsMap (defaults history : List (Text × Text)) (s : Settings) : Prop where
  /-- The keys are the default ones in their order. -/
  keys : s.keys = defaults.map Prod.fst
  /-- The store has just these keys. -/
  contains_iff : ∀ key, s.contains key = true ↔ key ∈ defaults.map Prod.fst
  /-- A set succeeds just for these keys. -/
  isSome_set?_iff : ∀ key value, (s.set? key value).isSome = true ↔ key ∈ defaults.map Prod.fst
  /-- What is read is the value that was last set, or else the first default. -/
  get?_eq : ∀ key,
    s.get? key = (valuesFor key history).getLast?.or (valuesFor key defaults).head?
  /-- A set changes the value of no other key. -/
  get?_set_of_ne : ∀ key value other, other ≠ key → (s.set key value).get? other = s.get? other

theorem isMap_setAll {defaults writes : List (Text × Text)}
    (h : ∀ write ∈ writes, write.1 ∈ defaults.map Prod.fst) :
    IsMap defaults writes ((ofDefaults defaults).setAll writes) where
  keys := keys_setAll (ofDefaults defaults) writes
  contains_iff key := by
    rw [contains_iff_mem_keys, keys_setAll]
    rfl
  isSome_set?_iff key value := by
    rw [isSome_set?_iff, keys_setAll]
    rfl
  get?_eq key := by
    have hkeys : ∀ write ∈ writes, write.1 ∈ (ofDefaults defaults).keys := h
    rw [get?_setAll hkeys, get?_eq_head?]
    rfl
  get?_set_of_ne key value other hother := by
    rw [get?_set, if_neg fun hsame => hother hsame.1]

/-! ## Shelves -/

/-- Stores that were all made from the same defaults, each in a place of its own. -/
abbrev Shelf : Type := Nat → Settings

namespace Shelf

/-- What is done with the stores of a shelf. -/
inductive Step where
  /-- Sets the value of a key in the store of a place. -/
  | set (place : Nat) (key value : Text)
  /-- Puts a copy of one store into the place of another. A clone is a copy into a place that was not
  in use before, and a restore is a copy back from there. -/
  | copy (source place : Nat)
deriving DecidableEq, Repr

/-- The place of the store that a step acts on. -/
def Step.place : Step → Nat
  | .set place _ _ => place
  | .copy _ place => place

/-- A shelf with a store of the defaults in every place. -/
def ofDefaults (defaults : List (Text × Text)) : Shelf := fun _ => Settings.ofDefaults defaults

/-- The shelf after a step. -/
def step (shelf : Shelf) : Step → Shelf
  | .set place key value => Function.update shelf place ((shelf place).set key value)
  | .copy source place => Function.update shelf place (shelf source)

/-- The shelf after several steps, one after the other. -/
def after (shelf : Shelf) (steps : List Step) : Shelf := steps.foldl step shelf

/-- What was set in the store of a place, in its order; the steps are given with the latest first. A
store that was copied has the history of its original up to the copy, and none of what was in its
place before. A set of a key that there is not is refused, and no part of the history. -/
def history (keys : List Text) : List Step → Nat → List (Text × Text)
  | [], _ => []
  | .set written key value :: earlier, place =>
    if place = written ∧ keys.contains key then history keys earlier place ++ [(key, value)]
    else history keys earlier place
  | .copy source copied :: earlier, place =>
    history keys earlier (if place = copied then source else place)

/-- What the steps set in the store of a place, in their order. -/
def setsIn (place : Nat) : List Step → List (Text × Text)
  | [] => []
  | .set written key value :: rest =>
    if written = place then (key, value) :: setsIn place rest else setsIn place rest
  | .copy _ _ :: rest => setsIn place rest

theorem after_append (shelf : Shelf) (steps later : List Step) :
    shelf.after (steps ++ later) = (shelf.after steps).after later :=
  List.foldl_append

/-- A step leaves the stores of all other places alone. -/
theorem step_of_ne {s : Step} {place : Nat} (h : s.place ≠ place) (shelf : Shelf) :
    shelf.step s place = shelf place := by
  cases s with
  | set written key value => exact Function.update_of_ne (Ne.symm h) _ _
  | copy source copied => exact Function.update_of_ne (Ne.symm h) _ _

theorem step_set_self (shelf : Shelf) (place : Nat) (key value : Text) :
    shelf.step (.set place key value) place = (shelf place).set key value :=
  Function.update_self _ _ _

/-- A copy is the same as its original. -/
theorem step_copy_self (shelf : Shelf) (source place : Nat) :
    shelf.step (.copy source place) place = shelf source :=
  Function.update_self _ _ _

/-- **A store goes its own way** until another one is copied over it: it takes what is set in its own
place, and nothing else that is done makes a difference to it. -/
theorem after_of_not_copied {steps : List Step} {place : Nat}
    (h : ∀ source, Step.copy source place ∉ steps) (shelf : Shelf) :
    shelf.after steps place = (shelf place).setAll (setsIn place steps) := by
  induction steps generalizing shelf with
  | nil => rfl
  | cons s rest ih =>
    have hrest : ∀ source, Step.copy source place ∉ rest :=
      fun source hsource => h source (List.mem_cons_of_mem s hsource)
    show (shelf.step s).after rest place = _
    rw [ih hrest]
    cases s with
    | set written key value =>
      rw [setsIn]
      by_cases hplace : written = place
      · rw [if_pos hplace, hplace, step_set_self]
        rfl
      · have hother : (Step.set written key value).place ≠ place := hplace
        rw [if_neg hplace, step_of_ne hother]
    | copy source copied =>
      have hother : (Step.copy source copied).place ≠ place := by
        rintro rfl
        exact h source List.mem_cons_self
      rw [setsIn, step_of_ne hother]

/-! ## The history of a store -/

theorem mem_keys_of_mem_history {keys : List Text} {steps : List Step} {place : Nat}
    {write : Text × Text} (h : write ∈ history keys steps place) : write.1 ∈ keys := by
  induction steps generalizing place with
  | nil => cases h
  | cons s earlier ih =>
    cases s with
    | set written key value =>
      rw [history] at h
      split at h
      · rename_i hset
        rcases List.mem_append.mp h with hold | hnew
        · exact ih hold
        · rw [List.mem_singleton.mp hnew]
          exact List.contains_iff_mem.mp hset.2
      · exact ih h
    | copy source copied => exact ih h

/-- **A step keeps each store at its defaults with the writes of its history.** -/
theorem step_eq_setAll {defaults : List (Text × Text)} {shelf : Shelf} {steps : List Step}
    (h : ∀ place, shelf place =
      (Settings.ofDefaults defaults).setAll (history (defaults.map Prod.fst) steps place))
    (s : Step) (place : Nat) :
    shelf.step s place =
      (Settings.ofDefaults defaults).setAll (history (defaults.map Prod.fst) (s :: steps) place) := by
  cases s with
  | set written key value =>
    rw [history]
    by_cases hplace : place = written
    · subst hplace
      rw [step_set_self, h place]
      by_cases hkey : key ∈ defaults.map Prod.fst
      · rw [if_pos ⟨rfl, List.contains_iff_mem.mpr hkey⟩, setAll_append]
        rfl
      · -- the set is refused
        rw [if_neg fun hset => hkey (List.contains_iff_mem.mp hset.2), set_of_notMem]
        rwa [keys_setAll]
    · rw [if_neg fun hset => hplace hset.1, ← h place]
      exact step_of_ne (Ne.symm hplace) shelf
  | copy source copied =>
    rw [history]
    by_cases hplace : place = copied
    · rw [if_pos hplace, hplace, step_copy_self]
      exact h source
    · rw [if_neg hplace, ← h place]
      exact step_of_ne (Ne.symm hplace) shelf

/-- Each store is its defaults with the writes of its history. -/
theorem after_eq_setAll (defaults : List (Text × Text)) (steps : List Step) (place : Nat) :
    (ofDefaults defaults).after steps place =
      (Settings.ofDefaults defaults).setAll
        (history (defaults.map Prod.fst) steps.reverse place) := by
  induction steps using List.reverseRecOn generalizing place with
  | nil => rfl
  | append_singleton earlier s ih =>
    rw [after_append, List.reverse_append]
    exact step_eq_setAll ih s place

/-! ## The main result -/

/-- **Stores are finite maps with fixed keys.** Whatever is set in stores from the same defaults, and
however they are cloned and restored,

* each store is the finite map of the defaults and of its own history;
* from then on a clone and its original go their own ways: each has what the original had when the
  clone was made, with the sets that were made in its own place and no others, until it is restored
  from another store itself;
* two stores, also of different shelves, are equal if and only if they read the same under every key.

The defaults may name a key twice. -/
theorem stores_refine_maps (defaults : List (Text × Text)) (steps : List Step) :
    (∀ place, IsMap defaults (history (defaults.map Prod.fst) steps.reverse place)
      ((ofDefaults defaults).after steps place)) ∧
    (∀ original clone, original ≠ clone → ∀ later : List Step,
      ((∀ source, Step.copy source clone ∉ later) →
        (ofDefaults defaults).after (steps ++ .copy original clone :: later) clone =
          ((ofDefaults defaults).after steps original).setAll (setsIn clone later)) ∧
      ((∀ source, Step.copy source original ∉ later) →
        (ofDefaults defaults).after (steps ++ .copy original clone :: later) original =
          ((ofDefaults defaults).after steps original).setAll (setsIn original later))) ∧
    ∀ place (others : List Step) other,
      (ofDefaults defaults).after steps place = (ofDefaults defaults).after others other ↔
        ∀ key, ((ofDefaults defaults).after steps place).get? key =
          ((ofDefaults defaults).after others other).get? key := by
  refine ⟨fun place => ?_, fun original clone hclone later => ?_, fun place others other => ?_⟩
  · rw [after_eq_setAll]
    exact isMap_setAll fun write hwrite => mem_keys_of_mem_history hwrite
  · have hlater : (ofDefaults defaults).after (steps ++ .copy original clone :: later) =
        (((ofDefaults defaults).after steps).step (.copy original clone)).after later :=
      after_append _ steps _
    have hother : (Step.copy original clone).place ≠ original := Ne.symm hclone
    rw [hlater]
    refine ⟨fun h => ?_, fun h => ?_⟩
    · rw [after_of_not_copied h, step_copy_self]
    · rw [after_of_not_copied h, step_of_ne hother]
  · rw [after_eq_setAll, after_eq_setAll]
    exact setAll_eq_iff (fun write hwrite => mem_keys_of_mem_history hwrite)
      fun write hwrite => mem_keys_of_mem_history hwrite

/-- A clone and its original are written to in turns; the load is named twice by the defaults, and the
phase not at all. -/
theorem stores_refine_maps_cloned :
    let defaults := [("LOAD".toList, "HZ".toList), ("FRQ".toList, "1000".toList),
      ("LOAD".toList, "50".toList)]
    let steps := [Step.set 0 "FRQ".toList "5".toList, .set 0 "PHSE".toList "90".toList]
    let later := [Step.set 0 "FRQ".toList "7".toList, .set 1 "LOAD".toList "75".toList, .copy 0 2,
      .set 0 "LOAD".toList "50".toList]
    0 ≠ 1 ∧ (∀ source, Step.copy source 1 ∉ later) ∧ (∀ source, Step.copy source 0 ∉ later) ∧
      ((ofDefaults defaults).after (steps ++ .copy 0 1 :: later) 1).entries =
        [("LOAD".toList, "75".toList), ("FRQ".toList, "5".toList), ("LOAD".toList, "50".toList)] ∧
      ((ofDefaults defaults).after (steps ++ .copy 0 1 :: later) 0).entries =
        [("LOAD".toList, "50".toList), ("FRQ".toList, "7".toList), ("LOAD".toList, "50".toList)] := by
  intro defaults steps later
  have hclone : ∀ source, Step.copy source 1 ∉ later := by simp [later]
  have horiginal : ∀ source, Step.copy source 0 ∉ later := by simp [later]
  obtain ⟨-, happart, -⟩ := stores_refine_maps defaults steps
  refine ⟨Nat.zero_ne_one, hclone, horiginal, ?_, ?_⟩
  · rw [(happart 0 1 Nat.zero_ne_one later).1 hclone]
    decide
  · rw [(happart 0 1 Nat.zero_ne_one later).2 horiginal]
    decide

end Shelf

end Settings

end WaveGen
