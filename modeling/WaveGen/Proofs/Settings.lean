import WaveGen.Settings

/-!
# Laws of settings

A store of settings is a finite map whose keys are fixed. A write changes the value of its own key,
if the store has the key, and nothing else.

* `Settings.get?_set` — what is read after a write.
* `Settings.keys_set` — a write keeps the keys.
* `Settings.set_set`, `Settings.set_comm` — two writes, to one key or to two.
* `Settings.value_setAll_of_forall_ne` — several writes leave all other keys alone.
* `Settings.setAll_setAll` — writes do not show if later ones are made to all their keys.
* `Settings.setAll_setAll_self`, `Settings.setAll_comm` — the same writes again, or two lots of
  writes to different keys.
-/

namespace WaveGen

namespace Settings

/-! ## Single writes -/

theorem contains_iff_mem_keys {s : Settings} {key : Text} : s.contains key = true ↔ key ∈ s.keys :=
  List.contains_iff_mem

/-- A write to the entries finds the key, or there is no such key. -/
theorem replace?_spec (key value : Text) (entries : List (Text × Text)) :
    match replace? key value entries with
    | none => key ∉ entries.map Prod.fst
    | some written =>
      key ∈ entries.map Prod.fst ∧ written.map Prod.fst = entries.map Prod.fst ∧
        ∀ other,
          written.lookup other = if other = key then some value else entries.lookup other := by
  induction entries with
  | nil => exact List.not_mem_nil
  | cons entry rest ih =>
    rw [replace?]
    by_cases hkey : entry.1 = key
    · -- the first entry of the key is the one that is written and the one that is read
      rw [if_pos hkey]
      refine ⟨by simp [hkey], by simp [hkey], fun other => ?_⟩
      rw [List.lookup_cons, List.lookup_cons, hkey]
      by_cases hother : other = key
      · simp [hother]
      · simp [hother, beq_eq_false_iff_ne.mpr hother]
    · rw [if_neg hkey]
      cases hrest : replace? key value rest with
      | none =>
        rw [hrest] at ih
        simpa [Ne.symm hkey] using ih
      | some written =>
        rw [hrest] at ih
        obtain ⟨hmem, hkeys, hlookup⟩ := ih
        refine ⟨List.mem_cons_of_mem _ hmem, by simp [hkeys], fun other => ?_⟩
        rw [List.lookup_cons, List.lookup_cons, hlookup]
        by_cases hother : other = entry.1
        · simp [hother, hkey]
        · simp [beq_eq_false_iff_ne.mpr hother]

/-- A write keeps the keys. -/
@[simp] theorem keys_set (s : Settings) (key value : Text) : (s.set key value).keys = s.keys := by
  have hspec := replace?_spec key value s.entries
  rw [set, set?]
  cases hwrite : replace? key value s.entries with
  | none => rfl
  | some written =>
    rw [hwrite] at hspec
    exact hspec.2.1

/-- **What is read after a write**: the written value under its key, if the store has the key, and
all else as before. -/
theorem get?_set (s : Settings) (key value other : Text) :
    (s.set key value).get? other =
      if other = key ∧ s.contains key = true then some value else s.get? other := by
  have hspec := replace?_spec key value s.entries
  rw [set, set?]
  cases hwrite : replace? key value s.entries with
  | none =>
    rw [hwrite] at hspec
    rw [if_neg fun h => hspec (contains_iff_mem_keys.mp h.2)]
    rfl
  | some written =>
    rw [hwrite] at hspec
    have hcontains : s.contains key = true := contains_iff_mem_keys.mpr hspec.1
    rw [hcontains]
    simp only [and_true]
    exact hspec.2.2 other

/-- A write succeeds just for the keys that there are. -/
theorem isSome_set?_iff {s : Settings} {key : Text} (value : Text) :
    (s.set? key value).isSome = true ↔ key ∈ s.keys := by
  have hspec := replace?_spec key value s.entries
  rw [set?, Option.isSome_map]
  cases hwrite : replace? key value s.entries with
  | none =>
    rw [hwrite] at hspec
    exact iff_of_false Bool.false_ne_true hspec
  | some written =>
    rw [hwrite] at hspec
    exact iff_of_true rfl hspec.1

/-- A write to a key that there is not changes nothing. -/
theorem set_of_notMem {s : Settings} {key : Text} (h : key ∉ s.keys) (value : Text) :
    s.set key value = s := by
  have hnone : s.set? key value = none := by simpa using mt (isSome_set?_iff value).mp h
  rw [set, hnone]
  rfl

theorem value_set_self {s : Settings} {key : Text} (h : s.contains key = true) (value : Text) :
    (s.set key value).value key = value := by
  rw [Settings.value, get?_set, if_pos ⟨rfl, h⟩]
  rfl

theorem value_set_of_ne {key other : Text} (h : other ≠ key) (s : Settings) (value : Text) :
    (s.set key value).value other = s.value other := by
  rw [Settings.value, get?_set, if_neg fun hkey => h hkey.1]
  rfl

/-- The entries stay as they are when the value that is there is written. -/
theorem replace?_lookup (key : Text) (entries : List (Text × Text)) :
    (replace? key ((entries.lookup key).getD []) entries).getD entries = entries := by
  induction entries with
  | nil => rfl
  | cons entry rest ih =>
    rw [replace?, List.lookup_cons]
    by_cases hkey : entry.1 = key
    · rw [if_pos hkey, ← hkey, beq_self_eq_true]
      rfl
    · rw [if_neg hkey, beq_eq_false_iff_ne.mpr (Ne.symm hkey)]
      dsimp only
      cases hrest : replace? key ((rest.lookup key).getD []) rest with
      | none => rfl
      | some written =>
        rw [hrest, Option.getD_some] at ih
        rw [ih]
        rfl

/-- Writing the value that is there changes nothing. -/
theorem set_value (s : Settings) (key : Text) : s.set key (s.value key) = s := by
  have hs := replace?_lookup key s.entries
  rw [set, set?, Settings.value, get?]
  cases hwrite : replace? key ((s.entries.lookup key).getD []) s.entries with
  | none => rfl
  | some written =>
    rw [hwrite, Option.getD_some] at hs
    exact congrArg Settings.mk hs

/-- Writing another value does change the store. -/
theorem set_ne_self {s : Settings} {key value : Text} (h : s.contains key = true)
    (hnew : s.value key ≠ value) : s.set key value ≠ s := by
  intro hsame
  have hvalue := value_set_self h value
  rw [hsame] at hvalue
  exact hnew hvalue

/-- A write goes to the first entry, if that has the key, and to the others if not. -/
theorem set_cons (entry : Text × Text) (rest : List (Text × Text)) (key value : Text) :
    set ⟨entry :: rest⟩ key value =
      if entry.1 = key then ⟨(key, value) :: rest⟩
      else ⟨entry :: (set ⟨rest⟩ key value).entries⟩ := by
  rw [set, set?, replace?]
  by_cases hkey : entry.1 = key
  · rw [if_pos hkey, if_pos hkey]
    rfl
  · rw [if_neg hkey, if_neg hkey, set, set?]
    cases replace? key value rest <;> rfl

/-- Of two writes to one key the second one counts. -/
@[simp] theorem set_set (s : Settings) (key first second : Text) :
    (s.set key first).set key second = s.set key second := by
  obtain ⟨entries⟩ := s
  induction entries with
  | nil => rfl
  | cons entry rest ih =>
    rw [set_cons, set_cons]
    by_cases hkey : entry.1 = key
    · rw [if_pos hkey, if_pos hkey, set_cons, if_pos rfl]
    · rw [if_neg hkey, if_neg hkey, set_cons, if_neg hkey, ih]

/-- Writes to two keys may be made in either order. -/
theorem set_comm {key other : Text} (h : key ≠ other) (s : Settings) (value value' : Text) :
    (s.set key value).set other value' = (s.set other value').set key value := by
  obtain ⟨entries⟩ := s
  induction entries with
  | nil => rfl
  | cons entry rest ih =>
    rw [set_cons, set_cons]
    by_cases hkey : entry.1 = key
    · have hother : entry.1 ≠ other := fun heq => h (hkey.symm.trans heq)
      rw [if_pos hkey, if_neg hother, set_cons, set_cons, if_neg h, if_pos hkey]
    · rw [if_neg hkey]
      by_cases hother : entry.1 = other
      · rw [if_pos hother, set_cons, set_cons, if_pos hother, if_neg h.symm]
      · rw [if_neg hother, set_cons, set_cons, if_neg hother, if_neg hkey, ih]

/-- The display of a key that the store lacks is empty. -/
theorem contains_of_value_ne_nil {s : Settings} {key : Text} (h : s.value key ≠ []) :
    s.contains key = true := by
  cases hcontains : s.contains key with
  | true => rfl
  | false =>
    have hkey : key ∉ s.keys := by
      intro hmem
      rw [contains_iff_mem_keys.mpr hmem] at hcontains
      cases hcontains
    have hnone : s.get? key = none := by
      refine List.lookup_eq_none_iff.mpr fun entry hentry => bne_iff_ne.mpr ?_
      intro hentrykey
      exact hkey (hentrykey ▸ List.mem_map_of_mem hentry)
    rw [Settings.value, hnone] at h
    exact absurd rfl h

/-! ## Several writes -/

/-- The keys of writes that are made key by key. -/
theorem keys_writes (keys : List Text) (f : Text → Text) :
    (keys.map fun key => (key, f key)).map Prod.fst = keys := by
  rw [List.map_map]
  exact List.map_id keys

theorem setAll_append (s : Settings) (writes more : List (Text × Text)) :
    s.setAll (writes ++ more) = (s.setAll writes).setAll more :=
  List.foldl_append

@[simp] theorem keys_setAll (s : Settings) (writes : List (Text × Text)) :
    (s.setAll writes).keys = s.keys := by
  induction writes generalizing s with
  | nil => rfl
  | cons write rest ih => exact (ih (s.set write.1 write.2)).trans (keys_set s write.1 write.2)

/-- Writes to other keys leave a key alone. -/
theorem value_setAll_of_forall_ne {key : Text} {writes : List (Text × Text)}
    (h : key ∉ writes.map Prod.fst) (s : Settings) : (s.setAll writes).value key = s.value key := by
  induction writes generalizing s with
  | nil => rfl
  | cons write rest ih =>
    rw [List.map_cons, List.mem_cons, not_or] at h
    exact (ih h.2 (s.set write.1 write.2)).trans (value_set_of_ne h.1 s write.2)

/-- Among writes to different keys each one is read afterwards. -/
theorem value_setAll_of_mem {s : Settings} {writes : List (Text × Text)}
    (hkeys : (writes.map Prod.fst).Nodup) {key value : Text} (hmem : (key, value) ∈ writes)
    (hcontains : s.contains key = true) : (s.setAll writes).value key = value := by
  induction writes generalizing s with
  | nil => cases hmem
  | cons write rest ih =>
    rw [List.map_cons, List.nodup_cons] at hkeys
    show ((s.set write.1 write.2).setAll rest).value key = value
    rcases List.mem_cons.mp hmem with rfl | hrest
    · rw [value_setAll_of_forall_ne hkeys.1]
      exact value_set_self hcontains value
    · refine ih hkeys.2 hrest ?_
      rw [contains_iff_mem_keys, keys_set]
      exact contains_iff_mem_keys.mp hcontains

/-- Writing the values that are there changes nothing. -/
theorem setAll_eq_self {s : Settings} {writes : List (Text × Text)}
    (h : ∀ write ∈ writes, s.value write.1 = write.2) : s.setAll writes = s := by
  induction writes with
  | nil => rfl
  | cons write rest ih =>
    obtain ⟨hwrite, hrest⟩ := List.forall_mem_cons.mp h
    show (s.set write.1 write.2).setAll rest = s
    rw [← hwrite, set_value]
    exact ih hrest

/-- A write to another key may be made before several ones or after them. -/
theorem set_setAll {key : Text} {writes : List (Text × Text)} (h : key ∉ writes.map Prod.fst)
    (s : Settings) (value : Text) :
    (s.setAll writes).set key value = (s.set key value).setAll writes := by
  induction writes generalizing s with
  | nil => rfl
  | cons write rest ih =>
    rw [List.map_cons, List.mem_cons, not_or] at h
    show ((s.set write.1 write.2).setAll rest).set key value =
      ((s.set key value).set write.1 write.2).setAll rest
    rw [ih h.2, set_comm (Ne.symm h.1)]

/-- A write does not show if one of several later ones is to the same key. -/
theorem set_setAll_of_mem {key : Text} {writes : List (Text × Text)}
    (h : key ∈ writes.map Prod.fst) (s : Settings) (value : Text) :
    (s.set key value).setAll writes = s.setAll writes := by
  induction writes generalizing s with
  | nil => cases h
  | cons write rest ih =>
    show ((s.set key value).set write.1 write.2).setAll rest = (s.set write.1 write.2).setAll rest
    by_cases hkey : key = write.1
    · rw [hkey, set_set]
    · have hrest : key ∈ rest.map Prod.fst := (List.mem_cons.mp h).resolve_left hkey
      rw [set_comm hkey, ih hrest]

/-- Writes do not show if later ones are made to all their keys. -/
theorem setAll_setAll {writes later : List (Text × Text)}
    (h : ∀ write ∈ writes, write.1 ∈ later.map Prod.fst) (s : Settings) :
    (s.setAll writes).setAll later = s.setAll later := by
  induction writes generalizing s with
  | nil => rfl
  | cons write rest ih =>
    obtain ⟨hwrite, hrest⟩ := List.forall_mem_cons.mp h
    show ((s.set write.1 write.2).setAll rest).setAll later = s.setAll later
    rw [ih hrest, set_setAll_of_mem hwrite]

/-- **Making the same writes again changes nothing**, also when several of them are to one key. -/
theorem setAll_setAll_self (s : Settings) (writes : List (Text × Text)) :
    (s.setAll writes).setAll writes = s.setAll writes :=
  setAll_setAll (fun _ hwrite => List.mem_map_of_mem hwrite) s

/-- Writes to different keys may be made in either order. -/
theorem setAll_comm {writes others : List (Text × Text)}
    (h : ∀ key ∈ writes.map Prod.fst, key ∉ others.map Prod.fst) (s : Settings) :
    (s.setAll writes).setAll others = (s.setAll others).setAll writes := by
  induction writes generalizing s with
  | nil => rfl
  | cons write rest ih =>
    rw [List.map_cons, List.forall_mem_cons] at h
    show ((s.set write.1 write.2).setAll rest).setAll others =
      ((s.setAll others).set write.1 write.2).setAll rest
    rw [ih h.2, set_setAll h.1]

/-! ## What holds of all values -/

/-- What holds of the texts in the entries, and of the empty text, holds of every value. -/
theorem values_of_entries {P : Text → Prop} {s : Settings} (hnil : P [])
    (h : ∀ entry ∈ s.entries, P entry.2) (key : Text) : P (s.value key) := by
  rw [value]
  cases hget : s.get? key with
  | none => exact hnil
  | some value =>
    obtain ⟨front, behind, hentries, -⟩ := List.lookup_eq_some_iff.mp hget
    exact h (key, value) (by rw [hentries]; simp)

theorem value_set_cases (s : Settings) (key value other : Text) :
    (s.set key value).value other = value ∨ (s.set key value).value other = s.value other := by
  rw [Settings.value, get?_set]
  split
  · exact .inl rfl
  · exact .inr rfl

/-- Writes of good values to a store of good values leave good values. -/
theorem values_set {P : Text → Prop} {s : Settings} (hs : ∀ key, P (s.value key))
    {value : Text} (hvalue : P value) (key other : Text) : P ((s.set key value).value other) := by
  rcases s.value_set_cases key value other with hnew | hold
  · rw [hnew]
    exact hvalue
  · rw [hold]
    exact hs other

theorem values_setAll {P : Text → Prop} {s : Settings} (hs : ∀ key, P (s.value key))
    {writes : List (Text × Text)} (hwrites : ∀ write ∈ writes, P write.2) (key : Text) :
    P ((s.setAll writes).value key) := by
  induction writes generalizing s with
  | nil => exact hs key
  | cons write rest ih =>
    obtain ⟨hwrite, hrest⟩ := List.forall_mem_cons.mp hwrites
    exact ih (values_set hs hwrite write.1) hrest

end Settings

end WaveGen
