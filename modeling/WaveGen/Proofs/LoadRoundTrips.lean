import Mathlib.Logic.Function.Iterate
import WaveGen.Proofs.Halves
import WaveGen.Proofs.LoadChanges

/-!
# Round trips of the load (specification §8)

A change to a load of 50 ohms and back halves five settings and doubles them again. A number whose
half needs a seventh digit does not come back as it was. But what comes back has a half of six
digits, so from the second round trip on nothing changes any more.

* `Quantity.Displayed`, `Quantity.HalfFits` — the texts that a round trip is made with, and those
  that it restores.
* `Channel.loadTrip_eq` — what one round trip writes.
* `Channel.Settled` — the channels that a round trip leaves as they are.
* `Channel.load_trips_settle` — one round trip settles a channel.
-/

namespace WaveGen

namespace Quantity

/-! ## Texts -/

/-- A text as numbers are displayed, of zero or of a magnitude from `10 ^ -290` to `10 ^ 290`. -/
def Displayed (t : Text) : Prop :=
  ∃ x d, t = display x ∧ Reads t d ∧
    (d.magnitude = 0 ∨ 10 ^ (-290 : ℤ) ≤ d.magnitude ∧ d.magnitude ≤ 10 ^ (290 : ℤ))

/-- Written with six digits, the number that the text spells ends in an even digit or begins with a
1. So its half has at most six digits. -/
def HalfFits (t : Text) : Prop :=
  ∀ (d : Decimal) (m : ℕ) (j : ℤ), Reads t d → 100000 ≤ m → m ≤ 999999 →
    d.magnitude = m * 10 ^ j → m % 2 = 0 ∨ m < 200000

/-- There is one way to write a number with six digits. -/
theorem halfFits_iff {t : Text} {d e : Decimal} (hd : Reads t d)
    (he : e.HasDigits significantDigits) (h : d.magnitude = e.magnitude) :
    HalfFits t ↔ e.HasHalf := by
  constructor
  · intro hfits
    exact hfits d e.significand e.exponent hd he.1 (Nat.le_sub_one_of_lt he.2) h
  · intro hhalf d' m j hd' hleast hgreatest hvalue
    have hdigits : Decimal.HasDigits significantDigits ⟨e.negative, m, j⟩ :=
      ⟨hleast, Nat.lt_of_le_sub_one (by decide) hgreatest⟩
    have hsame : e.magnitude = Decimal.magnitude ⟨e.negative, m, j⟩ := by
      rw [← h, hd.unique hd', hvalue, Decimal.magnitude]
    rw [he.ext hdigits rfl hsame] at hhalf
    exact hhalf

/-- The text of a number that is neither very small nor very large. -/
theorem displayed_of_reads {t : Text} {d e : Decimal} (ht : Reads t d)
    (hdisplay : display d.toBinary64 = t) (he : e.HasDigits significantDigits)
    (h : d.magnitude = e.magnitude) (hleast : 10 ^ (-20 : ℤ) ≤ e.magnitude)
    (hgreatest : e.magnitude ≤ 10 ^ (20 : ℤ)) : Displayed t ∧ (e.HasHalf → HalfFits t) := by
  refine ⟨⟨d.toBinary64, d, hdisplay.symm, ht, .inr ?_⟩, (halfFits_iff ht he h).mpr⟩
  rw [h]
  exact ⟨(zpow_le_zpow_right₀ (by norm_num) (by norm_num)).trans hleast,
    hgreatest.trans (zpow_le_zpow_right₀ (by norm_num) (by norm_num))⟩

/-- What is displayed is the text of zero or of a number with six digits. -/
theorem Displayed.eq_zero_or_generalText {t : Text} (h : Displayed t) :
    t = ['0'] ∨ ∃ d : Decimal, d.HasDigits significantDigits ∧ t = d.generalText ∧
      10 ^ (-290 : ℤ) ≤ d.magnitude ∧ d.magnitude ≤ 10 ^ (290 : ℤ) ∧ (HalfFits t → d.HasHalf) := by
  obtain ⟨x, d, rfl, hread, hrange⟩ := h
  have hfinite := Binary64.isFinite_of_read?_toText (Option.isSome_iff_exists.mpr ⟨d, hread.2⟩)
  obtain ⟨d', hread', -, hshown⟩ := reads_display hfinite
  rw [hread'.unique hread] at hshown
  cases x with
  | infinite n => cases hfinite
  | nan => cases hfinite
  | finite n rank =>
    by_cases hrank : rank.val = 0
    · left
      exact if_pos hrank
    · right
      have hdigits := (Binary64.rounds_shown n hrank).hasDigits
      rw [hshown] at hrange
      obtain ⟨hleast, hgreatest⟩ := hrange.resolve_left hdigits.magnitude_pos.ne'
      exact ⟨_, hdigits, Binary64.toText_finite hrank, hleast, hgreatest,
        (halfFits_iff hread hdigits hshown).mp⟩

/-- Halving and doubling a displayed number. -/
theorem Displayed.exists_settled {t : Text} (h : Displayed t) :
    ∃ half doubled, divide t ['2'] = .ok half ∧ multiply half ['2'] = .ok doubled ∧
      Settled doubled ∧ (HalfFits t → doubled = t) := by
  rcases h.eq_zero_or_generalText with rfl | ⟨d, hd, rfl, hleast, hgreatest, hhalf⟩
  · obtain ⟨half, hdivide, hmultiply⟩ := settled_zero
    exact ⟨half, ['0'], hdivide, hmultiply, settled_zero, fun _ => rfl⟩
  · obtain ⟨half, doubled, hdivide, hmultiply, hsettled, hsame⟩ :=
      Quantity.exists_settled hd hleast hgreatest
    exact ⟨half, doubled, hdivide, hmultiply, hsettled, fun hfits => hsame (hhalf hfits)⟩

theorem ne_nil_of_divide {t divisor quotient : Text} (h : divide t divisor = .ok quotient) :
    t ≠ [] := by
  rintro rfl
  obtain ⟨x, y, hx, -⟩ := divide_eq_ok_iff.mp h
  cases hx

end Quantity

namespace Channel

/-! ## Round trips -/

/-- Carries out the command for a new load. -/
def setLoad (c : Channel) (load : Text) : Channel × Except CommandFault Reply :=
  c.process (c.address ++ ("OUTP LOAD,".toList ++ load))

/-- The channel after the commands for a load of 50 ohms and for high impedance again. -/
def loadTrip (c : Channel) : Channel := ((c.setLoad load50).1.setLoad loadHighZ).1

/-- Both commands of a round trip succeed. -/
def TripSucceeds (c : Channel) : Prop :=
  (c.setLoad load50).2 = .ok .silent ∧ ((c.setLoad load50).1.setLoad loadHighZ).2 = .ok .silent

/-- The writes of a round trip come to those of the doubled halves. -/
theorem setAll_trip {s : Settings} (hload : s.value Key.load = loadHighZ)
    (half doubled : Text → Text) :
    ((((s.set Key.load load50).setAll (loadScaled.map fun key => (key, half key))).set Key.load
      loadHighZ).setAll (loadScaled.map fun key => (key, doubled key))) =
      s.setAll (loadScaled.map fun key => (key, doubled key)) := by
  have hother : Key.load ∉ (loadScaled.map fun key => (key, half key)).map Prod.fst := by
    rw [Settings.keys_writes]
    decide
  rw [Settings.set_setAll hother, Settings.set_set, ← hload, Settings.set_value]
  refine Settings.setAll_setAll (fun write hwrite => ?_) s
  obtain ⟨key, hkey, rfl⟩ := List.mem_map.mp hwrite
  rwa [Settings.keys_writes]

/-- **What a round trip writes**, when the five settings can be halved and their halves doubled. -/
theorem loadTrip_eq {c : Channel} (hload : c.settings.value Key.load = loadHighZ)
    {half doubled : Text → Text}
    (hhalf : ∀ key ∈ loadScaled, Quantity.divide (c.settings.value key) ['2'] = .ok (half key))
    (hdoubled : ∀ key ∈ loadScaled, Quantity.multiply (half key) ['2'] = .ok (doubled key)) :
    TripSucceeds c ∧ loadTrip c =
      { c with settings := c.settings.setAll (loadScaled.map fun key => (key, doubled key)) } := by
  set s := c.settings with hs
  set s50 := (s.set Key.load load50).setAll (loadScaled.map fun key => (key, half key)) with hs50
  have hto50 : changeLoad s load50 = .ok s50 :=
    changeLoad_eq_ok_iff.mpr (.inr ⟨by rw [hload]; decide, _, _, rfl, scaled_eq_ok hhalf, rfl⟩)
  have hload50 : s50.value Key.load = load50 := by
    rw [hs50, Settings.value_setAll_of_forall_ne (by rw [Settings.keys_writes]; decide)]
    apply Settings.value_set_self
    exact Settings.contains_of_value_ne_nil (by rw [hload]; decide)
  have hvalue50 : ∀ key ∈ loadScaled, s50.value key = half key := by
    intro key hkey
    refine Settings.value_setAll_of_mem ?_ (List.mem_map_of_mem hkey) ?_
    · rw [Settings.keys_writes]
      decide
    · rw [Settings.contains_iff_mem_keys, Settings.keys_set, ← Settings.contains_iff_mem_keys]
      exact Settings.contains_of_value_ne_nil (Quantity.ne_nil_of_divide (hhalf key hkey))
  have hscaled : scaled s50 (fun value => Quantity.multiply value ['2']) loadScaled =
      .ok (loadScaled.map fun key => (key, doubled key)) := by
    refine scaled_eq_ok fun key hkey => ?_
    rw [hvalue50 key hkey]
    exact hdoubled key hkey
  have hback : changeLoad s50 loadHighZ =
      .ok (s.setAll (loadScaled.map fun key => (key, doubled key))) := by
    rw [← setAll_trip hload half doubled]
    exact changeLoad_eq_ok_iff.mpr (.inr ⟨by rw [hload50]; decide, _, _, rfl, hscaled, rfl⟩)
  have hfirst : c.setLoad load50 = ({ c with settings := s50 }, .ok .silent) :=
    process_load c (.inl rfl) hto50
  have hsecond := process_load { c with settings := s50 } (.inr rfl) hback
  rw [TripSucceeds, loadTrip, hfirst]
  exact ⟨⟨rfl, congrArg Prod.snd hsecond⟩, congrArg Prod.fst hsecond⟩

/-- A round trip leaves the channel as it is. -/
structure Settled (c : Channel) : Prop where
  load : c.settings.value Key.load = loadHighZ
  scaled : ∀ key ∈ loadScaled, Quantity.Settled (c.settings.value key)

theorem Settled.loadTrip {c : Channel} (h : Settled c) : TripSucceeds c ∧ loadTrip c = c := by
  choose! half hhalf hdoubled using h.scaled
  obtain ⟨hsucceeds, htrip⟩ := loadTrip_eq h.load hhalf hdoubled
  refine ⟨hsucceeds, ?_⟩
  rw [htrip, Settings.setAll_eq_self]
  exact List.forall_mem_map.mpr fun key _ => rfl

/-- **The first round trip** succeeds and settles the channel; if all halves fit, it changes
nothing. -/
theorem settled_loadTrip {c : Channel} (hload : c.settings.value Key.load = loadHighZ)
    (hdisplayed : ∀ key ∈ loadScaled, Quantity.Displayed (c.settings.value key)) :
    TripSucceeds c ∧ Settled (loadTrip c) ∧
      ((∀ key ∈ loadScaled, Quantity.HalfFits (c.settings.value key)) → loadTrip c = c) := by
  choose! half doubled hhalf hdoubled hsettled hsame using
    fun key hkey => (hdisplayed key hkey).exists_settled
  obtain ⟨hsucceeds, htrip⟩ := loadTrip_eq hload hhalf hdoubled
  refine ⟨hsucceeds, ⟨?_, ?_⟩, ?_⟩
  · rw [htrip]
    refine (Settings.value_setAll_of_forall_ne ?_ _).trans hload
    rw [Settings.keys_writes]
    decide
  · intro key hkey
    have hvalue : (c.settings.setAll (loadScaled.map fun key => (key, doubled key))).value key =
        doubled key := by
      refine Settings.value_setAll_of_mem ?_ (List.mem_map_of_mem hkey) ?_
      · rw [Settings.keys_writes]
        decide
      · exact Settings.contains_of_value_ne_nil (Quantity.ne_nil_of_divide (hhalf key hkey))
    rw [htrip, hvalue]
    exact hsettled key hkey
  · intro hfits
    rw [htrip, Settings.setAll_eq_self]
    exact List.forall_mem_map.mpr fun key hkey => (hsame key hkey (hfits key hkey)).symm

/-- **Round trips do not drift.** Take a load of high impedance, and let the five settings that are
scaled be displayed numbers, neither too small nor too large. Then any number of round trips can be
made. All of them together leave what the first one leaves; and if all halves fit into six digits,
that is the channel as it was. -/
theorem load_trips_settle {c : Channel} (hload : c.settings.value Key.load = loadHighZ)
    (hdisplayed : ∀ key ∈ loadScaled, Quantity.Displayed (c.settings.value key)) :
    (∀ trips : ℕ, TripSucceeds (loadTrip^[trips] c)) ∧
      (∀ trips : ℕ, 1 ≤ trips → loadTrip^[trips] c = loadTrip c) ∧
      ((∀ key ∈ loadScaled, Quantity.HalfFits (c.settings.value key)) → loadTrip c = c) := by
  obtain ⟨hfirst, hsettled, hsame⟩ := settled_loadTrip hload hdisplayed
  obtain ⟨hnext, hfixed⟩ := hsettled.loadTrip
  have hlater : ∀ trips : ℕ, loadTrip^[trips + 1] c = loadTrip c := by
    intro trips
    rw [Function.iterate_succ_apply]
    exact Function.iterate_fixed hfixed trips
  refine ⟨fun trips => ?_, fun trips htrips => ?_, hsame⟩
  · cases trips with
    | zero => exact hfirst
    | succ trips =>
      rw [hlater]
      exact hnext
  · obtain ⟨more, rfl⟩ := Nat.exists_eq_add_of_le' htrips
    exact hlater more

/-- A new channel with another amplitude, and a power level of six digits: the settings that are
scaled besides the amplitude are restored. -/
theorem others_fit (amplitude : Text) (key : Text) (hkey : key ∈ otherScaled) :
    let t := (defaultSettings.setAll
      [(Key.amplitude, amplitude), (Key.powerLevel, "19.9974".toList)]).value key
    Quantity.Displayed t ∧ Quantity.HalfFits t := by
  have heffective : Quantity.Displayed "1.414".toList ∧ _ :=
    Quantity.displayed_of_reads (d := ⟨false, 1414, -3⟩) (e := ⟨false, 141400, -5⟩) (by decide)
      (by decide +kernel) ⟨by decide, by decide⟩ (by norm_num [Decimal.magnitude])
      (by norm_num [Decimal.magnitude]) (by norm_num [Decimal.magnitude])
  have hpower : Quantity.Displayed "19.9974".toList ∧ _ :=
    Quantity.displayed_of_reads (d := ⟨false, 199974, -4⟩) (by decide) (by decide +kernel)
      ⟨by decide, by decide⟩ rfl (by norm_num [Decimal.magnitude])
      (by norm_num [Decimal.magnitude])
  have hhigh : Quantity.Displayed "2".toList ∧ _ :=
    Quantity.displayed_of_reads (d := ⟨false, 2, 0⟩) (e := ⟨false, 200000, -5⟩) (by decide)
      (by decide +kernel) ⟨by decide, by decide⟩ (by norm_num [Decimal.magnitude])
      (by norm_num [Decimal.magnitude]) (by norm_num [Decimal.magnitude])
  have hlow : Quantity.Displayed "-2".toList ∧ _ :=
    Quantity.displayed_of_reads (d := ⟨true, 2, 0⟩) (e := ⟨true, 200000, -5⟩) (by decide)
      (by decide +kernel) ⟨by decide, by decide⟩ (by norm_num [Decimal.magnitude])
      (by norm_num [Decimal.magnitude]) (by norm_num [Decimal.magnitude])
  revert key
  simp only [otherScaled, List.forall_mem_cons, List.not_mem_nil, false_implies, implies_true,
    and_true]
  exact ⟨⟨heffective.1, heffective.2 (.inl rfl)⟩, ⟨hpower.1, hpower.2 (.inl rfl)⟩,
    ⟨hhigh.1, hhigh.2 (.inl rfl)⟩, ⟨hlow.1, hlow.2 (.inl rfl)⟩⟩

/-- An amplitude whose half does not fit, and one whose half does. -/
theorem load_trips_settle_odd_even :
    let channel := fun amplitude : Text =>
      { Channel.new 1 with settings :=
          defaultSettings.setAll [(Key.amplitude, amplitude), (Key.powerLevel, "19.9974".toList)] }
    let odd := channel "3.00001".toList
    let even := channel "3.00002".toList
    (∀ key ∈ loadScaled, Quantity.Displayed (odd.settings.value key)) ∧ loadTrip odd ≠ odd ∧
      TripSucceeds (loadTrip^[3] odd) ∧ loadTrip^[3] odd = loadTrip odd ∧
      (∀ key ∈ loadScaled, Quantity.HalfFits (even.settings.value key)) ∧ loadTrip even = even := by
  intro channel odd even
  have hodd : Quantity.Displayed "3.00001".toList ∧ _ :=
    Quantity.displayed_of_reads (d := ⟨false, 300001, -5⟩) (by decide) (by decide +kernel)
      ⟨by decide, by decide⟩ rfl (by norm_num [Decimal.magnitude])
      (by norm_num [Decimal.magnitude])
  have heven : Quantity.Displayed "3.00002".toList ∧ _ :=
    Quantity.displayed_of_reads (d := ⟨false, 300002, -5⟩) (by decide) (by decide +kernel)
      ⟨by decide, by decide⟩ rfl (by norm_num [Decimal.magnitude])
      (by norm_num [Decimal.magnitude])
  have hodd_all : ∀ key ∈ loadScaled, Quantity.Displayed (odd.settings.value key) :=
    List.forall_mem_cons.mpr ⟨hodd.1, fun key hkey => (others_fit _ key hkey).1⟩
  have heven_all : ∀ key ∈ loadScaled, Quantity.Displayed (even.settings.value key) :=
    List.forall_mem_cons.mpr ⟨heven.1, fun key hkey => (others_fit _ key hkey).1⟩
  have heven_fits : ∀ key ∈ loadScaled, Quantity.HalfFits (even.settings.value key) :=
    List.forall_mem_cons.mpr
      ⟨heven.2 (.inl rfl), fun key hkey => (others_fit _ key hkey).2⟩
  obtain ⟨hsucceeds, hsettles, -⟩ := load_trips_settle (c := odd) (by decide) hodd_all
  obtain ⟨-, -, hrestores⟩ := load_trips_settle (c := even) (by decide) heven_all
  exact ⟨hodd_all, by decide +kernel, hsucceeds 3, hsettles 3 (by decide), heven_fits,
    hrestores heven_fits⟩

end Channel

end WaveGen
