import Mathlib.Data.List.DropRight
import WaveGen.Text

/-!
# Laws of texts

What later proofs use of trimming, letter case and cutting.

* `Text.trim_trim`, `Text.upper_upper` — both are idempotent.
* `Text.trim_upper` — they commute, since raising a letter makes no blank of it.
* `Text.split_eq_splitOn` — cutting at every separator is the library's `splitOn`.
-/

namespace WaveGen

namespace Text

/-! ## Letter case -/

/-- Raising a small letter lowers its code by 32; every other character keeps its code. -/
theorem toNat_toUpper (c : Char) :
    c.toUpper.toNat = if 97 ≤ c.toNat ∧ c.toNat ≤ 122 then c.toNat - 32 else c.toNat := by
  unfold Char.toUpper
  by_cases h : 97 ≤ c.toNat ∧ c.toNat ≤ 122
  · have hval : 'a'.val ≤ c.val ∧ c.val ≤ 'z'.val := h
    rw [if_pos h, dif_pos hval]
    show (c.val + ('A'.val - 'a'.val)).toNat = c.val.toNat - 32
    -- the difference of the two codes wraps around below zero
    have hshift : ('A'.val - 'a'.val).toNat = 2 ^ 32 - 32 := by decide
    have hc : c.val.toNat = c.toNat := rfl
    rw [UInt32.toNat_add, hshift]
    omega
  · have hval : ¬ ('a'.val ≤ c.val ∧ c.val ≤ 'z'.val) := h
    rw [if_neg h, dif_neg hval]

@[simp] theorem toUpper_toUpper (c : Char) : c.toUpper.toUpper = c.toUpper := by
  apply Char.toNat_inj.mp
  simp only [toNat_toUpper]
  split
  · rw [if_neg (by omega)]
  · rfl

@[simp] theorem upper_upper (t : Text) : upper (upper t) = upper t := by
  rw [upper, upper, List.map_map]
  exact List.map_congr_left fun c _ => toUpper_toUpper c

theorem toUpper_eq_iff {c : Char} {d : Char} (hd : d.toNat < 65 ∨ 122 < d.toNat) :
    c.toUpper = d ↔ c = d := by
  constructor
  · intro h
    have hcode := toNat_toUpper c
    rw [h] at hcode
    split at hcode
    · omega
    · exact Char.toNat_inj.mp hcode.symm
  · rintro rfl
    apply Char.toNat_inj.mp
    rw [toNat_toUpper, if_neg (by omega)]

/-- A mark that is no letter ends a text in capitals exactly if it ends the text. -/
theorem getLast?_upper {d : Char} (hd : d.toNat < 65 ∨ 122 < d.toNat) (t : Text) :
    (upper t).getLast? = some d ↔ t.getLast? = some d := by
  rw [upper, List.getLast?_map, Option.map_eq_some_iff]
  simp [toUpper_eq_iff hd]

theorem mem_upper {d : Char} (hd : d.toNat < 65 ∨ 122 < d.toNat) (t : Text) :
    d ∈ upper t ↔ d ∈ t := by
  rw [upper, List.mem_map]
  simp [toUpper_eq_iff hd]

/-! ## Blanks -/

/-- A letter is a blank in neither case. -/
@[simp] theorem isBlank_toUpper (c : Char) : isBlank c.toUpper = isBlank c := by
  unfold isBlank
  rw [toNat_toUpper]
  split
  · rename_i h
    rw [Bool.eq_iff_iff]
    simp
    omega
  · rfl

theorem trimStart_upper (t : Text) : trimStart (upper t) = upper (trimStart t) := by
  have h : isBlank ∘ Char.toUpper = isBlank := funext isBlank_toUpper
  rw [trimStart, upper, List.dropWhile_map, h]
  rfl

theorem trimEnd_upper (t : Text) : trimEnd (upper t) = upper (trimEnd t) := by
  have hturned : trimEnd (upper t) = (trimStart (upper t.reverse)).reverse := by
    rw [upper, upper, List.map_reverse]
    rfl
  rw [hturned, trimStart_upper, upper, ← List.map_reverse]
  rfl

theorem trim_upper (t : Text) : trim (upper t) = upper (trim t) := by
  rw [trim, trimStart_upper, trimEnd_upper, trim]

theorem trimStart_append (t u : Text) :
    trimStart (t ++ u) = if trimStart t = [] then trimStart u else trimStart t ++ u := by
  rw [trimStart, List.dropWhile_append]
  simp only [List.isEmpty_iff]
  rfl

theorem trimEnd_append (t u : Text) :
    trimEnd (t ++ u) = if trimEnd u = [] then trimEnd t else t ++ trimEnd u := by
  have hturned : trimEnd (t ++ u) = (trimStart (u.reverse ++ t.reverse)).reverse := by
    rw [← List.reverse_append]
    rfl
  rw [hturned, trimStart_append]
  by_cases hblank : trimStart u.reverse = []
  · have hend : trimEnd u = [] := List.reverse_eq_nil_iff.mpr hblank
    rw [if_pos hblank, if_pos hend]
    rfl
  · have hend : trimEnd u ≠ [] := mt List.reverse_eq_nil_iff.mp hblank
    rw [if_neg hblank, if_neg hend, List.reverse_append, List.reverse_reverse]
    rfl

/-- A character that is no blank keeps what is behind it from being trimmed at the front. -/
theorem trimStart_append_cons {c : Char} (hc : isBlank c = false) (t rest : Text) :
    trimStart (t ++ c :: rest) = trimStart t ++ c :: rest := by
  have hstart : trimStart (c :: rest) = c :: rest :=
    List.dropWhile_cons_of_neg (by rw [hc]; decide)
  rw [trimStart_append, hstart]
  split
  · rename_i hblank
    rw [hblank, List.nil_append]
  · rfl

theorem trimEnd_append_cons {c : Char} (hc : isBlank c = false) (t rest : Text) :
    trimEnd (t ++ c :: rest) = t ++ c :: trimEnd rest := by
  have hlast : trimEnd [c] = [c] := by simp [trimEnd, hc]
  have hend : trimEnd (c :: rest) = c :: trimEnd rest := by
    rw [← List.singleton_append, trimEnd_append, hlast]
    split
    · rename_i hblank
      rw [hblank]
    · rfl
  rw [trimEnd_append, hend, if_neg (List.cons_ne_nil c _)]

/-- Blanks around a text are trimmed with its own. -/
theorem trim_blanks {front behind : Text} (hfront : front.all isBlank = true)
    (hbehind : behind.all isBlank = true) (t : Text) : trim (front ++ t ++ behind) = trim t := by
  have hstart : ∀ {blanks : Text}, blanks.all isBlank = true → trimStart blanks = [] :=
    fun h => List.dropWhile_eq_nil_iff.mpr (List.all_eq_true.mp h)
  have hend : trimEnd behind = [] := by
    rw [trimEnd, ← trimStart, hstart (by rw [List.all_reverse]; exact hbehind)]
    rfl
  rw [trim, trim, List.append_assoc, trimStart_append, if_pos (hstart hfront), trimStart_append]
  split
  · rename_i hblank
    rw [hstart hbehind, hblank]
  · rw [trimEnd_append, if_pos hend]

/-- A trimmed text has no blank in front: its first character is the first one that is no blank. -/
theorem trimStart_trim (t : Text) : trimStart (trim t) = trim t := by
  have hpre : trim t <+: trimStart t := List.rdropWhile_prefix isBlank _
  cases htrim : trim t with
  | nil => rfl
  | cons c rest =>
    rw [htrim] at hpre
    obtain ⟨more, hmore⟩ := hpre
    have hc : isBlank c = false := by
      have hhead := List.head?_dropWhile_not isBlank t
      rw [show t.dropWhile isBlank = c :: (rest ++ more) from hmore.symm] at hhead
      exact hhead
    rw [trimStart, List.dropWhile_cons_of_neg (by rw [hc]; decide)]

@[simp] theorem trim_trim (t : Text) : trim (trim t) = trim t := by
  show trimEnd (trimStart (trim t)) = trim t
  rw [trimStart_trim]
  exact List.rdropWhile_idempotent isBlank (trimStart t)

/-- A text with no blank in front loses none. -/
theorem trimStart_of_head {t : Text} (hhead : ∀ c ∈ t.head?, isBlank c = false) :
    trimStart t = t := by
  cases t with
  | nil => rfl
  | cons c rest => exact List.dropWhile_cons_of_neg (by rw [hhead c rfl]; decide)

theorem trimEnd_of_last {t : Text} (hlast : ∀ c ∈ t.getLast?, isBlank c = false) :
    trimEnd t = t := by
  rw [← List.head?_reverse] at hlast
  rw [trimEnd, ← trimStart, trimStart_of_head hlast, List.reverse_reverse]

/-- A text with a blank at neither end is not trimmed. -/
theorem trim_of_ends {t : Text} (hhead : ∀ c ∈ t.head?, isBlank c = false)
    (hlast : ∀ c ∈ t.getLast?, isBlank c = false) : trim t = t := by
  rw [trim, trimStart_of_head hhead, trimEnd_of_last hlast]

theorem trim_of_forall_not_isBlank {t : Text} (h : ∀ c ∈ t, isBlank c = false) : trim t = t :=
  trim_of_ends (fun c hc => h c (List.mem_of_head? hc)) fun c hc => h c (List.mem_of_getLast? hc)

/-- Only blanks are trimmed. -/
theorem mem_trim {c : Char} (hc : isBlank c = false) {t : Text} (h : c ∈ t) : c ∈ trim t := by
  obtain ⟨front, behind, rfl⟩ := List.append_of_mem h
  rw [trim, trimStart_append_cons hc, trimEnd_append_cons hc]
  exact List.mem_append_right _ List.mem_cons_self

/-! ## Cutting -/

theorem split_eq_splitOn (sep : Char) (t : Text) : split sep t = t.splitOn sep := by
  induction t with
  | nil => rfl
  | cons c rest ih =>
    rw [split_cons, ih, List.splitOn_cons_eq_if_modifyHead]
    simp only [beq_iff_eq]

theorem before_cons (sep c : Char) (t : Text) :
    before sep (c :: t) = if c = sep then [] else c :: before sep t := by
  rw [before, List.takeWhile_cons]
  by_cases hc : c = sep <;> simp [hc, before]

theorem after?_cons (sep c : Char) (t : Text) :
    after? sep (c :: t) = if c = sep then some t else after? sep t := by
  rw [after?, List.dropWhile_cons]
  by_cases hc : c = sep <;> simp [hc, after?]

/-- The pieces are the text in front of the first separator, and the pieces of what follows it. -/
theorem split_eq_before_after (sep : Char) (t : Text) :
    split sep t = before sep t :: ((after? sep t).map (split sep)).getD [] := by
  induction t with
  | nil => rfl
  | cons c rest ih =>
    rw [split_cons, before_cons, after?_cons]
    by_cases hc : c = sep
    · rw [if_pos hc, if_pos hc, if_pos hc]
      rfl
    · rw [if_neg hc, if_neg hc, if_neg hc, ih, List.modifyHead_cons]

/-- No piece of a list holds the separator at which the list was cut. -/
theorem not_mem_of_mem_splitOn {α : Type} [BEq α] [LawfulBEq α] {sep : α} {xs piece : List α}
    (h : piece ∈ xs.splitOn sep) : sep ∉ piece := by
  induction xs generalizing piece with
  | nil =>
    rw [List.splitOn_nil, List.mem_singleton] at h
    simp [h]
  | cons x rest ih =>
    rw [List.splitOn_cons_eq_if_modifyHead] at h
    split at h
    · rcases List.mem_cons.mp h with rfl | hrest
      · exact List.not_mem_nil
      · exact ih hrest
    · rename_i hx
      obtain ⟨first, others, hpieces⟩ := List.exists_cons_of_ne_nil (List.splitOn_ne_nil sep rest)
      rw [hpieces, List.modifyHead_cons] at h
      rcases List.mem_cons.mp h with rfl | hothers
      · have hfirst := ih (hpieces ▸ List.mem_cons_self ..)
        exact fun hmem => (List.mem_cons.mp hmem).elim (fun e => hx (beq_iff_eq.mpr e.symm)) hfirst
      · exact ih (hpieces ▸ List.mem_cons_of_mem _ hothers)

/-- No piece holds the separator. -/
theorem not_mem_of_mem_split {sep : Char} {t piece : Text} (h : piece ∈ split sep t) :
    sep ∉ piece := by
  rw [split_eq_splitOn] at h
  exact not_mem_of_mem_splitOn h

/-- A text has two pieces when it holds exactly one separator. -/
theorem split_eq_pair_iff {sep : Char} {t a b : Text} :
    split sep t = [a, b] ↔ t = a ++ sep :: b ∧ sep ∉ a ∧ sep ∉ b := by
  constructor
  · intro h
    refine ⟨?_, not_mem_of_mem_split (h ▸ List.mem_cons_self ..),
      not_mem_of_mem_split (h ▸ List.mem_cons_of_mem _ List.mem_cons_self)⟩
    have hjoin : [sep].intercalate (t.splitOn sep) = t := List.intercalate_splitOn sep
    rw [← split_eq_splitOn, h] at hjoin
    simpa using hjoin.symm
  · rintro ⟨rfl, ha, hb⟩
    rw [split_eq_splitOn, List.splitOn_append_cons_self_of_not_mem ha,
      List.splitOn_eq_singleton hb]

/-- The piece in front of a separator, and the pieces behind it. -/
theorem split_append_cons {sep : Char} {t : Text} (h : sep ∉ t) (rest : Text) :
    split sep (t ++ sep :: rest) = t :: split sep rest := by
  rw [split_eq_splitOn, split_eq_splitOn, List.splitOn_append_cons_self_of_not_mem h]

/-- Dropping a head undoes putting it in front. -/
theorem dropHead?_eq_some_iff {head t rest : Text} :
    dropHead? head t = some rest ↔ t = head ++ rest := by
  rw [dropHead?, List.isPrefixOf?_eq_some_iff_append_eq]
  exact eq_comm

theorem startsWith_iff {head t : Text} : startsWith head t = true ↔ ∃ rest, t = head ++ rest := by
  rw [startsWith, List.isPrefixOf_iff_prefix]
  exact exists_congr fun rest => eq_comm

/-! ## The two sides of a separator -/

theorem not_mem_before (sep : Char) (t : Text) : sep ∉ before sep t := by
  induction t with
  | nil => exact List.not_mem_nil
  | cons c rest ih =>
    rw [before_cons]
    split
    · exact List.not_mem_nil
    · rename_i hc
      exact List.not_mem_cons_of_ne_of_not_mem (Ne.symm hc) ih

/-- A text without the separator has nothing behind it. -/
theorem before_of_not_mem {sep : Char} {t : Text} (h : sep ∉ t) : before sep t = t := by
  induction t with
  | nil => rfl
  | cons c rest ih =>
    rw [List.mem_cons, not_or] at h
    rw [before_cons, if_neg (Ne.symm h.1), ih h.2]

theorem after?_of_not_mem {sep : Char} {t : Text} (h : sep ∉ t) : after? sep t = none := by
  induction t with
  | nil => rfl
  | cons c rest ih =>
    rw [List.mem_cons, not_or] at h
    rw [after?_cons, if_neg (Ne.symm h.1), ih h.2]

theorem before_append_cons {sep : Char} {t : Text} (h : sep ∉ t) (rest : Text) :
    before sep (t ++ sep :: rest) = t := by
  induction t with
  | nil => rw [List.nil_append, before_cons, if_pos rfl]
  | cons c others ih =>
    rw [List.mem_cons, not_or] at h
    rw [List.cons_append, before_cons, if_neg (Ne.symm h.1), ih h.2]

theorem after?_append_cons {sep : Char} {t : Text} (h : sep ∉ t) (rest : Text) :
    after? sep (t ++ sep :: rest) = some rest := by
  induction t with
  | nil => rw [List.nil_append, after?_cons, if_pos rfl]
  | cons c others ih =>
    rw [List.mem_cons, not_or] at h
    rw [List.cons_append, after?_cons, if_neg (Ne.symm h.1), ih h.2]

/-- The two sides of the first separator are the whole text. -/
theorem before_append_after? {sep : Char} {t rest : Text} (h : after? sep t = some rest) :
    before sep t ++ sep :: rest = t := by
  induction t with
  | nil => cases h
  | cons c others ih =>
    rw [after?_cons] at h
    rw [before_cons]
    split at h
    · rename_i hc
      cases h
      rw [if_pos hc, hc, List.nil_append]
    · rename_i hc
      rw [if_neg hc, List.cons_append, ih h]

theorem not_mem_of_after? {sep : Char} {t : Text} (h : after? sep t = none) : sep ∉ t := by
  induction t with
  | nil => exact List.not_mem_nil
  | cons c others ih =>
    rw [after?_cons] at h
    split at h
    · cases h
    · rename_i hc
      exact List.not_mem_cons_of_ne_of_not_mem (Ne.symm hc) (ih h)

theorem join_split (sep : Char) (t : Text) : join sep (split sep t) = t := by
  rw [join, split_eq_splitOn, List.intercalate_splitOn]

/-- A piece holds nothing that the text does not hold. -/
theorem mem_of_mem_split {sep c : Char} {t piece : Text} (hpiece : piece ∈ split sep t)
    (hc : c ∈ piece) : c ∈ t := by
  induction t generalizing piece with
  | nil =>
    rw [split_nil, List.mem_singleton] at hpiece
    exact hpiece ▸ hc
  | cons first rest ih =>
    rw [split_cons] at hpiece
    split at hpiece
    · rcases List.mem_cons.mp hpiece with rfl | hrest
      · cases hc
      · exact List.mem_cons_of_mem _ (ih hrest hc)
    · obtain ⟨next, others, hpieces⟩ := List.exists_cons_of_ne_nil (split_ne_nil sep rest)
      rw [hpieces, List.modifyHead_cons] at hpiece
      rcases List.mem_cons.mp hpiece with rfl | hothers
      · rcases List.mem_cons.mp hc with rfl | hnext
        · exact List.mem_cons_self
        · exact List.mem_cons_of_mem _ (ih (hpieces ▸ List.mem_cons_self) hnext)
      · exact List.mem_cons_of_mem _ (ih (hpieces ▸ List.mem_cons_of_mem _ hothers) hc)

theorem join_singleton (sep : Char) (piece : Text) : join sep [piece] = piece := by
  rw [join, List.intercalate_singleton]

theorem join_cons_cons (sep : Char) (piece next : Text) (rest : List Text) :
    join sep (piece :: next :: rest) = piece ++ sep :: join sep (next :: rest) := by
  rw [join, join, List.intercalate_cons_cons, List.append_assoc]
  rfl

/-- Pieces without the separator are what a joined text is cut into. -/
theorem split_join {sep : Char} {pieces : List Text} (hne : pieces ≠ [])
    (h : ∀ piece ∈ pieces, sep ∉ piece) : split sep (join sep pieces) = pieces := by
  rw [split_eq_splitOn, join, List.splitOn_intercalate sep h hne]

/-- A character that is in no piece is not between the pieces either, unless it separates them. -/
theorem not_mem_join {sep c : Char} (hsep : c ≠ sep) {pieces : List Text}
    (h : ∀ piece ∈ pieces, c ∉ piece) : c ∉ join sep pieces := by
  induction pieces with
  | nil => exact List.not_mem_nil
  | cons piece rest ih =>
    obtain ⟨hpiece, hrest⟩ := List.forall_mem_cons.mp h
    cases rest with
    | nil => simpa [join] using hpiece
    | cons next more =>
      rw [join_cons_cons, List.mem_append, List.mem_cons, not_or, not_or]
      exact ⟨hpiece, hsep, ih hrest⟩

/-- The last character of joined pieces is that of the last piece, or the separator. So if each
piece keeps its last character as far as `c` is concerned, so does the whole. -/
theorem getLast?_join_map {sep c : Char} (hsep : sep ≠ c) {f : Text → Text}
    (hf : ∀ piece, (f piece).getLast? = some c ↔ piece.getLast? = some c) (pieces : List Text) :
    (join sep (pieces.map f)).getLast? = some c ↔ (join sep pieces).getLast? = some c := by
  induction pieces with
  | nil => rfl
  | cons piece rest ih =>
    cases rest with
    | nil => simpa [join] using hf piece
    | cons next more =>
      -- in front of a separator nothing counts, and behind it the separator only if all is empty
      have hlast : ∀ front behind : Text, (front ++ sep :: behind).getLast? = some c ↔
          behind.getLast? = some c := by
        intro front behind
        cases behind <;> simp [hsep]
      rw [List.map_cons, List.map_cons, join_cons_cons, join_cons_cons, hlast, hlast]
      exact ih

/-- Raising letters moves no separator. -/
theorem before_upper {d : Char} (hd : d.toNat < 65 ∨ 122 < d.toNat) (t : Text) :
    before d (upper t) = upper (before d t) := by
  induction t with
  | nil => rfl
  | cons c rest ih =>
    have hcons : upper (c :: rest) = c.toUpper :: upper rest := rfl
    rw [hcons, before_cons, before_cons, ih]
    by_cases hc : c = d
    · rw [if_pos ((toUpper_eq_iff hd).mpr hc), if_pos hc]
      rfl
    · rw [if_neg fun h => hc ((toUpper_eq_iff hd).mp h), if_neg hc]
      rfl

/-! ## The words of a command -/

/-- A command whose verb begins with `head`, cut behind its verb. -/
theorem eq_append_of_prefix {head tail verb rest : Text} (hhead : ' ' ∉ head)
    (h : head ++ tail = verb ++ ' ' :: rest) : ∃ more, verb = head ++ more := by
  rcases List.append_eq_append_iff.mp h with ⟨more, hverb, -⟩ | ⟨more, hsplit, hrest⟩
  · exact ⟨more, hverb⟩
  · -- the head would reach into the space behind the verb
    cases more with
    | nil => exact ⟨[], by rw [hsplit, List.append_nil, List.append_nil]⟩
    | cons c others =>
      rw [List.cons_append] at hrest
      have hc : c = ' ' := (List.cons.inj hrest).1.symm
      refine absurd ?_ hhead
      rw [hsplit, hc]
      exact List.mem_append_right verb List.mem_cons_self

/-- A command with a parameter is no text without a space. -/
theorem append_space_ne {t : Text} (h : ' ' ∉ t) (verb parameter : Text) :
    verb ++ ' ' :: parameter ≠ t := by
  intro heq
  have hspace : ' ' ∈ verb ++ ' ' :: parameter := List.mem_append_right verb List.mem_cons_self
  rw [heq] at hspace
  exact h hspace

end Text

end WaveGen
