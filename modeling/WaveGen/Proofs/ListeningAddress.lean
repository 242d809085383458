import WaveGen.Configuration
import WaveGen.Proofs.Numerals

/-!
# The address to listen on (specification §10.4)

The configured host is any text, and the address is read from that text, a colon and the port. Some
hosts hold colons and digits of their own, so it has to be shown that none of them can pass for the
port or take part of it.

Readers settle this by where they stop. A colon ends an IPv4 address, and a closing bracket ends all
that stands in brackets, just as the end of the text would (`Reader.StopsAt`). What is read as the
host is therefore a matter of the configured text alone, and what comes behind it has to be the
colon in front of the port: a port reads up to the end, and there is no colon in one.

* `Reader.StopsAt` — a reader for which a character is as good as the end of the text.
* `SocketAddress.readHost_append` — reading a host in front of a colon.
* `SocketAddress.parse?_addressText` — reading a host and a port.
* `Configuration.socketAddress_with_port` — one configured host, and any port.
-/

namespace WaveGen

namespace Reader

variable {α β : Type} {stop : Char}

/-! ## Readers that stop -/

/-- What is read when this text comes behind the one that is read. -/
def followedBy (rest : Text) : α × Text → α × Text := Prod.map id (· ++ rest)

/-- A reader leaves an end of the text, and takes this character for the end of the text: what
stands behind it does not matter. -/
structure StopsAt (stop : Char) (r : Reader α) : Prop where
  suffix : ∀ {t left : Text} {a : α}, r t = some (a, left) → left <:+ t
  append : ∀ t rest : Text, r (t ++ stop :: rest) = (r t).map (followedBy (stop :: rest))

theorem whole_eq_some_iff {r : Reader α} {t : Text} {a : α} :
    whole r t = some a ↔ r t = some (a, []) := by
  rw [whole]
  rcases r t with _ | ⟨b, _ | ⟨c, left⟩⟩ <;> simp

theorem mark_eq_some_iff {c : Char} {t rest : Text} : mark c t = some rest ↔ t = c :: rest := by
  cases t with
  | nil => exact iff_of_false (fun h => nomatch h) fun h => nomatch h
  | cons d t =>
    rw [mark, List.cons.injEq]
    split <;> simp_all

theorem mark_append {c : Char} (h : c ≠ stop) (t rest : Text) :
    mark c (t ++ stop :: rest) = (mark c t).map (· ++ stop :: rest) := by
  cases t with
  | nil => exact if_neg h.symm
  | cons d t =>
    rw [List.cons_append, mark, mark]
    split <;> rfl

theorem span_append {p : Char → Bool} (h : p stop = false) (t rest : Text) :
    span p (t ++ stop :: rest) = followedBy (stop :: rest) (span p t) := by
  induction t with
  | nil => simp [span, followedBy, h]
  | cons c t ih =>
    have htake := congrArg Prod.fst ih
    have hdrop := congrArg Prod.snd ih
    by_cases hc : p c <;> simp_all [span, followedBy]

namespace StopsAt

theorem pure (a : α) : StopsAt stop fun t => some (a, t) where
  suffix h := by
    cases h
    exact List.suffix_refl _
  append _ _ := rfl

theorem fail : StopsAt stop fun _ => (none : Option (α × Text)) where
  suffix h := nomatch h
  append _ _ := rfl

theorem ite {p : Prop} [Decidable p] {r s : Reader α} (hr : StopsAt stop r) (hs : StopsAt stop s) :
    StopsAt stop fun t => if p then r t else s t := by
  by_cases hp : p
  · simpa only [if_pos hp] using hr
  · simpa only [if_neg hp] using hs

/-- One reader after the other. -/
theorem bind {r : Reader α} {f : α × Text → Option (β × Text)} (hr : StopsAt stop r)
    (hf : ∀ a, StopsAt stop fun t => f (a, t)) : StopsAt stop fun t => r t >>= f where
  suffix h := by
    obtain ⟨⟨a, left⟩, hfirst, hsecond⟩ := Option.bind_eq_some_iff.mp h
    exact ((hf a).suffix hsecond).trans (hr.suffix hfirst)
  append t rest := by
    rw [hr.append]
    rcases r t with _ | ⟨a, left⟩
    · rfl
    · exact (hf a).append left rest

/-- A reader behind a mark that is not the character. -/
theorem behind {c : Char} {r : Reader α} (h : c ≠ stop) (hr : StopsAt stop r) :
    StopsAt stop fun t => mark c t >>= r where
  suffix hread := by
    obtain ⟨left, hmark, hread⟩ := Option.bind_eq_some_iff.mp hread
    rw [mark_eq_some_iff.mp hmark]
    exact (hr.suffix hread).trans (List.suffix_cons c left)
  append t rest := by
    rw [mark_append h]
    cases mark c t with
    | none => rfl
    | some left => exact hr.append left rest

theorem span1 {p : Char → Bool} (h : p stop = false) : StopsAt stop (Reader.span1 p) where
  suffix {t left found} hread := by
    have hspan : Reader.span p t = (found, left) := by
      rw [Reader.span1] at hread
      split at hread
      · cases hread
      · exact Option.some.inj hread
    have hleft : t.dropWhile p = left := congrArg Prod.snd hspan
    exact hleft ▸ List.dropWhile_suffix p
  append t rest := by
    rw [Reader.span1, Reader.span1, span_append h]
    rcases Reader.span p t with ⟨_ | ⟨c, found⟩, left⟩ <;> rfl

end StopsAt

end Reader

namespace SocketAddress

open Reader

variable {stop : Char}

/-! ## Parts of an address -/

theorem stopsAt_readNumber {isDigit : Char → Bool} (h : isDigit stop = false) (radix : Nat)
    (limit : Option Nat) (bound : Nat) : StopsAt stop (readNumber isDigit radix limit bound) := by
  unfold readNumber
  refine .bind (.span1 h) fun digits => ?_
  exact .ite (.pure _) .fail

theorem stopsAt_readOctet (h : stop.isDigit = false) : StopsAt stop readOctet where
  suffix {t left n} hread := by
    obtain ⟨⟨octet, rest⟩, hnumber, hcheck⟩ := Option.bind_eq_some_iff.mp hread
    obtain ⟨-, hsome⟩ := Option.ite_none_left_eq_some.mp hcheck
    cases hsome
    exact (stopsAt_readNumber h 10 (some 3) 255).suffix hnumber
  append t rest := by
    rw [readOctet, readOctet, (stopsAt_readNumber h 10 (some 3) 255).append]
    cases t with
    | nil => rfl
    | cons c t =>
      rcases readNumber Char.isDigit 10 (some 3) 255 (c :: t) with _ | ⟨n, left⟩
      · rfl
      · -- as many characters were read, so a needless zero is one in both texts
        have hread : (c :: t ++ stop :: rest).length - (left ++ stop :: rest).length =
            (c :: t).length - left.length := by
          rw [List.length_append, List.length_append, Nat.add_sub_add_right]
        show (if (c :: t).head? = some '0' ∧
            1 < (c :: t ++ stop :: rest).length - (left ++ stop :: rest).length then none
          else some (n, left ++ stop :: rest)) = _
        rw [hread]
        exact (apply_ite (Option.map (followedBy (stop :: rest))) _ none (some (n, left))).symm

theorem stopsAt_readV4 (hdigit : stop.isDigit = false) (hpoint : stop ≠ '.') :
    StopsAt stop readV4 := by
  have hoctet : StopsAt stop readOctet := stopsAt_readOctet hdigit
  unfold readV4
  refine hoctet.bind fun a => ?_
  refine .behind hpoint.symm (hoctet.bind fun b => ?_)
  refine .behind hpoint.symm (hoctet.bind fun c => ?_)
  refine .behind hpoint.symm (hoctet.bind fun d => ?_)
  exact .pure _

theorem stopsAt_behindColon {α : Type} {r : Reader α} (h : stop ≠ ':') (hr : StopsAt stop r)
    (isFirst : Bool) : StopsAt stop (behindColon isFirst r) := by
  unfold behindColon
  exact .ite hr (.behind h.symm hr)

theorem stopsAt_readScope (hdigit : stop.isDigit = false) (hpercent : stop ≠ '%') :
    StopsAt stop readScope := by
  unfold readScope
  refine .behind hpercent.symm ((stopsAt_readNumber hdigit _ _ _).bind fun n => ?_)
  exact .pure _

theorem stopsAt_readGroup (h : isHexDigit stop = false) : StopsAt stop readGroup :=
  stopsAt_readNumber h 16 (some 4) 65535

/-! ## Groups -/

/-- What ends the groups of an IPv6 address. -/
structure EndsGroups (stop : Char) : Prop where
  hex : isHexDigit stop = false
  colon : stop ≠ ':'
  point : stop ≠ '.'

theorem EndsGroups.digit (h : EndsGroups stop) : stop.isDigit = false := by
  have hhex := h.hex
  rw [isHexDigit, Bool.or_eq_false_iff, Bool.or_eq_false_iff] at hhex
  exact hhex.1.1

/-- What is read of the groups when this text comes behind the one that is read. -/
def Groups.followedBy (g : Groups) (rest : Text) : Groups := ⟨g.groups, g.endsInV4, g.rest ++ rest⟩

theorem readGroups_spec (h : EndsGroups stop) (count : Nat) (isFirst : Bool) (t : Text) :
    (readGroups count isFirst t).rest <:+ t ∧
      ∀ rest, readGroups count isFirst (t ++ stop :: rest) =
        (readGroups count isFirst t).followedBy (stop :: rest) := by
  induction count generalizing isFirst t with
  | zero => exact ⟨List.suffix_refl t, fun _ => rfl⟩
  | succ count ih =>
    have hv4 : StopsAt stop fun t => if count = 0 then none else behindColon isFirst readV4 t :=
      .ite .fail (stopsAt_behindColon h.colon (stopsAt_readV4 h.digit h.point) isFirst)
    have hgroup : StopsAt stop (behindColon isFirst readGroup) :=
      stopsAt_behindColon h.colon (stopsAt_readGroup h.hex) isFirst
    simp only [readGroups, hv4.append, hgroup.append]
    cases hread4 : if count = 0 then none else behindColon isFirst readV4 t with
    | some found => exact ⟨hv4.suffix hread4, fun _ => rfl⟩
    | none =>
      cases hread : behindColon isFirst readGroup t with
      | none => exact ⟨List.suffix_refl t, fun _ => rfl⟩
      | some found =>
        obtain ⟨hsuffix, happend⟩ := ih false found.2
        refine ⟨hsuffix.trans (hgroup.suffix hread), fun rest => ?_⟩
        dsimp only [Option.map_some, Reader.followedBy, Prod.map]
        rw [happend]
        rfl

theorem stopsAt_groups {α : Type} (h : EndsGroups stop) (count : Nat) (isFirst : Bool)
    (f : List Nat → α) :
    StopsAt stop fun t =>
      some (f (readGroups count isFirst t).groups, (readGroups count isFirst t).rest) where
  suffix {t left a} hread := by
    cases hread
    exact (readGroups_spec h count isFirst t).1
  append t rest := by
    rw [(readGroups_spec h count isFirst t).2 rest]
    rfl

/-- The address with these groups in front of a double colon and behind it. -/
def addressOfGroups (front back : List Nat) : BitVec 128 :=
  BitVec.ofNat 128
    (joinGroups 16 (front ++ List.replicate (8 - front.length - back.length) 0 ++ back))

theorem stopsAt_readV6 (h : EndsGroups stop) : StopsAt stop readV6 := by
  -- a double colon, and the groups behind it
  have hback (front : List Nat) : StopsAt stop fun t => mark ':' t >>= fun t => mark ':' t >>=
      fun t => some (addressOfGroups front (readGroups (7 - front.length) true t).groups,
        (readGroups (7 - front.length) true t).rest) :=
    .behind h.colon.symm (.behind h.colon.symm (stopsAt_groups h _ true _))
  constructor
  · intro t left a hread
    have hfront := (readGroups_spec h 8 true t).1
    unfold readV6 at hread
    dsimp only at hread
    split at hread
    · cases hread
      exact hfront
    · split at hread
      · cases hread
      · exact ((hback _).suffix hread).trans hfront
  · intro t rest
    unfold readV6
    rw [(readGroups_spec h 8 true t).2 rest]
    dsimp only [Groups.followedBy]
    split
    · rfl
    · split
      · rfl
      · exact (hback _).append _ rest

/-! ## Hosts -/

theorem endsGroups_bracket : EndsGroups ']' := ⟨by decide, by decide, by decide⟩

/-- Takes all that stands in brackets off the front. -/
def readBracketed : Reader (BitVec 128 × UInt32) := fun t => do
  let (v6, t) ← readV6 t
  let (scope, t) := (readScope t).getD (0, t)
  return ((v6, scope), t)

theorem stopsAt_readBracketed : StopsAt ']' readBracketed := by
  have hscope : StopsAt ']' readScope := stopsAt_readScope (by decide) (by decide)
  unfold readBracketed
  refine (stopsAt_readV6 endsGroups_bracket).bind fun v6 => ?_
  constructor
  · intro t left a hread
    cases hread
    cases hfound : readScope t with
    | none => exact List.suffix_refl t
    | some found => exact hscope.suffix hfound
  · intro t rest
    dsimp only
    rw [hscope.append]
    cases readScope t <;> rfl

/-- Takes all that stands in brackets off the front, with the closing bracket. -/
def readClosed : Reader HostAddress := fun t => do
  let ((v6, scope), t) ← readBracketed t
  return (.v6 v6 scope, ← mark ']' t)

theorem readHost_eq (t : Text) :
    readHost t =
      match readV4 t with
      | some (v4, rest) => some (.v4 v4, rest)
      | none => mark '[' t >>= readClosed := by
  rw [readHost]
  cases readV4 t with
  | some found => rfl
  | none =>
    cases mark '[' t with
    | none => rfl
    | some t =>
      show _ = readClosed t
      rw [readClosed, readBracketed]
      cases hv6 : readV6 t <;> simp [hv6]

/-- Without a closing bracket nothing is read. -/
theorem readClosed_of_not_mem {t : Text} (h : ']' ∉ t) : readClosed t = none := by
  rw [readClosed]
  rcases hread : readBracketed t with _ | ⟨⟨v6, scope⟩, left⟩
  · rfl
  · have hmark : mark ']' left = none := by
      refine Option.eq_none_iff_forall_ne_some.mpr fun rest hrest => h ?_
      rw [mark_eq_some_iff] at hrest
      exact (stopsAt_readBracketed.suffix hread).subset (hrest ▸ List.mem_cons_self)
    show (mark ']' left >>= fun rest => some (HostAddress.v6 v6 scope, rest)) = none
    rw [hmark]
    rfl

/-- What is read ends at the first closing bracket. -/
theorem readClosed_bracket {t : Text} (h : ']' ∉ t) (rest : Text) :
    readClosed (t ++ ']' :: rest) =
      match readBracketed t with
      | some ((v6, scope), []) => some (.v6 v6 scope, rest)
      | _ => none := by
  rw [readClosed, stopsAt_readBracketed.append]
  rcases hread : readBracketed t with _ | ⟨⟨v6, scope⟩, _ | ⟨c, left⟩⟩
  · rfl
  · rfl
  · have hc : c ≠ ']' := by
      rintro rfl
      exact h ((stopsAt_readBracketed.suffix hread).subset List.mem_cons_self)
    show (mark ']' (c :: (left ++ ']' :: rest)) >>= fun rest =>
      some (HostAddress.v6 v6 scope, rest)) = none
    rw [mark, if_neg hc]
    rfl

theorem readClosed_append {rest : Text} (h : ']' ∉ rest) (t : Text) :
    readClosed (t ++ rest) = (readClosed t).map (followedBy rest) := by
  by_cases hclosed : ']' ∈ t
  · obtain ⟨front, behind, rfl, hfront⟩ := List.eq_append_cons_of_mem hclosed
    rw [List.append_assoc, List.cons_append, readClosed_bracket hfront, readClosed_bracket hfront]
    rcases readBracketed front with _ | ⟨⟨v6, scope⟩, _ | ⟨c, left⟩⟩ <;> rfl
  · have hboth : ']' ∉ t ++ rest := by
      rw [List.mem_append, not_or]
      exact ⟨hclosed, h⟩
    rw [readClosed_of_not_mem hclosed, readClosed_of_not_mem hboth]
    rfl

/-- **A host in front of a colon** is read as if nothing came behind it, unless what comes behind
could close a bracket. -/
theorem readHost_append {rest : Text} (h : ']' ∉ rest) (t : Text) :
    readHost (t ++ ':' :: rest) = (readHost t).map (followedBy (':' :: rest)) := by
  have hv4 : StopsAt ':' readV4 := stopsAt_readV4 (by decide) (by decide)
  have hrest : ']' ∉ ':' :: rest := by
    rw [List.mem_cons, not_or]
    exact ⟨by decide, h⟩
  rw [readHost_eq, readHost_eq, hv4.append]
  cases readV4 t with
  | some found => rfl
  | none =>
    dsimp only [Option.map_none]
    rw [mark_append (by decide)]
    cases mark '[' t with
    | none => rfl
    | some t => exact readClosed_append hrest t

/-! ## Ports -/

theorem value_of_allDigits {digits : Text} (h : Decimal.AllDigits digits) :
    Reader.value 10 digits = Text.digitsValue digits := by
  refine List.foldl_ext _ _ 0 fun n c hc => ?_
  rw [Reader.digitValue, if_pos (h c hc), Nat.mul_comm]

theorem readPort_ofNat {n : Nat} (h : n ≤ 65535) :
    readPort (':' :: Text.ofNat n) = some (UInt16.ofNat n, []) := by
  have hall : Decimal.AllDigits (Text.ofNat n) := Decimal.allDigits_ofNat n
  have hspan : span Char.isDigit (Text.ofNat n) = (Text.ofNat n, []) :=
    Prod.ext (List.takeWhile_eq_self_iff.mpr hall) (List.dropWhile_eq_nil_iff.mpr hall)
  have hdigits : span1 Char.isDigit (Text.ofNat n) = some (Text.ofNat n, []) := by
    rw [span1, hspan]
    cases hofNat : Text.ofNat n with
    | nil => exact absurd hofNat Nat.toDigits_ne_nil
    | cons c rest => rfl
  have hvalue : Reader.value 10 (Text.ofNat n) = n :=
    (value_of_allDigits hall).trans (Decimal.digitsValue_ofNat n)
  have hnumber : readNumber Char.isDigit 10 none 65535 (Text.ofNat n) = some (n, []) := by
    rw [readNumber, hdigits]
    simp [hvalue, h]
  rw [readPort, mark, if_pos rfl]
  simp [hnumber]

/-- What stands in front of the last colon is no part of a port. -/
theorem readPort_append {t : Text} (h : t ≠ []) (rest : Text) (port : UInt16) :
    readPort (t ++ ':' :: rest) ≠ some (port, []) := by
  intro hread
  obtain ⟨behind, hmark, hread⟩ := Option.bind_eq_some_iff.mp hread
  obtain ⟨⟨n, left⟩, hnumber, hport⟩ := Option.bind_eq_some_iff.mp hread
  cases hport
  rw [mark_eq_some_iff] at hmark
  obtain ⟨c, t, rfl⟩ := List.exists_cons_of_ne_nil h
  have hbehind : t ++ ':' :: rest = behind := (List.cons.inj hmark).2
  rw [← hbehind, (stopsAt_readNumber (by decide) 10 none 65535).append] at hnumber
  obtain ⟨found, -, hfound⟩ := Option.map_eq_some_iff.mp hnumber
  have hleft : found.2 ++ ':' :: rest = [] := congrArg Prod.snd hfound
  simp at hleft

/-- **A configured host and a port**: the address is that of the host, if the configured text is a
host from its start to its end, with this very port. -/
theorem parse?_addressText (host : Text) (port : UInt16) :
    parse? (ConfigurationFault.addressText host port) =
      (Reader.whole readHost host).map fun address => ⟨address, port⟩ := by
  have hport : port.toNat ≤ 65535 := Nat.le_of_lt_succ port.toNat_lt
  have hdigits : ']' ∉ Text.ofNat port.toNat := fun hmem =>
    absurd (Decimal.allDigits_ofNat _ _ hmem) (by decide)
  refine Option.ext fun a => ?_
  rw [parse?, whole_eq_some_iff, ConfigurationFault.addressText, Option.map_eq_some_iff]
  simp only [whole_eq_some_iff]
  rw [read, readHost_append hdigits]
  rcases readHost host with _ | ⟨address, left⟩
  · simp
  · by_cases hleft : left = []
    · subst hleft
      simp [followedBy, readPort_ofNat hport]
    · -- a colon is left over, so the port does not end the text
      refine iff_of_false (fun hread => ?_) (by simp [hleft])
      obtain ⟨hostRead, hfirst, hsecond⟩ := Option.bind_eq_some_iff.mp hread
      cases hfirst
      obtain ⟨⟨found, rest⟩, hfound, hrest⟩ := Option.bind_eq_some_iff.mp hsecond
      cases hrest
      exact readPort_append hleft _ found hfound

end SocketAddress

namespace Configuration

open SocketAddress

/-- **The port of the address is the configured one.** -/
theorem socketAddress_with_port (c : Configuration) :
    (∃ host, Reader.whole readHost c.bindAddress = some host ∧
      ∀ port, ({ c with port := port }).socketAddress = .ok ⟨host, port⟩) ∨
    (Reader.whole readHost c.bindAddress = none ∧
      ∀ port, ({ c with port := port }).socketAddress =
        .error (.invalidAddress c.bindAddress port)) := by
  have haddress (port : UInt16) : ({ c with port := port }).socketAddress =
      ((Reader.whole readHost c.bindAddress).map (SocketAddress.mk · port)).elim
        (.error (.invalidAddress c.bindAddress port)) .ok := by
    rw [← parse?_addressText, socketAddress]
    dsimp only
    cases parse? (ConfigurationFault.addressText c.bindAddress port) <;> rfl
  cases hhost : Reader.whole readHost c.bindAddress with
  | some host =>
    refine .inl ⟨host, rfl, fun port => ?_⟩
    rw [haddress, hhost]
    rfl
  | none =>
    refine .inr ⟨rfl, fun port => ?_⟩
    rw [haddress, hhost]
    rfl

/-- Colons and digits belong to a host only in brackets. -/
example :
    ["[fe80::1%2]", "127.0.0.1:80", "[::1]:8", "::1", "[::1]%2"].map (fun host =>
      (SocketAddress.parse? (ConfigurationFault.addressText host.toList 8080)).isSome) =
      [true, false, false, false, false] := by
  decide +kernel

end Configuration

end WaveGen
