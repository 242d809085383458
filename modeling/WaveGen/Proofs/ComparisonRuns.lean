import Mathlib.Algebra.GroupWithZero.Nat
import WaveGen.Comparison

/-!
# What a comparison reports (specification §10.8)

A run of a comparison is a list of *exchanges*: each command of the script, and behind each of them
the queries of the state. Here a run is written down exchange by exchange, with what both sides
said, up to the first exchange that ends it (`Comparison.exchangeUntilEnd`). The report of a run is
read off that record, each exchange counted once.

The two sides may be anything that responds to commands, also two sides that share a state: they act
on one world, and the record tells in which order they do.

* `Comparison.Exchange` — an exchange with both sides.
* `Comparison.runScript_eq` — the report is that of the exchanges that were made.
* `Comparison.ScriptRun`, `Comparison.reports_count_exchanges` — what the numbers in it say.
-/

namespace WaveGen

/-! ## Merging reports -/

namespace Report

@[simp] theorem empty_merge (r : Report) : empty.merge r = r := by simp [merge, empty]

@[simp] theorem merge_empty (r : Report) : r.merge empty = r := by simp [merge, empty]

theorem merge_assoc (r s t : Report) : (r.merge s).merge t = r.merge (s.merge t) := by
  simp [merge, Nat.add_assoc]

end Report

namespace Comparison

/-! ## Exchanges -/

section Runs

variable {ω α β : Type}

/-- Two computations on a world, one after the other. -/
theorem run_bind (x : StateM ω α) (f : α → StateM ω β) (w : ω) :
    (x >>= f).run w = (f (x.run w).1).run (x.run w).2 := rfl

theorem run_pure (a : α) (w : ω) : (pure a : StateM ω α).run w = (a, w) := rfl

end Runs

/-- A step of a run: a command of the script itself, or a query of the state. -/
structure Step where
  /-- What is sent to both sides. -/
  command : Text
  /-- Whether this is a command of the script itself. -/
  own : Bool
deriving DecidableEq, Repr

/-- The steps of a comparison of the states. -/
def stateSteps (queries : List Text) : List Step := queries.map (⟨·, false⟩)

/-- All steps of a script: every command with the queries of the state behind it. -/
def steps (queries commands : List Text) : List Step :=
  commands.flatMap fun command => ⟨command, true⟩ :: stateSteps queries

/-- An exchange with both sides. -/
structure Exchange where
  /-- The command of the exchange, and what it is for. -/
  step : Step
  /-- How the first side responded. -/
  emulator : Except ClientFault (Option Text)
  /-- How the second side responded, if it was sent the command. -/
  hardware : Option (Except ClientFault (Option Text))

namespace Exchange

/-- What the comparison makes of an exchange. -/
def verdict (x : Exchange) : Verdict :=
  match x.emulator, x.hardware with
  | .ok first, some (.ok second) =>
    if first = second then .agrees else .differs ⟨x.step.command, shown first, shown second⟩
  | _, _ => .fails

/-- Whether the run ends with this exchange. -/
def ends (x : Exchange) : Bool :=
  match x.verdict with
  | .agrees => false
  | .differs _ => !x.step.own
  | .fails => true

/-- The difference that was found, if there was one. -/
def mismatch? (x : Exchange) : Option Mismatch :=
  match x.verdict with
  | .differs mismatch => some mismatch
  | _ => none

/-- What an exchange adds to the report of a run. -/
def report (x : Exchange) : Report :=
  (if x.step.own then ⟨1, 0, []⟩ else Report.empty).merge x.verdict.report

/-- A query of the state ends a run unless the responses agree. -/
theorem ends_of_not_own {x : Exchange} (hown : x.step.own = false) :
    x.ends = true ↔ x.verdict ≠ .agrees := by
  rw [ends]
  cases x.verdict <;> simp [hown]

/-- A command of the script ends a run only if the exchange fails. -/
theorem ends_of_own {x : Exchange} (hown : x.step.own = true) :
    x.ends = true ↔ x.verdict = .fails := by
  rw [ends]
  cases x.verdict <;> simp [hown]

theorem report_of_not_own {x : Exchange} (hown : x.step.own = false) :
    x.report = x.verdict.report := by
  simp [report, hown]

end Exchange

/-- The report of the exchanges that were made. -/
def reportOf : List Exchange → Report
  | [] => .empty
  | x :: rest => x.report.merge (reportOf rest)

theorem reportOf_append (xs ys : List Exchange) :
    reportOf (xs ++ ys) = (reportOf xs).merge (reportOf ys) := by
  induction xs with
  | nil => simp [reportOf]
  | cons x rest ih => rw [List.cons_append, reportOf, reportOf, ih, Report.merge_assoc]

variable {ω : Type} (emulator hardware : Respondent (StateM ω))

/-- Makes an exchange: first with the one side, and then with the other one unless that failed. -/
def exchange (step : Step) (w : ω) : Exchange × ω :=
  match (emulator step.command).run w with
  | (.error fault, w) => (⟨step, .error fault, none⟩, w)
  | (.ok first, w) =>
    let (second, w) := (hardware step.command).run w
    (⟨step, .ok first, some second⟩, w)

/-- Makes exchanges one after the other, whatever comes of them. -/
def exchangeAll : List Step → ω → List Exchange × ω
  | [], w => ([], w)
  | step :: rest, w =>
    let (x, w) := exchange emulator hardware step w
    let (xs, w) := exchangeAll rest w
    (x :: xs, w)

/-- Makes exchanges one after the other, up to the first one that ends a run. -/
def exchangeUntilEnd : List Step → ω → List Exchange × ω
  | [], w => ([], w)
  | step :: rest, w =>
    let (x, w) := exchange emulator hardware step w
    if x.ends then ([x], w)
    else
      let (xs, w) := exchangeUntilEnd rest w
      (x :: xs, w)

theorem exchange_step (step : Step) (w : ω) :
    (exchange emulator hardware step w).1.step = step := by
  unfold exchange
  rcases (emulator step.command).run w with ⟨fault | first, w'⟩ <;> rfl

theorem compare_run (step : Step) (w : ω) :
    (compare emulator hardware step.command).run w =
      ((exchange emulator hardware step w).1.verdict, (exchange emulator hardware step w).2) := by
  unfold compare exchange
  rw [run_bind]
  rcases (emulator step.command).run w with ⟨fault | first, w'⟩
  · rfl
  · dsimp only
    rw [run_bind]
    rcases (hardware step.command).run w' with ⟨fault | second, w''⟩
    · rfl
    · rfl

/-! ## Records -/

section Equations

variable {step : Step} {w : ω} (rest : List Step)

theorem exchangeAll_cons (step : Step) (rest : List Step) (w : ω) :
    exchangeAll emulator hardware (step :: rest) w =
      ((exchange emulator hardware step w).1 ::
          (exchangeAll emulator hardware rest (exchange emulator hardware step w).2).1,
        (exchangeAll emulator hardware rest (exchange emulator hardware step w).2).2) := rfl

/-- A record ends with the first exchange that ends a run. -/
theorem exchangeUntilEnd_cons_of_ends
    (h : (exchange emulator hardware step w).1.ends = true) :
    exchangeUntilEnd emulator hardware (step :: rest) w =
      ([(exchange emulator hardware step w).1], (exchange emulator hardware step w).2) :=
  if_pos h

theorem exchangeUntilEnd_cons_of_not_ends
    (h : ¬ (exchange emulator hardware step w).1.ends = true) :
    exchangeUntilEnd emulator hardware (step :: rest) w =
      ((exchange emulator hardware step w).1 ::
          (exchangeUntilEnd emulator hardware rest (exchange emulator hardware step w).2).1,
        (exchangeUntilEnd emulator hardware rest (exchange emulator hardware step w).2).2) :=
  if_neg h

end Equations

/-- A run of two parts goes on to the second one if nothing in the first one ended it. -/
theorem exchangeUntilEnd_append (front behind : List Step) (w : ω) :
    exchangeUntilEnd emulator hardware (front ++ behind) w =
      let (xs, w) := exchangeUntilEnd emulator hardware front w
      if xs.any Exchange.ends then (xs, w)
      else
        let (ys, w) := exchangeUntilEnd emulator hardware behind w
        (xs ++ ys, w) := by
  induction front generalizing w with
  | nil => rfl
  | cons step rest ih =>
    rw [List.cons_append]
    by_cases hends : (exchange emulator hardware step w).1.ends = true
    · rw [exchangeUntilEnd_cons_of_ends _ _ _ hends, exchangeUntilEnd_cons_of_ends _ _ _ hends]
      simp [hends]
    · rw [exchangeUntilEnd_cons_of_not_ends _ _ _ hends,
        exchangeUntilEnd_cons_of_not_ends _ _ _ hends, ih]
      dsimp only
      by_cases hany : (exchangeUntilEnd emulator hardware rest
          (exchange emulator hardware step w).2).1.any Exchange.ends = true
      · simp [hany]
      · simp [hends, hany]

/-- Comparing the states reports what the record of the exchanges says, and they agree when nothing
ended the record. -/
theorem compareStates_run (queries : List Text) (w : ω) :
    let (xs, final) := exchangeUntilEnd emulator hardware (stateSteps queries) w
    ∃ verdict, (compareStates emulator hardware queries).run w = (verdict, final) ∧
      verdict.report = reportOf xs ∧ (verdict = .agrees ↔ xs.any Exchange.ends = false) := by
  induction queries generalizing w with
  | nil => exact ⟨.agrees, rfl, rfl, by simp⟩
  | cons query rest ih =>
    have hrun := compare_run emulator hardware ⟨query, false⟩ w
    have hown : (exchange emulator hardware ⟨query, false⟩ w).1.step.own = false := by
      rw [exchange_step]
    have hends := Exchange.ends_of_not_own hown
    rw [compareStates, run_bind, hrun, stateSteps, List.map_cons]
    by_cases hagrees : (exchange emulator hardware ⟨query, false⟩ w).1.verdict = .agrees
    · have hgoes : (exchange emulator hardware ⟨query, false⟩ w).1.ends = false :=
        Bool.eq_false_iff.mpr fun h => hends.mp h hagrees
      obtain ⟨verdict, hrest, hreport, hend⟩ := ih (exchange emulator hardware ⟨query, false⟩ w).2
      rw [exchangeUntilEnd_cons_of_not_ends _ _ _ (Bool.eq_false_iff.mp hgoes), hagrees]
      refine ⟨verdict, hrest, ?_, ?_⟩
      · rw [hreport, reportOf, Exchange.report_of_not_own hown, hagrees]
        exact (Report.empty_merge _).symm
      · rw [hend, List.any_cons, hgoes, Bool.false_or]
        rfl
    · have hstops := hends.mpr hagrees
      rw [exchangeUntilEnd_cons_of_ends _ _ _ hstops]
      refine ⟨(exchange emulator hardware ⟨query, false⟩ w).1.verdict, ?_, ?_, ?_⟩
      · cases hverdict : (exchange emulator hardware ⟨query, false⟩ w).1.verdict with
        | agrees => exact absurd hverdict hagrees
        | differs mismatch => rfl
        | fails => rfl
      · rw [reportOf, reportOf, Report.merge_empty, Exchange.report_of_not_own hown]
      · simp [hagrees, hstops]

/-- What follows a command of the script: the states are compared, and what comes next is done if
they agree. -/
theorem compareStates_then_run (queries : List Text) {next : StateM ω Report} {behind : List Step}
    (hnext : ∀ w, next.run w = (reportOf (exchangeUntilEnd emulator hardware behind w).1,
      (exchangeUntilEnd emulator hardware behind w).2)) (tried : Report) (w : ω) :
    (do
      match ← compareStates emulator hardware queries with
      | .agrees => return tried.merge (← next)
      | ending => return tried.merge ending.report).run w =
      (tried.merge
        (reportOf (exchangeUntilEnd emulator hardware (stateSteps queries ++ behind) w).1),
        (exchangeUntilEnd emulator hardware (stateSteps queries ++ behind) w).2) := by
  have hstates := compareStates_run emulator hardware queries w
  rw [run_bind, exchangeUntilEnd_append]
  rcases hxs : exchangeUntilEnd emulator hardware (stateSteps queries) w with ⟨xs, w'⟩
  rw [hxs] at hstates
  obtain ⟨verdict, hrun, hreport, hagrees⟩ := hstates
  rw [hrun]
  dsimp only
  by_cases hany : xs.any Exchange.ends = true
  · rw [if_pos hany, ← hreport]
    cases verdict with
    | agrees =>
      rw [hagrees.mp rfl] at hany
      cases hany
    | differs mismatch => rfl
    | fails => rfl
  · obtain rfl := hagrees.mpr (Bool.eq_false_iff.mpr hany)
    rw [if_neg hany, run_bind, hnext, run_pure, reportOf_append, ← hreport]
    exact congrArg (fun report => (tried.merge report, _)) (Report.empty_merge _).symm

/-- **A run reports its exchanges**: those up to the first one that ends it, each counted once. -/
theorem runScript_run (queries commands : List Text) (w : ω) :
    (runScript emulator hardware queries commands).run w =
      (reportOf (exchangeUntilEnd emulator hardware (steps queries commands) w).1,
        (exchangeUntilEnd emulator hardware (steps queries commands) w).2) := by
  induction commands generalizing w with
  | nil => rfl
  | cons command rest ih =>
    have hrun := compare_run emulator hardware ⟨command, true⟩ w
    have hown : (exchange emulator hardware ⟨command, true⟩ w).1.step.own = true := by
      rw [exchange_step]
    rw [runScript, run_bind, hrun, steps, List.flatMap_cons, List.cons_append, ← steps]
    have hbehind := compareStates_then_run emulator hardware queries ih
    by_cases hends : (exchange emulator hardware ⟨command, true⟩ w).1.ends = true
    · rw [exchangeUntilEnd_cons_of_ends _ _ _ hends]
      generalize exchange emulator hardware ⟨command, true⟩ w = made at *
      rw [(Exchange.ends_of_own hown).mp hends, reportOf, reportOf, Report.merge_empty,
        Exchange.report, if_pos hown, (Exchange.ends_of_own hown).mp hends]
      rfl
    · rw [exchangeUntilEnd_cons_of_not_ends _ _ _ hends]
      generalize exchange emulator hardware ⟨command, true⟩ w = made at *
      dsimp only
      rw [reportOf, Exchange.report, if_pos hown]
      -- a difference in the response to the command itself goes on like agreement
      cases hverdict : made.1.verdict with
      | fails => exact absurd ((Exchange.ends_of_own hown).mpr hverdict) hends
      | agrees => exact hbehind _ made.2
      | differs mismatch => exact hbehind _ made.2

/-! ## What was sent -/

/-- The record tells the steps in their order. -/
theorem exchangeAll_steps (list : List Step) (w : ω) :
    (exchangeAll emulator hardware list w).1.map Exchange.step = list := by
  induction list generalizing w with
  | nil => rfl
  | cons step rest ih => rw [exchangeAll_cons, List.map_cons, exchange_step, ih]

/-- The exchanges of a run are the first ones of all. -/
theorem exchangeUntilEnd_eq_take (list : List Step) (w : ω) :
    exchangeUntilEnd emulator hardware list w =
      exchangeAll emulator hardware
        (list.take (exchangeUntilEnd emulator hardware list w).1.length) w := by
  induction list generalizing w with
  | nil => rfl
  | cons step rest ih =>
    by_cases hends : (exchange emulator hardware step w).1.ends = true
    · rw [exchangeUntilEnd_cons_of_ends _ _ _ hends, List.length_singleton, List.take_succ_cons,
        List.take_zero]
      rfl
    · rw [exchangeUntilEnd_cons_of_not_ends _ _ _ hends, List.length_cons, List.take_succ_cons,
        exchangeAll_cons, ← ih]

theorem exchangeUntilEnd_prefix (list : List Step) (w : ω) :
    (exchangeUntilEnd emulator hardware list w).1 <+: (exchangeAll emulator hardware list w).1 := by
  induction list generalizing w with
  | nil => exact List.prefix_rfl
  | cons step rest ih =>
    rw [exchangeAll_cons]
    by_cases hends : (exchange emulator hardware step w).1.ends = true
    · rw [exchangeUntilEnd_cons_of_ends _ _ _ hends]
      exact ⟨_, rfl⟩
    · rw [exchangeUntilEnd_cons_of_not_ends _ _ _ hends]
      exact List.cons_prefix_cons.mpr ⟨rfl, ih _⟩

/-- A run goes through the whole list unless one of its exchanges ends it. -/
theorem exchangeUntilEnd_complete (list : List Step) (w : ω)
    (h : ∀ x ∈ (exchangeUntilEnd emulator hardware list w).1, x.ends = false) :
    exchangeUntilEnd emulator hardware list w = exchangeAll emulator hardware list w := by
  induction list generalizing w with
  | nil => rfl
  | cons step rest ih =>
    by_cases hends : (exchange emulator hardware step w).1.ends = true
    · rw [exchangeUntilEnd_cons_of_ends _ _ _ hends] at h
      exact absurd hends (Bool.eq_false_iff.mp (h _ (.head _)))
    · rw [exchangeUntilEnd_cons_of_not_ends _ _ _ hends] at h ⊢
      rw [exchangeAll_cons, ih _ fun x hx => h x (.tail _ hx)]

/-- Only the last exchange of a run may end it. -/
theorem ends_of_mem_dropLast (list : List Step) (w : ω) :
    ∀ x ∈ (exchangeUntilEnd emulator hardware list w).1.dropLast, x.ends = false := by
  induction list generalizing w with
  | nil => exact fun x hx => by cases hx
  | cons step rest ih =>
    by_cases hends : (exchange emulator hardware step w).1.ends = true
    · rw [exchangeUntilEnd_cons_of_ends _ _ _ hends]
      exact fun x hx => by cases hx
    · rw [exchangeUntilEnd_cons_of_not_ends _ _ _ hends]
      have hrest := ih (exchange emulator hardware step w).2
      dsimp only
      cases hxs : (exchangeUntilEnd emulator hardware rest
          (exchange emulator hardware step w).2).1 with
      | nil => exact fun x hx => by cases hx
      | cons y more =>
        rw [hxs] at hrest
        rw [List.dropLast_cons_cons]
        exact List.forall_mem_cons.mpr ⟨Bool.eq_false_iff.mpr hends, hrest⟩

/-! ## Counting -/

/-- What an exchange adds to each number of a report. -/
theorem Exchange.report_eq (x : Exchange) :
    x.report = ⟨if x.step.own then 1 else 0, if x.verdict = .agrees then 0 else 1,
      x.mismatch?.toList⟩ := by
  unfold report mismatch?
  cases hown : x.step.own <;> cases hverdict : x.verdict <;> rfl

theorem attempts_reportOf (xs : List Exchange) :
    (reportOf xs).attempts = xs.countP (·.step.own) := by
  induction xs with
  | nil => rfl
  | cons x rest ih =>
    rw [reportOf, Report.merge, Exchange.report_eq, List.countP_cons, ih, Nat.add_comm]

theorem mismatches_reportOf (xs : List Exchange) :
    (reportOf xs).mismatches = xs.filterMap Exchange.mismatch? := by
  induction xs with
  | nil => rfl
  | cons x rest ih =>
    rw [reportOf, Report.merge, Exchange.report_eq, List.filterMap_cons, ih]
    cases x.mismatch? <;> rfl

/-- Every exchange without agreement is counted once: as a difference, or as a failed exchange. -/
theorem failures_reportOf (xs : List Exchange) :
    (reportOf xs).failures =
      (reportOf xs).mismatches.length + xs.countP (·.verdict == .fails) := by
  induction xs with
  | nil => rfl
  | cons x rest ih =>
    rw [reportOf, Report.merge, Exchange.report_eq, List.countP_cons, ih, List.length_append]
    unfold Exchange.mismatch?
    cases x.verdict with
    | agrees => simp
    | differs mismatch => simp [Nat.add_assoc]
    | fails => simp [Nat.add_comm, Nat.add_left_comm]

theorem passed_reportOf (xs : List Exchange) :
    (reportOf xs).passed = true ↔ ∀ x ∈ xs, x.verdict = .agrees := by
  induction xs with
  | nil => simp [reportOf, Report.passed, Report.empty]
  | cons x rest ih =>
    rw [List.forall_mem_cons, ← ih, reportOf, Report.merge, Exchange.report_eq]
    by_cases hagrees : x.verdict = .agrees <;> simp [Report.passed, hagrees]

/-- Each command of a script is one of its steps. -/
theorem countP_steps (queries commands : List Text) :
    (steps queries commands).countP (·.own) = commands.length := by
  induction commands with
  | nil => rfl
  | cons command rest ih =>
    have hstates : (stateSteps queries).countP (·.own) = 0 := by
      rw [List.countP_eq_zero]
      intro step hstep
      obtain ⟨query, -, rfl⟩ := List.mem_map.mp hstep
      exact Bool.false_ne_true
    rw [steps, List.flatMap_cons, List.cons_append, List.countP_cons, List.countP_append, hstates,
      ← steps, ih, List.length_cons]
    simp

/-! ## Runs of a script -/

/-- Whether an exchange is one that a run ends with: it failed, or the states are not in
agreement. -/
def EndsRun (x : Exchange) : Prop :=
  x.verdict = .fails ∨ x.step.own = false ∧ x.verdict ≠ .agrees

theorem ends_iff {x : Exchange} : x.ends = true ↔ EndsRun x := by
  unfold EndsRun
  cases hown : x.step.own with
  | true => rw [Exchange.ends_of_own hown]; simp
  | false =>
    rw [Exchange.ends_of_not_own hown]
    cases x.verdict <;> simp

/-- A run of a script: the exchanges that were made, the report of the run, and the world it
leaves. -/
structure ScriptRun (queries commands : List Text) (w : ω) (made : List Exchange) (report : Report)
    (final : ω) : Prop where
  /-- The exchanges are the first ones of the full list, made in its order: each with the one side,
  and then with the other unless that failed. -/
  sent : exchangeAll emulator hardware ((steps queries commands).take made.length) w = (made, final)
  /-- The list is gone through to its end unless an exchange ends the run. So a difference in the
  response to a command of the script does not end it. -/
  complete : (∀ x ∈ made, ¬ EndsRun x) → made.length = (steps queries commands).length
  /-- Nothing is sent behind an exchange that ends the run. -/
  last : ∀ x ∈ made.dropLast, ¬ EndsRun x
  /-- Both sides are sent the same commands, the second one all or all but the last. -/
  received : made.filter (·.hardware.isSome) = made ∨
    made.filter (·.hardware.isSome) = made.dropLast
  /-- A run is passed when every exchange of the full list succeeds on both sides with equal
  responses. -/
  passed_iff : report.passed = true ↔
    ∀ x ∈ (exchangeAll emulator hardware (steps queries commands) w).1, x.verdict = .agrees
  attempts_of_passed : report.passed = true → report.attempts = commands.length
  /-- Each difference is one failure, and so is an exchange that ended the run by failing. -/
  failures : report.failures = report.mismatches.length +
    if made.getLast?.map (·.verdict) = some .fails then 1 else 0
  /-- The differences are listed in the order of the exchanges. -/
  mismatches : report.mismatches = made.filterMap Exchange.mismatch?
  /-- A difference between the states is the last difference, and the last exchange. -/
  states : ∀ x ∈ made, ∀ mismatch, x.step.own = false → x.verdict = .differs mismatch →
    made.getLast? = some x ∧ report.mismatches.getLast? = some mismatch
  /-- The attempts are the commands of the script that were tried. -/
  attempts : report.attempts = made.countP (·.step.own)

theorem not_endsRun_of_agrees {x : Exchange} (h : x.verdict = .agrees) : ¬ EndsRun x := by
  rintro (hfails | ⟨-, hdiffers⟩)
  · rw [h] at hfails
    cases hfails
  · exact hdiffers h

/-- An exchange that never got to the second side failed. -/
theorem endsRun_of_not_sent {x : Exchange} (h : x.hardware.isSome = false) : EndsRun x := by
  left
  rw [Option.isSome_eq_false_iff, Option.isNone_iff_eq_none] at h
  rw [Exchange.verdict, h]
  split
  · rename_i hsome
    cases hsome
  · rfl

theorem filter_eq_self_or_dropLast {α : Type} {p : α → Bool} {xs : List α}
    (h : ∀ x ∈ xs.dropLast, p x = true) : xs.filter p = xs ∨ xs.filter p = xs.dropLast := by
  rcases List.eq_nil_or_concat xs with rfl | ⟨before, x, rfl⟩
  · exact .inl rfl
  · rw [List.concat_eq_append, List.dropLast_concat] at h
    rw [List.concat_eq_append, List.dropLast_concat, List.filter_append, List.filter_eq_self.mpr h]
    cases hx : p x with
    | true => exact .inl (by simp [hx])
    | false => exact .inr (by simp [hx])

/-! A record in which only the last exchange may be one that a run ends with. -/

section Record

variable {made : List Exchange} (hlast : ∀ x ∈ made.dropLast, ¬ EndsRun x)
include hlast

/-- Only the last exchange can have failed. -/
theorem countP_fails_eq :
    made.countP (·.verdict == .fails) =
      if made.getLast?.map (·.verdict) = some .fails then 1 else 0 := by
  rcases List.eq_nil_or_concat made with rfl | ⟨before, x, rfl⟩
  · rfl
  · rw [List.concat_eq_append, List.dropLast_concat] at hlast
    have hnone : before.countP (·.verdict == .fails) = 0 := by
      rw [List.countP_eq_zero]
      exact fun y hy hfails => hlast y hy (.inl (beq_iff_eq.mp hfails))
    rw [List.concat_eq_append, List.countP_append, hnone, List.getLast?_concat]
    simp [List.countP_cons]

/-- An exchange that a run ends with is the last one of its record. -/
theorem eq_concat_of_endsRun {x : Exchange} (hx : x ∈ made) (hends : EndsRun x) :
    made = made.dropLast ++ [x] := by
  rcases List.eq_nil_or_concat made with rfl | ⟨before, y, rfl⟩
  · cases hx
  · rw [List.concat_eq_append, List.dropLast_concat] at *
    rcases List.mem_append.mp hx with hbehind | hxy
    · exact absurd hends (hlast x hbehind)
    · rw [List.mem_singleton.mp hxy]

/-- Only the last exchange can have been without the second side. -/
theorem filter_sent_eq : made.filter (·.hardware.isSome) = made ∨
    made.filter (·.hardware.isSome) = made.dropLast := by
  apply filter_eq_self_or_dropLast
  intro x hx
  by_cases hsome : x.hardware.isSome = true
  · exact hsome
  · exact absurd (endsRun_of_not_sent (Bool.eq_false_iff.mpr hsome)) (hlast x hx)

end Record

/-- **Every run of a script is such a run.** -/
theorem scriptRun (queries commands : List Text) (w : ω) :
    ∃ made report final, (runScript emulator hardware queries commands).run w = (report, final) ∧
      ScriptRun emulator hardware queries commands w made report final := by
  have hsent := exchangeUntilEnd_eq_take emulator hardware (steps queries commands) w
  have hfront := exchangeUntilEnd_prefix emulator hardware (steps queries commands) w
  have hcomplete := exchangeUntilEnd_complete emulator hardware (steps queries commands) w
  have hlast := ends_of_mem_dropLast emulator hardware (steps queries commands) w
  have hrun := runScript_run emulator hardware queries commands w
  have hsteps := exchangeAll_steps emulator hardware (steps queries commands) w
  -- from here on the record counts, and no longer how it was made
  generalize exchangeUntilEnd emulator hardware (steps queries commands) w = record at *
  obtain ⟨made, final⟩ := record
  dsimp only at hsent hfront hcomplete hlast hrun
  have hall : (∀ x ∈ made, ¬ EndsRun x) →
      (made, final) = exchangeAll emulator hardware (steps queries commands) w :=
    fun h => hcomplete fun x hx => Bool.eq_false_iff.mpr fun hends => h x hx (ends_iff.mp hends)
  have hbefore : ∀ x ∈ made.dropLast, ¬ EndsRun x :=
    fun x hx hends => Bool.eq_false_iff.mp (hlast x hx) (ends_iff.mpr hends)
  have hpassed : (reportOf made).passed = true →
      (made, final) = exchangeAll emulator hardware (steps queries commands) w := by
    intro h
    exact hall fun x hx => not_endsRun_of_agrees ((passed_reportOf made).mp h x hx)
  refine ⟨made, reportOf made, final, hrun, {
    sent := hsent.symm
    complete := ?_
    last := hbefore
    received := filter_sent_eq hbefore
    passed_iff := ?_
    attempts_of_passed := ?_
    failures := (failures_reportOf made).trans (by rw [countP_fails_eq hbefore])
    mismatches := mismatches_reportOf made
    states := ?_
    attempts := attempts_reportOf made }⟩
  · intro h
    rw [← hall h] at hsteps
    rw [← hsteps, List.length_map]
  · constructor
    · intro h
      rw [← hpassed h]
      exact (passed_reportOf made).mp h
    · intro h
      exact (passed_reportOf made).mpr fun x hx => h x (hfront.subset hx)
  · intro h
    rw [← hpassed h] at hsteps
    rw [attempts_reportOf, ← countP_steps queries, ← hsteps, List.countP_map]
    rfl
  · intro x hx mismatch hown hdiffers
    have hends : EndsRun x := .inr ⟨hown, by rw [hdiffers]; exact Verdict.noConfusion⟩
    have hfound : x.mismatch? = some mismatch := by rw [Exchange.mismatch?, hdiffers]
    rw [mismatches_reportOf, eq_concat_of_endsRun hbefore hx hends, List.filterMap_append,
      List.filterMap_cons, hfound]
    exact ⟨List.getLast?_concat, List.getLast?_concat⟩

/-! ## Full comparisons -/

/-- The reports of several scripts, run one after the other. -/
def scriptReports : List (List Text × List Text) → ω → List Report × ω
  | [], w => ([], w)
  | (commands, queries) :: rest, w =>
    let (report, w) := (runScript emulator hardware queries commands).run w
    let (reports, w) := scriptReports rest w
    (report :: reports, w)

/-- The sums of several reports, their differences one after the other. -/
def sumOf (reports : List Report) : Report :=
  ⟨(reports.map (·.attempts)).sum, (reports.map (·.failures)).sum,
    reports.flatMap (·.mismatches)⟩

theorem runScripts_run (list : List (List Text × List Text)) (w : ω) :
    (runScripts emulator hardware list).run w =
      (sumOf (scriptReports emulator hardware list w).1, (scriptReports emulator hardware list w).2) := by
  induction list generalizing w with
  | nil => rfl
  | cons script rest ih =>
    obtain ⟨commands, queries⟩ := script
    rw [runScripts, run_bind, run_bind, ih]
    rfl

theorem sendAll_cons_run (command : Text) (rest : List Text) (w : ω) :
    (sendAll emulator hardware (command :: rest)).run w =
      let (x, w) := exchange emulator hardware ⟨command, true⟩ w
      if x.verdict = .fails then (false, w) else (sendAll emulator hardware rest).run w := by
  rw [sendAll, run_bind, exchange]
  rcases (emulator command).run w with ⟨fault | first, w'⟩
  · rfl
  · dsimp only
    rw [run_bind]
    rcases (hardware command).run w' with ⟨fault | second, w''⟩
    · rfl
    · dsimp only
      rw [if_neg]
      rw [Exchange.verdict]
      dsimp only
      split <;> exact Verdict.noConfusion

/-- Commands are sent without comparing up to the first exchange that fails. -/
theorem sendAll_run (commands : List Text) (w : ω) :
    let (xs, final) := exchangeAll emulator hardware (commands.map (⟨·, true⟩)) w
    ((∀ x ∈ xs, x.verdict ≠ .fails) →
        (sendAll emulator hardware commands).run w = (true, final)) ∧
      (¬ (∀ x ∈ xs, x.verdict ≠ .fails) →
        ((sendAll emulator hardware commands).run w).1 = false) := by
  induction commands generalizing w with
  | nil => exact ⟨fun _ => rfl, fun h => absurd (fun x hx => by cases hx) h⟩
  | cons command rest ih =>
    have hrest := ih (exchange emulator hardware ⟨command, true⟩ w).2
    rw [sendAll_cons_run, List.map_cons, exchangeAll_cons]
    rcases hx : exchange emulator hardware ⟨command, true⟩ w with ⟨x, w'⟩
    rw [hx] at hrest
    dsimp only at hrest ⊢
    by_cases hfails : x.verdict = .fails
    · rw [if_pos hfails]
      exact ⟨fun h => absurd hfails (h x (.head _)), fun _ => rfl⟩
    · rw [if_neg hfails]
      refine ⟨fun h => hrest.1 fun y hy => h y (.tail _ hy), fun h => hrest.2 fun hall => ?_⟩
      exact h (List.forall_mem_cons.mpr ⟨hfails, hall⟩)

/-- **Reports count exchanges.** Whatever the two sides are, the report of a script is that of a run
as described by `ScriptRun`. A full comparison sums the reports of its scripts, each run on both
sides as the one before left them; if the reset fails on either side, that is its only failure. -/
theorem reports_count_exchanges :
    (∀ (queries commands : List Text) (w : ω), ∃ made report final,
        (runScript emulator hardware queries commands).run w = (report, final) ∧
          ScriptRun emulator hardware queries commands w made report final) ∧
      ∀ (sweeps : Bool) (w : ω),
        let (resets, world) := exchangeAll emulator hardware (resetPreamble.map (⟨·, true⟩)) w
        ((∀ x ∈ resets, x.verdict ≠ .fails) →
            (runAll emulator hardware sweeps).run w =
              (sumOf (scriptReports emulator hardware (scripts sweeps) world).1,
                (scriptReports emulator hardware (scripts sweeps) world).2)) ∧
          (¬ (∀ x ∈ resets, x.verdict ≠ .fails) →
            ((runAll emulator hardware sweeps).run w).1 = ⟨0, 1, []⟩) := by
  refine ⟨scriptRun emulator hardware, fun sweeps w => ?_⟩
  have hreset := sendAll_run emulator hardware resetPreamble w
  rcases hx : exchangeAll emulator hardware (resetPreamble.map (⟨·, true⟩)) w with ⟨resets, world⟩
  rw [hx] at hreset
  obtain ⟨hsucceeds, hfails⟩ := hreset
  rw [runAll, run_bind]
  refine ⟨fun h => ?_, fun h => ?_⟩
  · rw [hsucceeds h]
    exact runScripts_run emulator hardware (scripts sweeps) world
  · rw [hfails h]
    rfl

end Comparison

end WaveGen
