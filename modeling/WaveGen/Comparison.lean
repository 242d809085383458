import WaveGen.Client

/-!
# Comparing two instruments (specification §10.8)

Two instruments are compared by sending both the same commands. After every command their states are
queried and compared too; the first difference between the states ends the run, since all later ones
would follow from it.

* `Respondent` — one side of a comparison, with effects in any monad: `Respondent.onFirst` and
  `Respondent.onSecond` put two of them side by side.
* `Comparison.runScript` — a run of commands with queries of the state after each.
* `Comparison.runAll` — the reset of both sides, the sweeps if wanted, and the script.
* `Report` — what a run found.
-/

namespace WaveGen

/-! ## Reports -/

/-- A command to which the two sides responded differently. -/
structure Mismatch where
  /-- The command that both sides were sent. -/
  command : Text
  /-- The response of the first side, with its line ends made visible. -/
  emulator : Text
  /-- The response of the second side, with its line ends made visible. -/
  hardware : Text
deriving DecidableEq, Repr

/-- What a run found (`VerifyReport`, specification §10.8). -/
structure Report where
  /-- The commands that were tried. -/
  attempts : Nat
  /-- The differences, and the exchanges that failed. -/
  failures : Nat
  /-- The differences, in the order in which they were found. -/
  mismatches : List Mismatch
deriving DecidableEq, Repr

namespace Report

/-- The report of a run that has not tried anything. -/
def empty : Report := ⟨0, 0, []⟩

/-- Whether nothing failed. -/
def passed (r : Report) : Bool := r.failures == 0

/-- The report of two runs, one after the other. -/
def merge (r s : Report) : Report :=
  ⟨r.attempts + s.attempts, r.failures + s.failures, r.mismatches ++ s.mismatches⟩

/-- A report in one line. -/
def summary (r : Report) : Text :=
  if r.passed then Text.ofNat r.attempts ++ " tests run. All tests passed!".toList
  else Text.ofNat r.failures ++ " of ".toList ++ Text.ofNat r.attempts ++ " tests failed".toList

end Report

/-! ## Respondents -/

namespace Respondent

variable {σ τ : Type}

/-- A side that keeps its state in the first half of a pair. -/
def onFirst (exchange : σ → Text → σ × Except ClientFault (Option Text)) :
    Respondent (StateM (σ × τ)) := fun command states =>
  let (next, response) := exchange states.1 command
  (response, (next, states.2))

/-- A side that keeps its state in the second half of a pair. -/
def onSecond (exchange : τ → Text → τ × Except ClientFault (Option Text)) :
    Respondent (StateM (σ × τ)) := fun command states =>
  let (next, response) := exchange states.2 command
  (response, (states.1, next))

end Respondent

namespace Comparison

/-! ## Scripts -/

/-- The commands that bring both sides to a state in which they can be compared. -/
def resetPreamble : List Text :=
  ["*RST", "C1:OUTP OFF", "C2:OUTP OFF", "C1:OUTP LOAD,HZ", "C2:OUTP LOAD,HZ", "C1:OUTP PLRT,NOR",
    "C2:OUTP PLRT,NOR"].map String.toList

/-- The commands of the comparison. -/
def commandScript : List Text :=
  ["*IDN?", "*RST", "*OPC", "STL?", "STL? BUILDIN", "STL? USER", "PACP C2,C1", "C1:OUTP ON",
    "C1:OUTP OFF", "C2:OUTP ON", "C2:OUTP OFF", "C1:OUTP LOAD,50", "C1:OUTP LOAD,HZ",
    "C2:OUTP LOAD,50", "C2:OUTP LOAD,HZ", "C1:OUTP PLRT,NOR", "C1:OUTP PLRT,INVT",
    "C2:OUTP PLRT,NOR", "C2:OUTP PLRT,INVT", "C1:BSWV FRQ,120.1", "C2:BSWV FRQ,234.5",
    "C1:BSWV AMP,17.89", "C2:BSWV AMP,14.32", "C1:BSWV FRQ,33.3", "C2:BSWV FRQ,44.4",
    "PACP C2,C1", "*OPC", "*RST"].map String.toList

/-- The queries of the state of both channels. -/
def stateQueries : List Text := ["C1:OUTP?", "C2:OUTP?", "C1:BSWV?", "C2:BSWV?"].map String.toList

/-- The query of the state during a sweep. -/
def sweepQueries : List Text := ["C1:BSWV?".toList]

/-- The frequencies at which the instrument's own rounding is known to be another one. -/
def frequencyOutliers : List Nat := [202, 223, 438, 743]

/-- The amplitudes from 0.0 to 21.9, in steps of a tenth. -/
def amplitudeSweep : List Text :=
  (List.range 22).flatMap fun whole =>
    (List.range 10).map fun tenth =>
      "C1:BSWV AMP,".toList ++ Text.ofNat whole ++ '.' :: Text.ofNat tenth

/-- The frequencies from 0 to 999, without the outliers. -/
def frequencySweep : List Text :=
  ((List.range 1000).filter fun n => !frequencyOutliers.contains n).map fun n =>
    "C1:BSWV FRQ,".toList ++ Text.ofNat n

/-! ## Responses -/

/-- A response with its line ends made visible. -/
def visible (response : Text) : Text :=
  response.flatMap fun c =>
    if c = '\n' then ['\\', 'n'] else if c = '\r' then ['\\', 'r'] else [c]

/-- A response as it is shown in a mismatch. -/
def shown : Option Text → Text
  | some response => visible response
  | none => "No response expected".toList

/-! ## Runs -/

/-- How one exchange with both sides ended. -/
inductive Verdict where
  | agrees
  | differs (mismatch : Mismatch)
  /-- The exchange failed on one side. -/
  | fails
deriving DecidableEq, Repr

/-- What a verdict adds to a report. -/
def Verdict.report : Verdict → Report
  | agrees => .empty
  | differs mismatch => ⟨0, 1, [mismatch]⟩
  | fails => ⟨0, 1, []⟩

variable {m : Type → Type} [Monad m] (emulator hardware : Respondent m)

/-- Sends a command to both sides, to the second only if the exchange with the first succeeded, and
compares the responses. -/
def compare (command : Text) : m Verdict := do
  match ← emulator command with
  | .error _ => return .fails
  | .ok first =>
    match ← hardware command with
    | .error _ => return .fails
    | .ok second =>
      return if first = second then .agrees else .differs ⟨command, shown first, shown second⟩

/-- Compares the states of both sides, up to the first query whose verdict is not agreement. -/
def compareStates : List Text → m Verdict
  | [] => return .agrees
  | query :: rest => do
    match ← compare emulator hardware query with
    | .agrees => compareStates rest
    | verdict => return verdict

/-- Tries each command on both sides and compares their states after it. A failed exchange ends the
run, and so does a difference between the states. -/
def runScript (queries : List Text) : List Text → m Report
  | [] => return .empty
  | command :: rest => do
    let attempt : Report := ⟨1, 0, []⟩
    match ← compare emulator hardware command with
    | .fails => return attempt.merge (Verdict.report .fails)
    | verdict =>
      let tried := attempt.merge verdict.report
      match ← compareStates emulator hardware queries with
      | .agrees => return tried.merge (← runScript queries rest)
      | ending => return tried.merge ending.report

/-- Sends commands to both sides without comparing, up to the first exchange that fails; whether all
succeeded. -/
def sendAll : List Text → m Bool
  | [] => return true
  | command :: rest => do
    match ← emulator command with
    | .error _ => return false
    | .ok _ =>
      match ← hardware command with
      | .error _ => return false
      | .ok _ => sendAll rest

/-- The scripts of a full comparison, each with the queries of the state. -/
def scripts (sweeps : Bool) : List (List Text × List Text) :=
  (if sweeps then [(amplitudeSweep, sweepQueries), (frequencySweep, sweepQueries)] else []) ++
    [(commandScript, stateQueries)]

/-- Runs several scripts, one after the other, whatever each finds. -/
def runScripts : List (List Text × List Text) → m Report
  | [] => return .empty
  | (commands, queries) :: rest => do
    let report ← runScript emulator hardware queries commands
    return report.merge (← runScripts rest)

/-- Resets both sides and runs the scripts. If the reset fails, that is all there is to report. -/
def runAll (sweeps : Bool) : m Report := do
  if ← sendAll emulator hardware resetPreamble then
    runScripts emulator hardware (scripts sweeps)
  else return ⟨0, 1, []⟩

end Comparison

end WaveGen
