import PropertyFile.CommandLine.Access

/-!
# Checking files

A file passes if saving it, after it was loaded, gives the text it has.
Every file that is given is judged (`Verdict`), whatever the verdict on
those before it; how the run ends follows from the verdicts alone
(`outcomeOf`). Only a breakdown ends the run early.
-/

namespace PropertyFile.CommandLine

/-- The verdict on a file. -/
inductive Verdict where
  /-- It is saved as it is. -/
  | passed
  /-- Its text, and the different text with which it is saved. -/
  | differs (held saved : Text)
  /-- It cannot be judged. -/
  | faulty (f : Failure)
deriving DecidableEq, Repr

namespace Verdict

/-- The verdict on two texts: that of a file, and the one it is saved
with. -/
def ofTexts (held saved : Text) : Verdict :=
  if held = saved then .passed else .differs held saved

/-- The text of a file, and the one it is saved with. -/
def texts (s : Scene) (p : Path) (c : ConfigChoice) : Step (Text × Text) := do
  let settings ← s.settings c p
  let held ← s.readText settings p
  let st ← s.loadStore settings false p
  return (held, st.toText)

/-- **The verdict on a file**, and what was reported on the way to it. -/
def ofFile (s : Scene) (p : Path) (c : ConfigChoice) : Reporting Message Breakdown Verdict :=
  let x := texts s p c
  { reports := x.reports
    result :=
      match x.result with
      | .ok (held, saved) => .ok (ofTexts held saved)
      | .error (.failed f) => .ok (.faulty f)
      | .error (.broken b) => .error b }

/-- What is said of a verdict; with more output, a file that does not
pass is shown with what would change. -/
def messages (verbose : Nat) (p : Path) : Verdict → List Message
  | .passed => [.line [⟨['✔'], .green⟩, ⟨' ' :: p.toText, ⟨[]⟩⟩]]
  | .differs held saved =>
    .line [⟨['✘'], .red⟩, ⟨' ' :: p.toText ++ " does not round-trip".toList, ⟨[]⟩⟩] ::
      if 0 < verbose then [.diff (Diff.patch held saved p.toText)] else []
  | .faulty f => [.error f.message]

/-- The failure of a file that cannot be judged. -/
def failure? : Verdict → Option Failure
  | .faulty f => some f
  | _ => none

/-- Whether a file would be saved differently. -/
def isDifference : Verdict → Bool
  | .differs _ _ => true
  | _ => false

end Verdict

/-- The verdicts on files, each of them reported. -/
def judge (s : Scene) (c : ConfigChoice) : List Path → Reporting Message Breakdown (List Verdict)
  | [] => return []
  | p :: rest => do
    let v ← Verdict.ofFile s p c
    .reportAll (v.messages s.verbose p)
    return v :: (← judge s c rest)

/-- **How a check ends**: as the first file that cannot be judged; or
else, if some file does not pass, as a change that is due. -/
def outcomeOf (verdicts : List Verdict) : Outcome :=
  match verdicts.findSome? Verdict.failure? with
  | some f => f.outcome
  | none => if verdicts.any Verdict.isDifference then .wouldChange else .success

/-- The end of a check, by its verdicts. -/
def concluded (verdicts : List Verdict) : Step Outcome := do
  .report (.log (Log.info ("Checked " ++ toString verdicts.length ++ " file(s), " ++
    toString (verdicts.countP Verdict.isDifference) ++ " would change")))
  return outcomeOf verdicts

/-- **Checking files.** -/
def runCheck (s : Scene) (files : List Path) (c : ConfigChoice) : Step Outcome := do
  concluded (← (judge s c files).convert id .broken)

end PropertyFile.CommandLine
