import YcAgent.Capture.JStackChannels
import YcAgent.Lib.Outcome

/-!
The rounds of the workers of `JStack.Run`, without the channels between them.
Every operation is answered at some time, no round is without end, and only the
thread dump worker stops before its channel is closed.
-/

namespace YcAgent.Capture

open Go Lib.Program

theorem DumpPerform.total (op : DumpOp) (w : DumpDir) : ∃ r w', DumpPerform op w r w' := by
  cases op with
  | turn => exact ⟨true, w, rfl⟩
  | getErr => exact ⟨w.err, w, rfl, rfl⟩
  | setErr err => exact ⟨(), _, rfl⟩
  | isProcessExists pid => exact ⟨true, w, rfl⟩
  | copy2TempPath => exact ⟨.error "", w, rfl⟩
  | create name => exact ⟨.error "", w, rfl⟩
  | write pid name pos bytes =>
    exact ⟨.error "", _, [], List.nil_prefix, nofun, rfl⟩
  | scan name => exact ⟨(0 : Nat), w, Nat.zero_le _, rfl⟩
  | seek name => exact ⟨.ok (), w, rfl⟩
  | truncate name => exact ⟨.error "", w, rfl⟩
  | combinedOutput cmd name pos => exact ⟨⟨0, 0, none⟩, _, [], rfl, rfl⟩
  | start cmd => exact ⟨.ok (), w, rfl⟩
  | wait cmd name pos => exact ⟨⟨0, 0, none⟩, _, [], rfl, rfl⟩
  | sync name => exact ⟨.ok (), w, rfl⟩
  | close name => exact ⟨.ok (), w, rfl⟩
  | openSource path => exact ⟨.ok (), w, rfl⟩
  | copy pid path name => exact ⟨.ok (), _, [], rfl⟩
  | cat glob append => exact ⟨.error "", w, .inl rfl⟩
  | openDump => exact ⟨.error "", w, rfl, nofun⟩

theorem TdPerform.total (op : TdOp) (w : DumpDir) : ∃ r w', TdPerform op w r w' := by
  cases op with
  | trying a n => exact ⟨(), w, rfl⟩
  | file op => exact DumpPerform.total op w

theorem quietly_within {α : Type} {p : DumpProg α} {k : Nat} (h : p.Within k) :
    (quietly p).Within k := by
  induction p generalizing k with
  | done a => trivial
  | act op next ih =>
    cases k with
    | zero => exact h.elim
    | succ k => exact fun r => ih r (h r)

theorem call_within {α : Type} {op : DumpOp} {k : op.Reply → DumpProg α} {n : Nat}
    (h : ∀ r, (k r).Within n) : (call op >>= k).Within (n + 1) := h

theorem combinedOutputToFile_within (name : DumpFile) (cmd : DumpCmd) :
    (combinedOutputToFile name cmd).Within 3 := by
  refine call_within fun created => ?_
  cases created with
  | error e => trivial
  | ok _ =>
    refine call_within fun out => ?_
    cases out.err with
    | none => trivial
    | some e => exact call_within fun _ => trivial

namespace JStack

variable (t : JStack) (name : DumpFile)

theorem runF_within : (t.runF name).Within 5 := by
  refine call_within fun sought => ?_
  cases sought with
  | error e => trivial
  | ok _ =>
    refine call_within fun i => ?_
    split
    · refine call_within fun sought => ?_
      cases sought with
      | error e => trivial
      | ok _ =>
        refine call_within fun out => ?_
        cases out.err with
        | none => trivial
        | some e => exact call_within fun _ => trivial
    · trivial

theorem viaSelf_within : (t.viaSelf name).Within 4 := by
  refine (combinedOutputToFile_within name _).bind (l := 1) ?_
  exact fun _ => call_within fun _ => trivial

theorem viaTempPath_within : (t.viaTempPath name).Within 4 := by
  refine call_within fun copied => ?_
  cases copied with
  | error e => trivial
  | ok tempPath =>
    refine (combinedOutputToFile_within name _).bind (l := 0) ?_
    exact fun _ => trivial

theorem viaJStack_within : (t.viaJStack name).Within 4 := by
  refine (combinedOutputToFile_within name _).bind (l := 1) ?_
  exact fun _ => call_within fun _ => trivial

theorem viaForce_within : (t.viaForce name).Within 13 := by
  refine call_within fun created => call_within fun _ => call_within fun err => ?_
  cases err with
  | some e => exact call_within fun _ => trivial
  | none =>
    cases created with
    | error e => trivial
    | ok _ =>
      refine call_within fun written => ?_
      cases written with
      | error e => exact call_within fun _ => trivial
      | ok _ =>
        refine (t.runF_within name).bind (l := 4) fun err => ?_
        refine call_within fun _ => call_within fun err => ?_
        cases err with
        | none => trivial
        | some e => exact call_within fun _ => call_within fun _ => trivial

theorem viaJhsdb_within : (t.viaJhsdb name).Within 6 := by
  refine call_within fun created => call_within fun _ => call_within fun err => ?_
  cases err with
  | some e => exact call_within fun _ => trivial
  | none =>
    cases created with
    | error e => trivial
    | ok _ =>
      refine call_within fun written => ?_
      cases written with
      | error e => exact call_within fun _ => trivial
      | ok _ => exact call_within fun _ => call_within fun _ => trivial

theorem orTry_within {jstackFile : Bool} {a : DumpWay} {n k : Nat} {attempt : DumpProg Bool}
    (h : attempt.Within k) : (orTry jstackFile a n attempt).Within (k + 1) := by
  cases jstackFile with
  | true => trivial
  | false => exact fun _ => quietly_within h

theorem orForce_within (jstackFile : Bool) (n : Nat) : (t.orForce jstackFile n).Within 14 := by
  cases jstackFile with
  | true => trivial
  | false =>
    have hforce := quietly_within (t.viaForce_within (.javacore n))
    refine fun _ => hforce.bind (l := 0) fun out => ?_
    cases out <;> trivial

theorem orJhsdb_within (jstackFile : Bool) (n : Nat) : (t.orJhsdb jstackFile n).Within 7 := by
  cases jstackFile with
  | true => trivial
  | false => exact fun _ => quietly_within (t.viaJhsdb_within (.javacore n))

theorem dumpRound_within (n : Nat) : (t.dumpRound n).Within 38 := by
  refine (orTry_within (t.viaSelf_within _)).bind (l := 33) fun _ => ?_
  refine (orTry_within (t.viaTempPath_within _)).bind (l := 28) fun _ => ?_
  refine (orTry_within (t.viaJStack_within _)).bind (l := 23) fun _ => ?_
  refine (t.orForce_within _ n).bind (l := 9) fun forced => ?_
  cases forced with
  | stopped sent => trivial
  | file jstackFile =>
    refine (t.orJhsdb_within jstackFile n).bind (l := 2) fun out => ?_
    cases out with
    | stopped sent => trivial
    | finished => exact quietly_within (k := 2) (call_within fun _ => call_within fun _ => trivial)

end JStack

namespace TopH

variable (pid : Pid)

theorem captureOutput_within (name : DumpFile) : (captureOutput pid name).Within 6 := by
  refine call_within fun started => ?_
  cases started with
  | error e => trivial
  | ok _ =>
    refine call_within fun out => ?_
    split
    · refine call_within fun sought => ?_
      cases sought with
      | error e => trivial
      | ok _ =>
        refine call_within fun truncated => ?_
        cases truncated with
        | error e => trivial
        | ok _ =>
          refine call_within fun started => ?_
          cases started with
          | error e => trivial
          | ok _ => exact call_within fun _ => trivial
    · trivial

theorem captureToFile_within (name : DumpFile) : (captureToFile pid name).Within 8 := by
  refine call_within fun created => ?_
  cases created with
  | error e => trivial
  | ok _ =>
    refine (captureOutput_within pid name).bind (l := 1) fun err => ?_
    cases err with
    | none => exact call_within fun _ => trivial
    | some e => exact call_within fun _ => trivial

theorem run_within (n : Nat) : (run pid n).Within 10 := by
  refine call_within fun (found : Bool) => ?_
  cases found with
  | false => trivial
  | true =>
    refine (captureToFile_within pid _).bind (l := 1) fun err => ?_
    cases err with
    | none => exact call_within fun _ => trivial
    | some e => trivial

end TopH

namespace JStack

variable (t : JStack)

theorem topHRound_within (n : Nat) : (t.topHRound n).Within 12 := by
  refine (TopH.run_within t.pid n).bind (l := 2) ?_
  exact fun _ => call_within fun _ => call_within fun _ => trivial

def longest : Nat := 38

theorem laneRound_within (l : Lane) (n : Nat) : (t.laneRound l n).Within longest := by
  cases l with
  | one =>
    refine (t.dumpRound_within n).bind (l := 0) fun out => ?_
    cases out <;> trivial
  | two =>
    refine Prog.Within.bind (l := 0) ?_ fun _ => trivial
    exact (quietly_within (t.topHRound_within n)).mono (by decide)

/-- Only the thread dump worker stops before its channel is closed. -/
theorem laneRound_goes_on (n : Nat) : (t.laneRound .two n).Ensures fun r => r.goOn = true := by
  refine (Prog.ensures_bind _ _ _).2 ?_
  exact Prog.ensures_of_forall (fun sent => rfl) _

def rounds (t : JStack) (l : Lane) : List Nat → TdProg Bool
  | [] => return true
  | n :: ns => do
    let r ← t.laneRound l n
    if r.goOn then t.rounds l ns else return false

theorem rounds_concat (l : Lane) (ns : List Nat) (n : Nat) :
    t.rounds l (ns ++ [n]) = t.rounds l ns >>= fun goOn =>
      if goOn then (t.laneRound l n >>= fun r => return r.goOn) else return false := by
  induction ns with
  | nil =>
    change (t.laneRound l n >>= fun r => if r.goOn then _ else _) = t.laneRound l n >>= _
    congr 1
    funext r
    cases r.goOn <;> rfl
  | cons m ns ih =>
    change (t.laneRound l m >>= fun r => if r.goOn then t.rounds l (ns ++ [n]) else _) =
      (t.laneRound l m >>= fun r => if r.goOn then t.rounds l ns else _) >>= _
    rw [Prog.bind_assoc, ih]
    congr 1
    funext r
    cases r.goOn <;> rfl

end JStack

end YcAgent.Capture
