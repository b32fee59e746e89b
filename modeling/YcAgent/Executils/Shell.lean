import YcAgent.Capture.Post
import YcAgent.Go.Stream
import YcAgent.Lib.Ghost

/-!
`CommandCombinedOutputToWriter` and `CommandCombinedOutputToFile`. A goroutine
runs the command and writes its output, while the caller waits for it or for
the timer. Both assign the named result `err`, and the caller returns what it
finds there, so `err` is part of the state. A call and the assignment of its
error are one step, as in the statements of the source; between two statements
of one side the other may take any number of steps.
-/

namespace YcAgent.Executils

open Capture Go Lib.Program

/-- The errors of a run. `fmt.Errorf` wraps whatever `err` holds, nil as
well. -/
inductive ShellError where
  | failed (text : IOError)
  | because (err : Option ShellError) (output : Bytes)
  | andAlso (err : Option ShellError) (text : IOError)

/-- How the command ended: its combined output, and the error of
`CombinedOutput`, which is nil for a successful exit. -/
structure Exit where
  output : Bytes
  err : Option IOError
  deriving DecidableEq

structure ShellState where
  spawned : Bool
  exit : Option Exit
  written : Bytes
  err : Option ShellError
  channelDone : Bool

inductive Selected where
  | channelDone
  | timer
  deriving DecidableEq, Repr

inductive ShellOp where
  | create
  | spawn
  | begin
  | combinedOutput
  | getErr
  | because (output : Bytes)
  | write (output : Bytes)
  | andAlso (text : IOError)
  | writeResult (output : Bytes)
  | send
  | select
  | kill

def ShellOp.Reply : ShellOp → Type
  | .create => Except IOError Unit
  | .combinedOutput => Exit
  | .getErr => Option ShellError
  | .write _ => Option IOError
  | .writeResult _ => Option IOError
  | .select => Selected
  | .kill => Option IOError
  | _ => Unit

abbrev ShellProg := Prog ShellOp ShellOp.Reply
abbrev ShellEvent := Event ShellOp ShellOp.Reply ShellState
abbrev ShellTrace := List (Side × ShellEvent)

def ask (op : ShellOp) : ShellProg op.Reply := .perform op

def writeFailed (output : Bytes) : ShellProg Unit := do
  match ← ask (.write output) with
  | some e =>
    ask (.andAlso e)
    ask .send
  | none => ask .send

/-- The goroutine. It takes the branch for a failed command by what `err` holds
then, which need not be the error of the command. -/
def execution : ShellProg Unit := do
  ask .begin
  let exit ← ask .combinedOutput
  match ← ask .getErr with
  | some _ =>
    if exit.output.length > 1 then
      ask (.because exit.output)
      writeFailed exit.output
    else writeFailed exit.output
  | none =>
    let _ ← ask (.writeResult exit.output)
    ask .send

/-- The command as `NewCommand` makes it: empty ones are skipped, and a
`WaitCmd` is never killed. -/
structure CmdManager where
  skipped : Bool
  isWaitCmd : Bool
  deriving DecidableEq, Repr

/-- `CommandCombinedOutputToWriter`, from the caller's side. -/
def combinedOutputToWriter (cmd : CmdManager) : ShellProg (Option ShellError) := do
  if cmd.skipped then return none else
    ask .spawn
    match ← ask .select with
    | .timer =>
      let _ ← ask .kill
      ask .getErr
    | .channelDone => ask .getErr

/-- `CommandCombinedOutputToFile`: whether the file is non-nil, and the error.
Closing a file that is not returned, whose error is ignored, is left out. -/
def combinedOutputToFile (cmd : CmdManager) : ShellProg (Bool × Option ShellError) := do
  match ← ask .create with
  | .error e => return (false, some (.failed e))
  | .ok () =>
    let err ← combinedOutputToWriter cmd
    return (err.isNone, err)

/-- What an operation may answer and do. The command may print and return
anything at any time; a write that reports no error has written everything. -/
def Perform (cmd : CmdManager) : (op : ShellOp) → ShellState → op.Reply → ShellState → Prop
  | .create, w, _, w' => w' = w
  | .spawn, w, _, w' => w' = { w with spawned := true }
  | .begin, w, _, w' => w.spawned = true ∧ w' = w
  | .combinedOutput, w, r, w' => w' = { w with exit := some r, err := r.err.map .failed }
  | .getErr, w, r, w' => r = w.err ∧ w' = w
  | .because output, w, _, w' => w' = { w with err := some (.because w.err output) }
  | .write output, w, r, w' => ∃ part, part <+: output ∧ (r = none → part = output) ∧
      w' = { w with written := w.written ++ part }
  | .andAlso text, w, _, w' => w' = { w with err := some (.andAlso w.err text) }
  | .writeResult output, w, r, w' => ∃ part, part <+: output ∧ (r = none → part = output) ∧
      w' = { w with written := w.written ++ part, err := Option.map .failed r }
  | .send, w, _, w' => w' = { w with channelDone := true }
  | .select, w, r, w' => (r = .channelDone → w.channelDone = true) ∧ w' = w
  | .kill, w, r, w' => (cmd.isWaitCmd = true → r = none) ∧
      w' = { w with err := Option.map .failed r }

def notStarted : ShellState := ⟨false, none, [], none, false⟩

/-- The command ran to a successful exit and its whole output was written. -/
def Delivered (w : ShellState) : Prop :=
  ∃ output, w.exit = some ⟨output, none⟩ ∧ w.written = output

/-- The select took the timer's case. -/
def TimedOut (trace : ShellTrace) : Prop :=
  ∃ w, (Side.right, (⟨w, .select, .timer⟩ : ShellEvent)) ∈ trace

/-- What the caller is answered while it waits: the send of the goroutine, or the
timer and then what `Kill` returns. -/
inductive Wait where
  | finished
  | killed (answer : Option IOError)

/-- A wait goes one of the two ways; the kill of a `WaitCmd` does nothing and never
fails. -/
def Wait.Possible (cmd : CmdManager) : Wait → Prop
  | .finished => True
  | .killed answer => cmd.isWaitCmd = true → answer = none

/-- The wait has ended like this in the run. -/
def Wait.In (trace : ShellTrace) : Wait → Prop
  | .finished => ¬ TimedOut trace
  | .killed answer => ∃ w, (Side.right, (⟨w, .kill, answer⟩ : ShellEvent)) ∈ trace

/-- The caller has returned: its last operation is the last of the run. -/
structure Returned {α : Type} (cmd : CmdManager) (caller : ShellProg α) (trace : ShellTrace)
    (result : α) (w : ShellState) : Prop where
  run : ∃ left, Pair (Perform cmd) execution caller notStarted trace left (.done result) w
  last : ∃ e, trace.getLast? = some (Side.right, e)

section Execution

variable {cmd : CmdManager} {w w' : ShellState}

structure Untouched (w w' : ShellState) : Prop where
  exit : w'.exit = w.exit
  written : w'.written = w.written
  err : w'.err = w.err
  channelDone : w'.channelDone = w.channelDone

def undisturbed (cmd : CmdManager) : Semantics ShellOp ShellOp.Reply ShellState :=
  ⟨fun op w r w' => Perform cmd op w r w' ∧ True, Untouched⟩

theorem untouched_of_interferes (h : (undisturbed cmd).Interferes w w') : Untouched w w' := by
  induction h with
  | refl => exact ⟨rfl, rfl, rfl, rfl⟩
  | tail _ hstep ih =>
    exact ⟨hstep.exit.trans ih.exit, hstep.written.trans ih.written, hstep.err.trans ih.err,
      hstep.channelDone.trans ih.channelDone⟩

/-- One operation of the goroutine: not performed yet, or performed in a world
that the caller has left alone. -/
theorem undisturbed_act {α : Type} {op : ShellOp} {next : op.Reply → ShellProg α}
    {p' : ShellProg α} {trace : Trace ShellOp ShellOp.Reply ShellState}
    (hsteps : Steps (undisturbed cmd) (.act op next) w trace p' w') :
    w'.channelDone = w.channelDone ∨ ∃ w₁ r w₂ more, Untouched w w₁ ∧
      Perform cmd op w₁ r w₂ ∧ Steps (undisturbed cmd) (next r) w₂ more p' w' := by
  rcases hsteps.of_act with ⟨_, _, hstar⟩ | ⟨w₁, r, w₂, more, hstar, hperform, _, hmore⟩
  · exact .inl (untouched_of_interferes hstar).channelDone
  · exact .inr ⟨w₁, r, w₂, more, untouched_of_interferes hstar, hperform.1, hmore⟩

theorem send_steps {p' : ShellProg Unit} {trace : Trace ShellOp ShellOp.Reply ShellState}
    (hsteps : Steps (undisturbed cmd) (ask .send) w trace p' w') (hw : w.channelDone = false)
    (hw' : w'.channelDone = true) :
    w'.exit = w.exit ∧ w'.written = w.written ∧ w'.err = w.err := by
  rcases undisturbed_act hsteps with hrest | ⟨w₁, _, w₂, more, huntouched, rfl, hmore⟩
  · simp_all
  · have hlast := untouched_of_interferes hmore.of_done.2.2
    exact ⟨hlast.exit.trans huntouched.exit, hlast.written.trans huntouched.written,
      hlast.err.trans huntouched.err⟩

/-- The goroutine after a failed command: whatever it still assigns to `err`
is an error. -/
theorem writeFailed_steps {output : Bytes} {p' : ShellProg Unit}
    {trace : Trace ShellOp ShellOp.Reply ShellState}
    (hsteps : Steps (undisturbed cmd) (writeFailed output) w trace p' w')
    (hw : w.channelDone = false) (hw' : w'.channelDone = true) (herr : w.err ≠ none) :
    w'.err ≠ none := by
  rcases undisturbed_act hsteps with hrest | ⟨w₁, r, w₂, more, hsame, hperform, hmore⟩
  · simp_all
  obtain ⟨part, _, _, rfl⟩ := hperform
  cases r with
  | none =>
    have hsend := send_steps hmore (hsame.channelDone.trans hw) hw'
    rw [hsend.2.2]
    exact hsame.err ▸ herr
  | some e =>
    rcases undisturbed_act hmore with hrest | ⟨w₃, _, w₄, more, hsame', rfl, hmore⟩
    · simp_all [hsame.channelDone]
    have hsend := send_steps hmore
      (hsame'.channelDone.trans (hsame.channelDone.trans hw)) hw'
    rw [hsend.2.2]
    exact Option.some_ne_none _

/-- A goroutine that has come to its send without the caller's interference
has left nil in `err` only for a command whose whole output it has written. -/
theorem execution_delivers {p' : ShellProg Unit}
    {trace : Trace ShellOp ShellOp.Reply ShellState}
    (hsteps : Steps (undisturbed cmd) execution notStarted trace p' w')
    (hdone : w'.channelDone = true) (herr : w'.err = none) : Delivered w' := by
  rcases undisturbed_act hsteps with hrest | ⟨w₁, _, w₂, _, hsame₁, ⟨_, rfl⟩, hmore⟩
  · simp_all [notStarted]
  rcases undisturbed_act hmore with hrest | ⟨w₃, exit, w₄, _, hsame₂, rfl, hmore⟩
  · simp_all [hsame₁.channelDone, notStarted]
  rcases undisturbed_act hmore with hrest | ⟨w₅, r, w₆, _, hsame₃, ⟨hr, rfl⟩, hmore⟩
  · simp_all [hsame₂.channelDone, hsame₁.channelDone, notStarted]
  have hopen : w₆.channelDone = false :=
    hsame₃.channelDone.trans (hsame₂.channelDone.trans hsame₁.channelDone)
  have hr' : r = exit.err.map .failed := hr.trans hsame₃.err
  obtain ⟨output, status⟩ := exit
  cases r with
  | some e =>
    have hsome : w₆.err ≠ none := hr ▸ Option.some_ne_none e
    change Steps _ (if output.length > 1 then _ else _) _ _ _ _ at hmore
    split at hmore
    · rcases undisturbed_act hmore with hrest | ⟨w₇, _, w₈, _, hsame₄, rfl, hmore⟩
      · simp_all
      · exact (writeFailed_steps hmore (hsame₄.channelDone.trans hopen) hdone
          (Option.some_ne_none _) herr).elim
    · exact (writeFailed_steps hmore hopen hdone hsome herr).elim
  | none =>
    rcases undisturbed_act hmore with hrest | ⟨w₇, r, w₈, _, hsame₄, hperform, hmore⟩
    · simp_all
    obtain ⟨part, _, hpart, rfl⟩ := hperform
    obtain ⟨hexit, hwritten, herr'⟩ := send_steps hmore (hsame₄.channelDone.trans hopen) hdone
    obtain rfl : status = none := Option.map_eq_none_iff.mp hr'.symm
    have hnone : r = none := Option.map_eq_none_iff.mp (herr'.symm.trans herr)
    have hempty : w₇.written = [] :=
      hsame₄.written.trans (hsame₃.written.trans (hsame₂.written.trans hsame₁.written))
    refine ⟨output, hexit.trans (hsame₄.exit.trans hsame₃.exit), hwritten.trans ?_⟩
    change w₇.written ++ part = output
    rw [hempty, hpart hnone]
    rfl

end Execution

section Caller

variable {cmd : CmdManager} {w w' : ShellState}

/-- What the caller has done when it returns `err`. -/
inductive Waited (err : Option ShellError) : Trace ShellOp ShellOp.Reply ShellState → Prop
  | finished {w₀ w₁ w₂ u} : w₁.channelDone = true →
      Waited err [⟨w₀, .spawn, u⟩, ⟨w₁, .select, .channelDone⟩, ⟨w₂, .getErr, err⟩]
  | timedOut {w₀ w₁ w₂ w₃ u r} :
      Waited err [⟨w₀, .spawn, u⟩, ⟨w₁, .select, .timer⟩, ⟨w₂, .kill, r⟩, ⟨w₃, .getErr, err⟩]

theorem combinedOutputToWriter_waited (hcmd : cmd.skipped = false)
    {interfere : ShellState → ShellState → Prop} {err : Option ShellError}
    {events : Trace ShellOp ShellOp.Reply ShellState}
    (hsteps : Steps ⟨Perform cmd, interfere⟩ (combinedOutputToWriter cmd) w events (.done err) w') :
    Waited err events := by
  rw [combinedOutputToWriter, hcmd] at hsteps
  obtain ⟨w₀, _, _, _, _, _, rfl, hmore₀⟩ := hsteps.of_act_done
  obtain ⟨w₁, selected, _, _, _, hselect, rfl, hmore₁⟩ := Steps.of_act_done hmore₀
  cases selected with
  | channelDone =>
    obtain ⟨w₂, _, _, _, _, _, rfl, hmore₂⟩ := Steps.of_act_done hmore₁
    obtain ⟨rfl, heq, _⟩ := Steps.of_done hmore₂
    cases heq
    exact .finished (hselect.1 rfl)
  | timer =>
    obtain ⟨w₂, _, _, _, _, _, rfl, hmore₂⟩ := Steps.of_act_done hmore₁
    obtain ⟨w₃, _, _, _, _, _, rfl, hmore₃⟩ := Steps.of_act_done hmore₂
    obtain ⟨rfl, heq, _⟩ := Steps.of_done hmore₃
    cases heq
    exact .timedOut

/-- Three fields have one operation each that sets them. -/
structure Framed (op : ShellOp) (w w' : ShellState) : Prop where
  exit : op ≠ .combinedOutput → w'.exit = w.exit
  spawned : op ≠ .spawn → w'.spawned = w.spawned
  channelDone : op ≠ .send → w'.channelDone = w.channelDone

theorem perform_framed {op : ShellOp} {r : op.Reply} (h : Perform cmd op w r w') :
    Framed op w w' := by
  cases op with
  | create | because _ | andAlso _ =>
    rw [show w' = _ from h]
    exact ⟨fun _ => rfl, fun _ => rfl, fun _ => rfl⟩
  | spawn =>
    rw [show w' = _ from h]
    exact ⟨fun _ => rfl, fun hop => absurd rfl hop, fun _ => rfl⟩
  | combinedOutput =>
    rw [show w' = _ from h]
    exact ⟨fun hop => absurd rfl hop, fun _ => rfl, fun _ => rfl⟩
  | send =>
    rw [show w' = _ from h]
    exact ⟨fun _ => rfl, fun _ => rfl, fun hop => absurd rfl hop⟩
  | begin | getErr | select | kill =>
    rw [h.2]
    exact ⟨fun _ => rfl, fun _ => rfl, fun _ => rfl⟩
  | write _ | writeResult _ =>
    obtain ⟨part, _, _, rfl⟩ := h
    exact ⟨fun _ => rfl, fun _ => rfl, fun _ => rfl⟩

theorem channelDone_stays {op : ShellOp} {r : op.Reply} (hw : w.channelDone = true)
    (h : Perform cmd op w r w') : w'.channelDone = true := by
  rcases eq_or_ne op .send with rfl | hop
  · rw [show w' = _ from h]
  · rw [(perform_framed h).channelDone hop, hw]

theorem perform_untouched {op : ShellOp} {r : op.Reply}
    (hop : op = .create ∨ op = .spawn ∨ op = .select ∨ op = .getErr)
    (h : Perform cmd op w r w') : Untouched w w' := by
  rcases hop with rfl | rfl | rfl | rfl
  · rw [show w' = w from h]
    exact ⟨rfl, rfl, rfl, rfl⟩
  · rw [show w' = _ from h]
    exact ⟨rfl, rfl, rfl, rfl⟩
  · rw [h.2]
    exact ⟨rfl, rfl, rfl, rfl⟩
  · rw [h.2]
    exact ⟨rfl, rfl, rfl, rfl⟩

/-- The rule for a caller that has waited, after creating its file or not. -/
theorem Waited.delivers {α : Type} {caller caller' : ShellProg α} {left : ShellProg Unit}
    {trace : ShellTrace} {e : ShellEvent} {err : Option ShellError}
    {first events : Trace ShellOp ShellOp.Reply ShellState}
    (hpair : Pair (Perform cmd) execution caller notStarted trace left caller' w)
    (hlast : trace.getLast? = some (Side.right, e))
    (hevents : ofSide .right trace = first ++ events) (hfirst : ∀ e ∈ first, e.op = .create)
    (hwaited : Waited err events) (hnot : ¬ TimedOut trace) (herr : err = none) :
    Delivered w := by
  have hmine := ofSide_getLast? hlast
  have hperform := hpair.perform_last hlast
  rw [hevents] at hmine
  cases hwaited with
  | @finished w₀ w₁ w₂ u hdone =>
    obtain rfl : (⟨w₂, .getErr, err⟩ : ShellEvent) = e := by simpa using hmine
    obtain ⟨rfl, rfl⟩ : err = w₂.err ∧ w = w₂ := hperform
    have hops : ∀ e, (Side.right, e) ∈ trace →
        e.op = .create ∨ e.op = .spawn ∨ e.op = .select ∨ e.op = .getErr := by
      intro e he
      rw [← mem_ofSide, hevents, List.mem_append] at he
      rcases he with he | he
      · exact .inl (hfirst e he)
      · simp only [List.mem_cons, List.not_mem_nil, or_false] at he
        rcases he with rfl | rfl | rfl <;> simp
    have hselect : (Side.right, (⟨w₁, .select, .channelDone⟩ : ShellEvent)) ∈ trace := by
      rw [← mem_ofSide, hevents]
      simp
    have hend : w.channelDone = true :=
      hpair.stable (P := fun w => w.channelDone = true)
        (fun _ _ _ _ => channelDone_stays) (.inr ⟨_, hselect, hdone⟩)
    have hsteps := hpair.left_steps (fun _ => True) Untouched (fun _ _ => trivial)
      fun e w₁ he => perform_untouched (hops e he)
    exact execution_delivers hsteps hend herr
  | @timedOut w₀ w₁ w₂ w₃ u r =>
    have htimer : TimedOut trace := by
      refine ⟨w₁, ?_⟩
      rw [← mem_ofSide, hevents]
      simp
    exact absurd htimer hnot

theorem combinedOutputToWriter_delivers (hcmd : cmd.skipped = false) {trace : ShellTrace}
    {err : Option ShellError}
    (hreturned : Returned cmd (combinedOutputToWriter cmd) trace err w) (hnot : ¬ TimedOut trace)
    (herr : err = none) : Delivered w := by
  obtain ⟨⟨left, hpair⟩, e, hlast⟩ := hreturned
  have hwaited := combinedOutputToWriter_waited hcmd hpair.right_steps
  exact hwaited.delivers hpair hlast (List.nil_append _).symm (by simp) hnot herr

theorem combinedOutputToFile_delivers (hcmd : cmd.skipped = false) {trace : ShellTrace}
    {file : Bool} {err : Option ShellError}
    (hreturned : Returned cmd (combinedOutputToFile cmd) trace (file, err) w)
    (hnot : ¬ TimedOut trace) (hfile : file = true) : Delivered w := by
  obtain ⟨⟨left, hpair⟩, e, hlast⟩ := hreturned
  obtain ⟨w₀, created, w₁, more, _, _, hevents, hmore⟩ := hpair.right_steps.of_act_done
  cases created with
  | error text =>
    obtain ⟨rfl, heq, _⟩ := Steps.of_done hmore
    cases heq
    cases hfile
  | ok _ =>
    change Steps _ (combinedOutputToWriter cmd >>= fun err => pure (err.isNone, err)) _ _ _ _
      at hmore
    rcases hmore.of_bind with ⟨_, _, _, hne⟩ | ⟨first, err', w₂, second, rfl, hwriter, hdone⟩
    · cases hne
    obtain ⟨rfl, heq, _⟩ := Steps.of_done hdone
    cases heq
    have hwaited := combinedOutputToWriter_waited hcmd hwriter
    rw [List.append_nil] at hevents
    have hsplit : ofSide .right trace = [⟨w₀, .create, .ok _⟩] ++ first := hevents
    exact hwaited.delivers hpair hlast hsplit (by simp) hnot (Option.isNone_iff_eq_none.1 hfile)

end Caller

section Samples

def jattach : CmdManager := ⟨false, false⟩

def sampleHost (selected : Selected) (killed : Option IOError) :
    (op : ShellOp) → ShellState → Option (op.Reply × ShellState)
  | .create, w => some (.ok (), w)
  | .spawn, w => some ((), { w with spawned := true })
  | .begin, w => if w.spawned then some ((), w) else none
  | .combinedOutput, w =>
    some (⟨[68, 10], none⟩, { w with exit := some ⟨[68, 10], none⟩, err := none })
  | .getErr, w => some (w.err, w)
  | .because output, w => some ((), { w with err := some (.because w.err output) })
  | .write output, w => some (none, { w with written := w.written ++ output })
  | .andAlso text, w => some ((), { w with err := some (.andAlso w.err text) })
  | .writeResult output, w =>
    some (none, { w with written := w.written ++ output, err := none })
  | .send, w => some ((), { w with channelDone := true })
  | .select, w =>
    if selected = .channelDone ∧ w.channelDone = false then none else some (selected, w)
  | .kill, w => some (killed, { w with err := killed.map .failed })

theorem sampleHost_performs {cmd : CmdManager} (selected : Selected) {killed : Option IOError}
    (hkilled : cmd.isWaitCmd = true → killed = none) (op : ShellOp) (w : ShellState)
    (r : op.Reply) (w' : ShellState) (h : sampleHost selected killed op w = some (r, w')) :
    Perform cmd op w r w' := by
  cases op with
  | create | spawn | combinedOutput | because _ | andAlso _ | send =>
    cases h
    rfl
  | getErr =>
    cases h
    exact ⟨rfl, rfl⟩
  | kill =>
    cases h
    exact ⟨hkilled, rfl⟩
  | begin =>
    simp only [sampleHost] at h
    split at h
    · next hspawned =>
        cases h
        exact ⟨hspawned, rfl⟩
    · cases h
  | write output | writeResult output =>
    cases h
    exact ⟨output, List.prefix_refl _, fun _ => rfl, rfl⟩
  | select =>
    simp only [sampleHost] at h
    split at h
    · cases h
    · next hready =>
        cases h
        refine ⟨fun hdone => ?_, rfl⟩
        simpa [hdone] using hready

theorem exists_returned {α : Type} {cmd : CmdManager} (selected : Selected)
    {killed : Option IOError} (hkilled : cmd.isWaitCmd = true → killed = none) (turns : List Side)
    {caller : ShellProg α} {result : α} {P : ShellTrace → ShellState → Prop}
    (h : ∃ out, playPair (sampleHost selected killed) turns execution caller notStarted = some out ∧
      out.2.2.1 = .done result ∧ (∃ e, out.1.getLast? = some (Side.right, e)) ∧
      P out.1 out.2.2.2) :
    ∃ trace w, Returned cmd caller trace result w ∧ P trace w := by
  obtain ⟨⟨trace, left, caller', w⟩, hplay, rfl, hlast, hP⟩ := h
  exact ⟨trace, w, ⟨⟨left, playPair_pair (sampleHost_performs selected hkilled) hplay⟩, hlast⟩, hP⟩

/-- The order of a run in which the command exits after the kill and before the
caller reads `err`. -/
def lateExit : List Side := [.right, .left, .right, .right, .left, .right]

/-- Whatever the kill answers, an exit after it leaves nil in `err`, and nothing
has been written then. -/
theorem exists_undelivered {cmd : CmdManager} (hcmd : cmd.skipped = false)
    {killed : Option IOError} (hkilled : cmd.isWaitCmd = true → killed = none) :
    (∃ trace w, Returned cmd (combinedOutputToWriter cmd) trace none w ∧
      (Wait.killed killed).In trace ∧ ¬ Delivered w) ∧
    ∃ trace w, Returned cmd (combinedOutputToFile cmd) trace (true, none) w ∧
      (Wait.killed killed).In trace ∧ ¬ Delivered w := by
  have hunwritten {w : ShellState} (hexit : w.exit = some ⟨[68, 10], none⟩)
      (hwritten : w.written = []) : ¬ Delivered w := by
    rintro ⟨output, hexit', rfl⟩
    rw [hexit, hwritten] at hexit'
    cases hexit'
  let spawned : ShellState := { notStarted with spawned := true }
  obtain ⟨skipped, isWaitCmd⟩ := cmd
  obtain rfl : skipped = false := hcmd
  constructor
  · apply exists_returned .timer hkilled lateExit
    exact ⟨_, rfl, rfl, ⟨_, rfl⟩, ⟨spawned, by simp [spawned]⟩, hunwritten rfl rfl⟩
  · apply exists_returned .timer hkilled (.right :: lateExit)
    exact ⟨_, rfl, rfl, ⟨_, rfl⟩, ⟨spawned, by simp [spawned]⟩, hunwritten rfl rfl⟩

end Samples

/-- An error is nil, and a file is returned, only for a command that succeeded and
whose whole output was written, in all runs in which the select does not take the
timer's case. Where it takes it, whatever the kill then answers, there are runs in
which this fails. -/
theorem nil_error_delivered_iff (cmd : CmdManager) (hcmd : cmd.skipped = false) (wait : Wait)
    (hwait : wait.Possible cmd) :
    ((∀ trace err w, Returned cmd (combinedOutputToWriter cmd) trace err w → wait.In trace →
      err = none → Delivered w) ↔ wait = .finished) ∧
    ((∀ trace file err w, Returned cmd (combinedOutputToFile cmd) trace (file, err) w →
      wait.In trace → file = true → Delivered w) ↔ wait = .finished) := by
  cases wait with
  | finished =>
    refine ⟨iff_of_true ?_ rfl, iff_of_true ?_ rfl⟩
    · intro trace err w hreturned
      exact combinedOutputToWriter_delivers hcmd hreturned
    · intro trace file err w hreturned
      exact combinedOutputToFile_delivers hcmd hreturned
  | killed answer =>
    obtain ⟨⟨trace, w, hreturned, hin, hnot⟩, trace', w', hreturned', hin', hnot'⟩ :=
      exists_undelivered hcmd hwait
    refine ⟨iff_of_false ?_ Wait.noConfusion, iff_of_false ?_ Wait.noConfusion⟩
    · intro hall
      exact hnot (hall trace none w hreturned hin rfl)
    · intro hall
      exact hnot' (hall trace' true none w' hreturned' hin' rfl)

/-- The command is still running when the timer fires; it is killed, and the
kill succeeds. The caller gets a nil error, and an empty file. -/
theorem timed_out_command_succeeds :
    (∃ trace w, Returned jattach (combinedOutputToWriter jattach) trace none w ∧
      ¬ Delivered w) ∧
    ∃ trace w, Returned jattach (combinedOutputToFile jattach) trace (true, none) w ∧
      ¬ Delivered w := by
  have hkilled : jattach.isWaitCmd = true → (none : Option IOError) = none := fun _ => rfl
  constructor
  · apply exists_returned .timer hkilled [.right, .left, .right, .right, .right]
    refine ⟨_, rfl, rfl, ⟨_, rfl⟩, ?_⟩
    rintro ⟨output, hexit, _⟩
    cases hexit
  · apply exists_returned .timer hkilled [.right, .right, .left, .right, .right, .right]
    refine ⟨_, rfl, rfl, ⟨_, rfl⟩, ?_⟩
    rintro ⟨output, hexit, _⟩
    cases hexit

/-- The command exits before the timer fires. -/
theorem finished_command_delivered :
    ∃ trace w, Returned jattach (combinedOutputToFile jattach) trace (true, none) w ∧
      ¬ TimedOut trace ∧ Delivered w := by
  have hrun : ∃ trace w, Returned jattach (combinedOutputToFile jattach) trace (true, none) w ∧
      ¬ TimedOut trace := by
    have hkilled : jattach.isWaitCmd = true → (none : Option IOError) = none := fun _ => rfl
    apply exists_returned .channelDone hkilled
      [.right, .right, .left, .left, .left, .left, .left, .right, .right]
    refine ⟨_, rfl, rfl, ⟨_, rfl⟩, ?_⟩
    rintro ⟨w, htimer⟩
    simp only [List.mem_cons, List.not_mem_nil, or_false] at htimer
    rcases htimer with h | h | h | h | h | h | h | h | h <;> cases h
  obtain ⟨trace, w, hreturned, hnot⟩ := hrun
  have hiff := (nil_error_delivered_iff jattach rfl .finished trivial).2
  exact ⟨trace, w, hreturned, hnot, hiff.mpr rfl trace true none w hreturned hnot rfl⟩

end YcAgent.Executils
