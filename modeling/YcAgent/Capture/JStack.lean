import YcAgent.Capture.Host
import YcAgent.Lib.Parallel

/-!
The rounds of `JStack.Run`: in each round one goroutine writes
`javacore.<n>.out` and another `topdashH.<n>.out`, in the working directory.
The file names depend on the round only. Every byte in the directory is kept
with the process it was written for. The variable `err` of `JStack.Run` is
shared by both goroutines and the loop that waits for them, so it is part of
the state and its accesses are operations of their own.
-/

namespace YcAgent.Capture

open Go Lib.Program

inductive DumpFile where
  | javacore (n : Nat)
  | topdashH (n : Nat)
  | threaddump
  deriving DecidableEq, Repr

def DumpFile.text : DumpFile → String
  | .javacore n => "javacore." ++ toString n ++ ".out"
  | .topdashH n => "topdashH." ++ toString n ++ ".out"
  | .threaddump => "threaddump.out"

inductive DumpGlob where
  | javacores
  | topdashHs
  deriving DecidableEq, Repr

def DumpGlob.Matches : DumpGlob → DumpFile → Bool
  | .javacores, .javacore _ => true
  | .topdashHs, .topdashH _ => true
  | _, _ => false

/-- A byte, with the process whose capture wrote it. -/
structure Written where
  pid : Pid
  byte : UInt8
  deriving DecidableEq, Repr

structure DumpDir where
  files : GoMap DumpFile (List Written)
  err : Option IOError

namespace DumpDir

def content (w : DumpDir) (name : DumpFile) : List Written := (w.files.lookup name).getD []

def put (w : DumpDir) (name : DumpFile) (bytes : List Written) : DumpDir :=
  { w with files := w.files.insert name bytes }

/-- The names a pattern expands to, in the order of the shell. -/
def expand (w : DumpDir) (glob : DumpGlob) : List DumpFile :=
  (w.files.keys.filter glob.Matches).insertionSort fun a b => a.text ≤ b.text

def cat (w : DumpDir) (glob : DumpGlob) : List Written := (w.expand glob).flatMap w.content

end DumpDir

/-- Writes at a position of a file; a gap before it reads as zeros. -/
def overwrite (pid : Pid) (old : List Written) (pos : Nat) (bytes : List UInt8) : List Written :=
  old.take pos ++ List.replicate (pos - old.length) ⟨pid, 0⟩ ++ bytes.map (⟨pid, ·⟩) ++
    old.drop (pos + bytes.length)

inductive DumpTool where
  | tdCaptureMode (executable : Path)
  | jstackL (javaHome : Path)
  | jstackF (javaHome : Path)
  | jhsdb (javaHome : Path)
  | topH
  | topH2
  deriving DecidableEq, Repr

structure DumpCmd where
  tool : DumpTool
  pid : Pid
  deriving DecidableEq, Repr

/-- How a command that writes to a file ended, and how far the file's position
has moved. -/
structure Output where
  moved : Nat
  exitCode : Int
  err : Option IOError
  deriving DecidableEq, Repr

inductive DumpOp where
  | turn
  | getErr
  | setErr (err : Option IOError)
  | isProcessExists (pid : Pid)
  | copy2TempPath
  | create (name : DumpFile)
  | write (pid : Pid) (name : DumpFile) (pos : Nat) (bytes : List UInt8)
  | scan (name : DumpFile)
  | seek (name : DumpFile)
  | truncate (name : DumpFile)
  | combinedOutput (cmd : DumpCmd) (name : DumpFile) (pos : Nat)
  | start (cmd : DumpCmd)
  | wait (cmd : DumpCmd) (name : DumpFile) (pos : Nat)
  | sync (name : DumpFile)
  | close (name : DumpFile)
  | openSource (path : Path)
  | copy (pid : Pid) (path : Path) (name : DumpFile)
  | cat (glob : DumpGlob) (append : Bool)
  | openDump

def DumpOp.Reply : DumpOp → Type
  | .turn => Bool
  | .getErr => Option IOError
  | .setErr _ => Unit
  | .isProcessExists _ => Bool
  | .copy2TempPath => Except IOError Path
  | .create _ => Except IOError Unit
  | .write _ _ _ _ => Except IOError Unit
  | .scan _ => Nat
  | .seek _ => Except IOError Unit
  | .truncate _ => Except IOError Unit
  | .combinedOutput _ _ _ => Output
  | .start _ => Except IOError Unit
  | .wait _ _ _ => Output
  | .sync _ => Except IOError Unit
  | .close _ => Except IOError Unit
  | .openSource _ => Except IOError Unit
  | .copy _ _ _ => Except IOError Unit
  | .cat _ _ => Except IOError Unit
  | .openDump => Except IOError (List Written)

abbrev DumpProg := Prog DumpOp DumpOp.Reply
abbrev DumpTrace := Trace DumpOp DumpOp.Reply DumpDir

def call (op : DumpOp) : DumpProg op.Reply := .perform op

def lineCount (bytes : List Written) : Nat :=
  let breaks := (bytes.filter (·.byte = 10)).length
  match bytes.getLast? with
  | none => breaks
  | some last => if last.byte = 10 then breaks else breaks + 1

/-- What an operation may answer and do. Commands may print anything, fail, or
be killed after any part of their output was written. -/
def DumpPerform : (op : DumpOp) → DumpDir → op.Reply → DumpDir → Prop
  | .turn, w, _, w' => w' = w
  | .getErr, w, r, w' => r = w.err ∧ w' = w
  | .setErr err, w, _, w' => w' = { w with err := err }
  | .isProcessExists _, w, _, w' => w' = w
  | .copy2TempPath, w, _, w' => w' = w
  | .create name, w, .ok (), w' => w' = w.put name []
  | .create _, w, .error _, w' => w' = w
  | .write pid name pos bytes, w, r, w' => ∃ part, part <+: bytes ∧ (r = .ok () → part = bytes) ∧
      w' = w.put name (overwrite pid (w.content name) pos part)
  | .scan name, w, (i : Nat), w' => i ≤ min 6 (lineCount (w.content name)) ∧ w' = w
  | .seek _, w, _, w' => w' = w
  | .truncate name, w, .ok (), w' => w' = w.put name []
  | .truncate _, w, .error _, w' => w' = w
  | .combinedOutput cmd name pos, w, r, w' => ∃ bytes, r.moved = bytes.length ∧
      w' = w.put name (overwrite cmd.pid (w.content name) pos bytes)
  | .start _, w, _, w' => w' = w
  | .wait cmd name pos, w, r, w' => ∃ bytes, r.moved = bytes.length ∧
      w' = w.put name (overwrite cmd.pid (w.content name) pos bytes)
  | .sync _, w, _, w' => w' = w
  | .close _, w, _, w' => w' = w
  | .openSource _, w, _, w' => w' = w
  | .copy pid _ name, w, _, w' => ∃ bytes : List UInt8, w' = w.put name (bytes.map (⟨pid, ·⟩))
  | .cat glob append, w, .ok (), w' => w.expand glob ≠ [] ∧
      w' = w.put .threaddump ((if append then w.content .threaddump else []) ++ w.cat glob)
  | .cat _ _, w, .error _, w' => w' = w ∨ ∃ bytes, w' = w.put .threaddump bytes
  | .openDump, w, r, w' => w' = w ∧ ∀ bytes, r = .ok bytes → bytes = w.content .threaddump

/-- `CommandCombinedOutputToFile`: whether there is a file, and the error. -/
def combinedOutputToFile (name : DumpFile) (cmd : DumpCmd) :
    DumpProg (Bool × Option IOError) := do
  match ← call (.create name) with
  | .error e => return (false, some e)
  | .ok () =>
    let out ← call (.combinedOutput cmd name 0)
    match out.err with
    | none => return (true, none)
    | some e =>
      let _ ← call (.close name)
      return (false, some e)

structure JStack where
  executable : Path
  javaHome : Path
  pid : Pid
  count : Nat
  deriving DecidableEq, Repr

namespace JStack

def defaultCount : Nat := 3

def defaultTimeToSleep : Int := 10000000000

/-- The number of rounds for a capture duration. -/
def countFor (duration : Int) : Nat :=
  (max (max duration defaultTimeToSleep / defaultTimeToSleep) 1).toNat

def runF (t : JStack) (name : DumpFile) : DumpProg (Option IOError) := do
  match ← call (.seek name) with
  | .error e => return some e
  | .ok () =>
  let i : Nat ← call (.scan name)
  if i ≤ 5 then
    match ← call (.seek name) with
    | .error e => return some e
    | .ok () =>
    let out ← call (.combinedOutput ⟨.jstackF t.javaHome, t.pid⟩ name 0)
    match out.err with
    | none => return none
    | some _ =>
      -- the second command goes on where the first one stopped writing
      let again ← call (.combinedOutput ⟨.tdCaptureMode t.executable, t.pid⟩ name out.moved)
      return again.err
  else return none

def viaSelf (t : JStack) (name : DumpFile) : DumpProg Bool := do
  let (dumped, err) ← combinedOutputToFile name ⟨.tdCaptureMode t.executable, t.pid⟩
  call (.setErr err)
  return dumped

/-- The error of this attempt is a variable of its own. -/
def viaTempPath (t : JStack) (name : DumpFile) : DumpProg Bool := do
  match ← call .copy2TempPath with
  | .error _ => return false
  | .ok tempPath =>
    let (dumped, _) ← combinedOutputToFile name ⟨.tdCaptureMode tempPath, t.pid⟩
    return dumped

def viaJStack (t : JStack) (name : DumpFile) : DumpProg Bool := do
  let (dumped, err) ← combinedOutputToFile name ⟨.jstackL t.javaHome, t.pid⟩
  call (.setErr err)
  return dumped

def unlessDumped (dumped : Bool) (attempt : DumpProg Bool) : DumpProg Bool :=
  if dumped then return true else attempt

def fullThreadDump : List UInt8 := "\nFull thread dump\n".toUTF8.toList

inductive RoundEnd where
  | stopped (sent : Option IOError)
  | finished
  deriving DecidableEq, Repr

/-- The last attempt, `jstack -F`. Every failure of it ends the goroutine. -/
def viaForce (t : JStack) (name : DumpFile) : DumpProg RoundEnd := do
  let created ← call (.create name)
  call (.setErr (match created with | .ok () => none | .error e => some e))
  match ← call .getErr with
  | some _ => return .stopped (← call .getErr)
  | none =>
  match created with
  -- a nil file refuses the write
  | .error _ => return .stopped (some "invalid argument")
  | .ok () =>
  match ← call (.write t.pid name 0 fullThreadDump) with
  | .error e =>
    let _ ← call (.close name)
    return .stopped (some e)
  | .ok () =>
  let err ← t.runF name
  call (.setErr err)
  match ← call .getErr with
  | some _ =>
    let sent ← call .getErr
    let _ ← call (.close name)
    return .stopped sent
  | none => return .finished

/-- A round of the thread dump goroutine. The attempt with `jhsdb` after
`jstack -F` asks for a nil file, which there is none of at that point. -/
def javacoreRound (t : JStack) (n : Nat) : DumpProg RoundEnd := do
  let name := DumpFile.javacore n
  let dumped ← t.viaSelf name
  let dumped ← unlessDumped dumped (t.viaTempPath name)
  let dumped ← unlessDumped dumped (t.viaJStack name)
  match ← (if dumped then return .finished else t.viaForce name) with
  | .stopped sent => return .stopped sent
  | .finished =>
    let _ ← call (.sync name)
    let _ ← call (.close name)
    return .finished

end JStack

namespace TopH

def captureOutput (pid : Pid) (name : DumpFile) : DumpProg (Option IOError) := do
  match ← call (.start ⟨.topH, pid⟩) with
  | .error e => return some e
  | .ok () =>
  let out ← call (.wait ⟨.topH, pid⟩ name 0)
  if out.exitCode ≠ 0 then
    match ← call (.seek name) with
    | .error e => return some e
    | .ok () =>
    match ← call (.truncate name) with
    | .error e => return some e
    | .ok () =>
    match ← call (.start ⟨.topH2, pid⟩) with
    | .error e => return some e
    | .ok () =>
    let again ← call (.wait ⟨.topH2, pid⟩ name 0)
    return again.err.map ("both top dash H commands failed: " ++ ·)
  else return out.err

def captureToFile (pid : Pid) (name : DumpFile) : DumpProg (Option IOError) := do
  match ← call (.create name) with
  | .error e => return some ("failed to create output file: " ++ e)
  | .ok () =>
  match ← captureOutput pid name with
  | some e =>
    let _ ← call (.close name)
    return some e
  | none =>
    let _ ← call (.sync name)
    return none

def run (pid : Pid) (n : Nat) : DumpProg (Option IOError) := do
  let found : Bool ← call (.isProcessExists pid)
  if found then
    match ← captureToFile pid (.topdashH n) with
    | some e => return some e
    | none =>
      let _ ← call (.close (.topdashH n))
      return none
  else return some ("process " ++ toString pid ++ " does not exist")

end TopH

namespace JStack

/-- The thread dump of a round, and the loop's receipt of its outcome. Once the
goroutine has stopped, the loop receives nil from the closed channel. -/
def awaitJavacore (t : JStack) (alive : Bool) (n : Nat) : DumpProg Bool := do
  if alive then
    match ← t.javacoreRound n with
    | .finished =>
      call (.setErr none)
      return true
    | .stopped sent =>
      call (.setErr sent)
      return false
  else
    call (.setErr none)
    return false

/-- The goroutine stores its error in the shared variable and sends what it
finds there. -/
def topHRound (t : JStack) (n : Nat) : DumpProg (Option IOError) := do
  let err ← TopH.run t.pid n
  call (.setErr err)
  let sent ← call .getErr
  return sent

def round (t : JStack) (alive : Bool) (n : Nat) : DumpProg Bool := do
  let (alive, err) ← Prog.interleave (call .turn) (t.awaitJavacore alive n) (t.topHRound n)
  call (.setErr err)
  return alive

def run (t : JStack) : DumpProg (Option IOError) := do
  call (.setErr none)
  let _ ← (List.range' 1 t.count).foldlM t.round true
  let err ← call .getErr
  return err

end JStack

/-! A capture for `pid` writes only to files that it has created itself. -/

def MayTouch (pid : Pid) : DumpOp → Set DumpFile → Prop
  | .write writer name _ _, held => writer = pid ∧ name ∈ held
  | .truncate name, held => name ∈ held
  | .combinedOutput cmd name _, held => cmd.pid = pid ∧ name ∈ held
  | .wait cmd name _, held => cmd.pid = pid ∧ name ∈ held
  | .copy writer _ name, held => writer = pid ∧ name ∈ held
  | .cat _ _, _ => False
  | _, _ => True

def created : (op : DumpOp) → op.Reply → Set DumpFile
  | .create name, .ok () => {name}
  | _, _ => ∅

theorem mayTouch_grows (pid : Pid) : Prog.Grows (MayTouch pid) := by
  intro op held held' hsub h
  cases op with
  | write writer name pos bytes => exact ⟨h.1, hsub h.2⟩
  | truncate name => exact hsub h
  | combinedOutput cmd name pos => exact ⟨h.1, hsub h.2⟩
  | wait cmd name pos => exact ⟨h.1, hsub h.2⟩
  | copy writer path name => exact ⟨h.1, hsub h.2⟩
  | cat glob append => exact h
  | _ => trivial

/-- The program keeps to the files it has created, starting from `held`. -/
abbrev Tidy {α : Type} (pid : Pid) (held : Set DumpFile) (p : DumpProg α) : Prop :=
  p.Heeds (MayTouch pid) created held

theorem tidy_call {α : Type} {pid : Pid} {held : Set DumpFile} {op : DumpOp}
    {k : op.Reply → DumpProg α} (hop : MayTouch pid op held)
    (hk : ∀ r, Tidy pid (held ∪ created op r) (k r)) : Tidy pid held (call op >>= k) :=
  ⟨hop, fun r _ => hk r⟩

theorem tidy_bind {α β : Type} {pid : Pid} {held : Set DumpFile} {p : DumpProg α}
    {k : α → DumpProg β} (hp : Tidy pid held p)
    (hk : ∀ a grown, held ⊆ grown → Tidy pid grown (k a)) : Tidy pid held (p >>= k) :=
  Prog.Heeds.bind hp hk

section Tidy

variable {pid : Pid} {held : Set DumpFile} {name : DumpFile}

theorem mem_created (held : Set DumpFile) (name : DumpFile) :
    name ∈ held ∪ created (.create name) (.ok ()) := Or.inr rfl

theorem combinedOutputToFile_tidy (cmd : DumpCmd) (hcmd : cmd.pid = pid) :
    Tidy pid held (combinedOutputToFile name cmd) := by
  refine tidy_call (by trivial) ?_
  rintro (e | ⟨⟩)
  · trivial
  · refine tidy_call (by exact ⟨hcmd, mem_created held name⟩) ?_
    intro out
    cases out.err with
    | none => trivial
    | some e => exact tidy_call (by trivial) fun _ => trivial

namespace JStack

variable (t : JStack)

theorem runF_tidy (hname : name ∈ held) : Tidy t.pid held (t.runF name) := by
  refine tidy_call (by trivial) ?_
  rintro (e | ⟨⟩)
  · trivial
  refine tidy_call (by trivial) ?_
  intro i
  split
  · refine tidy_call (by trivial) ?_
    rintro (e | ⟨⟩)
    · trivial
    refine tidy_call (by exact ⟨rfl, by simp [hname]⟩) ?_
    intro out
    cases out.err with
    | none => trivial
    | some e => exact tidy_call (by exact ⟨rfl, by simp [hname]⟩) fun _ => trivial
  · trivial

theorem viaForce_tidy : Tidy t.pid held (t.viaForce name) := by
  refine tidy_call (by trivial) ?_
  intro made
  refine tidy_call (by trivial) ?_
  intro _
  refine tidy_call (by trivial) ?_
  rintro (_ | err)
  · cases made with
    | error e => trivial
    | ok _ =>
      refine tidy_call (by exact ⟨rfl, by simp [created]⟩) ?_
      rintro (e | ⟨⟩)
      · exact tidy_call (by trivial) fun _ => trivial
      refine tidy_bind (by exact (t.runF_tidy (by simp [created]))) ?_
      intro err grown _
      refine tidy_call (by trivial) ?_
      intro _
      refine tidy_call (by trivial) ?_
      rintro (_ | e)
      · trivial
      · exact tidy_call (by trivial) fun _ => tidy_call (by trivial) fun _ => trivial
  · exact tidy_call (by trivial) fun _ => trivial

theorem viaSelf_tidy : Tidy t.pid held (t.viaSelf name) := by
  refine tidy_bind (by exact (combinedOutputToFile_tidy _ rfl)) ?_
  intro _ _ _
  exact tidy_call (by trivial) fun _ => trivial

theorem viaTempPath_tidy : Tidy t.pid held (t.viaTempPath name) := by
  refine tidy_call (by trivial) ?_
  rintro (e | tempPath)
  · trivial
  · exact tidy_bind (by exact combinedOutputToFile_tidy _ rfl) fun _ _ _ => trivial

theorem viaJStack_tidy : Tidy t.pid held (t.viaJStack name) := by
  refine tidy_bind (by exact (combinedOutputToFile_tidy _ rfl)) ?_
  intro _ _ _
  exact tidy_call (by trivial) fun _ => trivial

theorem unlessDumped_tidy {dumped : Bool} {attempt : DumpProg Bool}
    (h : Tidy pid held attempt) : Tidy pid held (unlessDumped dumped attempt) := by
  cases dumped with
  | true => trivial
  | false => exact h

theorem javacoreRound_tidy (n : Nat) : Tidy t.pid held (t.javacoreRound n) := by
  refine tidy_bind (by exact t.viaSelf_tidy) ?_
  intro dumped₁ grown₁ _
  refine tidy_bind (by exact (unlessDumped_tidy t.viaTempPath_tidy)) ?_
  intro dumped₂ grown₂ _
  refine tidy_bind (by exact (unlessDumped_tidy t.viaJStack_tidy)) ?_
  intro dumped₃ grown₃ _
  have hforce : Tidy t.pid grown₃
      (if dumped₃ then return .finished else t.viaForce (.javacore n)) := by
    cases dumped₃ with
    | true => trivial
    | false => exact t.viaForce_tidy
  refine tidy_bind hforce ?_
  rintro (sent | _) grown₄ _
  · trivial
  · exact tidy_call (by trivial) fun _ => tidy_call (by trivial) fun _ => trivial

end JStack

theorem TopH.captureOutput_tidy (hname : name ∈ held) :
    Tidy pid held (TopH.captureOutput pid name) := by
  refine tidy_call (by trivial) ?_
  rintro (e | ⟨⟩)
  · trivial
  refine tidy_call (by exact ⟨rfl, by simp [hname]⟩) ?_
  intro out
  split
  · refine tidy_call (by trivial) ?_
    rintro (e | ⟨⟩)
    · trivial
    refine tidy_call (by exact .inl (.inl (.inl hname))) ?_
    rintro (e | ⟨⟩)
    · trivial
    refine tidy_call (by trivial) ?_
    rintro (e | ⟨⟩)
    · trivial
    exact tidy_call (by exact ⟨rfl, by simp [hname]⟩) fun _ => trivial
  · trivial

theorem TopH.run_tidy (n : Nat) : Tidy pid held (TopH.run pid n) := by
  refine tidy_call (by trivial) ?_
  rintro (_ | _)
  · trivial
  have hcapture (grown : Set DumpFile) :
      Tidy pid grown (TopH.captureToFile pid (.topdashH n)) := by
    refine tidy_call (by trivial) ?_
    rintro (e | ⟨⟩)
    · trivial
    refine tidy_bind (by exact (TopH.captureOutput_tidy (mem_created _ _))) ?_
    rintro (_ | e) _ _
    · exact tidy_call (by trivial) fun _ => trivial
    · exact tidy_call (by trivial) fun _ => trivial
  refine tidy_bind (by exact (hcapture _)) ?_
  rintro (_ | e) _ _
  · exact tidy_call (by trivial) fun _ => trivial
  · trivial

namespace JStack

variable (t : JStack)

theorem awaitJavacore_tidy (alive : Bool) (n : Nat) :
    Tidy t.pid held (t.awaitJavacore alive n) := by
  cases alive with
  | false => exact tidy_call (by trivial) fun _ => trivial
  | true =>
    refine tidy_bind (by exact (t.javacoreRound_tidy n)) ?_
    rintro (sent | _) _ _
    · exact tidy_call (by trivial) fun _ => trivial
    · exact tidy_call (by trivial) fun _ => trivial

theorem topHRound_tidy (n : Nat) : Tidy t.pid held (t.topHRound n) := by
  refine tidy_bind (by exact (TopH.run_tidy n)) ?_
  intro _ _ _
  exact tidy_call (by trivial) fun _ => tidy_call (by trivial) fun _ => trivial

theorem round_tidy (alive : Bool) (n : Nat) : Tidy t.pid held (t.round alive n) := by
  have hturn (held : Set DumpFile) : Tidy t.pid held (call .turn) := ⟨trivial, fun _ _ => trivial⟩
  have hboth : Tidy t.pid held
      (Prog.interleave (call .turn) (t.awaitJavacore alive n) (t.topHRound n)) :=
    Prog.heeds_interleave (mayTouch_grows t.pid) hturn
      (t.awaitJavacore_tidy alive n) (t.topHRound_tidy n)
  refine tidy_bind hboth ?_
  intro _ _ _
  exact tidy_call (by trivial) fun _ => trivial

theorem run_tidy : Tidy t.pid held t.run := by
  refine tidy_call (by trivial) ?_
  intro _
  refine tidy_bind (by exact (Prog.heeds_foldlM (fun alive n _ => t.round_tidy alive n) _ _ _)) ?_
  intro _ _ _
  exact tidy_call (by trivial) fun _ => trivial

end JStack

end Tidy

end YcAgent.Capture
