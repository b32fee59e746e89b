import YcAgent.Capture.JStack
import YcAgent.Lib.Goroutines

/-!
The goroutines of `JStack.Run` and the four channels between them. The main loop
sends the number of a round to both workers and waits for an answer of each.
The thread dump worker may leave early, after which its channel is closed and
the main loop receives nil from it. The channels hold as many values as there
are rounds, and no more are ever sent, so that nobody waits for room; whoever
waits for a value waits for somebody who has a step left to take.
-/

namespace YcAgent.Capture

open Go Lib.Program

inductive DumpWay where
  | jattach
  | tempPath
  | jstack
  | jstackF
  | jhsdb
  deriving DecidableEq, Repr

/-- What the workers do: they log which attempt they make in which round, and use
files and commands. -/
inductive TdOp where
  | trying (a : DumpWay) (n : Nat)
  | file (op : DumpOp)

def TdOp.Reply : TdOp → Type
  | .trying _ _ => Unit
  | .file op => op.Reply

abbrev TdProg := Prog TdOp TdOp.Reply

def TdPerform : (op : TdOp) → DumpDir → op.Reply → DumpDir → Prop
  | .trying _ _, w, _, w' => w' = w
  | .file op, w, r, w' => DumpPerform op w r w'

def quietly {α : Type} (p : DumpProg α) : TdProg α := p.interpret fun op => .perform (.file op)

def trying (a : DumpWay) (n : Nat) : TdProg Unit := .perform (TdOp.trying a n)

namespace JStack

/-- The attempt with `jhsdb`: the error the goroutine ends with, or the file. -/
def viaJhsdb (t : JStack) (name : DumpFile) : DumpProg RoundEnd := do
  let created ← call (.create name)
  call (.setErr (match created with | .ok () => none | .error e => some e))
  match ← call .getErr with
  | some _ => return .stopped (← call .getErr)
  | none =>
  match created with
  | .error _ => return .stopped (some "invalid argument")
  | .ok () =>
  match ← call (.write t.pid name 0 fullThreadDump) with
  | .error e =>
    let _ ← call (.close name)
    return .stopped (some e)
  | .ok () =>
  let out ← call (.combinedOutput ⟨.jhsdb t.javaHome, t.pid⟩ name fullThreadDump.length)
  call (.setErr out.err)
  return .finished

/-- An attempt that is made if the variable `jstackFile` is nil. -/
def orTry (jstackFile : Bool) (a : DumpWay) (n : Nat) (attempt : DumpProg Bool) : TdProg Bool :=
  if jstackFile then pure true else do
    trying a n
    quietly attempt

/-- What has become of `jstackFile` after an attempt that may end the
goroutine. -/
inductive Forced where
  | stopped (sent : Option IOError)
  | file (notNil : Bool)

def orForce (t : JStack) (jstackFile : Bool) (n : Nat) : TdProg Forced :=
  if jstackFile then pure (.file true) else do
    trying .jstackF n
    match ← quietly (t.viaForce (.javacore n)) with
    | .stopped sent => return .stopped sent
    -- the file that was created for the attempt stays
    | .finished => return .file true

def orJhsdb (t : JStack) (jstackFile : Bool) (n : Nat) : TdProg RoundEnd :=
  if jstackFile then pure .finished else do
    trying .jhsdb n
    quietly (t.viaJhsdb (.javacore n))

def closeRound (n : Nat) : DumpProg RoundEnd := do
  let _ ← call (.sync (.javacore n))
  let _ ← call (.close (.javacore n))
  return .finished

/-- A round of the thread dump worker, with all of its attempts. -/
def dumpRound (t : JStack) (n : Nat) : TdProg RoundEnd := do
  let name := DumpFile.javacore n
  let jstackFile ← orTry false .jattach n (t.viaSelf name)
  let jstackFile ← orTry jstackFile .tempPath n (t.viaTempPath name)
  let jstackFile ← orTry jstackFile .jstack n (t.viaJStack name)
  match ← t.orForce jstackFile n with
  | .stopped sent => return .stopped sent
  | .file jstackFile =>
    match ← t.orJhsdb jstackFile n with
    | .stopped sent => return .stopped sent
    | .finished => quietly (closeRound n)

def erase : (op : TdOp) → DumpProg op.Reply
  | .trying _ _ => .done ()
  | .file op => call op

theorem quietly_erase {α : Type} (p : DumpProg α) : (quietly p).interpret erase = p := by
  induction p with
  | done a => rfl
  | act op next ih => exact congrArg (Prog.act op) (funext ih)

theorem orTry_erase (jstackFile : Bool) (a : DumpWay) (n : Nat) (attempt : DumpProg Bool) :
    (orTry jstackFile a n attempt).interpret erase = unlessDumped jstackFile attempt := by
  cases jstackFile with
  | true => rfl
  | false => exact quietly_erase attempt

/-- The log lines and the attempt that is never made left out, this is the round
as it uses the files. -/
theorem dumpRound_erase (t : JStack) (n : Nat) :
    (t.dumpRound n).interpret erase = t.javacoreRound n := by
  have hend : (quietly (closeRound n)).interpret erase = closeRound n := quietly_erase _
  unfold dumpRound javacoreRound
  rw [Prog.interpret_bind, orTry_erase]
  congr 1
  funext dumped₁
  rw [Prog.interpret_bind, orTry_erase]
  congr 1
  funext dumped₂
  rw [Prog.interpret_bind, orTry_erase]
  congr 1
  funext dumped₃
  cases dumped₃ with
  | true => exact hend
  | false =>
    unfold orForce
    simp only [Bool.false_eq_true, if_false, Prog.interpret_bind, Prog.bind_assoc, quietly_erase]
    apply congrArg (Prog.bind (t.viaForce (.javacore n)))
    funext out
    cases out with
    | stopped sent => rfl
    | finished => exact hend

end JStack

/-- The first worker takes thread dumps, the second runs `top -H`. -/
inductive Lane where
  | one
  | two
  deriving DecidableEq, Repr

/-- The channels `b1` and `b2` with the rounds, `e1` and `e2` with the answers. -/
inductive JChan where
  | b (l : Lane)
  | e (l : Lane)
  deriving DecidableEq, Repr

abbrev JVal : JChan → Type
  | .b _ => Nat
  | .e _ => Option IOError

inductive JWho where
  | main
  | worker (l : Lane)
  deriving DecidableEq, Repr

abbrev JOp := ChanOp JVal TdOp
abbrev JReply : JOp → Type := ChanOp.Answer TdOp.Reply
abbrev JProg := Prog JOp JReply
abbrev JMachine := Machine JWho JOp JReply (ChanState JVal DumpDir)

def sendTo (c : JChan) (v : JVal c) : JProg Unit := .perform (ChanOp.send c v)

def receive (c : JChan) : JProg (Option (JVal c)) := .perform (ChanOp.recv c)

def closeChan (c : JChan) : JProg Unit := .perform (ChanOp.close c)

/-- What a worker sends after a round, and whether it goes on. -/
structure Report where
  value : Option IOError
  goOn : Bool

namespace JStack

def laneRound (t : JStack) : Lane → Nat → TdProg Report
  | .one, n => do
    match ← t.dumpRound n with
    | .stopped sent => return ⟨sent, false⟩
    | .finished => return ⟨none, true⟩
  | .two, n => do
    let sent ← quietly (t.topHRound n)
    return ⟨sent, true⟩

def leave (l : Lane) : JProg Bool := do
  closeChan (.e l)
  return false

def answer (l : Lane) (r : Report) : JProg Bool := do
  sendTo (.e l) r.value
  if r.goOn then return true else leave l

/-- A pass of the loop of a worker. -/
def workerLoop (t : JStack) (l : Lane) : JProg Bool := do
  match ← receive (.b l) with
  | none => leave l
  | some n => (t.laneRound l n).local >>= answer l

/-- The main loop's receipt of an answer, which is nil if the channel is
closed. -/
def await (l : Lane) (rest : JProg Bool) : JProg Bool := do
  let err : Option (Option IOError) ← receive (.e l)
  (quietly (call (.setErr (err.getD none)))).local
  rest

/-- The main loop, and the closing of the channels when it is left. -/
def mainLoop : List Nat → JProg Bool
  | [] => do
    closeChan (.b .one)
    closeChan (.b .two)
    return false
  | n :: ns => do
    sendTo (.b .two) n
    sendTo (.b .one) n
    await .one (await .two (mainLoop ns))

def start (t : JStack) (w : DumpDir) : JMachine where
  routines
    | .main => ⟨.done false, mainLoop (List.range' 1 t.count)⟩
    | .worker l => ⟨t.workerLoop l, t.workerLoop l⟩
  world := ⟨fun _ => [], fun _ => false, { w with err := none }⟩
  log := []

/-- The channels have room for one value per round. -/
def perform (t : JStack) : (op : JOp) → ChanState JVal DumpDir → JReply op →
    ChanState JVal DumpDir → Prop :=
  ChanPerform (fun _ => t.count) TdPerform

end JStack

end YcAgent.Capture
