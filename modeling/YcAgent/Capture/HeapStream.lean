import YcAgent.Capture.Post
import YcAgent.Go.Pipe
import YcAgent.Lib.Turns

/-!
The upload of a heap dump: `HeapDump.UploadCapturedFile` encodes the dump in a
goroutine that writes into a pipe, while the HTTP client reads the other end
of it. The call, the goroutine and the goroutines of the client are programs
that take turns in any order. The client may read and close the body as it
likes, also after `PostReaderWithTimeout` has returned, which it may do at any
time. The zstd encoder is a parameter, with the contract of its `ReadFrom` and
`Close` as a field.

Each program follows a ghost state: how far the call has come, and for the
goroutine how far it has come and what it has read and written.
-/

namespace YcAgent.Capture.HeapStream

open Go Lib.Program

/-- What the reads of a file return until they end, at the end of the file or
with an error. -/
structure FileReads where
  chunks : List Bytes
  err : Option StreamError
  deriving DecidableEq, Repr

def FileReads.content (reads : FileReads) : Bytes := reads.chunks.flatten

/-- Programs that write, and learn of each write whether it failed. -/
abbrev WriterProg := Prog Bytes fun _ => Option StreamError

structure Written where
  bytes : Bytes
  failed : Bool

def Written.after (g : Written) (b : Bytes) : Option StreamError → Written
  | none => { g with bytes := g.bytes ++ b }
  | some _ => { g with failed := true }

/-- An encoder may write anything. A write never fails with `io.EOF`. -/
def writer : Ghost Bytes (fun _ => Option StreamError) Written :=
  ⟨fun _ _ => True, fun _ _ r => r ≠ some .eof, Written.after⟩

/-- `zstd.Encoder`, with what is known of it: no error it returns is `io.EOF`,
and if neither `ReadFrom` nor `Close` returns an error then the source was read
to its end, no write failed, and all that was written is a complete encoding of
what was read. -/
structure Encoder where
  State : Type
  newZstdEncoder : Except StreamError State
  readFrom : State → FileReads → WriterProg (Option StreamError × State)
  close : State → WriterProg (Option StreamError)
  encodes : Bytes → Bytes → Prop
  new_error : newZstdEncoder ≠ .error .eof
  contract : ∀ s reads, newZstdEncoder = .ok s → reads.err ≠ some .eof →
    (readFrom s reads).Follows writer ⟨[], false⟩ fun copied g =>
      copied.1 ≠ some .eof ∧ (close copied.2).Follows writer g fun closeErr g' =>
        closeErr ≠ some .eof ∧ (copied.1 = none → closeErr = none →
          reads.err = none ∧ g'.failed = false ∧ encodes reads.content g'.bytes)

structure DumpStat where
  name : String
  size : Nat

inductive HeapOp where
  -- the call
  | stat
  | seek
  | go
  | post
  | waitDone
  -- its goroutine
  | started
  | readFile
  | offer (b : Bytes)
  | await
  | closeWrite (err : Option StreamError)
  | closeDone
  -- the client, and the call when the client has returned
  | readBody (n : Nat)
  | closeRead (err : Option StreamError)

abbrev HeapOp.Reply : HeapOp → Type
  | .stat => Except IOError DumpStat
  | .seek => Option IOError
  | .post => ReaderReplies
  | .readFile => FileReads
  | .readBody _ => Except StreamError Bytes
  | .offer _ | .await => Option StreamError
  | .go | .waitDone | .started | .closeWrite _ | .closeDone | .closeRead _ => Unit

abbrev HeapProg := Prog HeapOp HeapOp.Reply

def ask (op : HeapOp) : HeapProg op.Reply := .act op .done

theorem ask_bind {β : Type} (op : HeapOp) (k : op.Reply → HeapProg β) :
    (ask op >>= k) = .act op k := rfl

def pipeWrite (b : Bytes) : HeapProg (Option StreamError) :=
  .act (.offer b) fun
    | some err => .done (some err)
    | none => ask .await

/-- `HeapDump.UploadCapturedFile`, on a file that is nil or not. -/
def uploadCapturedFile (cfg : PostConfig) (endpoint : String) (hasFile : Bool) :
    HeapProg Result := do
  if cfg.onlyCapture then return ⟨"in only capture mode", false⟩
  if !hasFile then return ⟨"file is not captured", false⟩
  match ← ask .stat with
  | .error err => return ⟨"file stat err " ++ err, false⟩
  | .ok stat =>
    if stat.size < 1 then return ⟨"skipped empty file " ++ stat.name, false⟩
    match ← ask .seek with
    | some err => return ⟨"failed seeking to beginning of heap dump file: " ++ err, false⟩
    | none =>
      ask .go
      let net ← ask .post
      ask (.closeRead (some .closedPipe))
      ask .waitDone
      let (msg, ok) := postReaderWithTimeout cfg endpoint "hd&Content-Encoding=zst" true net
      return ⟨msg, ok⟩

/-- What the goroutine of `UploadCapturedFile` does before its deferred call.
`io.Copy` leaves the copying to the encoder's `ReadFrom`. Nobody else reads the
file, so its reads are answered ahead of the writes they lead to. -/
def encodeDump (enc : Encoder) : HeapProg Unit :=
  match enc.newZstdEncoder with
  | .error err => ask (.closeWrite (some err))
  | .ok s => do
    let reads ← ask .readFile
    let copied ← (enc.readFrom s reads).interpret pipeWrite
    let closeErr ← (enc.close copied.2).interpret pipeWrite
    ask (.closeWrite (copied.1 <|> closeErr))

def encoderGoroutine (enc : Encoder) : HeapProg Unit := do
  ask .started
  encodeDump enc
  ask .closeDone

/-- What the client does with the body of its request. -/
inductive BodyOp where
  | read (n : Nat)
  | close

abbrev BodyOp.Reply : BodyOp → Type
  | .read _ => Except StreamError Bytes
  | .close => Unit

def ofBody : (op : BodyOp) → HeapProg op.Reply
  | .read n => ask (.readBody n)
  | .close => ask (.closeRead none)

structure HeapWorld where
  name : String
  content : Bytes
  offset : Nat
  spawned : Bool
  pipe : Pipe
  done : Bool

/-- The reads of the file from its offset on. -/
inductive ReadFile (w : HeapWorld) (reads : FileReads) : Prop
  | whole : reads.err = none → reads.content = w.content.drop w.offset → ReadFile w reads
  | failed {err : StreamError} : reads.err = some err → err ≠ .eof →
      reads.content <+: w.content.drop w.offset → ReadFile w reads

def Perform : (op : HeapOp) → HeapWorld → op.Reply → HeapWorld → Prop
  | .stat, w, r, w' => ((∃ err, r = .error err) ∨ r = .ok ⟨w.name, w.content.length⟩) ∧ w' = w
  | .seek, w, r, w' => (∃ err, r = some err) ∧ w' = w ∨ r = none ∧ w' = { w with offset := 0 }
  | .go, w, _, w' => w' = { w with spawned := true }
  | .post, w, _, w' => w' = w
  | .waitDone, w, _, w' => w.done = true ∧ w' = w
  | .started, w, _, w' => w.spawned = true ∧ w' = w
  | .readFile, w, reads, w' =>
    ReadFile w reads ∧ w' = { w with offset := w.offset + reads.content.length }
  | .offer b, w, r, w' => ∃ p, w.pipe.Offer b r p ∧ w' = { w with pipe := p }
  | .await, w, r, w' => ∃ p, w.pipe.Await r p ∧ w' = { w with pipe := p }
  | .closeWrite err, w, _, w' => w' = { w with pipe := w.pipe.closeWrite err }
  | .closeDone, w, _, w' => w' = { w with done := true }
  | .readBody n, w, r, w' => ∃ p, w.pipe.Read n r p ∧ w' = { w with pipe := p }
  | .closeRead err, w, _, w' => w' = { w with pipe := w.pipe.closeRead err }

inductive Role (n : Nat) where
  | call
  | encoder
  | http (k : Fin n)
  deriving DecidableEq

abbrev HeapProgs (n : Nat) := Role n → HeapProg (Option Result)

variable {n : Nat}

def upload (enc : Encoder) (cfg : PostConfig) (endpoint : String) (hasFile : Bool)
    (http : Fin n → Prog BodyOp BodyOp.Reply Unit) : HeapProgs n
  | .call => uploadCapturedFile cfg endpoint hasFile >>= fun result => .done (some result)
  | .encoder => encoderGoroutine enc >>= fun _ => .done none
  | .http k => (http k).interpret ofBody >>= fun _ => .done none

def HeapWorld.start (name : String) (content : Bytes) (offset : Nat) : HeapWorld :=
  ⟨name, content, offset, false, .empty, false⟩

inductive CallStage where
  | fresh
  | rewound
  | posting
  | closed
  | joined
  deriving DecidableEq

namespace CallStage

def spawned : CallStage → Bool
  | .fresh | .rewound => false
  | .posting | .closed | .joined => true

inductive Allowed : CallStage → HeapOp → Prop
  | stat : Allowed .fresh .stat
  | seek : Allowed .fresh .seek
  | go : Allowed .rewound .go
  | post : Allowed .posting .post
  | closeRead : Allowed .posting (.closeRead (some .closedPipe))
  | waitDone : Allowed .closed .waitDone

def after : CallStage → (op : HeapOp) → op.Reply → CallStage
  | .fresh, .seek, none => .rewound
  | .rewound, .go, _ => .posting
  | .posting, .closeRead _, _ => .closed
  | .closed, .waitDone, _ => .joined
  | stage, _, _ => stage

def ghost : Ghost HeapOp HeapOp.Reply CallStage := ⟨Allowed, fun _ _ _ => True, after⟩

/-- The stages in which the call may return. -/
def Returned (stage : CallStage) : Prop := stage = .fresh ∨ stage = .joined

end CallStage

/-- What the goroutine has read of the file, if it has, and what it has
written. -/
structure Coded where
  reads : Option FileReads
  written : Written

def Coded.start : Coded := ⟨none, ⟨[], false⟩⟩

/-- The whole file was read and its encoding was written. -/
def Coded.Complete (encodes : Bytes → Bytes → Prop) (g : Coded) : Prop :=
  ∃ reads, g.reads = some reads ∧ reads.err = none ∧ g.written.failed = false ∧
    encodes reads.content g.written.bytes

inductive EncoderStage where
  | waiting
  | encoding (g : Coded)
  | offering (g : Coded) (b : Bytes)
  | ended (g : Coded) (err : Option StreamError)
  | finished (g : Coded) (err : Option StreamError)

namespace EncoderStage

def finishes : EncoderStage → Bool
  | .finished _ _ => true
  | _ => false

def Closes (encodes : Bytes → Bytes → Prop) (g : Coded) (err : Option StreamError) : Prop :=
  err ≠ some .eof ∧ (err = none → g.Complete encodes)

inductive Allowed (encodes : Bytes → Bytes → Prop) : EncoderStage → HeapOp → Prop
  | started : Allowed encodes .waiting .started
  | readFile {written : Written} : Allowed encodes (.encoding ⟨none, written⟩) .readFile
  | offer {g : Coded} {b : Bytes} : Allowed encodes (.encoding g) (.offer b)
  | await {g : Coded} {b : Bytes} : Allowed encodes (.offering g b) .await
  | closeWrite {g : Coded} {err : Option StreamError} : Closes encodes g err →
      Allowed encodes (.encoding g) (.closeWrite err)
  | closeDone {g : Coded} {err : Option StreamError} : Allowed encodes (.ended g err) .closeDone

def possible : EncoderStage → (op : HeapOp) → op.Reply → Prop
  | _, .readFile, reads => reads.err ≠ some .eof
  | _, .offer _, r => r ≠ some .eof
  | _, .await, r => r ≠ some .eof
  | _, _, _ => True

def after : EncoderStage → (op : HeapOp) → op.Reply → EncoderStage
  | .waiting, .started, _ => .encoding .start
  | .encoding g, .readFile, reads => .encoding { g with reads := some reads }
  | .encoding g, .offer b, none => .offering g b
  | .encoding g, .offer b, some err => .encoding { g with written := g.written.after b (some err) }
  | .offering g b, .await, r => .encoding { g with written := g.written.after b r }
  | .encoding g, .closeWrite err, _ => .ended g err
  | .ended g err, .closeDone, _ => .finished g err
  | stage, _, _ => stage

def ghost (encodes : Bytes → Bytes → Prop) : Ghost HeapOp HeapOp.Reply EncoderStage :=
  ⟨Allowed encodes, possible, after⟩

def waits : EncoderStage → Bool
  | .waiting => true
  | _ => false

def coded : EncoderStage → Coded
  | .waiting => .start
  | .encoding g | .offering g _ | .ended g _ | .finished g _ => g

def offers : EncoderStage → Bool
  | .offering _ _ => true
  | _ => false

def werr : EncoderStage → Option StreamError
  | .waiting | .encoding _ | .offering _ _ => none
  | .ended _ err | .finished _ err => some (err.getD .eof)

def sent : EncoderStage → Bytes
  | .offering g b => g.written.bytes ++ b
  | stage => stage.coded.written.bytes

def Closed (encodes : Bytes → Bytes → Prop) : EncoderStage → Prop
  | .waiting | .encoding _ | .offering _ _ => True
  | .ended g err | .finished g err => Closes encodes g err

end EncoderStage

inductive BodyAllowed : HeapOp → Prop
  | read {n : Nat} : BodyAllowed (.readBody n)
  | close : BodyAllowed (.closeRead none)

def bodyGhost : Ghost HeapOp HeapOp.Reply Unit :=
  ⟨fun _ => BodyAllowed, fun _ _ _ => True, fun _ _ _ => ()⟩

theorem uploadCapturedFile_follows (cfg : PostConfig) (endpoint : String) (hasFile : Bool) :
    (uploadCapturedFile cfg endpoint hasFile).Follows CallStage.ghost .fresh
      fun _ => CallStage.Returned := by
  unfold uploadCapturedFile
  split
  · exact .inl rfl
  split
  · exact .inl rfl
  rw [ask_bind]
  refine ⟨.stat, fun stat _ => ?_⟩
  beta_reduce
  split
  · exact .inl rfl
  split
  · exact .inl rfl
  rw [ask_bind]
  refine ⟨.seek, fun seek _ => ?_⟩
  beta_reduce
  split
  · exact .inl rfl
  · exact ⟨.go, fun _ _ =>
      ⟨.post, fun _ _ => ⟨.closeRead, fun _ _ => ⟨.waitDone, fun _ _ => .inr rfl⟩⟩⟩⟩

theorem pipeWrite_follows (encodes : Bytes → Bytes → Prop) (reads : Option FileReads) (b : Bytes)
    (g : Written) (stage : EncoderStage) (_ : writer.allowed g b)
    (hstage : stage = .encoding ⟨reads, g⟩) :
    (pipeWrite b).Follows (EncoderStage.ghost encodes) stage fun r stage' =>
      writer.possible g b r ∧ stage' = .encoding ⟨reads, writer.after g b r⟩ := by
  subst hstage
  refine ⟨.offer, fun r hr => ?_⟩
  cases r with
  | some err => exact ⟨hr, rfl⟩
  | none => exact ⟨.await, fun r hr => ⟨hr, rfl⟩⟩

theorem encodeDump_follows (enc : Encoder) :
    (encodeDump enc).Follows (EncoderStage.ghost enc.encodes) (.encoding .start)
      fun _ stage => ∃ g err, stage = .ended g err := by
  have hclose (g : Coded) (err : Option StreamError)
      (hcloses : EncoderStage.Closes enc.encodes g err) :
      (ask (.closeWrite err)).Follows (EncoderStage.ghost enc.encodes) (.encoding g)
        fun _ stage => ∃ g err, stage = .ended g err :=
    ⟨.closeWrite hcloses, fun _ _ => ⟨g, err, rfl⟩⟩
  unfold encodeDump
  split
  · next err hnew =>
      apply hclose .start (some err)
      have hne := enc.new_error
      rw [hnew] at hne
      refine ⟨?_, nofun⟩
      rintro ⟨⟩
      exact hne rfl
  · next s hnew =>
      rw [ask_bind]
      refine ⟨.readFile, fun reads hreads => ?_⟩
      have hwrites := pipeWrite_follows enc.encodes (some reads)
      rw [Prog.follows_bind]
      apply ((enc.contract s reads hnew hreads).interpret _ hwrites rfl).mono
      intro copied stage hcopied
      obtain ⟨g, ⟨hcopy, hclosing⟩, rfl⟩ := hcopied
      rw [Prog.follows_bind]
      apply (hclosing.interpret _ hwrites rfl).mono
      intro closeErr stage hclosed
      obtain ⟨g', ⟨hcloseErr, hcomplete⟩, rfl⟩ := hclosed
      apply hclose ⟨some reads, g'⟩
      cases hfirst : copied.1 with
      | none => exact ⟨hcloseErr, fun hnone => ⟨reads, rfl, hcomplete hfirst hnone⟩⟩
      | some err => exact ⟨fun heq => hcopy (hfirst.trans heq), nofun⟩

theorem encoderGoroutine_follows (enc : Encoder) :
    (encoderGoroutine enc).Follows (EncoderStage.ghost enc.encodes) .waiting
      fun _ stage => stage.finishes = true := by
  refine ⟨.started, fun _ _ => ?_⟩
  change (encodeDump enc >>= fun _ => ask .closeDone).Follows (EncoderStage.ghost enc.encodes)
    (EncoderStage.encoding .start) _
  rw [Prog.follows_bind]
  apply (encodeDump_follows enc).mono
  intro _ stage hended
  obtain ⟨g, err, rfl⟩ := hended
  exact ⟨.closeDone, fun _ _ => rfl⟩

theorem ofBody_confined (op : BodyOp) : (ofBody op).Confined BodyAllowed := by
  cases op with
  | read n => exact ⟨.read, fun _ => trivial⟩
  | close => exact ⟨.close, fun _ => trivial⟩

end YcAgent.Capture.HeapStream
