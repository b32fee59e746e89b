import YcAgent.Go.Stream

/-!
The pipe of Go's `io` package: a writer and a reader that meet without a
buffer, either of which may close it with an error. `Write` is two steps, the
offer of its bytes and the wait until they are taken or the pipe is closed.
-/

namespace YcAgent.Go

inductive StreamError where
  | eof
  | closedPipe
  | failed (text : String)
  deriving DecidableEq, Repr

structure Pipe where
  /-- What a `Write` that has not returned still offers. -/
  offered : Option Bytes
  rerr : Option StreamError
  werr : Option StreamError
  /-- What the reads have returned so far. -/
  received : Bytes
  deriving DecidableEq, Repr

namespace Pipe

def empty : Pipe := ⟨none, none, none, []⟩

def closed (p : Pipe) : Bool := p.rerr.isSome || p.werr.isSome

def readCloseError (p : Pipe) : StreamError :=
  match p.rerr, p.werr with
  | none, some werr => werr
  | _, _ => .closedPipe

def writeCloseError (p : Pipe) : StreamError :=
  match p.werr, p.rerr with
  | none, some rerr => rerr
  | _, _ => .closedPipe

/-- `PipeReader.CloseWithError`. The first error stays. -/
def closeRead (p : Pipe) (err : Option StreamError) : Pipe :=
  { p with rerr := p.rerr <|> some (err.getD .closedPipe) }

/-- `PipeWriter.CloseWithError`. The first error stays. -/
def closeWrite (p : Pipe) (err : Option StreamError) : Pipe :=
  { p with werr := p.werr <|> some (err.getD .eof) }

/-- A read of at most `n` bytes meets a `Write` that offers `b`. -/
def take (p : Pipe) (n : Nat) (b : Bytes) : Pipe :=
  { p with
    offered := if (b.drop n).isEmpty then none else some (b.drop n)
    received := p.received ++ b.take n }

/-- `PipeReader.Read` returns. On a closed pipe it may still meet a `Write`
that has not noticed. -/
inductive Read (p : Pipe) (n : Nat) : Except StreamError Bytes → Pipe → Prop
  | data {b : Bytes} : p.offered = some b → Read p n (.ok (b.take n)) (p.take n b)
  | closed : p.closed = true → Read p n (.error p.readCloseError) p

inductive Offer (p : Pipe) (b : Bytes) : Option StreamError → Pipe → Prop
  | offered : p.closed = false → Offer p b none { p with offered := some b }
  | closed : p.closed = true → Offer p b (some p.writeCloseError) p

inductive Await (p : Pipe) : Option StreamError → Pipe → Prop
  | taken : p.offered = none → Await p none p
  | closed : p.offered ≠ none → p.closed = true →
      Await p (some p.writeCloseError) { p with offered := none }

variable {p p' : Pipe} {n : Nat}

theorem take_received {b : Bytes} (hoffered : p.offered = some b) :
    (p.take n b).received ++ (p.take n b).offered.getD [] = p.received ++ p.offered.getD [] := by
  rw [hoffered]
  by_cases hrest : b.drop n = []
  · have hall : b.take n = b := List.take_of_length_le (List.drop_eq_nil_iff.1 hrest)
    simp [take, hrest, hall]
  · simp [take, hrest]

theorem exists_offer (p : Pipe) (b : Bytes) : ∃ r p', Offer p b r p' := by
  cases hclosed : p.closed with
  | false => exact ⟨_, _, .offered hclosed⟩
  | true => exact ⟨_, _, .closed hclosed⟩

theorem exists_await_of_closed (hclosed : p.closed = true) : ∃ r p', Await p r p' := by
  cases hoffered : p.offered with
  | none => exact ⟨_, _, .taken hoffered⟩
  | some b => exact ⟨_, _, .closed (by simp [hoffered]) hclosed⟩

theorem Read.error_of_idle {r : Except StreamError Bytes} (hread : Read p n r p')
    (hidle : p.offered = none) : ∃ err, r = .error err := by
  cases hread with
  | data hoffered =>
    rw [hidle] at hoffered
    cases hoffered
  | closed _ => exact ⟨_, rfl⟩

/-- A read ends in `io.EOF` only if that is what the writer closed with. -/
theorem Read.eof_werr (hread : Read p n (.error .eof) p') : p.werr = some .eof := by
  generalize hreply : (Except.error .eof : Except StreamError Bytes) = reply at hread
  cases hread with
  | data hoffered => cases hreply
  | closed hclosed =>
    injection hreply with herr
    unfold readCloseError at herr
    split at herr
    · next hrerr hwerr => rw [hwerr, herr]
    · cases herr

theorem closeRead_rerr (p : Pipe) (err : Option StreamError) : (p.closeRead err).rerr ≠ none := by
  cases herr : p.rerr <;> simp [closeRead, herr]

theorem closeRead_rerr_ne_eof (hrerr : p.rerr ≠ some .eof) {err : Option StreamError}
    (herr : err = none ∨ err = some .closedPipe) : (p.closeRead err).rerr ≠ some .eof := by
  cases hold : p.rerr with
  | none => rcases herr with rfl | rfl <;> simp [closeRead, hold]
  | some old =>
    rw [hold] at hrerr
    simpa [closeRead, hold] using hrerr

theorem writeCloseError_ne_eof (hrerr : p.rerr ≠ some .eof) : p.writeCloseError ≠ .eof := by
  intro heq
  unfold writeCloseError at heq
  split at heq
  · next hold =>
      subst heq
      exact hrerr hold
  · cases heq

end Pipe

end YcAgent.Go
