import YcAgent.Capture.NodeToken
import YcAgent.Go.Bufio

/-!
A call of the Node.js hook, with the connection it is made over. The peer may
send any bytes. `callOnce` reads lines up to a limit that all of them share, and
takes the first one whose id is that of its request or which has none; lines
with another id are skipped. The JSON of requests and responses is a parameter.
-/

namespace YcAgent.Capture

open Go Lib.Lines Lib.Program

def maxNodeResponseBytes : Nat := 2 ^ 20

/-- `nodeResponse`. An id that is missing or null decodes to the empty string. -/
structure HookResponse where
  id : String
  ok : Bool
  error : String
  result : Bytes
  deriving DecidableEq

def HookResponse.unauthorized (resp : HookResponse) : Bool :=
  !resp.ok && resp.error == "unauthorized"

structure HookRequest (Params : Type) where
  id : String
  method : String
  params : Params
  token : Bytes

/-- `json.Marshal` of a request and `json.Unmarshal` of a response. -/
structure HookCodec (Params : Type) where
  marshal : HookRequest Params → Except String Bytes
  unmarshal : Bytes → Except String HookResponse

def nodeRequestID (method : String) (n : Nat) : String := "yc-" ++ method ++ "-" ++ toString n

theorem nodeRequestID_ne_empty (method : String) (n : Nat) : nodeRequestID method n ≠ "" := by
  intro h
  have hlength := congrArg String.length h
  simp [nodeRequestID] at hlength

/-- What a call asks of its surroundings. A connection is dialled with all that
the peer is going to send over it, and closed with what is left of that. -/
inductive HookOp (Params : Type) where
  | nodeToken (runtimeDir : Path)
  | invalidateNodeToken
  | dialNodePipe (path : Path)
  | nodeReqCounter
  | write (conn : Conn) (req : HookRequest Params) (line : Bytes)
  | close (conn : Conn)

def HookOp.Reply {Params : Type} : HookOp Params → Type
  | .nodeToken _ => Except String Bytes
  | .invalidateNodeToken => Unit
  | .dialNodePipe _ => Except String Conn
  | .nodeReqCounter => Nat
  | .write _ _ _ => Option String
  | .close _ => Unit

abbrev HookProg (Params : Type) := Prog (HookOp Params) HookOp.Reply

structure HookResult where
  resp : Option HookResponse
  err : Option NodeError
  deriving DecidableEq

def HookResult.accept (resp : HookResponse) : HookResult :=
  if resp.unauthorized then ⟨some resp, some .unauthorized⟩ else ⟨some resp, none⟩

def HookResult.failure (text : String) : HookResult := ⟨none, some (.failed text)⟩

def HookResult.ofExchange : Except String HookResponse → HookResult
  | .error err => .failure err
  | .ok resp => .accept resp

def HookResponse.outcome (resp : HookResponse) : NodeResponse := ⟨resp.ok, resp.error⟩

def HookResult.outcome (out : HookResult) : NodeResult :=
  ⟨out.resp.map HookResponse.outcome, out.err⟩

theorem HookResult.accept_resp (resp : HookResponse) : (accept resp).resp = some resp := by
  unfold accept
  split
  · rfl
  · rfl

theorem HookResult.accept_injective {resp other : HookResponse} (h : accept resp = accept other) :
    resp = other := by
  have hresp := congrArg HookResult.resp h
  rw [accept_resp, accept_resp] at hresp
  exact Option.some.inj hresp

theorem HookResult.failure_ne_accept (text : String) (resp : HookResponse) :
    failure text ≠ accept resp := by
  intro h
  have hresp := congrArg HookResult.resp h
  rw [accept_resp] at hresp
  cases hresp

theorem HookResult.accept_err (resp : HookResponse) :
    (accept resp).err = some .unauthorized ↔ resp.unauthorized = true := by
  unfold accept
  split
  · next h => exact iff_of_true rfl h
  · next h => exact iff_of_false (by simp) h

variable {Params : Type}

def askHook (op : HookOp Params) : HookProg Params op.Reply := .perform op

/-- A line to be ignored: the answer to another request. -/
def HookResponse.mismatches (resp : HookResponse) (reqID : String) : Bool :=
  resp.id ≠ "" && resp.id ≠ reqID

namespace NodeHook

/-- The loop of `callOnce` over the response lines. -/
def readResponse (codec : HookCodec Params) (c : NodeHookClient) (method reqID : String)
    (r : BufReader) : Except String HookResponse × BufReader :=
  let pid := c.pid
  match _hread : r.readBytes with
  | (respLine, err, r') =>
    if maxNodeResponseBytes < respLine.length then
      (.error (s!"node {method} response pid={pid} exceeded the " ++
        s!"{maxNodeResponseBytes}-byte cap without newline framing"), r')
    else
      match _herr : err with
      | some err => (.error s!"failed reading node {method} response pid={pid}: {err}", r')
      | none =>
        if respLine.length = 0 then readResponse codec c method reqID r'
        else
          match codec.unmarshal respLine with
          | .error err =>
            (.error s!"node {method} response is not valid JSON pid={pid}: {err}", r')
          | .ok resp =>
            if resp.mismatches reqID then readResponse codec c method reqID r'
            else (.ok resp, r')
termination_by r.rest.length
decreasing_by
  · exact BufReader.rest_length_lt _hread
  · exact BufReader.rest_length_lt _hread

/-- The part of `callOnce` that has a connection: the request, identified by the
next number, and the response to it. -/
def exchange (codec : HookCodec Params) (c : NodeHookClient) (method : String) (params : Params)
    (token : Bytes) : HookProg Params (Except String HookResponse) := do
  let pid := c.pid
  let path := c.pipePath
  match ← askHook (.dialNodePipe path) with
  | .error err => return .error s!"failed connecting to node hook pid={pid} at {path}: {err}"
  | .ok conn =>
    let reqID := nodeRequestID method (← askHook .nodeReqCounter)
    let req : HookRequest Params := ⟨reqID, method, params, token⟩
    match codec.marshal req with
    | .error err =>
      askHook (.close conn)
      return .error s!"failed encoding node {method} request: {err}"
    | .ok line =>
      match ← askHook (.write conn req (line ++ [newline])) with
      | some err =>
        askHook (.close conn)
        return .error s!"failed sending node {method} request pid={pid}: {err}"
      | none =>
        let (resp, reader) :=
          readResponse codec c method reqID (newReader ⟨conn, maxNodeResponseBytes + 1⟩)
        askHook (.close reader.src.conn)
        return resp

def callOnce (codec : HookCodec Params) (c : NodeHookClient) (method : String) (params : Params) :
    HookProg Params HookResult := do
  match ← askHook (.nodeToken c.runtimeDir) with
  | .error err => return .failure err
  | .ok token =>
    return .ofExchange (← exchange codec c method params token)

def call (codec : HookCodec Params) (c : NodeHookClient) (method : String) (params : Params) :
    HookProg Params HookResult := do
  let out ← callOnce codec c method params
  if out.err = some .unauthorized then
    askHook .invalidateNodeToken
    callOnce codec c method params
  else return out

section Requests

variable {codec : HookCodec Params} {c : NodeHookClient} {method : String} {params : Params}

/-- A request, as the calls that share the token see it, is an exchange. -/
def handle (codec : HookCodec Params) (params : Params) : (op : NodeOp) → HookProg Params op.Reply
  | .nodeToken dir => askHook (.nodeToken dir)
  | .invalidateNodeToken => askHook .invalidateNodeToken
  | .request client method token => do
    return (← exchange codec client method params token).map HookResponse.outcome

theorem callOnce_interpret : (c.callOnce method).interpret (handle codec params) =
    (callOnce codec c method params >>= fun out => pure out.outcome) := by
  apply congrArg (Prog.act (HookOp.nodeToken c.runtimeDir))
  funext token
  cases token with
  | error err => rfl
  | ok token =>
    refine (Prog.bind_assoc (exchange codec c method params token) _ _).trans
      (Eq.trans ?_ (Prog.bind_assoc (exchange codec c method params token) _ _).symm)
    apply congrArg (Prog.bind (exchange codec c method params token))
    funext got
    cases got with
    | error err => rfl
    | ok resp =>
      change Prog.interpret _ (if resp.unauthorized = true then _ else _) =
        Prog.done (HookResult.outcome (if resp.unauthorized = true then _ else _))
      split
      · rfl
      · rfl

theorem call_interpret : (c.call method).interpret (handle codec params) =
    (call codec c method params >>= fun out => pure out.outcome) := by
  rw [NodeHookClient.call, Prog.interpret_bind, callOnce_interpret, call, Prog.bind_assoc,
    Prog.bind_assoc]
  congr 1
  funext out
  change Prog.interpret _ (if out.err = some .unauthorized then _ else _) = _
  split
  · exact congrArg (Prog.act HookOp.invalidateNodeToken) (funext fun _ => callOnce_interpret)
  · rfl

end Requests

section Answers

variable {codec : HookCodec Params} {c : NodeHookClient} {method reqID : String}
variable {resp : HookResponse} {bytes : Bytes}

def Skips (codec : HookCodec Params) (reqID : String) (line : Line newline) : Prop :=
  ∃ other, codec.unmarshal line.text = .ok other ∧ other.id ≠ "" ∧ other.id ≠ reqID

def Gives (codec : HookCodec Params) (reqID : String) (line : Line newline)
    (resp : HookResponse) : Prop :=
  line.text.length ≤ maxNodeResponseBytes ∧ codec.unmarshal line.text = .ok resp ∧
    (resp.id = "" ∨ resp.id = reqID)

/-- `resp` is what the first line says that is not the response to another
request, if that line ends within the limit. -/
def Answers (codec : HookCodec Params) (reqID : String) (bytes : Bytes)
    (resp : HookResponse) : Prop :=
  ∃ (before : List (Line newline)) (line : Line newline),
    joinLines before ++ line.text <+: bytes ∧
    (joinLines before ++ line.text).length ≤ maxNodeResponseBytes + 1 ∧
    Gives codec reqID line resp ∧ ∀ other ∈ before, Skips codec reqID other

def firstAnswer (codec : HookCodec Params) (reqID : String) :
    List (Line newline) → Option HookResponse
  | [] => none
  | line :: lines =>
    if maxNodeResponseBytes < line.text.length then none
    else
      match codec.unmarshal line.text with
      | .error _ => none
      | .ok resp => if resp.mismatches reqID then firstAnswer codec reqID lines else some resp

theorem mismatches_iff : resp.mismatches reqID = true ↔ resp.id ≠ "" ∧ resp.id ≠ reqID := by
  simp [HookResponse.mismatches]

theorem not_mismatches_iff : resp.mismatches reqID = false ↔ resp.id = "" ∨ resp.id = reqID := by
  rw [← Bool.not_eq_true, mismatches_iff]
  tauto

theorem firstAnswer_of_gives {line : Line newline} (h : Gives codec reqID line resp)
    (lines : List (Line newline)) : firstAnswer codec reqID (line :: lines) = some resp := by
  obtain ⟨hshort, hdecode, hid⟩ := h
  simp only [firstAnswer, Nat.not_lt.mpr hshort, hdecode, not_mismatches_iff.mpr hid, if_false,
    Bool.false_eq_true]

theorem firstAnswer_of_skips {line : Line newline} (h : Skips codec reqID line)
    (hshort : line.text.length ≤ maxNodeResponseBytes) (lines : List (Line newline)) :
    firstAnswer codec reqID (line :: lines) = firstAnswer codec reqID lines := by
  obtain ⟨other, hdecode, hid⟩ := h
  simp only [firstAnswer, Nat.not_lt.mpr hshort, hdecode, mismatches_iff.mpr hid, if_false, if_true]

theorem firstAnswer_eq_some_iff {lines : List (Line newline)} :
    firstAnswer codec reqID lines = some resp ↔
      ∃ before line after, lines = before ++ line :: after ∧ Gives codec reqID line resp ∧
        ∀ other ∈ before, Skips codec reqID other ∧ other.text.length ≤ maxNodeResponseBytes := by
  constructor
  · intro h
    induction lines with
    | nil => cases h
    | cons line lines ih =>
      simp only [firstAnswer] at h
      split at h
      · cases h
      · next hshort =>
          rw [Nat.not_lt] at hshort
          split at h
          · cases h
          · next got hdecode =>
              split at h
              · next hskip =>
                  obtain ⟨before, last, after, rfl, hlast, hbefore⟩ := ih h
                  refine ⟨line :: before, last, after, rfl, hlast, ?_⟩
                  intro other hother
                  rcases List.mem_cons.mp hother with rfl | hother
                  · exact ⟨⟨got, hdecode, mismatches_iff.mp hskip⟩, hshort⟩
                  · exact hbefore other hother
              · next hmatch =>
                  cases h
                  have hid := not_mismatches_iff.mp (Bool.not_eq_true _ ▸ hmatch)
                  exact ⟨[], line, lines, rfl, ⟨hshort, hdecode, hid⟩, by simp⟩
  · rintro ⟨before, line, after, rfl, hline, hbefore⟩
    induction before with
    | nil => exact firstAnswer_of_gives hline after
    | cons other before ih =>
      obtain ⟨hskips, hshort⟩ := hbefore other List.mem_cons_self
      rw [List.cons_append, firstAnswer_of_skips hskips hshort]
      exact ih fun l hl => hbefore l (List.mem_cons_of_mem _ hl)

/-- Whether a response is an answer depends on the bytes within the limit
only. -/
theorem answers_iff : Answers codec reqID bytes resp ↔
    firstAnswer codec reqID (splitLines newline (bytes.take (maxNodeResponseBytes + 1))).1 =
      some resp := by
  rw [firstAnswer_eq_some_iff]
  constructor
  · rintro ⟨before, line, hfront, hlength, hline, hbefore⟩
    have htake := List.prefix_take_iff.mpr ⟨hfront, hlength⟩
    obtain ⟨rest, hrest⟩ := htake
    refine ⟨before, line, (splitLines newline rest).1, ?_, hline, ?_⟩
    · have hjoin : joinLines before ++ line.text = joinLines (before ++ [line]) := by
        rw [joinLines_append, joinLines_cons, joinLines_nil, List.append_nil]
      rw [← hrest, hjoin, splitLines_join_append, List.append_assoc, List.singleton_append]
    · intro other hother
      refine ⟨hbefore other hother, ?_⟩
      have hle := text_length_le_joinLines hother
      rw [List.length_append, line.text_length] at hlength
      omega
  · rintro ⟨before, line, after, hlines, hline, hbefore⟩
    have hjoin := splitLines_join newline (bytes.take (maxNodeResponseBytes + 1))
    rw [hlines] at hjoin
    have hfront : joinLines before ++ line.text <+: bytes.take (maxNodeResponseBytes + 1) := by
      rw [← hjoin]
      simp [joinLines_append, joinLines_cons]
    obtain ⟨hfront, hlength⟩ := List.prefix_take_iff.mp hfront
    exact ⟨before, line, hfront, hlength, hline, fun other hother => (hbefore other hother).1⟩

/-- A read that gets a line gets the first one that is left. -/
theorem readBytes_lines {r r' : BufReader} {data : Bytes} {err : Option String}
    (h : r.readBytes = (data, err, r')) :
    BufReader.Took r r' ∧
      ((err ≠ none ∧ (splitLines newline r.rest).1 = []) ∨
        err = none ∧ ∃ line : Line newline, data = line.text ∧
          (splitLines newline r.rest).1 = line :: (splitLines newline r'.rest).1) := by
  rcases r.readBytes_cases with ⟨hfree, _, herr, htook⟩ | ⟨line, hrest, hdata, herr, _, htook⟩
  · rw [h] at herr htook
    refine ⟨htook, .inl ⟨?_, by rw [splitLines_of_free hfree]⟩⟩
    rw [show err = _ from herr]
    exact Option.some_ne_none _
  · rw [h] at hdata herr hrest htook
    exact ⟨htook, .inr ⟨herr, line, hdata, by rw [hrest, splitLines_text]⟩⟩

theorem Answers.unique {other : HookResponse} (h : Answers codec reqID bytes resp)
    (hother : Answers codec reqID bytes other) : resp = other := by
  rw [answers_iff] at h hother
  rw [h] at hother
  exact Option.some.inj hother

/-- The loop takes the first answer, and no more of the connection than its
limit. -/
theorem readResponse_spec (codec : HookCodec Params) (c : NodeHookClient) (method reqID : String)
    (r : BufReader) :
    (readResponse codec c method reqID r).1.toOption =
      firstAnswer codec reqID (splitLines newline r.rest).1 ∧
    BufReader.Took r (readResponse codec c method reqID r).2 := by
  fun_induction readResponse codec c method reqID r with
  | case1 r pid data err r' hread hlong =>
    obtain ⟨htook, ⟨_, hlines⟩ | ⟨_, line, rfl, hlines⟩⟩ := readBytes_lines hread
    · exact ⟨by rw [hlines]; rfl, htook⟩
    · refine ⟨?_, htook⟩
      rw [hlines, firstAnswer, if_pos hlong]
      rfl
  | case2 r pid data r' hlong err hread =>
    obtain ⟨htook, ⟨_, hlines⟩ | ⟨hnone, _⟩⟩ := readBytes_lines hread
    · exact ⟨by rw [hlines]; rfl, htook⟩
    · cases hnone
  | case3 r data r' hlong hread hempty _ ih =>
    obtain ⟨htook, ⟨hnone, _⟩ | ⟨_, line, rfl, hlines⟩⟩ := readBytes_lines hread
    · exact absurd rfl hnone
    · rw [Line.text_length] at hempty
      omega
  | case4 r pid data r' hlong hread hempty err hdecode =>
    obtain ⟨htook, ⟨hnone, _⟩ | ⟨_, line, rfl, hlines⟩⟩ := readBytes_lines hread
    · exact absurd rfl hnone
    · refine ⟨?_, htook⟩
      simp only [hlines, firstAnswer, hlong, hdecode, if_false]
      rfl
  | case5 r data r' hlong hread hempty resp hdecode hskip _ ih =>
    obtain ⟨htook, ⟨hnone, _⟩ | ⟨_, line, rfl, hlines⟩⟩ := readBytes_lines hread
    · exact absurd rfl hnone
    · refine ⟨?_, htook.trans ih.2⟩
      simp only [hlines, firstAnswer, hlong, hdecode, hskip, if_false, if_true]
      exact ih.1
  | case6 r data r' hlong hread hempty resp hdecode hskip =>
    obtain ⟨htook, ⟨hnone, _⟩ | ⟨_, line, rfl, hlines⟩⟩ := readBytes_lines hread
    · exact absurd rfl hnone
    · refine ⟨?_, htook⟩
      simp only [hlines, firstAnswer, hlong, hdecode, hskip, if_false]
      rfl

end Answers

section Calls

variable {World : Type} {perform : (op : HookOp Params) → World → op.Reply → World → Prop}
variable {codec : HookCodec Params} {c : NodeHookClient} {method : String} {params : Params}
variable {w w' : World} {trace : Trace (HookOp Params) HookOp.Reply World}

def sentIn (trace : Trace (HookOp Params) HookOp.Reply World) :
    List (Conn × HookRequest Params) :=
  trace.filterMap fun
    | ⟨_, .write conn req _, none⟩ => some (conn, req)
    | _ => none

def closedIn (trace : Trace (HookOp Params) HookOp.Reply World) : List Conn :=
  trace.filterMap fun
    | ⟨_, .close conn, _⟩ => some conn
    | _ => none

theorem readResponse_ok_iff (codec : HookCodec Params) (c : NodeHookClient)
    (method reqID : String) (conn : Conn) (resp : HookResponse) :
    (readResponse codec c method reqID (newReader ⟨conn, maxNodeResponseBytes + 1⟩)).1 = .ok resp ↔
      Answers codec reqID conn.bytes resp := by
  rw [answers_iff]
  obtain ⟨hanswer, _⟩ :=
    readResponse_spec codec c method reqID (newReader ⟨conn, maxNodeResponseBytes + 1⟩)
  have hrest : (newReader ⟨conn, maxNodeResponseBytes + 1⟩).rest =
      conn.bytes.take (maxNodeResponseBytes + 1) := rfl
  rw [hrest] at hanswer
  rw [← hanswer]
  cases (readResponse codec c method reqID (newReader ⟨conn, maxNodeResponseBytes + 1⟩)).1 with
  | error err => simp [Except.toOption]
  | ok got => simp [Except.toOption]

theorem exchange_runs {token : Bytes} {out : Except String HookResponse}
    (h : Runs perform (exchange codec c method params token) w trace out w') :
    (sentIn trace = [] ∧ ∃ text, out = .error text) ∨
      ∃ conn req left, sentIn trace = [(conn, req)] ∧ closedIn trace = [left] ∧ req.id ≠ "" ∧
        (∃ taken, conn.bytes = taken ++ left.bytes ∧ taken.length ≤ maxNodeResponseBytes + 1) ∧
        ∀ resp, out = .ok resp ↔ Answers codec req.id conn.bytes resp := by
  simp only [exchange, askHook, Prog.perform_bind, Prog.pure_eq] at h
  obtain ⟨dialled, w₁, trace₁, _, rfl, h₁⟩ := h.of_act
  cases dialled with
  | error err =>
    obtain ⟨rfl, rfl, _⟩ := h₁.of_done
    exact .inl ⟨rfl, _, rfl⟩
  | ok conn =>
    obtain ⟨n, w₂, trace₂, _, rfl, h₂⟩ := h₁.of_act
    split at h₂
    · obtain ⟨_, w₃, trace₃, _, rfl, h₃⟩ := h₂.of_act
      obtain ⟨rfl, rfl, _⟩ := h₃.of_done
      exact .inl ⟨rfl, _, rfl⟩
    · next line _ =>
        obtain ⟨written, w₃, trace₃, _, rfl, h₃⟩ := h₂.of_act
        cases written with
        | some err =>
          obtain ⟨_, w₄, trace₄, _, rfl, h₄⟩ := h₃.of_act
          obtain ⟨rfl, rfl, _⟩ := h₄.of_done
          exact .inl ⟨rfl, _, rfl⟩
        | none =>
          obtain ⟨_, w₄, trace₄, _, rfl, h₄⟩ := h₃.of_act
          obtain ⟨rfl, rfl, _⟩ := h₄.of_done
          obtain ⟨_, taken, htaken, hlimit⟩ := readResponse_spec codec c method
            (nodeRequestID method n) (newReader ⟨conn, maxNodeResponseBytes + 1⟩)
          refine .inr ⟨conn, _, _, rfl, rfl, nodeRequestID_ne_empty method n,
            ⟨taken, htaken, ?_⟩, readResponse_ok_iff codec c method _ conn⟩
          exact Nat.le.intro hlimit

/-- What a single call comes to: nothing was sent, or the answer to what was
sent is returned. -/
inductive Outcome (codec : HookCodec Params) :
    List (Conn × HookRequest Params) → HookResult → Prop
  | unsent (text : String) : Outcome codec [] (.failure text)
  | answered {conn req resp} : req.id ≠ "" → Answers codec req.id conn.bytes resp →
      Outcome codec [(conn, req)] (.accept resp)
  | unanswered {conn req} (text : String) : (∀ resp, ¬Answers codec req.id conn.bytes resp) →
      Outcome codec [(conn, req)] (.failure text)

theorem Outcome.accept_iff {sent : List (Conn × HookRequest Params)} {out : HookResult}
    (h : Outcome codec sent out) :
    (sent = [] ∧ ∃ text, out = .failure text) ∨
      ∃ conn req, sent = [(conn, req)] ∧
        (∀ resp, out = .accept resp ↔ Answers codec req.id conn.bytes resp) ∧
        ((∃ resp, Answers codec req.id conn.bytes resp) ∨ ∃ text, out = .failure text) := by
  cases h with
  | unsent text => exact .inl ⟨rfl, text, rfl⟩
  | @answered conn req resp _ hanswers =>
    refine .inr ⟨conn, req, rfl, fun other => ⟨?_, ?_⟩, .inl ⟨resp, hanswers⟩⟩
    · intro heq
      rw [← HookResult.accept_injective heq]
      exact hanswers
    · intro hother
      rw [hanswers.unique hother]
  | @unanswered conn req text hnone =>
    refine .inr ⟨conn, req, rfl, fun other => ?_, .inr ⟨text, rfl⟩⟩
    exact iff_of_false (HookResult.failure_ne_accept text other) (hnone other)

/-- The connection of a request that was sent was closed, and the bytes taken
from it before that are within the limit. -/
def Frugal (trace : Trace (HookOp Params) HookOp.Reply World) : Prop :=
  ∀ sent ∈ sentIn trace, ∃ left taken, closedIn trace = [left] ∧
    sent.1.bytes = taken ++ left.bytes ∧ taken.length ≤ maxNodeResponseBytes + 1

theorem callOnce_runs {out : HookResult}
    (h : Runs perform (callOnce codec c method params) w trace out w') :
    Outcome codec (sentIn trace) out ∧ Frugal trace := by
  obtain ⟨token, w₁, trace₁, _, rfl, h₁⟩ := Runs.of_act h
  cases token with
  | error err =>
    obtain ⟨rfl, rfl, _⟩ := Runs.of_done h₁
    exact ⟨.unsent _, by simp [Frugal, sentIn]⟩
  | ok token =>
    obtain ⟨first, got, w₂, second, rfl, hexchange, h₂⟩ :=
      Runs.of_bind (p := exchange codec c method params token) h₁
    obtain ⟨rfl, rfl, _⟩ := Runs.of_done h₂
    rw [List.append_nil]
    change Outcome codec (sentIn first) _ ∧ ∀ sent ∈ sentIn first, _
    rcases exchange_runs hexchange with
      ⟨hsent, text, rfl⟩ | ⟨conn, req, left, hsent, hclosed, hid, ⟨taken, htaken⟩, hgot⟩
    · rw [hsent]
      exact ⟨.unsent text, fun sent h => by cases h⟩
    · rw [hsent]
      refine ⟨?_, fun sent h => ?_⟩
      · cases got with
        | error err => exact .unanswered err fun resp hresp => by cases (hgot resp).mpr hresp
        | ok resp => exact .answered hid ((hgot resp).mp rfl)
      · obtain rfl := List.mem_singleton.mp h
        exact ⟨left, taken, hclosed, htaken⟩

theorem sentIn_append (first second : Trace (HookOp Params) HookOp.Reply World) :
    sentIn (first ++ second) = sentIn first ++ sentIn second := List.filterMap_append

/-- Whatever the peer sends, a call returns the first answer to its request if
there is one within the limit, and an error otherwise. -/
theorem callOnce_returns_first_answer (codec : HookCodec Params) (c : NodeHookClient)
    (method : String) (params : Params)
    (host : (op : HookOp Params) → World → op.Reply × World) (w : World) :
    let (trace, out, _) := play host (callOnce codec c method params) w
    (sentIn trace = [] ∧ ∃ text, out = .failure text) ∨
      ∃ conn req left taken, sentIn trace = [(conn, req)] ∧ closedIn trace = [left] ∧
        conn.bytes = taken ++ left.bytes ∧ taken.length ≤ maxNodeResponseBytes + 1 ∧
        (∀ resp, out = .accept resp ↔ Answers codec req.id conn.bytes resp) ∧
        ((∃ resp, Answers codec req.id conn.bytes resp) ∨ ∃ text, out = .failure text) := by
  obtain ⟨houtcome, hfrugal⟩ := callOnce_runs (play_on host (callOnce codec c method params) w)
  rcases houtcome.accept_iff with hunsent | ⟨conn, req, hsent, haccept, hreturn⟩
  · exact .inl hunsent
  · obtain ⟨left, taken, hclosed, htaken, hlimit⟩ := hfrugal (conn, req) (by simp [hsent])
    exact .inr ⟨conn, req, left, taken, hsent, hclosed, htaken, hlimit, haccept, hreturn⟩

/-- A success that is returned has the id of the request sent on its
connection, the last one. -/
def Correlated (sent : List (Conn × HookRequest Params)) (out : HookResult) : Prop :=
  ∀ resp, out.resp = some resp → resp.ok = true →
    ∃ conn req, sent.getLast? = some (conn, req) ∧ resp.id = req.id

/-- The first answer to the request is not a success without an id. The client takes a
response without an id for one to its own request. -/
def Identified (codec : HookCodec Params) (sent : Conn × HookRequest Params) : Prop :=
  ∀ resp, Answers codec sent.2.id sent.1.bytes resp → resp.ok = true → resp.id ≠ ""

/-- What a call comes to: the outcome of its only attempt, or that of the second
one, when the first was refused. -/
theorem call_runs {out : HookResult}
    (h : Runs perform (call codec c method params) w trace out w') :
    ∃ first second, sentIn trace = first ++ second ∧ Outcome codec second out ∧
      ∀ sent ∈ first, Identified codec sent := by
  obtain ⟨first, got, w₁, second, rfl, hfirst, h₁⟩ := Runs.of_bind h
  obtain ⟨houtcome, _⟩ := callOnce_runs hfirst
  rw [sentIn_append]
  split at h₁
  · next hrefused =>
      obtain ⟨_, w₂, more, _, rfl, h₂⟩ := Runs.of_act h₁
      refine ⟨sentIn first, sentIn more, rfl, (callOnce_runs h₂).1, ?_⟩
      generalize sentIn first = sent at *
      cases houtcome with
      | unsent text => cases hrefused
      | answered hid hanswers =>
        intro sent hsent resp hresp hok
        obtain rfl := List.mem_singleton.mp hsent
        have hunauthorized := (HookResult.accept_err _).mp hrefused
        rw [hanswers.unique hresp] at hunauthorized
        simp [HookResponse.unauthorized, hok] at hunauthorized
      | unanswered text hnone => cases hrefused
  · obtain ⟨rfl, rfl, _⟩ := Runs.of_done h₁
    exact ⟨[], sentIn first, by rw [List.nil_append]; exact List.append_nil _, houtcome, by simp⟩

theorem Outcome.correlated_iff {first second : List (Conn × HookRequest Params)}
    {out : HookResult} (h : Outcome codec second out) :
    Correlated (first ++ second) out ↔ ∀ sent ∈ second, Identified codec sent := by
  cases h with
  | unsent text =>
    exact iff_of_true (fun resp hresp => by cases hresp) (fun sent hmem => by cases hmem)
  | @answered conn req resp hid hanswers =>
    have hlast : (first ++ [(conn, req)]).getLast? = some (conn, req) := List.getLast?_concat
    constructor
    · intro hcorr sent hmem other hother hok hempty
      obtain rfl := List.mem_singleton.mp hmem
      obtain rfl := hanswers.unique hother
      obtain ⟨conn', req', hlast', heq⟩ := hcorr resp (HookResult.accept_resp resp) hok
      rw [hlast] at hlast'
      cases hlast'
      exact hid (heq.symm.trans hempty)
    · intro hidentified other hother hok
      rw [HookResult.accept_resp] at hother
      obtain rfl := Option.some.inj hother
      have hfull := hidentified _ List.mem_cons_self resp hanswers hok
      obtain ⟨_, line, _, _, ⟨_, _, hempty | heq⟩, _⟩ := hanswers
      · exact absurd hempty hfull
      · exact ⟨conn, req, hlast, heq⟩
  | @unanswered conn req text hnone =>
    refine iff_of_true (fun resp hresp => by cases hresp) ?_
    intro sent hmem resp hresp
    obtain rfl := List.mem_singleton.mp hmem
    exact absurd hresp (hnone resp)

theorem call_correlated_iff {out : HookResult}
    (h : Runs perform (call codec c method params) w trace out w') :
    Correlated (sentIn trace) out ↔ ∀ sent ∈ sentIn trace, Identified codec sent := by
  obtain ⟨first, second, hsent, houtcome, hfirst⟩ := call_runs h
  rw [hsent, houtcome.correlated_iff]
  constructor
  · intro hsecond sent hmem
    rcases List.mem_append.mp hmem with hmem | hmem
    · exact hfirst sent hmem
    · exact hsecond sent hmem
  · intro hall sent hmem
    exact hall sent (List.mem_append_right _ hmem)

/-- Every success is correlated, unless a peer's first answer is a success that
has no id. -/
theorem call_success_correlated_iff (codec : HookCodec Params) (c : NodeHookClient)
    (method : String) (params : Params)
    (host : (op : HookOp Params) → World → op.Reply × World) (w : World) :
    let (trace, out, _) := play host (call codec c method params) w
    Correlated (sentIn trace) out ↔ ∀ sent ∈ sentIn trace, Identified codec sent := by
  exact call_correlated_iff (play_on host (call codec c method params) w)

section Sample

def bareSuccess : Line newline :=
  ⟨[0x7b, 0x22, 0x6f, 0x6b, 0x22, 0x3a, 0x74, 0x72, 0x75, 0x65, 0x7d], by decide⟩

def samplePeer : Conn := ⟨[bareSuccess.text], by simp [Line.text], eof⟩

def sampleCodec : HookCodec Unit where
  marshal _ := .ok []
  unmarshal line :=
    if line = bareSuccess.text then .ok ⟨"", true, "", []⟩
    else .error "unexpected end of JSON input"

def sampleHost : (op : HookOp Unit) → Unit → op.Reply × Unit
  | .nodeToken _, _ => (.ok [0x74], ())
  | .invalidateNodeToken, _ => ((), ())
  | .dialNodePipe _, _ => (.ok samplePeer, ())
  | .nodeReqCounter, _ => (Nat.succ 0, ())
  | .write _ _ _, _ => (none, ())
  | .close _, _ => ((), ())

end Sample

/-- A success without an id is returned as the result of the request. -/
theorem bare_success_returned :
    let (trace, out, _) :=
      play sampleHost (call sampleCodec ⟨"/run", 7, "/run/7.sock"⟩ "ping" ()) ()
    ¬Correlated (sentIn trace) out := by
  have hgives : Gives sampleCodec "yc-ping-1" bareSuccess ⟨"", true, "", []⟩ :=
    ⟨by decide, rfl, .inl rfl⟩
  have hanswers : Answers sampleCodec "yc-ping-1" samplePeer.bytes ⟨"", true, "", []⟩ :=
    ⟨[], bareSuccess, List.prefix_refl _, by decide, hgives, by simp⟩
  dsimp only
  rw [call_correlated_iff (play_on sampleHost _ ())]
  intro hall
  have hsent : (samplePeer, ⟨"yc-ping-1", "ping", (), [0x74]⟩) ∈
      sentIn (play sampleHost (call sampleCodec ⟨"/run", 7, "/run/7.sock"⟩ "ping" ()) ()).1 := by
    unfold call
    rw [play_bind, sentIn_append]
    exact List.mem_append_left _ List.mem_cons_self
  exact hall _ hsent _ hanswers rfl rfl

end Calls

end NodeHook

end YcAgent.Capture
