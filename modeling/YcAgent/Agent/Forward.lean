import YcAgent.Agent.ActionApi
import YcAgent.Lib.Outcome

/-!
Requests to the action API as they come over HTTP. A request with a
`ycrash-forward` header is sent on to the URL in the header, and the response is
copied to the writer of the request; the handler then encodes a response of its
own to the same writer. The writer is that of `net/http`: its status can be set
once, and it refuses what goes beyond a declared length or has no place in a
response of the status. The client is that of `net/http` too: it follows
redirections, and it asks for compressed responses where the request does not say
what it accepts, and decodes them.
-/

namespace YcAgent.Agent

open Go Lib.Program

structure HttpRequest where
  head : Bool
  header : List (Bytes × Bytes)
  body : Bytes

/-- `http.Header.Get`, with names in their canonical form. -/
def headerGet (name : Bytes) (header : List (Bytes × Bytes)) : Bytes :=
  ((header.find? fun field => field.1 = name).map Prod.snd).getD []

def forwardOf (req : HttpRequest) : Bytes := headerGet (ascii "Ycrash-Forward") req.header

structure Url where
  scheme : Bytes
  host : Bytes
deriving DecidableEq

/-- Only such URLs have a request sent, the client rejects all others itself. -/
def Url.sendable (url : Url) : Bool :=
  (url.scheme == ascii "http" || url.scheme == ascii "https") && url.host != []

/-- The packages the handler calls: `url.Parse`, the decoder of a request's body, the
encoder of the response, and what the gzip reader of the transport reads from a
body, with the error it ends with if that is not the end of the file. -/
structure ServerLib where
  parseURL : Bytes → Except Bytes Url
  decode : Bytes → Except Bytes ActionRequest
  encode : ActionResponse → Bytes
  gunzip : Bytes → List Bytes × Option Bytes
  encode_ne_nil : ∀ resp, encode resp ≠ []

/-- Responses to `HEAD` and responses of some statuses have no body. -/
def bodyAllowed (status : Nat) : Bool :=
  !(100 ≤ status && status ≤ 199) && status != 204 && status != 304

/-- A complete response: the body comes in chunks and has the length that is
declared. Interim responses are not returned by the client. -/
structure Response (head : Bool) where
  status : Nat
  contentLength : Option Nat
  header : List (Bytes × Bytes)
  chunks : List Bytes
  digits : status ≤ 999
  final : status = 101 ∨ status < 100 ∨ 199 < status
  noBody : head = true ∨ bodyAllowed status = false → chunks.flatten = []
  declared : head = false → bodyAllowed status = true →
    ∀ n, contentLength = some n → chunks.flatten.length = n

def Response.body {head : Bool} (r : Response head) : Bytes := r.chunks.flatten

/-- The transport asks for a compressed response of its own accord, unless the
request says what it accepts, asks for a range or wants no body. -/
def asksGzip (req : HttpRequest) : Bool :=
  !req.head && headerGet (ascii "Accept-Encoding") req.header == [] &&
    headerGet (ascii "Range") req.header == []

def lowerAscii (b : Bytes) : Bytes := b.map fun c => if 65 ≤ c ∧ c ≤ 90 then c + 32 else c

namespace Response

variable {head : Bool}

def compressed (r : Response head) : Bool :=
  !head && bodyAllowed r.status && r.contentLength != some 0 &&
    lowerAscii (headerGet (ascii "Content-Encoding") r.header) == ascii "gzip"

/-- The response as the transport decodes it, without a length. -/
def uncompressed (lib : ServerLib) (r : Response head) (h : r.compressed = true) :
    Response head where
  status := r.status
  contentLength := none
  header := r.header.filter fun field => field.1 ≠ ascii "Content-Encoding"
  chunks := (lib.gunzip r.body).1
  digits := r.digits
  final := r.final
  noBody hnone := by
    simp only [compressed, Bool.and_eq_true, Bool.not_eq_true'] at h
    simp [h.1.1.1, h.1.1.2] at hnone
  declared _ _ n hn := by cases hn

/-- What the client returns for a response of the server: a compressed one is decoded
if the transport has asked for it. The error is that of reading the body. -/
def returned (lib : ServerLib) (asked : Bool) (r : Response head) :
    Response head × Option Bytes :=
  if h : asked = true ∧ r.compressed = true then (r.uncompressed lib h.2, (lib.gunzip r.body).2)
  else (r, none)

end Response

inductive ServeOp (head : Bool) where
  | api (op : ActionOp)
  | clientDo (url : Url)
  | addHeader (contentLength : Option Nat) (header : List (Bytes × Bytes))
  | writeHeader (status : Nat)
  | write (data : Bytes)
  | closeBody

namespace ServeOp

variable {head : Bool}

abbrev Reply : ServeOp head → Type
  | .api op => op.Reply
  | .clientDo _ => Except Bytes (Response head × Option Bytes)
  | .addHeader _ _ => Unit
  | .writeHeader _ => Unit
  | .write _ => Option Bytes
  | .closeBody => Option Bytes

end ServeOp

abbrev ServeProg (head : Bool) := Prog (ServeOp head) ServeOp.Reply

section Handler

variable {head : Bool}

def askServer (op : ServeOp head) : ServeProg head op.Reply := .perform op

/-- `io.Copy` to the writer, from a body whose reading ends with `readErr`. -/
def copyBody (readErr : Option Bytes) : List Bytes → ServeProg head (Option Bytes)
  | [] => return readErr
  | chunk :: rest => do
    match ← askServer (.write chunk) with
    | some err => return some err
    | none => copyBody readErr rest

/-- The response of the handler itself after the copying. -/
def copyReply : Option Bytes → ActionResponse
  | some err => { code := -1, msg := err }
  | none => {}

/-- The end of `handleYcrashForward`: the response of the handler itself, and the
error of the deferred closing of the body. -/
def copyEnded (failed : Option Bytes) : ServeProg head (ActionResponse × Option Bytes) := do
  let closeErr ← askServer .closeBody
  return (copyReply failed, closeErr)

/-- The part of `handleYcrashForward` that copies the response. -/
def copyResponse (r : Response head × Option Bytes) :
    ServeProg head (ActionResponse × Option Bytes) := do
  askServer (.addHeader r.1.contentLength r.1.header)
  askServer (.writeHeader r.1.status)
  let failed ← copyBody r.2 r.1.chunks
  copyEnded failed

def handleYcrashForward (lib : ServerLib) (forward : Bytes) :
    ServeProg head (ActionResponse × Option Bytes) := do
  match lib.parseURL forward with
  | .error err => return ({ code := -1, msg := err }, none)
  | .ok url =>
    match ← askServer (.clientDo url) with
    | .error err => return ({ code := -2, msg := err }, none)
    | .ok r => copyResponse r

/-- How the operations of the action API are carried out on a connection. -/
def serveAction (lib : ServerLib) : (op : ActionOp) → ServeProg head op.Reply
  | .forward url => handleYcrashForward lib url
  | .encode resp => askServer (.write (lib.encode resp))
  | op => askServer (.api op)

def incoming (lib : ServerLib) (req : HttpRequest) : Incoming :=
  if forwardOf req ≠ [] then .forward (forwardOf req) else .body (lib.decode req.body)

/-- `Server.Action`. -/
def serve (lib : ServerLib) (fmt : Fmt) (cfg : ActionConfig) (req : HttpRequest) :
    ServeProg head Unit :=
  (action fmt cfg (incoming lib req)).interpret (serveAction lib)

/-- The body of the request can be decoded, and the key in it is the configured one.
A request that is to be forwarded is not looked at for it. -/
def CarriesKey (lib : ServerLib) (cfg : ActionConfig) (req : HttpRequest) : Prop :=
  ∃ decoded, lib.decode req.body = .ok decoded ∧ decoded.key = cfg.apiKey

/-- A capture, an attendance call or a request sent out. -/
def ServeOp.visible : ServeOp head → Bool
  | .api (.processPids _ _ _ _) => true
  | .api .attend => true
  | .clientDo url => url.sendable
  | _ => false

/-- No run of the handler has a visible effect, however its operations are answered:
it may only look things up, log and respond. -/
def Invisible (p : ServeProg head Unit) : Prop := p.Confined fun op => op.visible = false

def ActionOp.Passive : ActionOp → Prop
  | .encode _ => True
  | .log _ => True
  | .hdAddress => True
  | _ => False

theorem passive_invisible {lib : ServerLib} {op : ActionOp} (h : op.Passive) :
    (serveAction lib op : ServeProg head op.Reply).Confined fun op => op.visible = false := by
  cases op with
  | encode resp => exact ⟨rfl, fun _ => trivial⟩
  | log text => exact ⟨rfl, fun _ => trivial⟩
  | hdAddress => exact ⟨rfl, fun _ => trivial⟩
  | _ => cases h

theorem sendResponse_passive (fmt : Fmt) (resp : ActionResponse) :
    (sendResponse fmt resp).Confined ActionOp.Passive := by
  refine ⟨trivial, fun failed => ?_⟩
  cases failed with
  | none => trivial
  | some err => exact ⟨trivial, fun _ => trivial⟩

/-- A body that does not carry the key is answered and has no other effect. -/
theorem body_passive {lib : ServerLib} {fmt : Fmt} {cfg : ActionConfig} {req : HttpRequest}
    (h : ¬ CarriesKey lib cfg req) :
    (action fmt cfg (.body (lib.decode req.body))).Confined ActionOp.Passive := by
  cases hdecoded : lib.decode req.body with
  | error err => exact sendResponse_passive fmt _
  | ok decoded =>
    have hkey : cfg.apiKey ≠ decoded.key := fun heq => h ⟨decoded, hdecoded, heq.symm⟩
    have hhd : (hdText decoded).Confined ActionOp.Passive := by
      unfold hdText
      cases decoded.hd with
      | none => trivial
      | some hd => exact ⟨trivial, fun _ => trivial⟩
    have hserved : handleActionAPI cfg decoded =
        .done (.ready { code := -1, msg := ascii "invalid key passed" }) := if_pos hkey
    apply hhd.bind
    intro hd
    refine ⟨trivial, fun _ => ?_⟩
    change (handleActionAPI cfg decoded >>= answer fmt).Confined ActionOp.Passive
    rw [hserved]
    exact sendResponse_passive fmt _

theorem copyBody_invisible (readErr : Option Bytes) (chunks : List Bytes) :
    (copyBody readErr chunks : ServeProg head (Option Bytes)).Confined
      fun op => op.visible = false := by
  induction chunks with
  | nil => trivial
  | cons chunk rest ih =>
    refine ⟨rfl, fun failed => ?_⟩
    cases failed with
    | some err => trivial
    | none => exact ih

/-- Forwarding has a visible effect exactly when a request is sent for the URL. -/
theorem handleYcrashForward_invisible_iff {lib : ServerLib} {forward : Bytes} :
    (handleYcrashForward lib forward : ServeProg head (ActionResponse × Option Bytes)).Confined
        (fun op => op.visible = false) ↔
      ∀ url, lib.parseURL forward = .ok url → url.sendable = false := by
  unfold handleYcrashForward
  cases lib.parseURL forward with
  | error err => exact iff_of_true trivial nofun
  | ok url =>
    constructor
    · rintro ⟨hurl, _⟩ _ ⟨⟩
      exact hurl
    · intro h
      refine ⟨h url rfl, fun result => ?_⟩
      cases result with
      | error err => trivial
      | ok r =>
        refine ⟨rfl, fun _ => ⟨rfl, fun _ => ?_⟩⟩
        apply (copyBody_invisible r.2 r.1.chunks).bind
        intro failed
        exact ⟨rfl, fun _ => trivial⟩

def afterForward (fmt : Fmt) (reply : ActionResponse × Option Bytes) : ActionProg Unit := do
  match reply.2 with
  | some err => askAction (.log (ascii "failed to close response body: " ++ err))
  | none => pure ()
  sendResponse fmt reply.1

theorem afterForward_passive (fmt : Fmt) (reply : ActionResponse × Option Bytes) :
    (afterForward fmt reply).Confined ActionOp.Passive := by
  obtain ⟨resp, closeErr⟩ := reply
  cases closeErr with
  | none => exact sendResponse_passive fmt resp
  | some err => exact ⟨trivial, fun _ => sendResponse_passive fmt resp⟩

theorem serve_forward (lib : ServerLib) (fmt : Fmt) (cfg : ActionConfig) (req : HttpRequest)
    (h : forwardOf req ≠ []) :
    (serve lib fmt cfg req : ServeProg head Unit) =
      handleYcrashForward lib (forwardOf req) >>= fun reply =>
        (afterForward fmt reply).interpret (serveAction lib) := by
  unfold serve incoming
  rw [if_pos h]
  rfl

/-- A request that does not carry the key has no visible effect if and only if it
has no header to forward it, or one for whose URL no request is sent. -/
theorem serve_invisible_iff (lib : ServerLib) (fmt : Fmt) (cfg : ActionConfig) (req : HttpRequest)
    (hkey : ¬ CarriesKey lib cfg req) :
    Invisible (serve lib fmt cfg req : ServeProg req.head Unit) ↔
      forwardOf req = [] ∨
        ∀ url, lib.parseURL (forwardOf req) = .ok url → url.sendable = false := by
  by_cases hforward : forwardOf req = []
  · apply iff_of_true _ (.inl hforward)
    have hbody : incoming lib req = .body (lib.decode req.body) := if_neg (not_not.2 hforward)
    unfold Invisible serve
    rw [hbody]
    exact (body_passive hkey).interpret fun op => passive_invisible
  · unfold Invisible
    rw [serve_forward lib fmt cfg req hforward]
    simp only [hforward, false_or]
    constructor
    · intro h
      exact handleYcrashForward_invisible_iff.1 h.of_bind
    · intro h
      apply (handleYcrashForward_invisible_iff.2 h).bind
      intro reply
      exact (afterForward_passive fmt reply).interpret fun op => passive_invisible

end Handler

/-- Packages that know one URL, take a body for the key of a request without actions,
and decode nothing. -/
def sampleLib : ServerLib where
  parseURL s :=
    if s = ascii "http://10.0.0.5/" then .ok ⟨ascii "http", ascii "10.0.0.5"⟩
    else .error (ascii "invalid URL")
  decode body := if body = [] then .error (ascii "EOF") else .ok ⟨body, [], false, none, []⟩
  gunzip _ := ([], some (ascii "gzip: invalid header"))
  encode resp := ascii "\x7b\"Code\":" ++ itoa resp.code ++ ascii ",\"Msg\":\"" ++ resp.msg ++
    ascii "\"\x7d\n"
  encode_ne_nil resp := by simp [ascii]

def forwardedRequest : HttpRequest where
  head := false
  header := [(ascii "Ycrash-Forward", ascii "http://10.0.0.5/")]
  body := []

def plainRequest : HttpRequest := ⟨false, [], ascii "guess"⟩

def plainFmt : Fmt where
  quote b := ascii "\"" ++ b ++ ascii "\""
  quote_injective := by
    intro a b h
    simpa using h
  slice := formatSlice
  response := formatResponse

theorem plain_request_invisible :
    Invisible (serve sampleLib plainFmt ⟨ascii "key", false⟩ plainRequest :
      ServeProg plainRequest.head Unit) := by
  apply (serve_invisible_iff sampleLib plainFmt ⟨ascii "key", false⟩ plainRequest ?_).2 (.inl rfl)
  rintro ⟨decoded, hdecoded, hkey⟩
  have hguess : (⟨ascii "guess", [], false, none, []⟩ : ActionRequest) = decoded := by
    simpa [sampleLib, plainRequest, ascii] using hdecoded
  rw [← hguess] at hkey
  exact absurd hkey (by decide)

/-- Whoever sends a request with the header has the agent send one in turn. -/
theorem forwarded_without_key :
    ¬ CarriesKey sampleLib ⟨ascii "key", false⟩ forwardedRequest ∧
      ¬ Invisible (serve sampleLib plainFmt ⟨ascii "key", false⟩ forwardedRequest :
        ServeProg forwardedRequest.head Unit) := by
  have hkey : ¬ CarriesKey sampleLib ⟨ascii "key", false⟩ forwardedRequest := by
    rintro ⟨decoded, hdecoded, _⟩
    cases hdecoded
  refine ⟨hkey, fun h => ?_⟩
  unfold Invisible at h
  rw [serve_forward sampleLib plainFmt _ forwardedRequest (by decide)] at h
  have hurl := handleYcrashForward_invisible_iff.1 h.of_bind ⟨ascii "http", ascii "10.0.0.5"⟩ rfl
  exact absurd hurl (by decide)

/-- The state of a `http.ResponseWriter`. A panic of the handler closes the
connection. -/
structure ResponseWriter where
  header : List (Bytes × Bytes) := []
  contentLength : Option Nat := none
  status : Option Nat := none
  limit : Option Nat := none
  written : Nat := 0
  sent : Bytes := []
  aborted : Bool := false

namespace ResponseWriter

/-- The first call counts, except that interim statuses do not end the header;
a status that has not three digits is a panic. -/
def writeHeader (status : Nat) (w : ResponseWriter) : ResponseWriter :=
  if w.status.isSome then w
  else if status < 100 ∨ 999 < status then { w with aborted := true }
  else if status ≤ 199 ∧ status ≠ 101 then w
  else { w with status := some status, limit := w.contentLength }

def write (data : Bytes) (w : ResponseWriter) : Option Bytes × ResponseWriter :=
  let w := w.writeHeader 200
  if w.aborted then (some (ascii "panic"), w)
  else if data = [] then (none, w)
  else if !bodyAllowed (w.status.getD 200) then
    (some (ascii "http: request method or response status code does not allow body"), w)
  else
    let written := w.written + data.length
    if (w.limit.map fun n => decide (n < written)).getD false then
      (some (ascii "http: wrote more than the declared Content-Length"),
        { w with written := written })
    else (none, { w with written := written, sent := w.sent ++ data })

/-- What the client gets, if it gets a response: to `HEAD` no body is sent. -/
def received (head : Bool) (w : ResponseWriter) : Option (Nat × Bytes) :=
  if w.aborted then none
  else some (w.status.getD 200, if head then [] else w.sent)

end ResponseWriter

/-- What comes of the request that is forwarded: the response of the server, or
whatever following a redirection to which it responds leads to. -/
inductive Exchange (head : Bool) where
  | direct (first : Response head)
  | redirected (first : Response head)
      (code : first.status ∈ [301, 302, 303, 307, 308]) (final : Except Bytes (Response head))

namespace Exchange

variable {head : Bool}

def first : Exchange head → Response head
  | .direct first => first
  | .redirected first _ _ => first

/-- What the client returns. -/
def result (lib : ServerLib) (asked : Bool) :
    Exchange head → Except Bytes (Response head × Option Bytes)
  | .direct first => .ok (first.returned lib asked)
  | .redirected _ _ (.error err) => .error err
  | .redirected _ _ (.ok r) => .ok (r.returned lib asked)

end Exchange

/-- The connection of a request, for what the client returns and the answers of
everything else. -/
def connection {head : Bool} (result : Except Bytes (Response head × Option Bytes))
    (others : (op : ActionOp) → op.Reply) (closeErr : Option Bytes) :
    (op : ServeOp head) → ResponseWriter → op.Reply × ResponseWriter
  | .api op, w => (others op, w)
  | .clientDo _, w => (result, w)
  | .addHeader contentLength header, w =>
    ((), { w with contentLength := contentLength, header := w.header ++ header })
  | .writeHeader status, w => ((), w.writeHeader status)
  | .write data, w => w.write data
  | .closeBody, w => (closeErr, w)

section Transparency

variable {head : Bool} {result : Except Bytes (Response head × Option Bytes)}
  {others : (op : ActionOp) → op.Reply} {closeErr : Option Bytes}

/-- The writer once the status is set. -/
structure ResponseWriter.Open (w : ResponseWriter) (status : Nat) : Prop where
  status : w.status = some status
  aborted : w.aborted = false

namespace ResponseWriter

variable {w : ResponseWriter} {status : Nat}

theorem Open.write_eq (h : w.Open status) (data : Bytes) :
    w.write data =
      if data = [] then (none, w)
      else if !bodyAllowed status then
        (some (ascii "http: request method or response status code does not allow body"), w)
      else if (w.limit.map fun n => decide (n < w.written + data.length)).getD false then
        (some (ascii "http: wrote more than the declared Content-Length"),
          { w with written := w.written + data.length })
      else (none, { w with written := w.written + data.length, sent := w.sent ++ data }) := by
  have hheader : w.writeHeader 200 = w := by
    rw [writeHeader, h.status]
    rfl
  unfold write
  simp only [hheader, h.aborted, h.status, Option.getD_some, Bool.false_eq_true, if_false]

def Fits (w : ResponseWriter) (status : Nat) (data : Bytes) : Prop :=
  data = [] ∨ bodyAllowed status = true ∧ ∀ n, w.limit = some n → w.written + data.length ≤ n

theorem Open.write_fits (h : w.Open status) {data : Bytes} (hfits : w.Fits status data) :
    w.write data =
      (none, { w with written := w.written + data.length, sent := w.sent ++ data }) := by
  rw [h.write_eq]
  by_cases hdata : data = []
  · subst hdata
    simp
  · obtain ⟨hallowed, hlimit⟩ := hfits.resolve_left hdata
    have hroom : (w.limit.map fun n => decide (n < w.written + data.length)).getD false =
        false := by
      cases hsome : w.limit with
      | none => rfl
      | some n => simpa using hlimit n hsome
    simp [hdata, hallowed, hroom]

end ResponseWriter

theorem play_copyBody {readErr : Option Bytes} {chunks : List Bytes} {w : ResponseWriter}
    {status : Nat} (h : w.Open status)
    (hfits : w.Fits status chunks.flatten) :
    (play (connection result others closeErr) (copyBody readErr chunks) w).2 =
      (readErr, { w with
        written := w.written + chunks.flatten.length, sent := w.sent ++ chunks.flatten }) := by
  induction chunks generalizing w with
  | nil => simp [copyBody, play]
  | cons chunk rest ih =>
    have hchunk : w.Fits status chunk := by
      rcases hfits with hempty | ⟨hallowed, hlimit⟩
      · exact .inl (List.append_eq_nil_iff.1 hempty).1
      · refine .inr ⟨hallowed, fun n hn => ?_⟩
        have htotal := hlimit n hn
        simp only [List.flatten_cons, List.length_append] at htotal
        omega
    have hrest : ResponseWriter.Fits { w with
        written := w.written + chunk.length, sent := w.sent ++ chunk } status rest.flatten := by
      rcases hfits with hempty | ⟨hallowed, hlimit⟩
      · exact .inl (List.append_eq_nil_iff.1 hempty).2
      · refine .inr ⟨hallowed, fun n hn => ?_⟩
        have htotal := hlimit n hn
        simp only [List.flatten_cons, List.length_append] at htotal
        change w.written + chunk.length + rest.flatten.length ≤ n
        omega
    have hwrite : connection result others closeErr (.write chunk) w =
        (none, { w with written := w.written + chunk.length, sent := w.sent ++ chunk }) :=
      h.write_fits hchunk
    have hloop := ih (w := { w with written := w.written + chunk.length, sent := w.sent ++ chunk })
      ⟨h.status, h.aborted⟩ hrest
    change (play _ (.act (ServeOp.write chunk) _) w).2 = _
    rw [play_act_snd, hwrite]
    change (play _ (copyBody readErr rest) _).2 = _
    rw [hloop]
    simp [List.append_assoc, Nat.add_assoc]

/-- No body can follow the one that was copied. -/
def Response.framed (r : Response head) : Bool :=
  head || !bodyAllowed r.status || r.contentLength.isSome

/-- The body the client gets for a response, with the handler's own after it if that
can follow. -/
def Response.delivered (lib : ServerLib) (r : Response head) (failed : Option Bytes) : Bytes :=
  if r.framed then r.body else r.body ++ lib.encode (copyReply failed)

def Response.started (r : Response head) : ResponseWriter where
  header := r.header
  contentLength := r.contentLength

def Response.copied (r : Response head) : ResponseWriter where
  header := r.header
  contentLength := r.contentLength
  status := some r.status
  limit := r.contentLength
  written := r.body.length
  sent := r.body

theorem Response.writeHeader_eq (r : Response head) (h : 100 ≤ r.status) (w : ResponseWriter)
    (hw : w.status = none) :
    w.writeHeader r.status = { w with status := some r.status, limit := w.contentLength } := by
  have hdigits := r.digits
  have hfinal := r.final
  rw [ResponseWriter.writeHeader, hw, if_neg (by simp), if_neg (by omega), if_neg (by omega)]

theorem Response.fits (r : Response head) {w : ResponseWriter} (hlimit : w.limit = r.contentLength)
    (hwritten : w.written = 0) : w.Fits r.status r.chunks.flatten := by
  by_cases hbody : head = true ∨ bodyAllowed r.status = false
  · exact .inl (r.noBody hbody)
  · simp only [not_or, Bool.not_eq_true, Bool.not_eq_false] at hbody
    refine .inr ⟨hbody.2, fun n hn => ?_⟩
    rw [hwritten, Nat.zero_add]
    exact (r.declared hbody.1 hbody.2 n (hlimit ▸ hn)).le

theorem play_copyResponse (r : Response head × Option Bytes) (hstatus : 100 ≤ r.1.status) :
    (play (connection result others closeErr) (copyResponse r) {}).2 =
      ((copyReply r.2, closeErr), r.1.copied) := by
  have hstart : (play (connection result others closeErr) (copyResponse r) {}).2 =
      (play (connection result others closeErr) (copyBody r.2 r.1.chunks >>= copyEnded)
        (r.1.started.writeHeader r.1.status)).2 := rfl
  rw [hstart, r.1.writeHeader_eq hstatus _ rfl, play_bind_snd,
    play_copyBody ⟨rfl, rfl⟩ (r.1.fits rfl rfl)]
  change ((copyReply r.2, closeErr), _) = _
  simp [Response.started, Response.copied, Response.body]

theorem connection_aborted (op : ServeOp head) {w : ResponseWriter} (h : w.aborted = true) :
    (connection result others closeErr op w).2.aborted = true := by
  have hheader : ∀ status, (w.writeHeader status).aborted = true := by
    intro status
    unfold ResponseWriter.writeHeader
    split_ifs <;> first | exact h | rfl
  cases op with
  | writeHeader status => exact hheader status
  | write data =>
    change (w.write data).2.aborted = true
    unfold ResponseWriter.write
    simp only [hheader 200, if_true]
  | _ => exact h

theorem play_aborted {α : Type} (p : ServeProg head α) {w : ResponseWriter}
    (h : w.aborted = true) :
    (play (connection result others closeErr) p w).2.2.aborted = true := by
  induction p generalizing w with
  | done a => exact h
  | act op next ih => exact ih _ (connection_aborted op h)

theorem play_sendResponse (lib : ServerLib) (fmt : Fmt) (resp : ActionResponse)
    (w : ResponseWriter) :
    (play (connection result others closeErr) ((sendResponse fmt resp).interpret
      (serveAction lib)) w).2.2 = (w.write (lib.encode resp)).2 := by
  change (play _ (.act (ServeOp.write (lib.encode resp)) _) w).2.2 = _
  have hwrite : connection result others closeErr (.write (lib.encode resp)) w =
      w.write (lib.encode resp) := rfl
  rw [play_act_snd, hwrite]
  obtain ⟨failed, w'⟩ := w.write (lib.encode resp)
  cases failed with
  | none => rfl
  | some err => rfl

theorem play_afterForward (lib : ServerLib) (fmt : Fmt) (reply : ActionResponse × Option Bytes)
    (w : ResponseWriter) :
    (play (connection result others closeErr) ((afterForward fmt reply).interpret
      (serveAction lib)) w).2.2 = (w.write (lib.encode reply.1)).2 := by
  obtain ⟨resp, failed⟩ := reply
  cases failed with
  | none => exact play_sendResponse lib fmt resp w
  | some err => exact play_sendResponse lib fmt resp w

/-- What the client of a forwarded request gets, its handler played on a connection
where the request that is sent on ends as the exchange says. -/
def clientReceives (lib : ServerLib) (fmt : Fmt) (cfg : ActionConfig) (req : HttpRequest)
    (exchange : Exchange req.head) (others : (op : ActionOp) → op.Reply)
    (closeErr : Option Bytes) : Option (Nat × Bytes) :=
  (play (connection (exchange.result lib (asksGzip req)) others closeErr)
    (serve lib fmt cfg req) {}).2.2.received req.head

theorem received_copied (lib : ServerLib) (r : Response head) (failed : Option Bytes) :
    (r.copied.write (lib.encode (copyReply failed))).2.received head =
      some (r.status, r.delivered lib failed) := by
  have hopen : r.copied.Open r.status := ⟨rfl, rfl⟩
  have hdata := lib.encode_ne_nil (copyReply failed)
  have hlength : 0 < (lib.encode (copyReply failed)).length := List.length_pos_iff.2 hdata
  rw [hopen.write_eq, if_neg hdata]
  by_cases hbody : head = true ∨ bodyAllowed r.status = false
  · have hframed : r.framed = true := by
      rcases hbody with hhead | hstatus
      · simp [Response.framed, hhead]
      · simp [Response.framed, hstatus]
    have hempty : r.body = [] := r.noBody hbody
    rw [Response.delivered, if_pos hframed, hempty]
    rcases hbody with hhead | hstatus
    · split_ifs <;> simp [ResponseWriter.received, Response.copied, hhead]
    · simp [hstatus, ResponseWriter.received, Response.copied, hempty]
  · simp only [not_or, Bool.not_eq_true, Bool.not_eq_false] at hbody
    obtain ⟨hhead, hallowed⟩ := hbody
    cases hdeclared : r.contentLength with
    | some n =>
      have hn : r.body.length = n := r.declared hhead hallowed n hdeclared
      have hframed : r.framed = true := by simp [Response.framed, hdeclared]
      simp [hallowed, hhead, hn, hlength, hdeclared, Response.delivered, hframed,
        ResponseWriter.received, Response.copied]
    | none =>
      have hframed : r.framed = false := by simp [Response.framed, hdeclared, hhead, hallowed]
      simp [hallowed, hhead, hdeclared, Response.delivered, hframed, ResponseWriter.received,
        Response.copied]

section Received

variable {lib : ServerLib} {fmt : Fmt} {cfg : ActionConfig} {req : HttpRequest}
  {exchange : Exchange req.head} {others : (op : ActionOp) → op.Reply} {closeErr : Option Bytes}
  {url : Url}

theorem clientReceives_eq (hforward : forwardOf req ≠ []) :
    clientReceives lib fmt cfg req exchange others closeErr =
      let reply := (play (connection (exchange.result lib (asksGzip req)) others closeErr)
        (handleYcrashForward lib (forwardOf req)) {}).2
      (reply.2.write (lib.encode reply.1.1)).2.received req.head := by
  unfold clientReceives
  rw [serve_forward lib fmt cfg req hforward, play_bind_snd, play_afterForward]

theorem play_forward {result : Except Bytes (Response req.head × Option Bytes)}
    (hurl : lib.parseURL (forwardOf req) = .ok url) :
    (play (connection result others closeErr) (handleYcrashForward lib (forwardOf req)) {}).2 =
      match result with
      | .error err => (({ code := -2, msg := err }, none), {})
      | .ok r => (play (connection result others closeErr) (copyResponse r) {}).2 := by
  unfold handleYcrashForward
  rw [hurl]
  change (play _ (.act (ServeOp.clientDo url) _) _).2 = _
  rw [play_act_snd]
  have hresult : connection result others closeErr (.clientDo url) {} = (result, {}) := rfl
  rw [hresult]
  cases result with
  | error err => rfl
  | ok r => rfl

theorem clientReceives_response (hforward : forwardOf req ≠ [])
    (hurl : lib.parseURL (forwardOf req) = .ok url) {r : Response req.head × Option Bytes}
    (hr : exchange.result lib (asksGzip req) = .ok r) :
    clientReceives lib fmt cfg req exchange others closeErr =
      if 100 ≤ r.1.status then some (r.1.status, r.1.delivered lib r.2) else none := by
  rw [clientReceives_eq hforward]
  simp only [play_forward hurl, hr]
  split
  case isTrue hstatus =>
    rw [play_copyResponse r hstatus]
    exact received_copied lib r.1 r.2
  case isFalse hstatus =>
    -- the status is a panic, after which nothing is written
    have haborted : (r.1.started.writeHeader r.1.status).aborted = true := by
      have hsmall : r.1.status < 100 ∨ 999 < r.1.status := by omega
      rw [ResponseWriter.writeHeader, if_neg (by simp [Response.started]), if_pos hsmall]
    have hcopied : (play (connection (.ok r) others closeErr) (copyResponse r) {}).2.2.aborted =
        true := play_aborted (copyBody r.2 r.1.chunks >>= copyEnded) haborted
    have hwritten : (connection (.ok r) others closeErr (.write (lib.encode
        (play (connection (.ok r) others closeErr) (copyResponse r) {}).2.1.1))
        (play (connection (.ok r) others closeErr) (copyResponse r) {}).2.2).2.aborted = true :=
      connection_aborted _ hcopied
    exact if_pos hwritten

theorem clientReceives_error (hforward : forwardOf req ≠ [])
    (hurl : lib.parseURL (forwardOf req) = .ok url) {err : Bytes}
    (herr : exchange.result lib (asksGzip req) = .error err) :
    ∃ body, clientReceives lib fmt cfg req exchange others closeErr = some (200, body) := by
  rw [clientReceives_eq hforward]
  simp only [play_forward hurl, herr]
  have hdata := lib.encode_ne_nil { code := -2, msg := err }
  refine ⟨if req.head then [] else lib.encode { code := -2, msg := err }, ?_⟩
  simp [ResponseWriter.write, ResponseWriter.writeHeader, ResponseWriter.received, hdata,
    bodyAllowed]

end Received

/-- The status and the body that the client gets for a response are those of another,
with the handler's own response after the body if that can follow. -/
def Response.Matches (lib : ServerLib) (r : Response head × Option Bytes)
    (first : Response head) : Prop :=
  100 ≤ r.1.status ∧ r.1.status = first.status ∧ r.1.delivered lib r.2 = first.body

/-- The response is framed by a length or by having no body, and is not decoded. Where
it was decoded, or a redirection was followed, what came of it happens to be the
same. -/
def Exchange.Transparent (lib : ServerLib) (asked : Bool) : Exchange head → Prop
  | .direct first => 100 ≤ first.status ∧
      if asked = true ∧ first.compressed = true then
        (lib.gunzip first.body).1.flatten ++ lib.encode (copyReply (lib.gunzip first.body).2) =
          first.body
      else first.framed = true
  | .redirected _ _ (.error _) => False
  | .redirected first _ (.ok r) => Response.Matches lib (r.returned lib asked) first

/-- A decoded response has nothing to frame it, so that the handler's own follows. -/
theorem Response.delivered_uncompressed (lib : ServerLib) (r : Response head)
    (h : r.compressed = true) (failed : Option Bytes) :
    (r.uncompressed lib h).delivered lib failed =
      (lib.gunzip r.body).1.flatten ++ lib.encode (copyReply failed) := by
  have hbody := h
  simp only [compressed, Bool.and_eq_true, Bool.not_eq_true'] at hbody
  have hframed : (r.uncompressed lib h).framed = false := by
    simp [framed, uncompressed, hbody.1.1.1, hbody.1.1.2]
  rw [delivered, hframed]
  rfl

theorem matches_iff_receives (lib : ServerLib) (r : Response head × Option Bytes)
    (first : Response head) :
    (if 100 ≤ r.1.status then some (r.1.status, r.1.delivered lib r.2) else none) =
      some (first.status, first.body) ↔ Response.Matches lib r first := by
  by_cases hstatus : 100 ≤ r.1.status
  · simp [hstatus, Response.Matches]
  · simp [hstatus, Response.Matches]

/-- The client gets the status and the body of the server's response if and only if
nothing can be added to it and it was not decoded, and no redirection was followed;
or if what came of the decoding or of the redirection is the same by chance. -/
theorem forward_transparent_iff (lib : ServerLib) (fmt : Fmt) (cfg : ActionConfig)
    (req : HttpRequest) (exchange : Exchange req.head) (others : (op : ActionOp) → op.Reply)
    (closeErr : Option Bytes) (url : Url) (hforward : forwardOf req ≠ [])
    (hurl : lib.parseURL (forwardOf req) = .ok url) :
    clientReceives lib fmt cfg req exchange others closeErr =
        some (exchange.first.status, exchange.first.body) ↔
      exchange.Transparent lib (asksGzip req) := by
  cases exchange with
  | direct first =>
    rw [clientReceives_response hforward hurl rfl]
    refine (matches_iff_receives lib _ first).trans ?_
    simp only [Exchange.Transparent, Response.Matches]
    by_cases hdecoded : asksGzip req = true ∧ first.compressed = true
    · rw [Response.returned, dif_pos hdecoded, if_pos hdecoded,
        Response.delivered_uncompressed]
      simp [Response.uncompressed]
    · rw [Response.returned, dif_neg hdecoded, if_neg hdecoded]
      have hdata := lib.encode_ne_nil (copyReply none)
      cases hframed : first.framed <;> simp [Response.delivered, hframed, hdata]
  | redirected first hcode final =>
    cases final with
    | error err =>
      have hreceives : ∃ body, clientReceives lib fmt cfg req
          (.redirected first hcode (.error err)) others closeErr = some (200, body) :=
        clientReceives_error hforward hurl rfl
      obtain ⟨body, hbody⟩ := hreceives
      rw [hbody]
      simp only [Exchange.Transparent, iff_false, Option.some.injEq, Prod.mk.injEq, not_and]
      intro hstatus
      change 200 = first.status at hstatus
      have hredirect := hcode
      rw [← hstatus] at hredirect
      exact absurd hredirect (by decide)
    | ok r =>
      rw [clientReceives_response hforward hurl rfl]
      exact matches_iff_receives lib _ first

end Transparency

/-! A response of two bytes, with and without a length. -/

def okResponse (contentLength : Option Nat) (h : ∀ n, contentLength = some n → 2 = n) :
    Response false where
  status := 200
  contentLength := contentLength
  header := []
  chunks := [ascii "ok"]
  digits := by decide
  final := .inr (.inr (by decide))
  noBody := by decide
  declared := fun _ _ => h

def idleReplies : (op : ActionOp) → op.Reply
  | .getTopCpu => .error []
  | .getTopMem => .error []
  | .getProcessIds _ => .error []
  | .attend => ()
  | .isProcessExists _ => false
  | .processPids _ _ _ _ => ([], none)
  | .rangeResults keys => keys
  | .hdAddress => []
  | .forward _ => ({}, none)
  | .encode _ => none
  | .log _ => ()

theorem declared_response_forwarded :
    clientReceives sampleLib plainFmt ⟨ascii "key", false⟩ forwardedRequest
        (.direct (okResponse (some 2) (by simp))) idleReplies none =
      some (200, ascii "ok") :=
  (forward_transparent_iff sampleLib plainFmt ⟨ascii "key", false⟩ forwardedRequest
    (.direct (okResponse (some 2) (by simp))) idleReplies none
    ⟨ascii "http", ascii "10.0.0.5"⟩ (by decide) rfl).2 ⟨by decide, by decide⟩

theorem chunked_response_extended :
    clientReceives sampleLib plainFmt ⟨ascii "key", false⟩ forwardedRequest
        (.direct (okResponse none (by simp))) idleReplies none =
      some (200, ascii "ok" ++ ascii "\x7b\"Code\":0,\"Msg\":\"\"\x7d\n") ∧
    clientReceives sampleLib plainFmt ⟨ascii "key", false⟩ forwardedRequest
        (.direct (okResponse none (by simp))) idleReplies none ≠ some (200, ascii "ok") := by
  have hforward : forwardOf forwardedRequest ≠ [] := by decide
  have hurl : sampleLib.parseURL (forwardOf forwardedRequest) =
      .ok ⟨ascii "http", ascii "10.0.0.5"⟩ := rfl
  have hreceives : clientReceives sampleLib plainFmt ⟨ascii "key", false⟩ forwardedRequest
        (.direct (okResponse none (by simp))) idleReplies none =
      some (200, ascii "ok" ++ ascii "\x7b\"Code\":0,\"Msg\":\"\"\x7d\n") := by
    rw [clientReceives_response hforward hurl (r := (okResponse none (by simp), none)) rfl]
    decide
  rw [hreceives]
  exact ⟨rfl, by decide⟩

end YcAgent.Agent
