import YcAgent.Go.Stream

/-!
The upload of one captured file: `PostData` and the functions under it, with
the answers of the calls they make as an argument. A file is uploaded from the
offset its position function seeks to; the captures modelled here rewind to
the start. `PostReaderWithTimeout` uploads what it reads from a stream.
-/

namespace YcAgent.Capture

open Go

abbrev Path := String
abbrev IOError := String

/-- What a capture task reports. -/
structure Result where
  msg : String
  ok : Bool
  deriving DecidableEq, Repr

structure PostConfig where
  onlyCapture : Bool
  caCertPath : String

structure Upload where
  name : String
  content : Bytes

/-- What the calls on the way to the server answer: the file's `Stat`, reading
the CA certificate, the position function, `NewRequest`, `Do` with the status
code, and reading the response body. -/
structure PostReplies where
  stat : Except String Unit
  readCA : Except String Unit
  position : Except String Unit
  newRequest : Except String Unit
  send : Except String Nat
  body : Except String String

def postCustomData (cfg : PostConfig) (endpoint params : String) (file : Option Upload)
    (net : PostReplies) : String × Bool :=
  if cfg.onlyCapture then ("in only capture mode", false) else
  match file with
  | none => ("file is not captured", false)
  | some file =>
  match net.stat with
  | .error err => ("file stat err " ++ err, false)
  | .ok () =>
  if file.content.length < 1 then ("skipped empty file " ++ file.name, false) else
  let url := endpoint ++ "&" ++ params
  match (if cfg.caCertPath ≠ "" then net.readCA else .ok ()) with
  | .error err => (err, false)
  | .ok () =>
  match net.position with
  | .error err => ("PostData position err " ++ err, false)
  | .ok () =>
  match net.newRequest with
  | .error err => ("PostData new req err " ++ err, false)
  | .ok () =>
  match net.send with
  | .error err => ("PostData post err " ++ err, false)
  | .ok status =>
  match net.body with
  | .error err => ("PostData get resp err " ++ err, false)
  | .ok body => (url ++ "\nstatus code " ++ toString status ++ "\n" ++ body, status == 200)

def postData (cfg : PostConfig) (endpoint dt : String) (file : Option Upload)
    (net : PostReplies) : String × Bool :=
  postCustomData cfg endpoint ("dt=" ++ dt) file net

/-- What the calls of `postCustomReaderWithTimeout` answer: reading the CA
certificate, `NewRequest`, `Do` with the status code, and reading the response
body. -/
structure ReaderReplies where
  readCA : Except String Unit
  newRequest : Except String Unit
  send : Except String Nat
  body : Except String String

def postCustomReaderWithTimeout (cfg : PostConfig) (endpoint params : String) (hasBody : Bool)
    (net : ReaderReplies) : String × Bool :=
  if cfg.onlyCapture then ("in only capture mode", false) else
  if !hasBody then ("file is not captured", false) else
  let url := endpoint ++ "&" ++ params
  match (if cfg.caCertPath ≠ "" then net.readCA else .ok ()) with
  | .error err => (err, false)
  | .ok () =>
  match net.newRequest with
  | .error err => ("PostData new req err " ++ err, false)
  | .ok () =>
  match net.send with
  | .error err => ("PostData post err " ++ err, false)
  | .ok status =>
  match net.body with
  | .error err => ("PostData get resp err " ++ err, false)
  | .ok body => (url ++ "\nstatus code " ++ toString status ++ "\n" ++ body, status == 200)

def postReaderWithTimeout (cfg : PostConfig) (endpoint dt : String) (hasBody : Bool)
    (net : ReaderReplies) : String × Bool :=
  postCustomReaderWithTimeout cfg endpoint ("dt=" ++ dt) hasBody net

/-- An upload is reported as done exactly when every step of it was: outside
only-capture mode, with a non-empty file and a response of status 200. -/
theorem postCustomData_ok_iff (cfg : PostConfig) (endpoint params : String)
    (file : Option Upload) (net : PostReplies) :
    (postCustomData cfg endpoint params file net).2 = true ↔
      cfg.onlyCapture = false ∧ (∃ f, file = some f ∧ f.content ≠ []) ∧
      net.stat = .ok () ∧ (cfg.caCertPath ≠ "" → net.readCA = .ok ()) ∧
      net.position = .ok () ∧ net.newRequest = .ok () ∧ net.send = .ok 200 ∧
      ∃ body, net.body = .ok body := by
  obtain ⟨stat, readCA, position, newRequest, send, body⟩ := net
  unfold postCustomData
  by_cases honly : cfg.onlyCapture = true
  · simp [honly]
  rcases file with _ | file
  · simp [honly]
  rcases stat with err | ⟨⟩
  · simp [honly]
  by_cases hempty : file.content = []
  · simp [honly, hempty]
  have hlen : ¬ file.content.length < 1 := by
    have hpos := List.length_pos_of_ne_nil hempty
    omega
  by_cases hca : cfg.caCertPath = ""
  · rcases position with err | ⟨⟩ <;> rcases newRequest with err | ⟨⟩ <;>
      rcases send with err | status <;> rcases body with err | text <;>
      simp_all
  · rcases readCA with err | ⟨⟩ <;> rcases position with err | ⟨⟩ <;>
      rcases newRequest with err | ⟨⟩ <;> rcases send with err | status <;>
      rcases body with err | text <;> simp_all

end YcAgent.Capture
