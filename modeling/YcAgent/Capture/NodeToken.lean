import YcAgent.Capture.Post
import YcAgent.Go.Filepath
import YcAgent.Go.Strings
import YcAgent.Lib.Goroutines
import YcAgent.Lib.Pool

/-!
The token of the Node.js hook. All clients share a cache of one token, which
is read from the file of a runtime directory and dropped when a hook refuses
it. The cache is guarded by a mutex, so that `NodeToken`, with the reading of
the file, and `InvalidateNodeToken` are single steps; any number of calls take
such steps in any order, and the token files are rewritten between them.
-/

namespace YcAgent.Capture

open Go Lib.Program

structure NodeTokenCache where
  dir : Path
  token : Bytes
  loaded : Bool
  deriving DecidableEq

/-- `NodeToken`, given what reading the token file would give. -/
def nodeToken (cache : NodeTokenCache) (runtimeDir : Path) (data : Except String Bytes) :
    Except String Bytes × NodeTokenCache :=
  if cache.loaded && cache.dir == runtimeDir then (.ok cache.token, cache) else
  let path := joinPath runtimeDir "token"
  match data with
  | .error err => (.error s!"failed reading node hook token {path}: {err}", cache)
  | .ok data =>
    let token := trimSpace data
    if token = [] then (.error s!"node hook token {path} is empty", cache)
    else (.ok token, ⟨runtimeDir, token, true⟩)

def invalidateNodeToken (cache : NodeTokenCache) : NodeTokenCache :=
  { cache with loaded := false, token := [] }

structure NodeHookClient where
  runtimeDir : Path
  pid : Int
  pipePath : Path
  deriving DecidableEq

structure NodeResponse where
  ok : Bool
  error : String
  deriving DecidableEq

def NodeResponse.unauthorized (resp : NodeResponse) : Bool :=
  !resp.ok && resp.error == "unauthorized"

/-- What a call asks of its surroundings. A request is a connection of its own:
dialling, sending the line with the token and reading the response. -/
inductive NodeOp where
  | nodeToken (runtimeDir : Path)
  | invalidateNodeToken
  | request (client : NodeHookClient) (method : String) (token : Bytes)
  deriving DecidableEq

def NodeOp.Reply : NodeOp → Type
  | .nodeToken _ => Except String Bytes
  | .invalidateNodeToken => Unit
  | .request _ _ _ => Except String NodeResponse

abbrev NodeProg := Prog NodeOp NodeOp.Reply

def askNode (op : NodeOp) : NodeProg op.Reply := .perform op

inductive NodeError where
  | failed (text : String)
  | unauthorized
  deriving DecidableEq

structure NodeResult where
  resp : Option NodeResponse
  err : Option NodeError
  deriving DecidableEq

def NodeHookClient.callOnce (c : NodeHookClient) (method : String) : NodeProg NodeResult := do
  match ← askNode (.nodeToken c.runtimeDir) with
  | .error err => return ⟨none, some (.failed err)⟩
  | .ok token =>
    match ← askNode (.request c method token) with
    | .error err => return ⟨none, some (.failed err)⟩
    | .ok resp =>
      if resp.unauthorized then return ⟨some resp, some .unauthorized⟩
      else return ⟨some resp, none⟩

def NodeHookClient.call (c : NodeHookClient) (method : String) : NodeProg NodeResult := do
  let out ← c.callOnce method
  if out.err = some .unauthorized then
    askNode .invalidateNodeToken
    c.callOnce method
  else return out

/-- The cache and the token files, with a record of the tokens that were read
and the directory each was read from. -/
structure TokenState where
  cache : NodeTokenCache
  files : Path → Option Bytes
  reads : List (Path × Bytes)

def ReadsFile (files : Path → Option Bytes) (dir : Path) (data : Except String Bytes) : Prop :=
  ∀ content, data = .ok content → files dir = some content

/-- `NodeToken` reads the token file unless a token is cached for the directory, and
what it reads is recorded. A request may be answered in any way. -/
def PerformNode : (op : NodeOp) → TokenState → op.Reply → TokenState → Prop
  | .nodeToken dir, w, r, w' => ∃ data, ReadsFile w.files dir data ∧
      r = (nodeToken w.cache dir data).1 ∧ w'.cache = (nodeToken w.cache dir data).2 ∧
      w'.files = w.files ∧
      w'.reads = if w.cache.loaded && w.cache.dir == dir then w.reads else
        match data with
        | .ok content => (dir, trimSpace content) :: w.reads
        | .error _ => w.reads
  | .invalidateNodeToken, w, _, w' => w' = { w with cache := invalidateNodeToken w.cache }
  | .request _ _ _, w, _, w' => w' = w

/-- The token files are rewritten, and those named by `keep` stay as it
says. -/
def Rewrites (keep : (Path → Option Bytes) → Prop) (w w' : TokenState) : Prop :=
  ∃ files, keep files ∧ w' = { w with files := files }

section Token

variable {w w' : TokenState} {dir dir' : Path} {token : Bytes}

/-- What `NodeToken` answers, and what it does to the cache. -/
inductive TokenStep (dir : Path) (w : TokenState) : Except String Bytes → NodeTokenCache → Prop
  | cached : w.cache.loaded = true → w.cache.dir = dir →
      TokenStep dir w (.ok w.cache.token) w.cache
  | failed (err : String) : TokenStep dir w (.error err) w.cache
  | fresh (content : Bytes) : w.files dir = some content → trimSpace content ≠ [] →
      TokenStep dir w (.ok (trimSpace content)) ⟨dir, trimSpace content, true⟩

theorem PerformNode.tokenStep {r : (NodeOp.nodeToken dir).Reply}
    (h : PerformNode (.nodeToken dir) w r w') :
    TokenStep dir w r w'.cache ∧ w'.files = w.files ∧ (∀ entry ∈ w.reads, entry ∈ w'.reads) ∧
      (w'.cache = w.cache ∨ (dir, w'.cache.token) ∈ w'.reads) := by
  obtain ⟨data, hdata, rfl, hcache, hfiles, hreads⟩ := h
  refine ⟨?_, hfiles, ?_, ?_⟩
  · rw [hcache]
    unfold nodeToken
    split
    · next hloaded =>
        simp only [Bool.and_eq_true, beq_iff_eq] at hloaded
        exact .cached hloaded.1 hloaded.2
    · cases data with
      | error err => exact .failed _
      | ok content =>
        dsimp only
        split
        · exact .failed _
        · next hempty => exact .fresh content (hdata content rfl) hempty
  · intro entry hentry
    rw [hreads]
    split
    · exact hentry
    · cases data with
      | error err => exact hentry
      | ok content => exact List.mem_cons_of_mem _ hentry
  · rw [hcache, hreads]
    unfold nodeToken
    split
    · exact .inl rfl
    · cases data with
      | error err => exact .inl rfl
      | ok content =>
        dsimp only
        split
        · exact .inl rfl
        · exact .inr List.mem_cons_self

theorem PerformNode.files {op : NodeOp} {r : op.Reply} (h : PerformNode op w r w') :
    w'.files = w.files := by
  cases op with
  | nodeToken dir => exact h.tokenStep.2.1
  | invalidateNodeToken => rw [show w' = _ from h]
  | request client method token => rw [show w' = w from h]

end Token

section Provenance

variable {w w' : TokenState} {c : NodeHookClient}

/-- The cached token was read from the directory it is cached for. -/
def Sourced (w : TokenState) : Prop :=
  w.cache.loaded = true → (w.cache.dir, w.cache.token) ∈ w.reads

theorem PerformNode.sourced {op : NodeOp} {r : op.Reply} (h : PerformNode op w r w')
    (hw : Sourced w) : Sourced w' ∧ ∀ entry ∈ w.reads, entry ∈ w'.reads := by
  cases op with
  | nodeToken dir =>
    obtain ⟨hstep, _, hreads, hsource⟩ := h.tokenStep
    refine ⟨fun hloaded => ?_, hreads⟩
    rcases hsource with hsame | hread
    · rw [hsame] at hloaded ⊢
      exact hreads _ (hw hloaded)
    · generalize w'.cache = cache at *
      cases hstep with
      | cached _ _ | failed _ => exact hreads _ (hw hloaded)
      | fresh content _ _ => exact hread
  | invalidateNodeToken =>
    rw [show w' = _ from h]
    exact ⟨fun hloaded => absurd hloaded Bool.false_ne_true, fun _ h => h⟩
  | request client method token =>
    rw [show w' = w from h]
    exact ⟨hw, fun _ h => h⟩

theorem PerformNode.token_read {dir : Path} {token : Bytes}
    (h : PerformNode (.nodeToken dir) w (.ok token) w') (hw : Sourced w) :
    (dir, token) ∈ w'.reads := by
  obtain ⟨hstep, _, hreads, hsource⟩ := h.tokenStep
  have hsourced := (h.sourced hw).1
  unfold Sourced at hsourced
  generalize hcache : w'.cache = cache at *
  cases hstep with
  | cached hloaded hdir =>
    rw [← hdir]
    exact hreads _ (hw hloaded)
  | fresh content _ _ => exact hsourced rfl

/-- A call uses the token it was given for its own directory, with its own
client. -/
def provenance (c : NodeHookClient) : Ghost NodeOp NodeOp.Reply (Option Bytes) where
  allowed g op :=
    match op with
    | .nodeToken dir => dir = c.runtimeDir
    | .invalidateNodeToken => True
    | .request client _ token => client = c ∧ g = some token
  possible _ _ _ := True
  after g op r :=
    match op, r with
    | .nodeToken _, .ok token => some token
    | _, _ => g

def InHand (c : NodeHookClient) (w : TokenState) (g : Option Bytes) : Prop :=
  Sourced w ∧ ∀ token, g = some token → (c.runtimeDir, token) ∈ w.reads

theorem provenance_describes (interfere : TokenState → TokenState → Prop)
    (hinterfere : ∀ w w', interfere w w' → Sourced w →
      Sourced w' ∧ ∀ entry ∈ w.reads, entry ∈ w'.reads)
    (mine : Event NodeOp NodeOp.Reply TokenState → Prop) :
    (provenance c).Describes
      ⟨fun op w r w' => PerformNode op w r w' ∧ mine ⟨w, op, r⟩, interfere⟩ (InHand c) where
  perform := by
    rintro op w r w' g hallowed ⟨hsourced, hhand⟩ ⟨hperform, _⟩
    obtain ⟨hsourced', hreads⟩ := hperform.sourced hsourced
    refine ⟨trivial, hsourced', ?_⟩
    intro token htoken
    cases op with
    | nodeToken dir =>
      obtain rfl : dir = c.runtimeDir := hallowed
      cases r with
      | error err => exact hreads _ (hhand token htoken)
      | ok token' =>
        cases htoken
        exact hperform.token_read hsourced
    | invalidateNodeToken => exact hreads _ (hhand token htoken)
    | request client method sent => exact hreads _ (hhand token htoken)
  interfere := by
    rintro w w' g ⟨hsourced, hhand⟩ hstep
    obtain ⟨hsourced', hreads⟩ := hinterfere w w' hstep hsourced
    exact ⟨hsourced', fun token htoken => hreads _ (hhand token htoken)⟩

theorem callOnce_follows_provenance (method : String) (g : Option Bytes) :
    (c.callOnce method).Follows (provenance c) g fun _ _ => True := by
  refine ⟨rfl, fun r _ => ?_⟩
  cases r with
  | error err => exact trivial
  | ok token =>
    refine ⟨⟨rfl, rfl⟩, fun r _ => ?_⟩
    cases r with
    | error err => exact trivial
    | ok resp =>
      change Prog.Follows _ (if resp.unauthorized then _ else _) _ _
      split
      · exact trivial
      · exact trivial

theorem call_follows_provenance (method : String) :
    (c.call method).Follows (provenance c) none fun _ _ => True := by
  unfold NodeHookClient.call
  rw [Prog.follows_bind]
  apply (callOnce_follows_provenance method none).mono
  intro out g _
  split
  · exact ⟨trivial, fun _ _ => callOnce_follows_provenance method g⟩
  · exact trivial

end Provenance

section Rotation

variable {w w' : TokenState} {dir : Path} {accepted : Bytes} {c : NodeHookClient}

/-- The token file of the directory holds the token that its hooks accept. -/
def Holds (dir : Path) (accepted : Bytes) (files : Path → Option Bytes) : Prop :=
  accepted ≠ [] ∧ ∃ content, files dir = some content ∧ trimSpace content = accepted

/-- A token cached for the directory is the one that is accepted. -/
def Fresh (dir : Path) (accepted : Bytes) (w : TokenState) : Prop :=
  w.cache.loaded = true → w.cache.dir = dir → w.cache.token = accepted

/-- The hooks of the directory accept this token and no other, and neither its
token file nor a connection fails. -/
def Serves (dir : Path) (accepted : Bytes) : Event NodeOp NodeOp.Reply TokenState → Prop
  | ⟨_, .nodeToken dir', r⟩ => dir' = dir → ∃ token, r = .ok token
  | ⟨_, .invalidateNodeToken, _⟩ => True
  | ⟨_, .request client _ token, r⟩ => client.runtimeDir = dir →
      ∃ resp, r = .ok resp ∧ (resp.unauthorized = true ↔ token ≠ accepted)

/-- While the file holds the accepted token, no step puts another one into the
cache. -/
theorem PerformNode.fresh {op : NodeOp} {r : op.Reply} (h : PerformNode op w r w')
    (hholds : Holds dir accepted w.files) (hfresh : Fresh dir accepted w) :
    Fresh dir accepted w' := by
  cases op with
  | nodeToken dir' =>
    have hstep := h.tokenStep.1
    unfold Fresh
    generalize w'.cache = cache at *
    cases hstep with
    | cached _ _ | failed _ => exact hfresh
    | fresh content hcontent _ =>
      rintro - rfl
      obtain ⟨_, content', hcontent', htrim⟩ := hholds
      cases hcontent.symm.trans hcontent'
      exact htrim
  | invalidateNodeToken =>
    rw [show w' = _ from h]
    exact fun hloaded => absurd hloaded Bool.false_ne_true
  | request client method token =>
    rw [show w' = w from h]
    exact hfresh

theorem PerformNode.token_fresh {token : Bytes}
    (h : PerformNode (.nodeToken dir) w (.ok token) w') (hholds : Holds dir accepted w.files)
    (hfresh : Fresh dir accepted w) : token = accepted := by
  have hstep := h.tokenStep.1
  generalize w'.cache = cache at *
  cases hstep with
  | cached hloaded hdir => exact hfresh hloaded hdir
  | fresh content hcontent _ =>
    obtain ⟨_, content', hcontent', htrim⟩ := hholds
    cases hcontent.symm.trans hcontent'
    exact htrim

/-- A request with the token it carried, and what came back. -/
structure Answered where
  client : NodeHookClient
  method : String
  token : Bytes
  reply : Except String NodeResponse

def answered : Event NodeOp NodeOp.Reply TokenState → Option Answered
  | ⟨_, .request client method token, r⟩ => some ⟨client, method, token, r⟩
  | _ => none

/-- The requests of a call so far, and whether it has invalidated the cache. -/
structure Attempt where
  requests : List Answered
  invalidated : Bool

/-- A call makes two requests at most, and after invalidating the cache it is
given the accepted token. -/
def attempts (dir : Path) (accepted : Bytes) : Ghost NodeOp NodeOp.Reply Attempt where
  allowed g op :=
    match op with
    | .request _ _ _ => g.requests.length < 2
    | _ => True
  possible g op r :=
    match op, r with
    | .nodeToken dir', r => dir' = dir →
        ∃ token, r = .ok token ∧ (g.invalidated = true → token = accepted)
    | .invalidateNodeToken, _ => True
    | .request client _ token, r => client.runtimeDir = dir →
        ∃ resp, r = .ok resp ∧ (resp.unauthorized = true ↔ token ≠ accepted)
  after g op r :=
    match op, r with
    | .nodeToken _, _ => g
    | .invalidateNodeToken, _ => { g with invalidated := true }
    | .request client method token, r =>
      { g with requests := g.requests ++ [⟨client, method, token, r⟩] }

def InTime (dir : Path) (accepted : Bytes) (w : TokenState) (g : Attempt) : Prop :=
  Holds dir accepted w.files ∧ (g.invalidated = true → Fresh dir accepted w) ∧
    g.requests.length ≤ 2

theorem attempts_describes (interfere : TokenState → TokenState → Prop)
    (hinterfere : ∀ w w', interfere w w' → Holds dir accepted w.files →
      Holds dir accepted w'.files ∧ (Fresh dir accepted w → Fresh dir accepted w')) :
    (attempts dir accepted).Describes
      ⟨fun op w r w' => PerformNode op w r w' ∧ Serves dir accepted ⟨w, op, r⟩, interfere⟩
      (InTime dir accepted) where
  perform := by
    rintro op w r w' g hallowed ⟨hholds, hfresh, hrequests⟩ ⟨hperform, hserves⟩
    have hholds' : Holds dir accepted w'.files := hperform.files ▸ hholds
    cases op with
    | nodeToken dir' =>
      refine ⟨fun hdir => ?_, hholds', fun h => hperform.fresh hholds (hfresh h), hrequests⟩
      obtain ⟨token, rfl⟩ := hserves hdir
      subst hdir
      exact ⟨token, rfl, fun h => hperform.token_fresh hholds (hfresh h)⟩
    | invalidateNodeToken =>
      refine ⟨trivial, hholds', fun _ => ?_, hrequests⟩
      rw [show w' = _ from hperform]
      exact fun hloaded => absurd hloaded Bool.false_ne_true
    | request client method token =>
      refine ⟨hserves, hholds', fun h => hperform.fresh hholds (hfresh h), ?_⟩
      have hfewer : g.requests.length < 2 := hallowed
      rw [show (attempts dir accepted).after g (.request client method token) r =
        { g with requests := g.requests ++ [⟨client, method, token, r⟩] } from rfl]
      simp only [List.length_append, List.length_singleton]
      omega
  interfere := by
    rintro w w' g ⟨hholds, hfresh, hrequests⟩ hstep
    obtain ⟨hholds', hstays⟩ := hinterfere w w' hstep hholds
    exact ⟨hholds', fun h => hstays (hfresh h), hrequests⟩

/-- The last of the requests carried the accepted token and was not refused, and
its response is what the call returns. -/
def Authorised (call : NodeHookClient × String) (accepted : Bytes) (requests : List Answered)
    (out : NodeResult) : Prop :=
  ∃ resp, requests.getLast? = some ⟨call.1, call.2, accepted, .ok resp⟩ ∧
    resp.unauthorized = false ∧ out = ⟨some resp, none⟩

theorem callOnce_follows (hdir : c.runtimeDir = dir) (method : String) {g : Attempt}
    (hg : g.requests.length < 2) :
    (c.callOnce method).Follows (attempts dir accepted) g fun out g' =>
      g'.requests.length = g.requests.length + 1 ∧ g'.invalidated = g.invalidated ∧
      (Authorised (c, method) accepted g'.requests out ∨
        g.invalidated = false ∧ out.err = some .unauthorized) := by
  refine ⟨trivial, fun r hr => ?_⟩
  obtain ⟨token, rfl, htoken⟩ := hr hdir
  refine ⟨hg, fun r hr => ?_⟩
  obtain ⟨resp, rfl, hresp⟩ := hr hdir
  have hlength : (g.requests ++ [(⟨c, method, token, .ok resp⟩ : Answered)]).length =
      g.requests.length + 1 := by simp
  change Prog.Follows _ (if resp.unauthorized then _ else _) _ _
  split
  · next hunauthorized =>
      refine ⟨hlength, rfl, .inr ⟨?_, rfl⟩⟩
      by_contra hinvalidated
      exact hresp.mp hunauthorized (htoken (by simpa using hinvalidated))
  · next hauthorized =>
      obtain rfl : token = accepted := by
        by_contra hother
        exact hauthorized (hresp.mpr hother)
      exact ⟨hlength, rfl, .inl ⟨resp, List.getLast?_concat, by simpa using hauthorized, rfl⟩⟩

theorem call_follows (hdir : c.runtimeDir = dir) (method : String) :
    (c.call method).Follows (attempts dir accepted) ⟨[], false⟩ fun out g =>
      Authorised (c, method) accepted g.requests out := by
  unfold NodeHookClient.call
  rw [Prog.follows_bind]
  apply (callOnce_follows hdir method (by decide)).mono
  rintro out g ⟨hlength, -, hout⟩
  split
  · refine ⟨trivial, fun _ _ => ?_⟩
    have hone : g.requests.length < 2 := by
      rw [hlength]
      decide
    apply (callOnce_follows (g := { g with invalidated := true }) hdir method hone).mono
    rintro out' g' ⟨-, -, hauthorised | ⟨hfalse, _⟩⟩
    · exact hauthorised
    · cases hfalse
  · next hnot =>
      rcases hout with hauthorised | ⟨_, herr⟩
      · exact hauthorised
      · exact absurd herr hnot

theorem attempts_requests (trace : Trace NodeOp NodeOp.Reply TokenState) (g : Attempt) :
    ((attempts dir accepted).afterAll g trace).requests =
      g.requests ++ trace.filterMap answered := by
  induction trace generalizing g with
  | nil => exact (List.append_nil _).symm
  | cons e trace ih =>
    rw [Ghost.afterAll, List.foldl_cons, ← Ghost.afterAll, ih]
    obtain ⟨w, op, r⟩ := e
    cases op with
    | nodeToken dir' | invalidateNodeToken => rfl
    | request client method token => exact List.append_assoc _ _ _

end Rotation

section Pool

variable {ι : Type} [DecidableEq ι]

structure NodeCall where
  client : NodeHookClient
  method : String

abbrev NodeCall.program (call : NodeCall) : NodeProg NodeResult := call.client.call call.method

/-- Any calls at all, while the token files are rewritten at will. -/
abbrev Calling (calls : ι → NodeCall) (w : TokenState)
    (trace : List (ι × Event NodeOp NodeOp.Reply TokenState)) (progs : ι → NodeProg NodeResult)
    (w' : TokenState) : Prop :=
  Pool PerformNode (Rewrites fun _ => True) (fun i => (calls i).program) w trace progs w'

/-- Nothing is cached and nothing was read, as when the agent starts. -/
def TokenState.New (w : TokenState) : Prop := w.cache.loaded = false ∧ w.reads = []

/-- A request carries a token that was read from its own client's directory. -/
theorem request_token_read {calls : ι → NodeCall} {w w' : TokenState}
    {trace : List (ι × Event NodeOp NodeOp.Reply TokenState)} {progs : ι → NodeProg NodeResult}
    (hnew : w.New) (hpool : Calling calls w trace progs w') {i : ι} {before : TokenState}
    {client : NodeHookClient} {method : String} {token : Bytes}
    {r : (NodeOp.request client method token).Reply}
    (hrequest : (i, ⟨before, .request client method token, r⟩) ∈ trace) :
    client = (calls i).client ∧ (client.runtimeDir, token) ∈ before.reads := by
  let interfere (w w' : TokenState) : Prop :=
    Sourced w → Sourced w' ∧ ∀ entry ∈ w.reads, entry ∈ w'.reads
  have hsteps := hpool.steps (fun _ => True) interfere i (fun _ _ => trivial)
    (by
      rintro w w' ⟨files, _, rfl⟩ hsourced
      exact ⟨hsourced, fun _ h => h⟩)
    fun _ _ _ _ hperform => hperform.sourced
  have hview : InHand (calls i).client w none :=
    ⟨fun hloaded => absurd (hnew.1.symm.trans hloaded) Bool.false_ne_true, by simp⟩
  obtain ⟨hevents, _⟩ := hsteps.of_follows
    (provenance_describes interfere (fun _ _ h => h) fun _ => True)
    (call_follows_provenance (calls i).method) hview
  obtain ⟨first, last, hsplit⟩ := List.append_of_mem (mem_ofThread.mpr hrequest)
  obtain ⟨⟨hclient, htoken⟩, _, hhand⟩ := hevents first _ last hsplit
  exact ⟨hclient, hclient ▸ hhand token htoken⟩

theorem NodeHookClient.call_within (c : NodeHookClient) (method : String) :
    (c.call method).Within 5 := by
  have honce : (c.callOnce method).Within 2 := by
    rintro (err | token)
    · trivial
    rintro (err | resp)
    · trivial
    · change Prog.Within (if resp.unauthorized then _ else _) 0
      split <;> trivial
  refine Prog.Within.bind (k := 2) (l := 3) honce fun out => ?_
  split
  · exact fun _ => honce
  · trivial

/-- From the moment on that the token file of a directory holds the token its
hooks accept, a call for the directory that starts makes two requests at most, and
it returns the response to the last of them, which carried this token and was not
refused. It has returned when it has taken five steps. No call ever sends a token
read from a directory other than its own. -/
theorem rotated_call_authorised {calls : ι → NodeCall} {w₀ w w' : TokenState}
    {earlier later : List (ι × Event NodeOp NodeOp.Reply TokenState)}
    {progs progs' : ι → NodeProg NodeResult} {dir : Path} {accepted : Bytes} (hnew : w₀.New)
    (hearlier : Calling calls w₀ earlier progs w)
    (hlater : Pool PerformNode (Rewrites (Holds dir accepted)) progs w later progs' w')
    (hholds : Holds dir accepted w.files)
    (hserves : ∀ i e, (i, e) ∈ later → Serves dir accepted e) :
    (∀ i, (calls i).client.runtimeDir = dir → (∀ e, (i, e) ∉ earlier) →
      ((ofThread i later).filterMap answered).length ≤ 2 ∧
      (5 ≤ (ofThread i later).length → ∃ out, progs' i = .done out) ∧
      ∀ out, progs' i = .done out → Authorised ((calls i).client, (calls i).method) accepted
        ((ofThread i later).filterMap answered) out) ∧
    ∀ i before client method token r,
      (i, ⟨before, .request client method token, r⟩) ∈ earlier ++ later →
      client = (calls i).client ∧ (client.runtimeDir, token) ∈ before.reads := by
  constructor
  · intro i hdir hfirst
    let interfere (w w' : TokenState) : Prop := Holds dir accepted w.files →
      Holds dir accepted w'.files ∧ (Fresh dir accepted w → Fresh dir accepted w')
    have hsteps := hlater.steps (Serves dir accepted) interfere i (hserves i)
      (by
        rintro w w' ⟨files, hkeep, rfl⟩ _
        exact ⟨hkeep, fun h => h⟩)
      fun _ _ _ _ hperform hholds => ⟨hperform.files ▸ hholds, hperform.fresh hholds⟩
    rw [hearlier.untouched hfirst] at hsteps
    have hview : InTime dir accepted w ⟨[], false⟩ := ⟨hholds, by simp, by simp⟩
    obtain ⟨_, ⟨_, _, hrequests⟩, hpost⟩ := hsteps.of_follows
      (attempts_describes interfere fun _ _ h => h) (call_follows hdir (calls i).method) hview
    rw [attempts_requests, List.nil_append] at hrequests hpost
    exact ⟨hrequests, hsteps.returned (NodeHookClient.call_within _ _), hpost⟩
  · intro i before client method token r hrequest
    have hwhole : Calling calls w₀ (earlier ++ later) progs' w' :=
      hearlier.append (hlater.of_env_le fun _ _ ⟨files, _, heq⟩ => ⟨files, trivial, heq⟩)
    exact request_token_read hnew hwhole hrequest

def newToken : Bytes := [110, 101, 119]

def rotatedHost : (op : NodeOp) → TokenState → Option (op.Reply × TokenState)
  | .nodeToken dir, w =>
    match w.files dir with
    | none => none
    | some content =>
      let out := nodeToken w.cache dir (.ok content)
      some (out.1, ⟨out.2, w.files,
        if w.cache.loaded && w.cache.dir == dir then w.reads
        else (dir, trimSpace content) :: w.reads⟩)
  | .invalidateNodeToken, w => some ((), { w with cache := invalidateNodeToken w.cache })
  | .request _ _ token, w =>
    some (.ok (if token = newToken then ⟨true, ""⟩ else ⟨false, "unauthorized"⟩), w)

theorem rotatedHost_performs (op : NodeOp) (w : TokenState) (r : op.Reply) (w' : TokenState)
    (h : rotatedHost op w = some (r, w')) : PerformNode op w r w' := by
  cases op with
  | nodeToken dir =>
    simp only [rotatedHost] at h
    split at h
    · cases h
    · next content hcontent =>
        cases h
        refine ⟨.ok content, fun _ heq => ?_, rfl, rfl, rfl, rfl⟩
        cases heq
        exact hcontent
  | invalidateNodeToken | request client method token =>
    cases h
    rfl

def pingCall : NodeCall := ⟨⟨"/run/yc", 7, "/run/yc/7.sock"⟩, "ping"⟩

def oldFile : TokenState := ⟨⟨"", [], false⟩, fun _ => some [111, 108, 100, 10], []⟩

def pings : Bool → NodeProg NodeResult := fun _ => pingCall.program

def oldCached : TokenState :=
  ⟨⟨"/run/yc", [111, 108, 100], true⟩, oldFile.files, [("/run/yc", [111, 108, 100])]⟩

def rotatedFile : TokenState := { oldCached with files := fun _ => some (newToken ++ [10]) }

theorem holds_newToken : Holds "/run/yc" newToken rotatedFile.files :=
  ⟨by decide, newToken ++ [10], rfl, by decide⟩

/-- One call has cached the old token when the file is rewritten. The call that
starts then is refused, reads the new token and is authorised. -/
theorem rotated_ping_authorised : ∃ earlier later progs progs' w' out,
    Calling (fun _ : Bool => pingCall) oldFile earlier progs rotatedFile ∧
    Pool PerformNode (Rewrites (Holds "/run/yc" newToken)) progs rotatedFile later progs' w' ∧
    progs' true = .done out ∧ ((ofThread true later).filterMap answered).length = 2 ∧
    Authorised (pingCall.client, "ping") newToken ((ofThread true later).filterMap answered)
      out := by
  have hearlier : ∃ out, playPool rotatedHost [false] pings oldFile = some out ∧
      out.2.2 = oldCached ∧ (∀ entry ∈ out.1, entry.1 = false) ∧
      ∃ out', playPool rotatedHost [true, true, true, true, true] out.2.1 rotatedFile = some out' ∧
        (∃ result, out'.2.1 true = .done result) ∧
        ((ofThread true out'.1).filterMap answered).length = 2 ∧
        ∀ entry ∈ out'.1, Serves "/run/yc" newToken entry.2 := by
    refine ⟨_, rfl, rfl, ?_, _, rfl, ⟨_, rfl⟩, rfl, ?_⟩
    · simp
    · intro entry hentry
      simp only [List.mem_cons, List.not_mem_nil, or_false] at hentry
      rcases hentry with rfl | rfl | rfl | rfl | rfl
      · exact fun _ => ⟨_, rfl⟩
      · exact fun _ => ⟨_, rfl, by decide⟩
      · exact trivial
      · exact fun _ => ⟨_, rfl⟩
      · exact fun _ => ⟨_, rfl, by decide⟩
  obtain ⟨⟨earlier, progs, w⟩, hearlier, rfl, hfirst, ⟨later, progs', w'⟩, hlater, ⟨out, hout⟩,
    hcount, hserves⟩ := hearlier
  have hrewritten : Calling (fun _ : Bool => pingCall) oldFile earlier progs rotatedFile := by
    have hrewrite : Rewrites (fun _ => True) oldCached rotatedFile := ⟨_, trivial, rfl⟩
    have hpool := (playPool_pool rotatedHost_performs hearlier).append (.env hrewrite .rest)
    rwa [List.append_nil] at hpool
  have hpool : Pool PerformNode (Rewrites (Holds "/run/yc" newToken)) progs rotatedFile later
      progs' w' := playPool_pool rotatedHost_performs hlater
  refine ⟨earlier, later, progs, progs', w', out, hrewritten, hpool, hout, hcount, ?_⟩
  have hauthorised := (rotated_call_authorised ⟨rfl, rfl⟩ hrewritten hpool holds_newToken
    fun i e he => hserves (i, e) he).1 true rfl fun e he => by cases hfirst _ he
  exact hauthorised.2.2 out hout

end Pool

end YcAgent.Capture
