import Mathlib.Data.List.Nodup
import YcAgent.Go.Stream

/-!
The two loops that read the pages of a Boomi query. Each page has a token with
which the next one is asked for; the last one has the empty token, and the empty
token asks for the first page. The loops never look at the token: they go on
until they have as many records as the page at hand says there are in all. If no
page says so in time, the first page is read again after the last one.
-/

namespace YcAgent.Capture.Boomi

open Go

/-- A value in a JSON array; a number is what `int(value)` makes of it. -/
inductive JsonItem where
  | float64 (value : Int)
  | other

/-- The fields of an execution record that are written to `boomi.out`. -/
structure ExecutionRecord where
  executionID : Bytes
  executionTime : Bytes
  status : Bytes
  processName : Bytes
  atomName : Bytes
  atomID : Bytes
  executionDuration : List JsonItem

structure AtomConnector where
  type : Bytes
  atomType : Bytes
  name : Bytes

variable {α : Type}

/-- A page, as `BoomiExecutionRecordQueryResult` and
`AtomConnectorRecordQueryResult` have it. -/
structure QueryResult (α : Type) where
  result : List α
  queryToken : String
  numberOfResults : Int

inductive Reply (α : Type) where
  | failed (err : String)
  | answered (statusCode : Nat) (body : Except String (QueryResult α))

/-- A `POST` to the URL of the query, or to that URL with `More` at its end and
the token as its body. -/
inductive Request where
  | query
  | queryMore (token : String)
  deriving DecidableEq

/-- The choice that `makeBoomiRequest` and `makeAtomConnectorsRequest` make. -/
def makeRequest (queryToken : String) : Request :=
  if queryToken = "" then .query else .queryMore queryToken

/-- What the two loops differ in: when there are enough records, and whether a
request that fails is reported. More records are never too few. -/
structure Fetcher where
  enough : Nat → Int → Bool
  requestError : String → Option String
  enough_mono : ∀ {total total' : Nat} {n : Int}, total ≤ total' → enough total n = true →
    enough total' n = true

def executionFetcher : Fetcher where
  enough totalRecordCount numberOfResults :=
    totalRecordCount ≥ 10000 || (totalRecordCount : Int) ≥ numberOfResults
  requestError err := some ("failed to make Boomi request: " ++ err)
  enough_mono hle henough := by
    simp only [ge_iff_le, Bool.or_eq_true, decide_eq_true_eq] at henough ⊢
    omega

/-- The error of the request is not looked at; the response then has no status
code of 200. -/
def connectorFetcher : Fetcher where
  enough totalRecordCount numberOfResults := (totalRecordCount : Int) ≥ numberOfResults
  requestError _ := none
  enough_mono hle henough := by
    simp only [ge_iff_le, decide_eq_true_eq] at henough ⊢
    omega

structure Fetched (α : Type) where
  records : List α
  err : Option String

structure FetchState (α : Type) where
  records : List α
  totalRecordCount : Nat
  queryToken : String

namespace Fetcher

variable (f : Fetcher)

/-- The loop over the records of a page, and whether it has stopped the fetch. -/
def addRecords (numberOfResults : Int) : List α → FetchState α → FetchState α × Bool
  | [], s => (s, false)
  | record :: rest, s =>
    let s' := { s with
      records := s.records ++ [record], totalRecordCount := s.totalRecordCount + 1 }
    if f.enough s'.totalRecordCount numberOfResults then (s', true)
    else addRecords numberOfResults rest s'

/-- One turn of the loop over the pages. -/
def turn (s : FetchState α) : Reply α → Fetched α ⊕ FetchState α
  | .failed err => .inl ⟨s.records, f.requestError err⟩
  | .answered statusCode body =>
    if statusCode ≠ 200 then .inl ⟨s.records, none⟩
    else
      match body with
      | .error err => .inl ⟨s.records, some ("error unmarshalling Boomi response as JSON: " ++ err)⟩
      | .ok queryResult =>
        if queryResult.result.isEmpty then .inl ⟨s.records, none⟩
        else
          match f.addRecords queryResult.numberOfResults queryResult.result s with
          | (s', true) => .inl ⟨s'.records, none⟩
          | (s', false) => .inr { s' with queryToken := queryResult.queryToken }

/-- The loop over the pages, with the requests it makes; `none` if it is not over
after `fuel` turns. -/
def fetchFrom (server : Request → Reply α) : Nat → FetchState α → Option (Fetched α × List Request)
  | 0, _ => none
  | fuel + 1, s =>
    let request := makeRequest s.queryToken
    match f.turn s (server request) with
    | .inl fetched => some (fetched, [request])
    | .inr s' => (fetchFrom server fuel s').map fun run => (run.1, request :: run.2)

end Fetcher

def FetchState.initial : FetchState α := ⟨[], 0, ""⟩

def fetchBoomiExecutionRecords (server : Request → Reply ExecutionRecord) (fuel : Nat) :
    Option (Fetched ExecutionRecord × List Request) :=
  executionFetcher.fetchFrom server fuel .initial

def fetchAtomConnectorDetails (server : Request → Reply AtomConnector) (fuel : Nat) :
    Option (Fetched AtomConnector × List Request) :=
  connectorFetcher.fetchFrom server fuel .initial

structure Link (α : Type) where
  token : String
  result : List α
  numberOfResults : Int

/-- Pages that are not empty, linked by distinct tokens. The first one is asked for
with the empty token, which is also the token in the last one. -/
structure PageChain (α : Type) where
  first : Link α
  more : List (Link α)
  first_token : first.token = ""
  distinct : ((first :: more).map Link.token).Nodup
  filled : ∀ link ∈ first :: more, link.result ≠ []

def PageChain.links (chain : PageChain α) : List (Link α) := chain.first :: chain.more

/-- The token in a page that `rest` follows. -/
def nextToken : List (Link α) → String
  | [] => ""
  | link :: _ => link.token

def recordsOf (links : List (Link α)) : List α := links.flatMap Link.result

def servePage (token : String) : List (Link α) → Reply α
  | [] => .answered 400 (.error "unknown token")
  | link :: rest =>
    if token = link.token then
      .answered 200 (.ok ⟨link.result, nextToken rest, link.numberOfResults⟩)
    else servePage token rest

def PageChain.serve (chain : PageChain α) : Request → Reply α
  | .query => servePage "" chain.links
  | .queryMore token => servePage token chain.links

/-- The fetch is over after some turns, has asked for no page twice, and returns the
first records of the chain. -/
def OncePerPage (fetch : Nat → Option (Fetched α × List Request)) (chain : PageChain α) : Prop :=
  ∃ fuel fetched sent, fetch fuel = some (fetched, sent) ∧ fetched.err = none ∧ sent.Nodup ∧
    fetched.records <+: recordsOf chain.links

theorem makeRequest_injective : Function.Injective makeRequest := by
  intro token token' h
  unfold makeRequest at h
  split at h
  · next hempty =>
      split at h
      · next hempty' => rw [hempty, hempty']
      · cases h
  · split at h
    · cases h
    · exact Request.queryMore.inj h

theorem serve_makeRequest (chain : PageChain α) (token : String) :
    chain.serve (makeRequest token) = servePage token chain.links := by
  unfold makeRequest
  split
  · next hempty => rw [hempty, PageChain.serve]
  · rfl

theorem servePage_append {done : List (Link α)} {link : Link α}
    (hnew : link.token ∉ done.map Link.token) (rest : List (Link α)) :
    servePage link.token (done ++ link :: rest) =
      .answered 200 (.ok ⟨link.result, nextToken rest, link.numberOfResults⟩) := by
  induction done with
  | nil => rw [List.nil_append, servePage, if_pos rfl]
  | cons earlier done ih =>
    rw [List.map_cons, List.mem_cons, not_or] at hnew
    rw [List.cons_append, servePage, if_neg hnew.1, ih hnew.2]

theorem PageChain.serve_link (chain : PageChain α) {done rest : List (Link α)} {link : Link α}
    (hlinks : chain.links = done ++ link :: rest) :
    chain.serve (makeRequest link.token) =
      .answered 200 (.ok ⟨link.result, nextToken rest, link.numberOfResults⟩) := by
  have hdistinct := chain.distinct
  rw [← PageChain.links, hlinks, List.map_append, List.map_cons] at hdistinct
  have hnew : link.token ∉ done.map Link.token := fun hmem =>
    (List.nodup_append.1 hdistinct).2.2 _ hmem _ List.mem_cons_self rfl
  rw [serve_makeRequest, hlinks, servePage_append hnew]

namespace Fetcher

variable (f : Fetcher) {n : Int}

theorem addRecords_through {result records : List α} {total : Nat} {token : String}
    (h : f.enough (total + result.length) n = false) :
    f.addRecords n result ⟨records, total, token⟩ =
      (⟨records ++ result, total + result.length, token⟩, false) := by
  induction result generalizing records total with
  | nil => rw [addRecords, List.append_nil, List.length_nil, Nat.add_zero]
  | cons record rest ih =>
    rw [List.length_cons, Nat.add_comm rest.length, ← Nat.add_assoc] at h
    have hmore : ¬ (f.enough (total + 1) n = true) := by
      intro henough
      rw [f.enough_mono (Nat.le_add_right (total + 1) rest.length) henough] at h
      cases h
    simp only [addRecords]
    rw [if_neg hmore, ih h]
    simp [Nat.add_assoc, Nat.add_comm 1]

theorem addRecords_stopped {result records : List α} {total : Nat} {token : String}
    (hne : result ≠ []) (h : f.enough (total + result.length) n = true) :
    ∃ taken, taken <+: result ∧ f.addRecords n result ⟨records, total, token⟩ =
      (⟨records ++ taken, total + taken.length, token⟩, true) := by
  induction result generalizing records total with
  | nil => exact absurd rfl hne
  | cons record rest ih =>
    rw [List.length_cons, Nat.add_comm rest.length, ← Nat.add_assoc] at h
    simp only [addRecords]
    by_cases henough : f.enough (total + 1) n = true
    · exact ⟨[record], List.prefix_append [record] rest, by rw [if_pos henough]; rfl⟩
    · have hrest : rest ≠ [] := by
        rintro rfl
        exact henough h
      obtain ⟨taken, htaken, hrun⟩ : ∃ taken, taken <+: rest ∧
          f.addRecords n rest ⟨records ++ [record], total + 1, token⟩ =
            (⟨records ++ [record] ++ taken, total + 1 + taken.length, token⟩, true) := ih hrest h
      refine ⟨record :: taken, List.cons_prefix_cons.2 ⟨rfl, htaken⟩, ?_⟩
      rw [if_neg henough, hrun]
      simp [Nat.add_assoc, Nat.add_comm 1]

def before (done rest : List (Link α)) : FetchState α :=
  ⟨recordsOf done, (recordsOf done).length, nextToken rest⟩

def StopsAt (done : List (Link α)) (link : Link α) : Prop :=
  f.enough (recordsOf (done ++ [link])).length link.numberOfResults = true

variable {chain : PageChain α} {done rest : List (Link α)} {link : Link α}

private theorem length_recordsOf_append :
    (recordsOf (done ++ [link])).length = (recordsOf done).length + link.result.length := by
  simp [recordsOf]

private theorem not_isEmpty (hlinks : chain.links = done ++ link :: rest) :
    ¬ (link.result.isEmpty = true) := by
  have hmem : link ∈ chain.links := by simp [hlinks]
  rw [List.isEmpty_iff]
  exact chain.filled link hmem

theorem fetchFrom_stops (hlinks : chain.links = done ++ link :: rest) (hstops : f.StopsAt done link)
    (fuel : Nat) :
    ∃ taken, taken <+: link.result ∧
      f.fetchFrom chain.serve (fuel + 1) (before done (link :: rest)) =
        some (⟨recordsOf done ++ taken, none⟩, [makeRequest link.token]) := by
  have hne : link.result ≠ [] := fun hnil => not_isEmpty hlinks (by rw [hnil]; rfl)
  rw [StopsAt, length_recordsOf_append] at hstops
  obtain ⟨taken, htaken, hadd⟩ : ∃ taken, taken <+: link.result ∧
      f.addRecords link.numberOfResults link.result (before done (link :: rest)) =
        (⟨recordsOf done ++ taken, (recordsOf done).length + taken.length, link.token⟩, true) :=
    f.addRecords_stopped hne hstops
  refine ⟨taken, htaken, ?_⟩
  have hturn : f.turn (before done (link :: rest)) (chain.serve (makeRequest link.token)) =
      .inl ⟨recordsOf done ++ taken, none⟩ := by
    rw [chain.serve_link hlinks, turn, if_neg (by decide)]
    simp only [if_neg (not_isEmpty hlinks), hadd]
  have hrequest : (before done (link :: rest)).queryToken = link.token := rfl
  rw [fetchFrom, hrequest]
  simp only [hturn]

theorem fetchFrom_goes_on (hlinks : chain.links = done ++ link :: rest)
    (hstops : ¬ f.StopsAt done link) (fuel : Nat) :
    f.fetchFrom chain.serve (fuel + 1) (before done (link :: rest)) =
      (f.fetchFrom chain.serve fuel (before (done ++ [link]) rest)).map
        fun run => (run.1, makeRequest link.token :: run.2) := by
  rw [StopsAt, length_recordsOf_append, Bool.not_eq_true] at hstops
  have hturn : f.turn (before done (link :: rest)) (chain.serve (makeRequest link.token)) =
      .inr (before (done ++ [link]) rest) := by
    have hadd : f.addRecords link.numberOfResults link.result (before done (link :: rest)) =
        (⟨recordsOf done ++ link.result, (recordsOf done).length + link.result.length, link.token⟩,
          false) := f.addRecords_through hstops
    rw [chain.serve_link hlinks, turn, if_neg (by decide)]
    simp only [if_neg (not_isEmpty hlinks), hadd]
    simp [before, recordsOf]
  have hrequest : (before done (link :: rest)).queryToken = link.token := rfl
  rw [fetchFrom, hrequest]
  simp only [hturn]

def StopsIn (done rest : List (Link α)) : Prop :=
  ∃ front link back, rest = front ++ link :: back ∧ f.StopsAt (done ++ front) link

theorem stopsIn_cons :
    f.StopsIn done (link :: rest) ↔ f.StopsAt done link ∨ f.StopsIn (done ++ [link]) rest := by
  constructor
  · rintro ⟨front, stop, back, hrest, hstops⟩
    cases front with
    | nil =>
      rw [List.nil_append, List.cons.injEq] at hrest
      rw [List.append_nil] at hstops
      exact .inl (hrest.1 ▸ hstops)
    | cons head front =>
      rw [List.cons_append, List.cons.injEq] at hrest
      obtain ⟨rfl, hrest⟩ := hrest
      right
      refine ⟨front, stop, back, hrest, ?_⟩
      rwa [List.append_assoc]
  · rintro (hstops | ⟨front, stop, back, hrest, hstops⟩)
    · exact ⟨[], link, rest, rfl, by rwa [List.append_nil]⟩
    · refine ⟨link :: front, stop, back, by rw [hrest]; rfl, ?_⟩
      rwa [List.append_assoc] at hstops

def requestOf (link : Link α) : Request := makeRequest link.token

theorem fetchFrom_of_stopsIn (hlinks : chain.links = done ++ rest) (hstops : f.StopsIn done rest) :
    ∃ fuel fetched sent, f.fetchFrom chain.serve fuel (before done rest) = some (fetched, sent) ∧
      fetched.err = none ∧ sent <+: rest.map requestOf ∧
        fetched.records <+: recordsOf chain.links := by
  induction rest generalizing done with
  | nil =>
    obtain ⟨front, link, back, hrest, -⟩ := hstops
    simp at hrest
  | cons link rest ih =>
    by_cases hhere : f.StopsAt done link
    · obtain ⟨taken, htaken, hrun⟩ := f.fetchFrom_stops hlinks hhere 0
      refine ⟨1, _, _, hrun, rfl, List.prefix_append [requestOf link] _, ?_⟩
      have hrecords : recordsOf chain.links =
          recordsOf done ++ (link.result ++ recordsOf rest) := by
        simp [hlinks, recordsOf]
      rw [hrecords]
      exact List.prefix_append_right_inj _ |>.2 (htaken.trans (List.prefix_append _ _))
    · have hlater := (f.stopsIn_cons.1 hstops).resolve_left hhere
      obtain ⟨fuel, fetched, sent, hrun, herr, hsent, hrecords⟩ :=
        ih (by rw [hlinks, List.append_assoc]; rfl) hlater
      refine ⟨fuel + 1, fetched, makeRequest link.token :: sent, ?_, herr, ?_, hrecords⟩
      · rw [f.fetchFrom_goes_on hlinks hhere, hrun]
        rfl
      · exact List.cons_prefix_cons.2 ⟨rfl, hsent⟩

private theorem fetchFrom_first {server : Request → Reply α} {fuel : Nat} {s : FetchState α}
    {fetched : Fetched α} {sent : List Request}
    (hrun : f.fetchFrom server fuel s = some (fetched, sent)) :
    ∃ later, sent = makeRequest s.queryToken :: later := by
  cases fuel with
  | zero => cases hrun
  | succ fuel =>
    simp only [fetchFrom] at hrun
    split at hrun
    · cases hrun
      exact ⟨[], rfl⟩
    · obtain ⟨run, -, heq⟩ := Option.map_eq_some_iff.1 hrun
      cases heq
      exact ⟨run.2, rfl⟩

/-- If no page stops the loop, the request after the last one is the first one again. -/
theorem fetchFrom_of_not_stopsIn (hlinks : chain.links = done ++ rest)
    (hstops : ¬ f.StopsIn done rest) {fuel : Nat} {fetched : Fetched α} {sent : List Request}
    (hrun : f.fetchFrom chain.serve fuel (before done rest) = some (fetched, sent)) :
    ∃ later, sent = rest.map requestOf ++ Request.query :: later := by
  induction rest generalizing done fuel sent with
  | nil => exact f.fetchFrom_first hrun
  | cons link rest ih =>
    rw [stopsIn_cons, not_or] at hstops
    cases fuel with
    | zero => cases hrun
    | succ fuel =>
      rw [f.fetchFrom_goes_on hlinks hstops.1] at hrun
      obtain ⟨run, hmore, heq⟩ := Option.map_eq_some_iff.1 hrun
      cases heq
      obtain ⟨later, hlater⟩ := ih (by rw [hlinks, List.append_assoc]; rfl) hstops.2 hmore
      exact ⟨later, by rw [hlater]; rfl⟩

private theorem initial_eq_before (chain : PageChain α) :
    (FetchState.initial : FetchState α) = before [] chain.links := by
  have htoken : nextToken chain.links = "" := chain.first_token
  rw [before, htoken]
  rfl

theorem oncePerPage_iff (chain : PageChain α) :
    OncePerPage (fun fuel => f.fetchFrom chain.serve fuel .initial) chain ↔
      f.StopsIn [] chain.links := by
  have hdistinct : (chain.links.map requestOf).Nodup := by
    have hmap : chain.links.map requestOf = (chain.links.map Link.token).map makeRequest := by
      rw [List.map_map]
      rfl
    rw [hmap]
    exact List.Nodup.map makeRequest_injective chain.distinct
  rw [OncePerPage, initial_eq_before chain]
  constructor
  · rintro ⟨fuel, fetched, sent, hrun, -, hsent, -⟩
    by_contra hstops
    obtain ⟨later, rfl⟩ := f.fetchFrom_of_not_stopsIn rfl hstops hrun
    have hfirst : Request.query ∈ chain.links.map requestOf := by
      have hquery : requestOf chain.first = Request.query := by
        rw [requestOf, chain.first_token]
        rfl
      rw [← hquery]
      exact List.mem_map_of_mem List.mem_cons_self
    exact (List.nodup_append.1 hsent).2.2 _ hfirst _ List.mem_cons_self rfl
  · intro hstops
    obtain ⟨fuel, fetched, sent, hrun, herr, hsent, hrecords⟩ := f.fetchFrom_of_stopsIn rfl hstops
    exact ⟨fuel, fetched, sent, hrun, herr, hdistinct.sublist hsent.sublist, hrecords⟩

end Fetcher

theorem executionFetcher_enough (total : Nat) (n : Int) :
    executionFetcher.enough total n = true ↔ 10000 ≤ total ∨ n ≤ (total : Int) := by
  simp [executionFetcher]

theorem connectorFetcher_enough (total : Nat) (n : Int) :
    connectorFetcher.enough total n = true ↔ n ≤ (total : Int) := by
  simp [connectorFetcher]

/-- Each fetch does what it should just in case some page says, when it is read,
that there are no more records in all than have been read by its end (or, for the
execution records, 10000 have been). -/
theorem fetches_once_per_page_iff (executions : PageChain ExecutionRecord)
    (connectors : PageChain AtomConnector) :
    (OncePerPage (fetchBoomiExecutionRecords executions.serve) executions ↔
      ∃ done page rest, executions.links = done ++ page :: rest ∧
        (10000 ≤ (recordsOf (done ++ [page])).length ∨
          page.numberOfResults ≤ ((recordsOf (done ++ [page])).length : Int))) ∧
    (OncePerPage (fetchAtomConnectorDetails connectors.serve) connectors ↔
      ∃ done page rest, connectors.links = done ++ page :: rest ∧
        page.numberOfResults ≤ ((recordsOf (done ++ [page])).length : Int)) := by
  constructor
  · apply (executionFetcher.oncePerPage_iff executions).trans
    simp only [Fetcher.StopsIn, Fetcher.StopsAt, executionFetcher_enough, List.nil_append]
  · apply (connectorFetcher.oncePerPage_iff connectors).trans
    simp only [Fetcher.StopsIn, Fetcher.StopsAt, connectorFetcher_enough, List.nil_append]

def shortChain (record : α) : PageChain α where
  first := ⟨"", [record], 2⟩
  more := []
  first_token := rfl
  distinct := by simp
  filled := by simp

def sampleExecution : ExecutionRecord := ⟨[], [], [], [], [], [], []⟩

def sampleConnector : AtomConnector := ⟨[], [], []⟩

private theorem not_oncePerPage_shortChain {f : Fetcher} (h : f.enough 1 2 = false) (record : α) :
    ¬ OncePerPage (fun fuel => f.fetchFrom (shortChain record).serve fuel .initial)
      (shortChain record) := by
  rw [f.oncePerPage_iff]
  intro hstops
  rcases f.stopsIn_cons.1 hstops with hhere | ⟨front, link, back, hrest, -⟩
  · have henough : f.enough 1 2 = true := hhere
    rw [h] at henough
    cases henough
  · simp [shortChain] at hrest

/-- The page is read twice, and so is its record. -/
theorem shortChain_read_twice :
    fetchBoomiExecutionRecords (shortChain sampleExecution).serve 2 =
      some (⟨[sampleExecution, sampleExecution], none⟩, [.query, .query]) ∧
    fetchAtomConnectorDetails (shortChain sampleConnector).serve 2 =
      some (⟨[sampleConnector, sampleConnector], none⟩, [.query, .query]) ∧
    ¬ OncePerPage (fetchBoomiExecutionRecords (shortChain sampleExecution).serve)
      (shortChain sampleExecution) ∧
    ¬ OncePerPage (fetchAtomConnectorDetails (shortChain sampleConnector).serve)
      (shortChain sampleConnector) := by
  refine ⟨rfl, rfl, ?_, ?_⟩
  · exact not_oncePerPage_shortChain (f := executionFetcher) rfl sampleExecution
  · exact not_oncePerPage_shortChain (f := connectorFetcher) rfl sampleConnector

end YcAgent.Capture.Boomi
