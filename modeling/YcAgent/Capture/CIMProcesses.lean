import YcAgent.Capture.TopProcess

/-!
`getFilteredCIMProcesses`: process discovery on Windows, where a process is one
object of a list with its whole command line. The tokens are the outer loop
here and the processes the inner one. A token that is the pid of a process
matches that process, and like any other token it also matches where it occurs
in a command line.
-/

namespace YcAgent.Capture

open Go Lib.Search

structure ParsedToken where
  stringToken : Bytes
  intToken : Int
  isIntToken : Bool
  appName : Bytes

structure CIMProcess where
  processName : Bytes
  commandLine : Bytes
  processId : Int
deriving DecidableEq

structure ProcessWithAppName extends CIMProcess where
  appName : Bytes
deriving DecidableEq

def parseToken (t : Bytes) : ParsedToken :=
  let (tokenStr, appName) := splitToken t
  let (intVal, err) := atoiResults (text tokenStr)
  ⟨tokenStr, intVal, err.isNone && 0 < intVal, appName⟩

def parseTokens (tokens : List Bytes) : List ParsedToken := tokens.map parseToken

def ParsedToken.matched (token : ParsedToken) (p : CIMProcess) : Bool :=
  if token.isIntToken && p.processId == token.intToken then true
  else (index p.commandLine token.stringToken).isSome

namespace Discovery

variable (q : Discovery)

/-- The pids not to report: the agent's own and those of the processes with an
exclude token in their command line. -/
def excludedProcesses (processes : List CIMProcess) : GoMap Int Bool :=
  processes.foldl
    (fun pids p => if q.excluded p.commandLine then pids.insert p.processId true else pids)
    (AList.insert q.cpid true ∅)

def matchProcess (excludedPids : GoMap Int Bool) (token : ParsedToken) (pids : GoMap Int Bytes)
    (p : CIMProcess) : GoMap Int Bytes :=
  if (excludedPids.lookup p.processId).getD false then pids
  else if token.matched p then pids.recordFirst p.processId token.appName
  else pids

def matchedProcesses (processes : List CIMProcess) : GoMap Int Bytes :=
  (parseTokens q.tokens).foldl
    (fun pids token => processes.foldl (matchProcess (q.excludedProcesses processes) token) pids) ∅

/-- `getFilteredCIMProcesses`, given the list that was decoded. -/
def getFilteredCIMProcesses {ε : Type} (cimProcessList : Except ε (List CIMProcess)) :
    Except ε (List ProcessWithAppName) := do
  let processes ← cimProcessList
  return processes.filterMap fun p =>
    ((q.matchedProcesses processes).lookup p.processId).map (ProcessWithAppName.mk p)

/-- The agent itself and a process with an exclude token are not reported. -/
def ruledOut (p : CIMProcess) : Bool := p.processId = q.cpid || q.excluded p.commandLine

end Discovery

/-- The token is found for the process: as its pid or in its command line. -/
def foundFor (p : CIMProcess) (t : Bytes) : Bool :=
  matchedBy p.processId p.commandLine t || contained p.commandLine t

/-- Pids as they are given out: no two processes of the list have the same one. -/
structure DistinctPids (processes : List CIMProcess) : Prop where
  nodup : (processes.map CIMProcess.processId).Nodup

theorem DistinctPids.eq {processes : List CIMProcess} (h : DistinctPids processes)
    {p p' : CIMProcess} (hp : p ∈ processes) (hp' : p' ∈ processes)
    (hpid : p.processId = p'.processId) : p = p' :=
  List.inj_on_of_nodup_map h.nodup hp hp' hpid

theorem parseToken_appName (t : Bytes) : (parseToken t).appName = (splitToken t).2 := rfl

theorem parseToken_matched {t : Bytes} (hpos : ∀ n ∈ tokenNumber t, 0 < n) (p : CIMProcess) :
    (parseToken t).matched p = foundFor p t := by
  unfold foundFor matchedBy
  cases hnumber : tokenNumber t with
  | none =>
    have hresults : (atoiResults (text (splitToken t).1)).2.isNone = false := by
      rw [Option.isNone_eq_false_iff]
      exact atoiResults_error hnumber
    simp [parseToken, ParsedToken.matched, contained, hresults]
  | some n =>
    have hresults : atoiResults (text (splitToken t).1) = (n, none) := atoiResults_fst hnumber
    have hn : 0 < n := hpos n hnumber
    by_cases hpid : n = p.processId
    · rw [hpid] at hn
      simp [parseToken, ParsedToken.matched, hresults, hpid, hn]
    · simp [parseToken, ParsedToken.matched, contained, hresults, hn, hpid, Ne.symm hpid]

/-- Of the tokens found for a process, the pids of others do not match it. -/
theorem matchedBy_eq (p : CIMProcess) (t : Bytes) :
    matchedBy p.processId p.commandLine t = (foundFor p t && !isOther p.processId t) := by
  unfold foundFor matchedBy isOther
  cases tokenNumber t with
  | none => simp
  | some n =>
    by_cases hn : n = p.processId
    · simp [hn]
    · simp [hn]

namespace Discovery

variable (q : Discovery)

theorem lookup_excludedProcesses (processes : List CIMProcess) (pid : Int) :
    ((q.excludedProcesses processes).lookup pid).getD false =
      (decide (pid = q.cpid) ||
        processes.any fun p => p.processId = pid && q.excluded p.commandLine) := by
  have hrounds (m : GoMap Int Bool) :
      ((processes.foldl (fun pids p =>
        if q.excluded p.commandLine then AList.insert p.processId true pids else pids) m).lookup
          pid).getD false =
        ((m.lookup pid).getD false ||
          processes.any fun p => p.processId = pid && q.excluded p.commandLine) := by
    induction processes generalizing m with
    | nil => simp
    | cons p rest ih =>
      rw [List.foldl_cons, ih, List.any_cons]
      by_cases hout : q.excluded p.commandLine = true
      · by_cases hpid : p.processId = pid
        · simp [hout, hpid]
        · simp [hout, hpid, AList.lookup_insert_ne (Ne.symm hpid)]
      · simp [hout]
  rw [excludedProcesses, hrounds]
  by_cases hown : pid = q.cpid
  · rw [hown, AList.lookup_insert]
    simp
  · rw [AList.lookup_insert_ne hown, AList.lookup_empty]
    simp [hown]

/-- With distinct pids, the pids that are excluded are those of the processes
that are. -/
theorem lookup_excluded {processes : List CIMProcess} (h : DistinctPids processes)
    {p : CIMProcess} (hp : p ∈ processes) :
    ((q.excludedProcesses processes).lookup p.processId).getD false = q.ruledOut p := by
  have hany : (processes.any fun p' => p'.processId = p.processId && q.excluded p'.commandLine) =
      q.excluded p.commandLine := by
    apply Bool.eq_iff_iff.mpr
    rw [List.any_eq_true]
    constructor
    · intro hexists
      obtain ⟨p', hp', hboth⟩ := hexists
      obtain ⟨hpid, hout⟩ := Bool.and_eq_true_iff.mp hboth
      rwa [h.eq hp' hp (of_decide_eq_true hpid)] at hout
    · intro hout
      exact ⟨p, hp, by simp [hout]⟩
  rw [lookup_excludedProcesses, hany, ruledOut]

def nameGiven (processes : List CIMProcess) (token : ParsedToken) (pid : Int) (p : CIMProcess) :
    Option Bytes :=
  if !((q.excludedProcesses processes).lookup p.processId).getD false && token.matched p &&
    p.processId = pid then some token.appName else none

theorem lookup_matchProcess (processes : List CIMProcess) (token : ParsedToken)
    (pids : GoMap Int Bytes) (p : CIMProcess) (pid : Int) :
    (matchProcess (q.excludedProcesses processes) token pids p).lookup pid =
      (pids.lookup pid).or (q.nameGiven processes token pid p) := by
  unfold matchProcess nameGiven
  by_cases hout : ((q.excludedProcesses processes).lookup p.processId).getD false = true
  · simp [hout]
  · by_cases hmatched : token.matched p = true
    · simp [hout, hmatched, GoMap.lookup_recordFirst]
    · simp [hout, hmatched]

theorem lookup_matchedProcesses (processes : List CIMProcess) (pid : Int) :
    (q.matchedProcesses processes).lookup pid =
      (parseTokens q.tokens).findSome? fun token =>
        processes.findSome? (q.nameGiven processes token pid) := by
  have hround (m : GoMap Int Bytes) (token : ParsedToken) :
      (processes.foldl (matchProcess (q.excludedProcesses processes) token) m).lookup pid =
        (m.lookup pid).or (processes.findSome? (q.nameGiven processes token pid)) :=
    GoMap.lookup_foldl (fun m p => q.lookup_matchProcess processes token m p pid) processes m
  rw [matchedProcesses, GoMap.lookup_foldl hround, AList.lookup_empty, Option.none_or]

theorem lookup_matched {processes : List CIMProcess} (h : DistinctPids processes)
    (htokens : ∀ t ∈ q.tokens, ∀ n ∈ tokenNumber t, 0 < n) {p : CIMProcess} (hp : p ∈ processes) :
    (q.matchedProcesses processes).lookup p.processId =
      if q.ruledOut p then none
      else (q.tokens.find? (foundFor p)).bind fun t => some (splitToken t).2 := by
  have hinner (token : ParsedToken) :
      processes.findSome? (q.nameGiven processes token p.processId) =
        if !q.ruledOut p && token.matched p then some token.appName else none := by
    have honly : ∀ p' ∈ processes, q.nameGiven processes token p.processId p' ≠ none → p' = p := by
      intro p' hp' hgiven
      apply h.eq hp' hp
      by_contra hpid
      exact hgiven (by simp [nameGiven, hpid])
    rw [findSome?_of_only hp honly, nameGiven, q.lookup_excluded h hp]
    simp
  simp only [lookup_matchedProcesses, hinner, parseTokens, List.findSome?_map]
  cases hout : q.ruledOut p with
  | true => simp
  | false =>
    apply findSome?_eq_find?_bind
    · intro t _
      rfl
    · intro t ht
      simp only [Function.comp_apply, Bool.not_false, Bool.true_and,
        parseToken_matched (htokens t ht) p, parseToken_appName]

/-- What the Unix discovery means by the tokens: a number stands for a pid only,
and the first token that matches names the process. -/
def expectedProcesses (processes : List CIMProcess) : List ProcessWithAppName :=
  processes.filterMap fun p =>
    if q.ruledOut p then none
    else (q.tokens.find? (matchedBy p.processId p.commandLine)).map fun t =>
      ⟨p, (splitToken t).2⟩

/-- On every list of processes with distinct pids, the result is the expected one
if and only if no process has, as the first token found for it, the pid of
another process, unless its first token that matches has the same name. -/
theorem filtered_as_expected_iff {ε : Type} (processes : List CIMProcess)
    (h : DistinctPids processes) (htokens : ∀ t ∈ q.tokens, ∀ n ∈ tokenNumber t, 0 < n) :
    q.getFilteredCIMProcesses (ε := ε) (.ok processes) = .ok (q.expectedProcesses processes) ↔
      ∀ p ∈ processes, q.ruledOut p = false →
        ∀ t, q.tokens.find? (foundFor p) = some t → isOther p.processId t = true →
          ∃ t', q.tokens.find? (matchedBy p.processId p.commandLine) = some t' ∧
            (splitToken t').2 = (splitToken t).2 := by
  have hexpected : q.expectedProcesses processes = processes.filterMap fun p =>
      (if q.ruledOut p then none
        else (q.tokens.find? (matchedBy p.processId p.commandLine)).bind fun t =>
          some (splitToken t).2).map (ProcessWithAppName.mk p) := by
    apply List.filterMap_congr
    intro p _
    cases q.ruledOut p with
    | true => rfl
    | false =>
      cases q.tokens.find? (matchedBy p.processId p.commandLine) with
      | none => rfl
      | some t => rfl
  have htag : ∀ (p : CIMProcess) (name : Bytes) (p' : CIMProcess) (name' : Bytes),
      ProcessWithAppName.mk p name = ProcessWithAppName.mk p' name' → p = p' ∧ name = name' := by
    intro p name p' name' heq
    exact ProcessWithAppName.mk.inj heq
  have hresult : q.getFilteredCIMProcesses (ε := ε) (.ok processes) =
      .ok (processes.filterMap fun p =>
        ((q.matchedProcesses processes).lookup p.processId).map (ProcessWithAppName.mk p)) := rfl
  rw [hresult, Except.ok.injEq, hexpected, filterMap_map_eq_iff htag]
  apply forall₂_congr
  intro p hp
  rw [q.lookup_matched h htokens hp]
  cases hout : q.ruledOut p with
  | true => simp
  | false =>
    have hmatched : matchedBy p.processId p.commandLine =
        fun t => foundFor p t && !isOther p.processId t := by
      funext t
      exact matchedBy_eq p t
    have hiff : ((q.tokens.find? fun t => foundFor p t && !isOther p.processId t).bind fun t =>
          some (splitToken t).2) = ((q.tokens.find? (foundFor p)).bind fun t =>
          some (splitToken t).2) ↔ _ :=
      find?_overlooking_iff (fun _ _ => rfl) q.tokens
    rw [← hmatched] at hiff
    rw [if_neg Bool.false_ne_true, if_neg Bool.false_ne_true, eq_comm, hiff]
    simp only [Option.some.injEq, forall_const]

end Discovery

def shopProcess : CIMProcess := ⟨ascii "java.exe", ascii "java -jar app.jar", 7⟩

def portProcess : CIMProcess := ⟨ascii "java.exe", ascii "java -Dport=8080", 12⟩

theorem shop_filtered_as_expected :
    mixedDiscovery.getFilteredCIMProcesses (ε := String) (.ok [shopProcess, portProcess]) =
      .ok [⟨shopProcess, ascii "shop"⟩, ⟨portProcess, []⟩] := by
  have hdistinct : DistinctPids [shopProcess, portProcess] := ⟨by decide⟩
  have hiff := mixedDiscovery.filtered_as_expected_iff (ε := String) [shopProcess, portProcess]
    hdistinct (by decide)
  have hexpected : mixedDiscovery.expectedProcesses [shopProcess, portProcess] =
      [⟨shopProcess, ascii "shop"⟩, ⟨portProcess, []⟩] := by decide
  rw [← hexpected]
  apply hiff.mpr
  intro p hp _ t ht hother
  have hown : ∀ p ∈ [shopProcess, portProcess],
      ∀ t ∈ mixedDiscovery.tokens.find? (foundFor p), isOther p.processId t = false := by decide
  rw [hown p hp t ht] at hother
  cases hother

def portDiscovery : Discovery := ⟨1, [ascii "8080$shop"], []⟩

/-- The token for process 8080 selects process 12, which listens on that port. -/
theorem number_found_in_command_line :
    DistinctPids [portProcess] ∧
      (∀ t ∈ portDiscovery.tokens, Canonical t ∧ ∀ n ∈ tokenNumber t, 0 < n) ∧
      portDiscovery.getFilteredCIMProcesses (ε := String) (.ok [portProcess]) =
        .ok [⟨portProcess, ascii "shop"⟩] ∧
      portDiscovery.expectedProcesses [portProcess] = [] := by
  have hdistinct : DistinctPids [portProcess] := ⟨by decide⟩
  exact ⟨hdistinct, by decide⟩

end YcAgent.Capture
