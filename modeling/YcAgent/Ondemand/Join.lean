import YcAgent.Capture.CaptureJoin
import YcAgent.Lib.Outcome
import YcAgent.Ondemand.CaptureLog

/-!
The captures of `FullCapture`. Which of them it starts depends on the runtime, on
the pid and on the configuration; it receives the results in an order of its own,
before it goes on to `yc-fin`, the archive and the deletion of the directory.
`dmesg` alone waits for another task.
-/

namespace YcAgent.Ondemand.CaptureLog

open Lib.Program YcAgent.Capture

/-- The tasks passed to `goCapture` after the function it is to run. -/
def tasksToWaitFor (task : String) : List String :=
  if task = "dmesg" then ["vmstat"] else []

def captureCall : CaptureOp → CaptureCall String
  | .goCapture endpoint task _ => .go task ⟨endpoint, tasksToWaitFor task⟩
  | .result task => .receive task
  | .requestFin _ | .compressFolder _ | .removeAll _ => .barrier
  | _ => .other

def delivers : (op : CaptureOp) → Result → op.Reply → Prop
  | .result _, result, r => r = (result.ok, result.msg)
  | _, _, _ => True

theorem delivers_total (op : CaptureOp) (task : String) (result : Result)
    (h : captureCall op = .receive task) : ∃ r, delivers op result r := by
  cases op with
  | result => exact ⟨_, rfl⟩
  | _ => cases h

def caller : Caller CaptureOp CaptureOp.Reply String := ⟨captureCall, delivers, delivers_total⟩

instance (op : CaptureOp) : Nonempty op.Reply := by
  cases op <;> (dsimp only [CaptureOp.Reply]; infer_instance)

/-- Every task is new and comes after those it waits for. -/
def waitsBefore (seen : List String) : List String → Bool
  | [] => true
  | task :: rest => decide (task ∉ seen) && (tasksToWaitFor task).all (· ∈ seen) &&
      waitsBefore (seen ++ [task]) rest

/-- The program has started the tasks `names` and received from `reads`. -/
structure At (names reads : List String) (g : Joins String) : Prop where
  started : ∀ task, task ∈ g.started.map Prod.fst ↔ task ∈ names
  waits : ∀ e ∈ g.started, e.2 = tasksToWaitFor e.1
  received : ∀ task, task ∈ g.received ↔ task ∈ reads

/-- The tasks `rest` are still to be started. -/
structure Starting (done rest : List String) (g : Joins String) : Prop where
  at_ : At done [] g
  valid : waitsBefore done rest = true

/-- The results of the tasks `rest` are still to be received. -/
structure Reading (names done rest : List String) (g : Joins String) : Prop where
  at_ : At names done g
  valid : waitsBefore done rest = true
  started : ∀ task ∈ rest, task ∈ names
  left : ∀ task ∈ names, task ∈ done ∨ task ∈ rest

theorem Reading.over {names done : List String} {g : Joins String} (h : Reading names done [] g) :
    g.Over := by
  intro e he
  have hname : e.1 ∈ names := (h.at_.started e.1).1 (List.mem_map_of_mem he)
  have hdone := h.left e.1 hname
  rw [h.at_.received]
  simpa using hdone

abbrev joinGhost : Ghost CaptureOp CaptureOp.Reply (Joins String) := Joins.ghost captureCall

section Rules

variable {α β : Type} {g : Joins String} {Q : β → Joins String → Prop}

abbrev Quiet (p : CaptureProg α) : Prop := p.Confined fun op => captureCall op = .other

/-- Operations that are allowed and change nothing may be left out. -/
theorem confined_bind {P : CaptureOp → Prop} {p : CaptureProg α} (h : p.Confined P)
    (hP : ∀ op, P op → g.Allowed (captureCall op) ∧ g.after (captureCall op) = g)
    {k : α → CaptureProg β} (hk : ∀ a, (k a).Follows joinGhost g Q) :
    (p >>= k).Follows joinGhost g Q := by
  induction p with
  | done a => exact hk a
  | act op next ih =>
    obtain ⟨hallowed, hsame⟩ := hP op h.1
    refine ⟨hallowed, fun r _ => ?_⟩
    rw [show joinGhost.after g op r = g from hsame]
    exact ih r (h.2 r)

theorem Quiet.follows_bind {p : CaptureProg α} (h : Quiet p) {k : α → CaptureProg β}
    (hk : ∀ a, (k a).Follows joinGhost g Q) : (p >>= k).Follows joinGhost g Q :=
  confined_bind h (fun op hother => by rw [hother]; exact ⟨trivial, rfl⟩) hk

theorem quiet_ask {op : CaptureOp} (h : captureCall op = .other) : Quiet (askCapture op) :=
  ⟨h, fun _ => trivial⟩

theorem quiet_ite {c : Prop} [Decidable c] {p q : CaptureProg α} (hp : Quiet p) (hq : Quiet q) :
    Quiet (if c then p else q) := by
  split
  · exact hp
  · exact hq

/-- A part of the program that is left out unless `c`, where `I done rest` says which
tasks are done and which are left. -/
theorem when_bind {I : List String → List String → Joins String → Prop} {c : Prop} [Decidable c]
    {done tasks rest : List String} {p : CaptureProg Unit} {k : Unit → CaptureProg β}
    (h : I done (cond (decide c) tasks [] ++ rest) g)
    (hp : I done (tasks ++ rest) g → p.Follows joinGhost g fun _ => I (done ++ tasks) rest)
    (hk : ∀ g, I (done ++ cond (decide c) tasks []) rest g → (k ()).Follows joinGhost g Q) :
    (if c then p >>= k else k ()).Follows joinGhost g Q := by
  by_cases hc : c
  · rw [decide_eq_true hc] at h hk
    rw [if_pos hc, Prog.follows_bind]
    exact (hp h).mono fun _ g h => hk g h
  · rw [decide_eq_false hc, cond_false] at h hk
    rw [if_neg hc]
    rw [List.append_nil] at hk
    exact hk g h

theorem go_bind {done rest : List String} {endpoint task : String} {paths : List String}
    {k : Unit → CaptureProg β} (h : Starting done (task :: rest) g)
    (hk : ∀ g, Starting (done ++ [task]) rest g → (k ()).Follows joinGhost g Q) :
    (askCapture (.goCapture endpoint task paths) >>= k).Follows joinGhost g Q := by
  have hvalid := h.valid
  simp only [waitsBefore, Bool.and_eq_true, decide_eq_true_eq, List.all_eq_true] at hvalid
  obtain ⟨⟨hfresh, hwaits⟩, hrest⟩ := hvalid
  refine ⟨⟨?_, fun w hw => ?_⟩, fun _ _ => hk ⟨(task, tasksToWaitFor task) :: g.started, g.received⟩
    ⟨⟨fun t => ?_, fun e he => ?_, h.at_.received⟩, hrest⟩⟩
  · rwa [h.at_.started]
  · rw [h.at_.started]
    exact hwaits w hw
  · simp [← h.at_.started, or_comm]
  · rcases List.mem_cons.1 he with rfl | hold
    · rfl
    · exact h.at_.waits e hold

theorem result_bind {names done rest : List String} {task : String}
    {k : Bool × String → CaptureProg β} (h : Reading names done (task :: rest) g)
    (hk : ∀ r g, Reading names (done ++ [task]) rest g → (k r).Follows joinGhost g Q) :
    (askCapture (.result task) >>= k).Follows joinGhost g Q := by
  have hvalid := h.valid
  simp only [waitsBefore, Bool.and_eq_true, decide_eq_true_eq, List.all_eq_true] at hvalid
  obtain ⟨⟨hfresh, hwaits⟩, hrest⟩ := hvalid
  obtain ⟨e, he, rfl⟩ := List.mem_map.1 ((h.at_.started task).2 (h.started task List.mem_cons_self))
  refine ⟨⟨?_, e.2, he, fun w hw => ?_⟩, fun r _ => hk r ⟨g.started, e.1 :: g.received⟩
    ⟨⟨h.at_.started, h.at_.waits, fun t => ?_⟩, hrest, fun t ht =>
      h.started t (List.mem_cons_of_mem _ ht), fun t ht => ?_⟩⟩
  · rwa [h.at_.received]
  · rw [h.at_.received]
    rw [h.at_.waits e he] at hw
    exact hwaits w hw
  · simp [← h.at_.received, or_comm]
  · simpa [or_assoc] using h.left t ht

theorem log_bind {text : String} {k : Unit → CaptureProg β}
    (hk : (k ()).Follows joinGhost g Q) : (logInfo text >>= k).Follows joinGhost g Q :=
  (quiet_ask rfl).follows_bind fun _ => hk

theorem readResult_bind {names done rest : List String} {task : String}
    {format : Bool → String → String} {k : Bool → CaptureProg β}
    (h : Reading names done (task :: rest) g)
    (hk : ∀ ok g, Reading names (done ++ [task]) rest g → (k ok).Follows joinGhost g Q) :
    (readResult task format >>= k).Follows joinGhost g Q := by
  rw [readResult, Prog.follows_bind]
  refine log_bind (result_bind h fun (ok, msg) g hread => log_bind ?_)
  exact hk ok g hread

theorem report_bind {names done rest : List String} {task title : String}
    {k : Unit → CaptureProg β} (h : Reading names done (task :: rest) g)
    (hk : ∀ g, Reading names (done ++ [task]) rest g → (k ()).Follows joinGhost g Q) :
    (report task title >>= k).Follows joinGhost g Q := by
  rw [report, Prog.follows_bind]
  exact readResult_bind h fun _ g hread => hk g hread

end Rules

def runtimeTasks (runtime : String) : List String :=
  if runtime = "dotnet" then ["gc", "hdsubLog", "threadDump"]
  else if runtime = "nodejs" then
    "gc" :: "node PROCESS OVERVIEW" :: "hdsubLog" :: "node CPU profile" ::
      nodeDiagnostics.map fun label => s!"node {label}"
  else ["gc", "threadDump", "hdsubLog"]

def systemTasks : List String := ["netStat", "top", "vmstat", "ps", "dmesg", "disk"]

/-- Which of the captures that are not always made are made. -/
structure Chosen where
  system : Bool
  legacy : Bool
  others : Bool
  extended : Bool

def startOrder (runtime : String) (c : Chosen) : List String :=
  runtimeTasks runtime ++ (cond c.system systemTasks [] ++ ("ping" :: "kernel" ::
    (cond c.legacy ["appLog"] [] ++ (cond c.others ["appLogs"] [] ++
      cond c.extended ["extended data"] []))))

def systemReads : List String := ["top", "disk", "netStat", "ps", "vmstat", "dmesg"]

def runtimeReads (runtime : String) : List String :=
  if runtime = "nodejs" then
    "node CPU profile" :: nodeExtraCaptures.map fun label => s!"node {label}"
  else ["threadDump"]

def readOrder (runtime : String) (c : Chosen) : List String :=
  cond c.system systemReads [] ++ ("gc" :: "ping" :: (cond c.legacy ["appLog"] [] ++
    (cond c.others ["appLogs"] [] ++ ("hdsubLog" :: "kernel" :: (runtimeReads runtime ++
      cond c.extended ["extended data"] [])))))

theorem orders_valid (runtime : String) (c : Chosen) :
    waitsBefore [] (startOrder runtime c) = true ∧ waitsBefore [] (readOrder runtime c) = true ∧
      (∀ task ∈ readOrder runtime c, task ∈ startOrder runtime c) ∧
      ∀ task ∈ startOrder runtime c, task ∈ readOrder runtime c := by
  obtain ⟨system, legacy, others, extended⟩ := c
  unfold startOrder readOrder runtimeTasks runtimeReads
  by_cases hdotnet : runtime = "dotnet"
  · rw [hdotnet]
    revert system legacy others extended
    decide +kernel
  · by_cases hnodejs : runtime = "nodejs"
    · rw [hnodejs]
      revert system legacy others extended
      decide +kernel
    · rw [if_neg hdotnet, if_neg hnodejs, if_neg hnodejs]
      revert system legacy others extended
      decide +kernel

section Phases

variable {g : Joins String} {done rest names : List String}

theorem forM_follows {I : List String → List String → Joins String → Prop}
    {p : String → CaptureProg Unit} (task : String → String)
    (hp : ∀ label done rest g, I done (task label :: rest) g →
      (p label).Follows joinGhost g fun _ => I (done ++ [task label]) rest)
    (labels : List String) (h : I done (labels.map task ++ rest) g) :
    (labels.forM p).Follows joinGhost g fun _ => I (done ++ labels.map task) rest := by
  induction labels generalizing done g with
  | nil =>
    rw [List.map_nil, List.append_nil]
    exact h
  | cons label labels ih =>
    refine (Prog.follows_bind _ _ _ _).2 ((hp label done _ g h).mono fun _ g hdone => ?_)
    have hrest := ih hdone
    rwa [List.append_assoc] at hrest

theorem startRuntime_follows {endpoint runtime gcPath : String} {pid : Int}
    (h : Starting done (runtimeTasks runtime ++ rest) g) :
    (startRuntime endpoint runtime gcPath pid).Follows joinGhost g
      fun _ => Starting (done ++ runtimeTasks runtime) rest := by
  unfold startRuntime
  by_cases hdotnet : runtime = "dotnet"
  · rw [runtimeTasks, if_pos hdotnet] at *
    rw [if_pos hdotnet]
    refine log_bind <| go_bind h fun g h => go_bind h fun g h => go_bind h fun g h => ?_
    rwa [List.append_assoc, List.append_assoc] at h
  · by_cases hnodejs : runtime = "nodejs"
    · rw [runtimeTasks, if_neg hdotnet, if_pos hnodejs] at *
      rw [if_neg hdotnet, if_pos hnodejs]
      refine log_bind <| (quiet_ask rfl).follows_bind fun stdoutPath => go_bind h fun g h =>
        go_bind h fun g h => go_bind h fun g h => go_bind h fun g h => ?_
      rw [Prog.follows_bind]
      apply (forM_follows (I := Starting) _ (fun _ _ _ _ h => go_bind (k := pure) h fun _ h => h)
        nodeDiagnostics h).mono
      intro _ g h
      simp only [List.append_assoc, List.cons_append, List.nil_append] at h
      exact h
    · rw [runtimeTasks, if_neg hdotnet, if_neg hnodejs] at *
      rw [if_neg hdotnet, if_neg hnodejs]
      refine go_bind h fun g h => go_bind h fun g h => go_bind h fun g h => ?_
      rwa [List.append_assoc, List.append_assoc] at h

theorem startSystem_follows {endpoint : String} (h : Starting done (systemTasks ++ rest) g) :
    (startSystem endpoint).Follows joinGhost g fun _ => Starting (done ++ systemTasks) rest := by
  refine go_bind h fun g h => log_bind <| go_bind h fun g h => log_bind <| log_bind <|
    go_bind h fun g h => log_bind <| log_bind <| go_bind h fun g h => log_bind <| log_bind <|
    go_bind h fun g h => go_bind h fun g h => ⟨trivial, fun _ _ => ?_⟩
  simp only [List.append_assoc, List.cons_append, List.nil_append] at h
  exact h

def chosenAppLogs (o : CaptureSettings) (appName : String) : Option (List String) :=
  if o.appLogs ≠ [] ∧ o.appLogLineCount ≠ 0 then
    if o.appLogs.any fun path => path.toList.contains '$' then
      if appName = "" then some (o.appLogs.map beforeDollar)
      else
        let matching := o.appLogs.filterMap fun path => cutSuffix path ("$" ++ appName)
        if matching = [] then none else some matching
    else some o.appLogs
  else none

theorem chooseAppLogs_follows (o : CaptureSettings) (appName : String) :
    (chooseAppLogs o appName).Follows joinGhost g
      fun chosen g' => chosen = chosenAppLogs o appName ∧ g' = g := by
  unfold chooseAppLogs chosenAppLogs
  split
  · split
    · split
      · exact (quiet_ask rfl).follows_bind fun _ => ⟨rfl, rfl⟩
      · exact ⟨rfl, rfl⟩
    · exact ⟨rfl, rfl⟩
  · exact ⟨rfl, rfl⟩

theorem quiet_dropGCLogs (globFiles files : List String) : Quiet (dropGCLogs globFiles files) := by
  induction files with
  | nil => trivial
  | cons f rest ih =>
    refine (quiet_ask rfl).bind fun _ => ?_
    split
    · exact (quiet_ask rfl).bind fun _ => ih
    · exact ih.bind fun _ => trivial

theorem quiet_discoverAppLogs (pid : Int) (gcPath : String) :
    Quiet (discoverAppLogs pid gcPath) := by
  refine (quiet_ask rfl).bind fun (discovered, err) => ?_
  cases err
  case' some e => refine (quiet_ask rfl).bind fun _ => ?_
  all_goals
    refine quiet_ite (quiet_dropGCLogs _ _) ((quiet_ask rfl).bind fun found => ?_)
    cases found with
    | error _ => exact (quiet_ask rfl).bind fun _ => quiet_dropGCLogs _ _
    | ok globFiles => exact quiet_dropGCLogs _ _

def legacyAppLog (o : CaptureSettings) : Bool := decide (o.appLog ≠ "" ∧ o.appLogLineCount ≠ 0)

def otherAppLogs (o : CaptureSettings) (appName : String) : Bool :=
  (chosenAppLogs o appName).isSome || !legacyAppLog o

theorem startAppLogs_follows {o : CaptureSettings} {endpoint appName gcPath : String} {pid : Int}
    (h : Starting done (cond (legacyAppLog o) ["appLog"] [] ++
      (cond (otherAppLogs o appName) ["appLogs"] [] ++ rest)) g) :
    (startAppLogs o endpoint appName gcPath pid).Follows joinGhost g fun started g' =>
      started = (legacyAppLog o, otherAppLogs o appName) ∧
        Starting (done ++ (cond (legacyAppLog o) ["appLog"] [] ++
          cond (otherAppLogs o appName) ["appLogs"] [])) rest g' := by
  unfold startAppLogs
  extract_lets legacy afterLegacy
  apply when_bind h fun h => go_bind (k := pure) h fun g h => h
  intro g h
  dsimp -zeta only [afterLegacy]
  rw [Prog.follows_bind]
  apply (chooseAppLogs_follows o appName).mono
  rintro chosen g' ⟨rfl, rfl⟩
  cases hchosen : chosenAppLogs o appName with
  | some paths =>
    have hothers : otherAppLogs o appName = true := by rw [otherAppLogs, hchosen]; rfl
    rw [hothers] at h ⊢
    refine go_bind h fun g h => ⟨rfl, ?_⟩
    rwa [List.append_assoc] at h
  | none =>
    have hothers : otherAppLogs o appName = !legacyAppLog o := by rw [otherAppLogs, hchosen]; rfl
    rw [hothers] at h ⊢
    by_cases hlegacy : legacy
    · have hflag : legacyAppLog o = true := decide_eq_true hlegacy
      dsimp only
      rw [if_pos hlegacy, hflag]
      rw [decide_eq_true hlegacy, hflag] at h
      exact ⟨rfl, h⟩
    · have hflag : legacyAppLog o = false := decide_eq_false hlegacy
      dsimp only
      rw [if_neg hlegacy, hflag]
      rw [decide_eq_false hlegacy, hflag, cond_false, List.append_nil] at h
      exact (quiet_discoverAppLogs _ _).follows_bind fun paths => go_bind h fun g h => ⟨rfl, h⟩

theorem readSystem_follows (h : Reading names done (systemReads ++ rest) g) :
    readSystem.Follows joinGhost g fun _ => Reading names (done ++ systemReads) rest := by
  refine report_bind h fun g h => report_bind h fun g h => report_bind h fun g h =>
    report_bind h fun g h => report_bind h fun g h => report_bind (k := pure) h fun g h => ?_
  simp only [List.append_assoc, List.cons_append, List.nil_append] at h
  exact h

theorem readAppLogs_follows {legacy others : Bool}
    (h : Reading names done (cond legacy ["appLog"] [] ++ (cond others ["appLogs"] [] ++ rest)) g) :
    (readAppLogs legacy others).Follows joinGhost g fun _ =>
      Reading names (done ++ (cond legacy ["appLog"] [] ++ cond others ["appLogs"] [])) rest := by
  cases legacy <;> cases others
  case false.false => rwa [cond_false, cond_false, List.append_nil, List.append_nil] at *
  case false.true => exact readResult_bind h fun _ g h => h
  case true.false => exact readResult_bind h fun _ g h => h
  case true.true =>
    refine readResult_bind h fun _ g h => readResult_bind h fun _ g h => ?_
    rwa [List.append_assoc] at h

theorem quiet_executeCommands (endpoint : String) (commands : List (String × String)) (i : Nat) :
    Quiet (executeCommands endpoint i commands) := by
  induction commands generalizing i with
  | nil => trivial
  | cons command rest ih =>
    refine (quiet_ask rfl).bind fun outcome => ?_
    cases outcome with
    | error e => exact (quiet_ask rfl).bind fun _ => ih (i + 1)
    | ok reply => exact (quiet_ask rfl).bind fun _ => ih (i + 1)

theorem quiet_logCaptureConfigs (o : CaptureSettings) (pid : Int) (appName dockerID : String) :
    Quiet (logCaptureConfigs o pid appName dockerID) := by
  iterate 3 refine (quiet_ask rfl).bind fun _ => ?_
  refine quiet_ite ((quiet_ask rfl).bind fun _ => ?_) ?_
  all_goals
    iterate 5 refine (quiet_ask rfl).bind fun _ => ?_
    exact quiet_ask rfl

theorem quiet_transmitHeapDump (o : CaptureSettings) (parameters : String) (hd : Bool) :
    Quiet (transmitHeapDump o parameters hd) := by
  refine quiet_ite ((quiet_ask rfl).bind fun _ => ?_) ?_
  all_goals exact (quiet_ask rfl).bind fun (ok, msg) => quiet_ask rfl

end Phases

/-- Which captures are made for a pid under a configuration. -/
def chosenCaptures (o : CaptureSettings) (c : Capture) : Chosen where
  system := decide (0 < c.pid)
  legacy := legacyAppLog o
  others := otherAppLogs o c.appName
  extended := decide (o.edScript ≠ "" ∧ o.edDataFolder ≠ "")

theorem captureAndTransmit_follows (o : CaptureSettings) (c : Capture)
    (endpoint parameters : String) :
    (captureAndTransmit o c endpoint parameters).Follows joinGhost {} fun _ g => g.Over := by
  unfold captureAndTransmit
  refine (quiet_ask rfl).follows_bind fun (gcPath, tdPath, _) => ?_
  dsimp -zeta only
  extract_lets extended afterPath
  suffices hpath : ∀ gcPath, (afterPath gcPath).Follows joinGhost {} fun _ g => g.Over by
    split
    · exact (quiet_ask rfl).follows_bind fun _ => hpath _
    · exact hpath _
  intro gcPath
  dsimp -zeta only [afterPath]
  extract_lets afterBoomi afterDocker
  suffices hdocker : ∀ dockerID, (afterDocker dockerID).Follows joinGhost {} fun _ g => g.Over by
    split
    · exact (quiet_ask rfl).follows_bind fun _ => hdocker _
    · exact hdocker _
  intro dockerID
  dsimp -zeta only [afterDocker]
  refine (quiet_logCaptureConfigs _ _ _ _).follows_bind fun _ => ?_
  suffices hboomi : (afterBoomi ()).Follows joinGhost {} fun _ g => g.Over by
    split
    · exact log_bind <| (quiet_ask rfl).follows_bind fun _ => hboomi
    · exact hboomi
  dsimp -zeta only [afterBoomi]
  refine (quiet_ask rfl).follows_bind fun (runtime : String) => ?_
  obtain ⟨hstart, hread, hsub, hall⟩ := orders_valid runtime (chosenCaptures o c)
  have hstarting : Starting [] (startOrder runtime (chosenCaptures o c)) {} :=
    ⟨⟨by simp, by simp, by simp⟩, hstart⟩
  rw [Prog.follows_bind]
  apply (startRuntime_follows hstarting).mono
  intro gcPath g h
  extract_lets afterSystem
  apply when_bind h startSystem_follows
  intro g h
  dsimp -zeta only [afterSystem]
  refine go_bind h fun g h => go_bind h fun g h => ?_
  rw [Prog.follows_bind]
  apply (startAppLogs_follows h).mono
  rintro _ g ⟨rfl, h⟩
  extract_lets afterReads afterExtended
  rw [← List.append_nil (cond (chosenCaptures o c).extended _ _)] at h
  apply when_bind h fun h => go_bind (k := pure) h fun g h => h
  intro g h
  dsimp -zeta only [afterExtended]
  have hreading : Reading (startOrder runtime (chosenCaptures o c)) []
      (readOrder runtime (chosenCaptures o c)) g :=
    ⟨by simpa [startOrder, chosenCaptures] using h.at_, hread, hsub, fun task htask =>
      .inr (hall task htask)⟩
  apply when_bind hreading readSystem_follows
  intro g h
  dsimp -zeta only [afterReads]
  refine readResult_bind h fun gcOk g h => report_bind h fun g h => ?_
  rw [Prog.follows_bind]
  apply (readAppLogs_follows h).mono
  intro _ g h
  refine report_bind h fun g h => report_bind h fun g h =>
    (quiet_ask rfl).follows_bind fun resolved => ?_
  extract_lets afterCommands afterHeap afterNode afterThreads
  suffices hnode : ∀ done g, Reading (startOrder runtime (chosenCaptures o c)) done
      (cond (chosenCaptures o c).extended ["extended data"] []) g →
      (afterNode ()).Follows joinGhost g fun _ g => g.Over by
    by_cases hnodejs : runtime = "nodejs"
    · rw [runtimeReads, if_pos hnodejs] at h
      rw [if_neg (not_not_intro hnodejs)]
      dsimp -zeta only [afterThreads]
      rw [if_pos hnodejs]
      refine report_bind h fun g h => ?_
      rw [Prog.follows_bind]
      apply (forM_follows (I := Reading _) _
        (fun _ _ _ _ h => report_bind (k := pure) h fun _ h => h) _ h).mono
      intro _ g h
      exact hnode _ g h
    · rw [runtimeReads, if_neg hnodejs] at h
      rw [if_pos hnodejs, readThreadDump, Prog.follows_bind]
      refine readResult_bind h fun _ g h => ?_
      show (afterThreads ()).Follows joinGhost g _
      dsimp -zeta only [afterThreads]
      rw [if_neg hnodejs]
      exact hnode _ g h
  intro done g h
  dsimp -zeta only [afterNode]
  suffices hheap : (afterHeap ()).Follows joinGhost g fun _ g => g.Over by
    split
    · exact (quiet_transmitHeapDump _ _ _).follows_bind fun _ => hheap
    · exact hheap
  rw [← List.append_nil (cond (chosenCaptures o c).extended _ _)] at h
  apply when_bind h fun h => report_bind (k := pure) h fun g h => h
  intro g h
  refine log_bind <| (quiet_executeCommands _ _ _).follows_bind fun _ => log_bind ?_
  exact h.over

section Rest

variable {α β : Type} {g : Joins String} {Q : β → Joins String → Prop}

/-- A program that starts no captures and receives from none. -/
abbrev Settled (p : CaptureProg α) : Prop :=
  p.Confined fun op => captureCall op = .other ∨ captureCall op = .barrier

theorem Settled.follows_bind {p : CaptureProg α} (h : Settled p) (hover : g.Over)
    {k : α → CaptureProg β} (hk : ∀ a, (k a).Follows joinGhost g Q) :
    (p >>= k).Follows joinGhost g Q := by
  refine confined_bind h (fun op hcall => ?_) hk
  rcases hcall with hcall | hcall
  · rw [hcall]
    exact ⟨trivial, rfl⟩
  · rw [hcall]
    exact ⟨hover, rfl⟩

theorem settled_ask {op : CaptureOp} (h : captureCall op = .other) : Settled (askCapture op) :=
  ⟨.inl h, fun _ => trivial⟩

theorem settled_barrier {op : CaptureOp} (h : captureCall op = .barrier) :
    Settled (askCapture op) := ⟨.inr h, fun _ => trivial⟩

theorem settled_closeAgentLog : Settled closeAgentLog := by
  refine (settled_ask rfl).bind fun err => ?_
  cases err with
  | some e => exact settled_ask rfl
  | none => trivial

theorem settled_finish (o : CaptureSettings) (parameters : String) :
    Settled (finish o parameters) := by
  refine (settled_barrier rfl).bind fun (resp, err) => ?_
  cases err
  all_goals
    refine (settled_ask rfl).bind fun _ => (settled_ask rfl).bind fun (rUrl, result) => ?_
    refine (settled_ask rfl).bind fun _ => (settled_ask rfl).bind fun _ => ?_
    exact (settled_ask rfl).bind fun _ => trivial

theorem settled_transmitAgentLog (endpoint : String) : Settled (transmitAgentLog endpoint) :=
  (settled_ask rfl).bind fun (_, _) => settled_closeAgentLog.bind fun _ => settled_ask rfl

theorem quiet_openAgentLog (o : CaptureSettings) : Quiet (openAgentLog o) := by
  refine quiet_ite trivial ((quiet_ask rfl).bind fun err => ?_)
  cases err
  case' some e => refine (quiet_ask rfl).bind fun _ => ?_
  all_goals exact (quiet_ask rfl).bind fun _ => (quiet_ask rfl).bind fun _ => trivial

theorem settled_leave (o : CaptureSettings) (captureDir dir : String) :
    Settled (leave o captureDir dir) := by
  refine (settled_ask rfl).bind fun left => ?_
  cases left with
  | some e => exact settled_ask rfl
  | none =>
    dsimp only
    split
    · refine (settled_barrier rfl).bind fun packed => ?_
      cases packed with
      | error e => exact settled_ask rfl
      | ok name =>
        refine (settled_ask rfl).bind fun _ => ?_
        split
        · exact settled_ask rfl
        · trivial
    · trivial

theorem captureInDir_follows (o : CaptureSettings) (c : Capture) (endpoint parameters : String) :
    (captureInDir o c endpoint parameters).Follows joinGhost {} fun _ g => g.Over := by
  unfold captureInDir
  refine (quiet_openAgentLog o).follows_bind fun (agentLog, _) =>
    (quiet_ask rfl).follows_bind fun (msg, ok, ignored) => log_bind ?_
  dsimp -zeta only
  extract_lets afterFound
  suffices hfound : ∀ found, (afterFound found).Follows joinGhost {} fun _ g => g.Over by
    split
    · exact (quiet_ask rfl).follows_bind fun _ => hfound _
    · exact hfound _
  intro found
  dsimp -zeta only [afterFound]
  rw [Prog.follows_bind]
  apply (captureAndTransmit_follows o c endpoint parameters).mono
  intro (err, gcOk) g hover
  extract_lets afterFin
  suffices hfin : ∀ rUrl, (afterFin rUrl).Follows joinGhost g fun _ g => g.Over by
    split
    · exact hfin _
    · refine (settled_finish o parameters).follows_bind hover fun rUrl => ?_
      split
      · exact (settled_transmitAgentLog endpoint).follows_bind hover fun _ => hfin _
      · exact hfin _
  intro rUrl
  dsimp -zeta only [afterFin]
  extract_lets last afterWarned afterGC
  have hwarned : (afterWarned ()).Follows joinGhost g fun _ g => g.Over := by
    dsimp -zeta only [afterWarned]
    split
    · exact settled_closeAgentLog.follows_bind hover fun _ => hover
    · exact hover
  have hgc : (afterGC ()).Follows joinGhost g fun _ g => g.Over := by
    dsimp -zeta only [afterGC]
    split
    · exact hwarned
    · exact log_bind <| log_bind hwarned
  split
  · exact hgc
  · exact log_bind hgc

theorem captureFrom_follows (o : CaptureSettings) (c : Capture)
    (captureDir endpoint parameters : String) :
    (captureFrom o c captureDir endpoint parameters).Follows joinGhost {} fun _ g => g.Over := by
  have hempty : ({} : Joins String).Over := fun e he => nomatch he
  have hinside (dir : String) : (do
      let outcome ← captureInDir o c endpoint parameters
      leave o captureDir dir
      return outcome : CaptureProg (String × Option String)).Follows joinGhost {}
        fun _ g => g.Over := by
    rw [Prog.follows_bind]
    apply (captureInDir_follows o c endpoint parameters).mono
    intro outcome g hover
    exact (settled_leave o captureDir dir).follows_bind hover fun _ => hover
  refine (quiet_ask rfl).follows_bind fun start => ?_
  cases start with
  | error _ => exact hempty
  | ok dir =>
    dsimp only
    split
    · exact hinside dir
    · refine (quiet_ask rfl).follows_bind fun entered => ?_
      cases entered with
      | some _ => exact hempty
      | none => exact hinside dir

/-- `FullCapture` receives the result of every capture it starts before it goes on
to `yc-fin`, the archive or the deletion of the directory, and that of `vmstat`
before that of `dmesg`. -/
theorem fullCapture_follows (o : CaptureSettings) (c : Capture) :
    (fullCapture o c).Follows joinGhost {} fun _ g => g.Over := by
  unfold fullCapture
  refine (quiet_ask rfl).follows_bind fun (timestamp, timezone) =>
    (quiet_ask rfl).follows_bind fun ip => ?_
  dsimp -zeta only
  extract_lets parameters endpoint captureDir afterMade
  have hmade : (afterMade none).Follows joinGhost {} fun _ g => g.Over := by
    dsimp -zeta only [afterMade]
    rw [Prog.follows_bind]
    apply (captureFrom_follows o c captureDir endpoint parameters).mono
    intro (rUrl, err) g hover
    extract_lets last afterRemoved
    have hremoved : (afterRemoved ()).Follows joinGhost g fun _ g => g.Over := by
      dsimp -zeta only [afterRemoved]
      cases err with
      | some e => exact (quiet_ask rfl).follows_bind fun _ => hover
      | none => exact hover
    split
    · refine (settled_barrier rfl).follows_bind hover fun removed => ?_
      cases removed with
      | some e => exact log_bind hremoved
      | none => exact hremoved
    · exact hremoved
  split
  · exact hmade
  · refine (quiet_ask rfl).follows_bind fun made => ?_
    cases made with
    | some e => exact (quiet_ask rfl).follows_bind fun _ e he => nomatch he
    | none => exact hmade

end Rest

/-- At every point of a run of `FullCapture` something can go on until it has
returned and every goroutine it started has ended, and no run goes on for ever. -/
theorem fullCapture_ends (o : CaptureSettings) (c : Capture)
    {s : Session CaptureOp CaptureOp.Reply String String}
    (hreaches : Session.Reaches caller ⟨fullCapture o c, {}⟩ s) : Session.Ends caller s :=
  Session.joined_ends (fullCapture_follows o c) hreaches

/-- Where `FullCapture` calls `yc-fin`, packs the directory or removes it, every
capture it started has run and its result has been received. -/
theorem fullCapture_delivered (o : CaptureSettings) (c : Capture)
    {s : Session CaptureOp CaptureOp.Reply String String}
    (hreaches : Session.Reaches caller ⟨fullCapture o c, {}⟩ s) {op : CaptureOp}
    {next : op.Reply → CaptureProg String} (hat : s.main = .act op next)
    (hcall : captureCall op = .barrier) (task : String) :
    s.captures.point task = .idle ∨ (s.captures.point task).delivered = true :=
  Session.delivered_at_barrier (fullCapture_follows o c) hreaches hat hcall task

section Example

def plainSettings : CaptureSettings where
  flags := ""
  appName := "shop"
  captureCmd := ""
  tags := ""
  server := "https://yc.example"
  storagePath := ""
  m3 := false
  deferDelete := true
  onlyCapture := false
  minimalTouch := false
  log2File := false
  gcPath := ""
  tdPath := ""
  hdPath := ""
  boomi := false
  boomiUrl := ""
  appLog := ""
  appLogs := []
  appLogLineCount := 1000
  edScript := ""
  edDataFolder := ""
  commands := []

def plainCapture : Capture := ⟨3121, "shop", false, "", ""⟩

abbrev PlainSession := Session CaptureOp CaptureOp.Reply String String

def plainStart : PlainSession := ⟨fullCapture plainSettings plainCapture, {}⟩

/-- A step of a schedule in which a capture runs when its result is received. -/
def scheduled : PlainSession → Option PlainSession
  | ⟨.done _, _⟩ => none
  | ⟨.act (.goCapture endpoint task _) next, captures⟩ =>
    (captures.goCapture task ⟨endpoint, tasksToWaitFor task⟩).map (⟨next (), ·⟩)
  | ⟨.act (.result task) next, captures⟩ =>
    match captures.point task with
    | .deferred result => (captures.turn task .next).map (⟨next (result.ok, result.msg), ·⟩)
    | .run => (captures.turn task (.ret ⟨"", true⟩ none)).map (⟨.act (.result task) next, ·⟩)
    | _ => (captures.turn task .next).map (⟨.act (.result task) next, ·⟩)
  | ⟨.act op next, captures⟩ => some ⟨next (quietCapture op), captures⟩

def runFor : Nat → PlainSession → Option PlainSession
  | 0, s => some s
  | n + 1, s => (scheduled s).bind (runFor n)

theorem scheduled_step {s s' : PlainSession} (h : scheduled s = some s') :
    Session.Step caller s s' := by
  unfold scheduled at h
  split at h
  · cases h
  · next endpoint task paths rest captures =>
      obtain ⟨captures', hgo, rfl⟩ := Option.map_eq_some_iff.1 h
      let s : PlainSession := ⟨.act (.goCapture endpoint task paths) rest, captures⟩
      let r : (CaptureOp.goCapture endpoint task paths).Reply := ()
      exact Session.Step.go (s := s) r rfl rfl hgo
  · next task rest captures =>
      let s : PlainSession := ⟨.act (.result task) rest, captures⟩
      split at h
      · next result hpoint =>
          obtain ⟨captures', hturn, rfl⟩ := Option.map_eq_some_iff.1 h
          exact Session.Step.receive (s := s) rfl rfl hpoint hturn rfl
      · next hpoint =>
          obtain ⟨captures', hturn, rfl⟩ := Option.map_eq_some_iff.1 h
          exact .turn (fun _ => by simp [hpoint]) (fun _ => CaptureTurn.noConfusion) hturn
      · next hpoint _ =>
          obtain ⟨captures', hturn, rfl⟩ := Option.map_eq_some_iff.1 h
          exact .turn hpoint (fun _ => CaptureTurn.noConfusion) hturn
  · next op rest captures hgo hresult =>
      cases h
      apply Session.Step.other _ rfl
      cases op with
      | goCapture endpoint task paths => exact absurd HEq.rfl (hgo endpoint task paths _ rfl)
      | result task => exact absurd HEq.rfl (hresult task _ rfl)
      | requestFin _ | compressFolder _ | removeAll _ => exact .inr rfl
      | _ => exact .inl rfl

theorem runFor_reaches {n : Nat} {s₀ s s' : PlainSession} (hreaches : Session.Reaches caller s₀ s)
    (h : runFor n s = some s') : Session.Reaches caller s₀ s' := by
  induction n generalizing s with
  | zero =>
    cases h
    exact hreaches
  | succ n ih =>
    obtain ⟨s₁, hstep, hrest⟩ := Option.bind_eq_some_iff.1 h
    exact ih (hreaches.step (scheduled_step hstep)) hrest

def plainTasks : List String := startOrder "" (chosenCaptures plainSettings plainCapture)

/-- `top` runs, and the others have been started. -/
def duringTop (s : PlainSession) : Bool :=
  (s.captures.point "top").begun && !(s.captures.point "top").returned &&
    plainTasks.all fun task => decide (0 < (s.captures.point task).left)

/-- The program calls `yc-fin`, and all captures have run. -/
def atFin (s : PlainSession) : Bool :=
  match s.main with
  | .act (.requestFin _) _ => plainTasks.all fun task => (s.captures.point task).begun
  | _ => false

theorem exists_reached {n : Nat} {p : PlainSession → Bool}
    (h : (runFor n plainStart).any p = true) :
    ∃ s, Session.Reaches caller plainStart s ∧ p s = true := by
  obtain ⟨s, hrun, hs⟩ := (Option.any_eq_true _ _).1 h
  exact ⟨s, runFor_reaches .refl hrun, hs⟩

/-- A run in which eleven captures wait to be received from while `top` runs. -/
theorem fullCapture_ends_running :
    ∃ s, Session.Reaches caller plainStart s ∧ duringTop s = true ∧ Session.Ends caller s := by
  have hduring : (runFor 49 plainStart).any duringTop = true := by decide +kernel
  obtain ⟨s, hreaches, hs⟩ := exists_reached hduring
  exact ⟨s, hreaches, hs, fullCapture_ends plainSettings plainCapture hreaches⟩

/-- A run in which twelve captures are started and run before `yc-fin` is called. -/
theorem fullCapture_delivered_at_fin : ∃ s : PlainSession, Session.Reaches caller plainStart s ∧
    (∃ endpoint next, s.main = .act (.requestFin endpoint) next) ∧ plainTasks.length = 12 ∧
    ∀ task ∈ plainTasks, (s.captures.point task).delivered = true := by
  have hfin : (runFor 135 plainStart).any atFin = true := by decide +kernel
  obtain ⟨s, hreaches, hs⟩ := exists_reached hfin
  unfold atFin at hs
  split at hs
  · next endpoint next hmain =>
      refine ⟨s, hreaches, ⟨endpoint, next, hmain⟩, by decide +kernel, fun task htask => ?_⟩
      have hbegun := List.all_eq_true.1 hs task htask
      have hdelivered := fullCapture_delivered plainSettings plainCapture hreaches hmain rfl task
      exact hdelivered.resolve_left fun hidle => by simp [hidle, CapturePoint.begun] at hbegun
  · cases hs

end Example

end YcAgent.Ondemand.CaptureLog
