import YcAgent.Capture.Host

/-!
`DotnetGCAsync`, the manager of the background .NET GC collectors: one session
per process id, started, kept, restarted and stopped by `Reconcile` so that
the sessions follow the active processes. A session is dropped from the map
before its collector is stopped, whatever becomes of the stopping.
-/

namespace YcAgent.Capture

open Go Lib.Program

structure DotnetGCSession where
  pid : Pid
  processStartTs : Int
  cmd : Option Cmd
  logPath : Path
  deriving DecidableEq, Repr

structure DotnetGCAsync where
  sessions : GoMap Pid DotnetGCSession
  baseDir : Path

namespace DotnetGCAsync

variable (d : DotnetGCAsync)

/-- Whether both the collector and its target still exist. -/
def isSessionAliveLocked (sess : DotnetGCSession) : HostProg Bool := do
  match sess.cmd with
  | none => return false
  | some cmd =>
    if cmd.pid ≤ 0 then return false
    match ← ask (.getProcessStartTimestamp cmd.pid) with
    | .error _ => return false
    | .ok _ =>
      match ← ask (.getProcessStartTimestamp sess.pid) with
      | .error _ => return false
      | .ok _ => return true

def isSameProcessIdentityLocked (sess : DotnetGCSession) : HostProg Bool := do
  match ← ask (.getProcessStartTimestamp sess.pid) with
  | .error _ => return false
  | .ok ts => return ts == sess.processStartTs

/-- `isSessionAliveLocked(sess) && isSameProcessIdentityLocked(sess)`. -/
def isValidLocked (sess : DotnetGCSession) : HostProg Bool := do
  if ← isSessionAliveLocked sess then isSameProcessIdentityLocked sess else return false

def stopLocked (pid : Pid) : HostProg (DotnetGCAsync × Except String Unit) := do
  match d.sessions.lookup pid with
  | none => return (d, .ok ())
  | some sess =>
    let d := { d with sessions := d.sessions.erase pid }
    match sess.cmd with
    | none => return (d, .ok ())
    | some cmd => return (d, ← ask (.gracefulStop cmd))

/-- The first half of `ensureStartedLocked`: whether a valid session exists; an
invalid one is stopped. -/
def keepOrStopLocked (pid : Pid) : HostProg (DotnetGCAsync × Bool) := do
  match d.sessions.lookup pid with
  | none => return (d, false)
  | some sess =>
    if ← isValidLocked sess then return (d, true) else return ((← d.stopLocked pid).1, false)

/-- The second half of `ensureStartedLocked`. -/
def startLocked (pid : Pid) : HostProg (DotnetGCAsync × Except String Unit) := do
  match ← ask (.ensureDir d.baseDir) with
  | .error err => return (d, .error s!"failed creating dotnet gc dir {d.baseDir}: {err}")
  | .ok () =>
  match ← ask (.getProcessStartTimestamp pid) with
  | .error err =>
    return (d, .error s!"failed getting process start timestamp for pid={pid}: {err}")
  | .ok startTs =>
  let args := ["-gc", toString pid, d.baseDir, "-1"]
  match ← ask (.startDotnetToolInBackground pid args d.baseDir) with
  | .error err => return (d, .error err)
  | .ok cmd =>
    let sess := ⟨pid, startTs, some cmd, joinPath d.baseDir s!"gc_output_{pid}.json"⟩
    return ({ d with sessions := d.sessions.insert pid sess }, .ok ())

def ensureStartedLocked (pid : Pid) : HostProg (DotnetGCAsync × Except String Unit) := do
  if pid ≤ 0 then return (d, .error s!"invalid pid {pid}") else
  let (d, valid) ← d.keepOrStopLocked pid
  if valid then return (d, .ok ()) else d.startLocked pid

def restartLocked (pid : Pid) : HostProg (DotnetGCAsync × Except String Unit) := do
  (← d.stopLocked pid).1.ensureStartedLocked pid

/-- One round of the first loop of `Reconcile`. -/
def stopInactive (active : GoMap Pid String) (d : DotnetGCAsync) (pid : Pid) :
    HostProg DotnetGCAsync := do
  if pid ∈ active then return d else return (← d.stopLocked pid).1

/-- One round of the second loop of `Reconcile`; a failure is only logged. -/
def followActive (d : DotnetGCAsync) (pid : Pid) : HostProg DotnetGCAsync := do
  match d.sessions.lookup pid with
  | none => return (← d.ensureStartedLocked pid).1
  | some sess =>
    if ← isValidLocked sess then return d else return (← d.restartLocked pid).1

def reconcile (active : GoMap Pid String) : HostProg DotnetGCAsync := do
  let d ← (← rangeKeys d.sessions).foldlM (stopInactive active) d
  (← rangeKeys active).foldlM followActive d

def stopAll : HostProg DotnetGCAsync := do
  (← rangeKeys d.sessions).foldlM (fun d pid => return (← d.stopLocked pid).1) d

/-- The calls of the manager. Each takes the mutex, so that calls do not
overlap. -/
inductive Call where
  | reconcile (active : GoMap Pid String)
  | ensureStarted (pid : Pid)
  | stop (pid : Pid)
  | stopAll

def Call.body (call : Call) (d : DotnetGCAsync) : HostProg (DotnetGCAsync × Except String Unit) :=
  match call with
  | .reconcile active => return (← d.reconcile active, .ok ())
  | .ensureStarted pid => d.ensureStartedLocked pid
  | .stop pid => d.stopLocked pid
  | .stopAll => return (← d.stopAll, .ok ())

def getLogPath (pid : Pid) : Option Path := (d.sessions.lookup pid).map DotnetGCSession.logPath

/-- Every session of `d'` was one of `d` or is for a pid of `allowed`. -/
def Within (allowed : Pid → Prop) (d d' : DotnetGCAsync) : Prop :=
  ∀ pid ∈ d'.sessions, pid ∈ d.sessions ∨ allowed pid

variable {d}

theorem Within.trans {allowed : Pid → Prop} {d₁ d₂ d₃ : DotnetGCAsync}
    (h₁ : Within allowed d₁ d₂) (h₂ : Within allowed d₂ d₃) : Within allowed d₁ d₃ := by
  intro pid hpid
  rcases h₂ pid hpid with hmem | hallowed
  · exact h₁ pid hmem
  · exact .inr hallowed

/-- Stopping takes the session away and touches no other, whatever the
collector answers. -/
theorem stopLocked_ensures (d : DotnetGCAsync) (pid : Pid) :
    (d.stopLocked pid).Ensures fun out =>
      ∀ other, other ∈ out.1.sessions ↔ other ≠ pid ∧ other ∈ d.sessions := by
  unfold stopLocked
  split
  · next hnone =>
      intro other
      have habsent : pid ∉ d.sessions := AList.lookup_eq_none.mp hnone
      constructor
      · intro hmem
        refine ⟨?_, hmem⟩
        rintro rfl
        exact habsent hmem
      · exact And.right
  · next sess _ =>
      have herase (other : Pid) :
          other ∈ d.sessions.erase pid ↔ other ≠ pid ∧ other ∈ d.sessions := AList.mem_erase
      split
      · exact herase
      · exact fun _ => herase

theorem stopLocked_within (d : DotnetGCAsync) (pid : Pid) (allowed : Pid → Prop) :
    (d.stopLocked pid).Ensures fun out => Within allowed d out.1 := by
  apply (stopLocked_ensures d pid).mono
  intro out hout other hother
  exact .inl ((hout other).mp hother).2

theorem keepOrStopLocked_within (d : DotnetGCAsync) (pid : Pid) (allowed : Pid → Prop) :
    (d.keepOrStopLocked pid).Ensures fun out => Within allowed d out.1 := by
  have hsame : Within allowed d d := fun _ h => .inl h
  unfold keepOrStopLocked
  split
  · exact hsame
  · next sess _ =>
      rw [Prog.ensures_bind]
      refine Prog.ensures_of_forall ?_ _
      intro valid
      split
      · exact hsame
      · rw [Prog.ensures_bind]
        exact stopLocked_within d pid allowed

theorem startLocked_within (d : DotnetGCAsync) (pid : Pid) :
    (d.startLocked pid).Ensures fun out => Within (· = pid) d out.1 := by
  have hsame : Within (· = pid) d d := fun _ h => .inl h
  unfold startLocked
  intro dir
  cases dir with
  | error err => exact hsame
  | ok _ =>
    intro started
    cases started with
    | error err => exact hsame
    | ok startTs =>
      intro tool
      cases tool with
      | error err => exact hsame
      | ok cmd =>
        intro other hother
        rcases (AList.mem_insert _).mp hother with heq | hmem
        · exact .inr heq
        · exact .inl hmem

theorem ensureStartedLocked_within (d : DotnetGCAsync) (pid : Pid) :
    (d.ensureStartedLocked pid).Ensures fun out => Within (· = pid) d out.1 := by
  have hsame : Within (· = pid) d d := fun _ h => .inl h
  unfold ensureStartedLocked
  split
  · exact hsame
  · rw [Prog.ensures_bind]
    apply (keepOrStopLocked_within d pid (· = pid)).mono
    rintro ⟨kept, valid⟩ hkept
    cases valid with
    | true => exact hkept
    | false =>
      apply (startLocked_within kept pid).mono
      intro out hout
      exact hkept.trans hout

theorem followActive_within (d : DotnetGCAsync) (pid : Pid) :
    (followActive d pid).Ensures (Within (· = pid) d) := by
  have hsame : Within (· = pid) d d := fun _ h => .inl h
  unfold followActive
  split
  · rw [Prog.ensures_bind]
    exact ensureStartedLocked_within d pid
  · next sess _ =>
      rw [Prog.ensures_bind]
      refine Prog.ensures_of_forall ?_ _
      intro valid
      split
      · exact hsame
      · rw [Prog.ensures_bind, restartLocked, Prog.ensures_bind]
        apply (stopLocked_within d pid (· = pid)).mono
        intro stopped hstopped
        apply (ensureStartedLocked_within stopped.1 pid).mono
        intro out hout
        exact hstopped.trans hout

/-- The first loop leaves the sessions of active processes and those it did not
visit. -/
theorem stopInactive_loop (active : GoMap Pid String) (keys : List Pid) (d : DotnetGCAsync) :
    (keys.foldlM (stopInactive active) d).Ensures fun d' =>
      ∀ pid, pid ∈ d'.sessions ↔ pid ∈ d.sessions ∧ (pid ∈ keys → pid ∈ active) := by
  induction keys generalizing d with
  | nil => simp
  | cons key keys ih =>
    rw [List.foldlM_cons, Prog.ensures_bind]
    unfold stopInactive
    split
    · next hactive =>
        apply (ih d).mono
        intro d' hd' pid
        rw [hd' pid]
        constructor
        · rintro ⟨hmem, hkeys⟩
          refine ⟨hmem, fun hin => ?_⟩
          rcases List.mem_cons.mp hin with rfl | hin
          · exact hactive
          · exact hkeys hin
        · rintro ⟨hmem, hkeys⟩
          exact ⟨hmem, fun hin => hkeys (List.mem_cons_of_mem _ hin)⟩
    · next hinactive =>
        rw [Prog.ensures_bind]
        apply (stopLocked_ensures d key).mono
        intro stopped hstopped
        apply (ih stopped.1).mono
        intro d' hd' pid
        rw [hd' pid, hstopped pid]
        constructor
        · rintro ⟨⟨hne, hmem⟩, hkeys⟩
          refine ⟨hmem, fun hin => ?_⟩
          rcases List.mem_cons.mp hin with rfl | hin
          · exact absurd rfl hne
          · exact hkeys hin
        · rintro ⟨hmem, hkeys⟩
          refine ⟨⟨?_, hmem⟩, fun hin => hkeys (List.mem_cons_of_mem _ hin)⟩
          rintro rfl
          exact hinactive (hkeys List.mem_cons_self)

/-- After `Reconcile` there are sessions for active processes only. -/
theorem reconcile_ensures (d : DotnetGCAsync) (active : GoMap Pid String) :
    (d.reconcile active).Ensures fun d' => ∀ pid ∈ d'.sessions, pid ∈ active := by
  unfold reconcile
  simp only [Prog.ensures_bind]
  apply (rangeKeys_ensures d.sessions).mono
  intro keys hkeys
  apply (stopInactive_loop active keys d).mono
  intro stopped hstopped
  have hactive : ∀ pid ∈ stopped.sessions, pid ∈ active := by
    intro pid hpid
    obtain ⟨hmem, hkept⟩ := (hstopped pid).mp hpid
    exact hkept ((hkeys pid).mpr hmem)
  apply (rangeKeys_ensures active).mono
  intro order horder
  apply Prog.ensures_foldlM _ hactive
  intro d' pid hpid hinv
  apply (followActive_within d' pid).mono
  intro out hout other hother
  rcases hout other hother with hmem | rfl
  · exact hinv other hmem
  · exact (horder other).mp hpid

end DotnetGCAsync

end YcAgent.Capture
