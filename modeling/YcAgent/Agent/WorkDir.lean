import YcAgent.Lib.Ghost
import YcAgent.Ondemand.FullCapture

/-!
The working directory while M3 cycles run beside captures of the action API.
`RunSingle` enters the directory of its cycle and restores the one it found;
`FullCapture`, which in M3 mode enters no directory, restores the one it found
as well. The working directory belongs to the process, and the mutexes of the
two, `runLock` and `one`, do not exclude each other. The captures of the API
exclude each other by `one`, so they are one program.
-/

namespace YcAgent.Agent

open Go Lib.Program Ondemand

/-- What a cycle does: its directory, the files it creates by relative name,
and the captures the server asks for at its end. -/
structure M3Cycle where
  captureDir : FilePath
  files : List String
  incidents : List FilePath
  deriving DecidableEq, Repr

def createFile (name : String) : FsProg PUnit := do
  let _ ← ask (.create ⟨false, name⟩)
  return ⟨⟩

/-- `processM3FinResponse`. In only-capture mode `RequestFin` fails before. -/
def processFin (cfg : CaptureConfig) (incidents : List FilePath) : FsProg PUnit :=
  if cfg.onlyCapture then return ⟨⟩ else incidents.forM (fullCapture cfg)

def insideCycle (cfg : CaptureConfig) (cycle : M3Cycle) : FsProg PUnit := do
  match ← ask .getwd with
  | .error _ => return ⟨⟩
  | .ok dir =>
  match ← ask (.chdir cycle.captureDir) with
  | .error _ => return ⟨⟩
  | .ok () =>
    cycle.files.forM createFile
    processFin cfg cycle.incidents
    -- the deferred call drops the error
    let _ ← ask (.chdir dir)
    return ⟨⟩

def runSingle (cfg : CaptureConfig) (cycle : M3Cycle) : FsProg PUnit := do
  match ← ask (.mkdir cycle.captureDir) with
  | .error _ => return ⟨⟩
  | .ok () =>
    insideCycle cfg cycle
    if cfg.deferDelete then
      let _ ← ask (.removeAll cycle.captureDir)
      return ⟨⟩
    else return ⟨⟩

def runLoop (cfg : CaptureConfig) (cycles : List M3Cycle) : FsProg PUnit :=
  cycles.forM (runSingle cfg)

/-- The captures of the action API, under the mutex `one`. -/
def apiCaptures (cfg : CaptureConfig) (captures : List FilePath) : FsProg PUnit :=
  captures.forM (fullCapture cfg)

abbrev FsEvent := Event Op Op.Reply World

/-- The operation makes a file under a relative path, which puts it in the directory
the process is in. The capture tasks name their files like that. -/
def CreatesHere : Op → Prop
  | .create p => p.isAbs = false
  | .capture => True
  | _ => False

/-- The directory that was made last. For the operations of the M3 loop it is that of
the cycle the loop is in. -/
def ownDir (trace : FsTrace) : Option String :=
  trace.foldl (fun own e => match e with
    | ⟨w, .mkdir p, .ok ()⟩ => some (p.resolve w.cwd)
    | _ => own) none

/-- An `os.Chdir` that succeeds leads to the directory the process is in already. This
is asked of the captures of the API, as a process has one working directory for all. -/
def StaysPut : FsEvent → Prop
  | ⟨w, .chdir p, .ok ()⟩ => p.resolve w.cwd = w.cwd
  | _ => True

/-- No failed `os.Chdir` to `home`. -/
def Restores (home : String) : FsEvent → Prop
  | ⟨_, .chdir p, .error _⟩ => p ≠ ⟨true, home⟩
  | _ => True

theorem perform_cwd {op : Op} {w w' : World} {r : op.Reply} (h : Perform op w r w')
    (hstays : StaysPut ⟨w, op, r⟩) : w'.cwd = w.cwd := by
  cases op with
  | chdir p =>
    cases r with
    | error e => rw [show w' = w from h]
    | ok _ =>
      rw [show w' = { w with cwd := p.resolve w.cwd } from h]
      exact hstays
  | capture => exact h.1
  | mkdir p =>
    cases r with
    | error e => rw [show w' = w from h]
    | ok _ =>
      rw [h.2]
      rfl
  | removeAll p =>
    cases r with
    | error e => exact h.1
    | ok _ =>
      rw [show w' = w.setDir (p.resolve w.cwd) none from h]
      rfl
  | create p =>
    cases r with
    | error e => rw [show w' = w from h]
    | ok out =>
      rw [h.2]
      rfl
  | writeHeader out base e =>
    cases r with
    | error err =>
      obtain ⟨a, broken, _, rfl⟩ := h
      rfl
    | ok _ =>
      obtain ⟨a, _, _, _, rfl⟩ := h
      rfl
  | copy out e =>
    cases r with
    | error err =>
      obtain ⟨a, broken, part, _, _, _, rfl⟩ := h
      rfl
    | ok _ =>
      obtain ⟨a, _, rfl⟩ := h
      rfl
  | close writer out =>
    cases r with
    | error err => rw [show w' = w from h]
    | ok _ =>
      obtain ⟨a, _, _, rfl⟩ := h
      rfl
  | getwd => rw [h.1]
  | stat p => rw [h.1]
  | abs p => rw [h.1]
  | walk p => rw [h.1]
  | _ => rw [show w' = w from h]

/-- What the M3 loop knows: where the process is, and the directory of its
cycle. -/
structure Whereabouts where
  cwd : String
  own : Option String

/-- The M3 loop may create files by relative name in the directory of its cycle
only. If `sure`, no `os.Chdir` to `home` fails. -/
def whereabouts (home : String) (sure : Prop) : Ghost Op Op.Reply Whereabouts where
  allowed g op := CreatesHere op → g.own = some g.cwd
  possible g op r := match op, r with
    | .getwd, r => ∀ dir, r = .ok dir → dir = ⟨true, g.cwd⟩
    | .chdir p, .error _ => sure → p ≠ ⟨true, home⟩
    | _, _ => True
  after g op r := match op, r with
    | .mkdir p, .ok () => { g with own := some (p.resolve g.cwd) }
    | .chdir p, .ok () => { g with cwd := p.resolve g.cwd }
    | _, _ => g

section Loop

variable {home : String} {sure : Prop} {cfg : CaptureConfig} {g : Whereabouts}

theorem whereabouts_describes : (whereabouts home sure).Describes
    ⟨fun op w r w' => Perform op w r w' ∧ (sure → Restores home ⟨w, op, r⟩),
      fun w w' => w'.cwd = w.cwd⟩
    fun w g => w.cwd = g.cwd where
  interfere := by
    intro w w' g hview hsame
    exact hsame.trans hview
  perform := by
    rintro op w r w' g - hview ⟨hperform, hrestores⟩
    cases op with
    | mkdir p =>
      have hcwd := perform_cwd hperform trivial
      cases r with
      | error e => exact ⟨trivial, hcwd.trans hview⟩
      | ok _ => exact ⟨trivial, hcwd.trans hview⟩
    | getwd =>
      refine ⟨?_, (perform_cwd hperform trivial).trans hview⟩
      intro dir hdir
      rw [hperform.2 dir hdir, hview]
    | chdir p =>
      cases r with
      | error e => exact ⟨hrestores, (perform_cwd hperform trivial).trans hview⟩
      | ok _ =>
        refine ⟨trivial, ?_⟩
        rw [show w' = { w with cwd := p.resolve w.cwd } from hperform]
        exact congrArg (fun cwd => p.resolve cwd) hview
    | _ => exact ⟨trivial, (perform_cwd hperform trivial).trans hview⟩

def Inside (dir : String) (g : Whereabouts) : Prop := g.cwd = dir ∧ g.own = some dir

theorem Inside.here {dir : String} (h : Inside dir g) : g.own = some g.cwd := by
  rw [h.1, h.2]

theorem createFile_follows {dir : String} (name : String) (h : Inside dir g) :
    (createFile name).Follows (whereabouts home sure) g fun _ => Inside dir :=
  ⟨fun _ => h.here, fun _ _ => h⟩

theorem fullCapture_follows {dir : String} (hm3 : cfg.m3 = true) (honly : cfg.onlyCapture = false)
    (captureDir : FilePath) (h : Inside dir g) :
    (fullCapture cfg captureDir).Follows (whereabouts home sure) g fun _ => Inside dir := by
  have hcleanup (g : Whereabouts) (h : Inside dir g) :
      ((if cfg.deferDelete then do
          let _ ← ask (.removeAll captureDir)
          return ()
        else return () : FsProg Unit)).Follows (whereabouts home sure) g fun _ => Inside dir := by
    split
    · exact ⟨fun hhere => hhere.elim, fun _ _ => h⟩
    · exact h
  have hinside : (captureInside cfg captureDir).Follows (whereabouts home sure) g
      fun _ => Inside dir := by
    refine ⟨fun hhere => hhere.elim, ?_⟩
    rintro (e | saved) hsaved
    · exact h
    have heq : saved = ⟨true, g.cwd⟩ := hsaved saved rfl
    simp only [unlessM3, hm3]
    refine ⟨fun _ => h.here, fun _ _ => ?_⟩
    refine ⟨fun hhere => hhere.elim, ?_⟩
    rintro (e | ⟨⟩) _
    · exact h
    · simp only [honly]
      rw [heq]
      exact h
  unfold fullCapture
  simp only [unlessM3, hm3]
  change Prog.Follows _ (captureInside cfg captureDir >>= _) _ _
  rw [Prog.follows_bind]
  exact hinside.mono fun _ g h => hcleanup g h

theorem processFin_follows {dir : String} (hm3 : cfg.m3 = true) (incidents : List FilePath)
    (h : Inside dir g) :
    (processFin cfg incidents).Follows (whereabouts home sure) g fun _ => Inside dir := by
  unfold processFin
  split
  · exact h
  · next honly =>
      apply Prog.follows_forM (Inside dir) _ incidents h
      intro captureDir g hg
      exact fullCapture_follows hm3 (by simpa using honly) captureDir hg

theorem insideCycle_follows (hm3 : cfg.m3 = true) (cycle : M3Cycle)
    (hown : g.own = some (cycle.captureDir.resolve g.cwd)) (hhome : sure → g.cwd = home) :
    (insideCycle cfg cycle).Follows (whereabouts home sure) g fun _ g' => sure → g'.cwd = home := by
  refine ⟨fun hhere => hhere.elim, ?_⟩
  rintro (e | saved) hsaved
  · exact hhome
  have heq : saved = ⟨true, g.cwd⟩ := hsaved saved rfl
  refine ⟨fun hhere => hhere.elim, ?_⟩
  rintro (e | ⟨⟩) _
  · exact hhome
  change Prog.Follows _ (cycle.files.forM createFile >>= fun _ =>
    processFin cfg cycle.incidents >>= fun _ => ask (.chdir saved) >>= fun _ => pure PUnit.unit) _ _
  rw [Prog.follows_bind]
  have hentered : Inside (cycle.captureDir.resolve g.cwd)
      { g with cwd := cycle.captureDir.resolve g.cwd } := ⟨rfl, hown⟩
  apply (Prog.follows_forM (Inside (cycle.captureDir.resolve g.cwd))
    (fun name _ hg => createFile_follows name hg) cycle.files hentered).mono
  intro _ g₁ hg₁
  rw [Prog.follows_bind]
  apply (processFin_follows hm3 cycle.incidents hg₁).mono
  intro _ g₂ hg₂
  refine ⟨fun hhere => hhere.elim, ?_⟩
  rintro (e | ⟨⟩) hreply
  · intro hsure
    -- the saved directory is the home directory, and going back there fails
    exact absurd (by rw [heq, hhome hsure]) (hreply hsure)
  · intro hsure
    rw [heq]
    exact hhome hsure

theorem runSingle_follows (hm3 : cfg.m3 = true) (cycle : M3Cycle) (hhome : sure → g.cwd = home) :
    (runSingle cfg cycle).Follows (whereabouts home sure) g fun _ g' => sure → g'.cwd = home := by
  refine ⟨fun hhere => hhere.elim, ?_⟩
  rintro (e | ⟨⟩) _
  · exact hhome
  change Prog.Follows _ (insideCycle cfg cycle >>= _) _ _
  rw [Prog.follows_bind]
  have hmade : (insideCycle cfg cycle).Follows (whereabouts home sure)
      { g with own := some (cycle.captureDir.resolve g.cwd) } fun _ g' => sure → g'.cwd = home :=
    insideCycle_follows hm3 cycle rfl hhome
  apply hmade.mono
  intro _ g₁ hg₁
  split
  · exact ⟨fun hhere => hhere.elim, fun _ _ => hg₁⟩
  · exact hg₁

theorem runLoop_follows (hm3 : cfg.m3 = true) (cycles : List M3Cycle)
    (hhome : sure → g.cwd = home) :
    (runLoop cfg cycles).Follows (whereabouts home sure) g fun _ g' => sure → g'.cwd = home :=
  Prog.follows_forM (fun g : Whereabouts => sure → g.cwd = home)
    (fun cycle _ hg => runSingle_follows hm3 cycle hg) cycles hhome

end Loop

theorem ownDir_eq {home cwd : String} {sure : Prop} {trace : FsTrace}
    (hview : ∀ before e rest, trace = before ++ e :: rest →
      e.before.cwd = ((whereabouts home sure).afterAll ⟨cwd, none⟩ before).cwd) :
    ownDir trace = ((whereabouts home sure).afterAll ⟨cwd, none⟩ trace).own := by
  induction trace using List.reverseRecOn with
  | nil => rfl
  | append_singleton trace e ih =>
    have hhere := hview trace e [] rfl
    have hbefore : ownDir trace = ((whereabouts home sure).afterAll ⟨cwd, none⟩ trace).own := by
      apply ih
      intro before e' rest heq
      exact hview before e' (rest ++ [e]) (by rw [heq]; simp)
    simp only [ownDir, Ghost.afterAll, List.foldl_append, List.foldl_cons, List.foldl_nil]
      at hbefore hhere ⊢
    obtain ⟨w, op, r⟩ := e
    cases op with
    | mkdir p =>
      cases r with
      | error err => exact hbefore
      | ok _ => exact congrArg (fun cwd => some (p.resolve cwd)) hhere
    | chdir p =>
      cases r with
      | error err => exact hbefore
      | ok _ => exact hbefore
    | _ => exact hbefore

/-- M3 cycles beside captures of the action API, in any interleaving in which
every capture of the API that goes back to the directory it found finds the
process there: each file that a cycle creates by relative name is created in
the cycle's own directory. When the cycles have ended, the process is where it
was at the start, unless an `os.Chdir` back to that directory failed. -/
theorem cycle_files_in_own_dir (cfg : CaptureConfig) (cycles : List M3Cycle)
    (captures : List FilePath) (w w' : World) (trace : List (Side × FsEvent))
    (loop api : FsProg PUnit) (hm3 : cfg.m3 = true)
    (hpair : Pair Perform (runLoop cfg cycles) (apiCaptures cfg captures) w trace loop api w')
    (hapi : ∀ e, (Side.right, e) ∈ trace → StaysPut e) :
    (∀ before e rest, ofSide .left trace = before ++ e :: rest → CreatesHere e.op →
      ownDir before = some e.before.cwd) ∧
    (loop = .done ⟨⟩ → (∀ e, (Side.left, e) ∈ trace → Restores w.cwd e) → w'.cwd = w.cwd) := by
  let sure := ∀ e, (Side.left, e) ∈ trace → Restores w.cwd e
  have hsteps : Steps ⟨fun op w₁ r w₂ => Perform op w₁ r w₂ ∧ (sure → Restores w.cwd ⟨w₁, op, r⟩),
      fun w₁ w₂ => w₂.cwd = w₁.cwd⟩ (runLoop cfg cycles) w (ofSide .left trace) loop w' :=
    hpair.left_steps (fun e => sure → Restores w.cwd e) _ (fun e he hall => hall e he)
      fun e w₁ he hperform => perform_cwd hperform (hapi e he)
  have hfollows : (runLoop cfg cycles).Follows (whereabouts w.cwd sure) ⟨w.cwd, none⟩
      fun _ g => sure → g.cwd = w.cwd := runLoop_follows hm3 cycles fun _ => rfl
  obtain ⟨hevents, hview, hpost⟩ := hsteps.of_follows whereabouts_describes hfollows rfl
  constructor
  · intro before e rest heq hcreates
    obtain ⟨hallowed, hcwd⟩ := hevents before e rest heq
    rw [hcwd, ← hallowed hcreates]
    apply ownDir_eq
    intro before' e' rest' heq'
    exact (hevents before' e' (rest' ++ e :: rest) (by rw [heq, heq']; simp)).2
  · intro hdone hall
    rw [hview]
    exact hpost ⟨⟩ hdone hall

def m3Mode : CaptureConfig := ⟨true, false, false⟩

def oneCycle : M3Cycle := ⟨⟨false, "yc-1"⟩, ["top.out"], []⟩

def playCycle (turns : List Side) :=
  playPair (respond dumps false) turns (runLoop m3Mode [oneCycle])
    (apiCaptures m3Mode [⟨false, "yc-2"⟩]) home

theorem exists_cycle (turns : List Side)
    {P : List (Side × FsEvent) → FsProg PUnit → FsProg PUnit → World → Prop}
    (h : ∃ out, playCycle turns = some out ∧ P out.1 out.2.1 out.2.2.1 out.2.2.2) :
    ∃ trace loop api w', Pair Perform (runLoop m3Mode [oneCycle])
      (apiCaptures m3Mode [⟨false, "yc-2"⟩]) home trace loop api w' ∧ P trace loop api w' := by
  obtain ⟨⟨trace, loop, api, w'⟩, hplay, hP⟩ := h
  have hhost : ∀ op w r w', respond dumps false op w = some (r, w') → Perform op w r w' :=
    fun _ _ _ _ hanswer => respond_sound hanswer
  exact ⟨trace, loop, api, w', playPair_pair hhost hplay, hP⟩

/-- A capture of the API that began before a cycle entered its directory takes
the process out of it, and the cycle's file is created outside. One that began
inside takes the process back there after the cycle has left. -/
theorem api_capture_moves_cycle :
    (∃ trace loop api w', Pair Perform (runLoop m3Mode [oneCycle])
      (apiCaptures m3Mode [⟨false, "yc-2"⟩]) home trace loop api w' ∧
      ∃ before e rest, ofSide .left trace = before ++ e :: rest ∧ CreatesHere e.op ∧
        ownDir before ≠ some e.before.cwd) ∧
    ∃ trace loop api w', Pair Perform (runLoop m3Mode [oneCycle])
      (apiCaptures m3Mode [⟨false, "yc-2"⟩]) home trace loop api w' ∧
      loop = .done ⟨⟩ ∧ api = .done ⟨⟩ ∧ w'.cwd ≠ home.cwd := by
  constructor
  · apply exists_cycle [.right, .left, .left, .left, .right, .right, .left]
    refine ⟨_, rfl, [_, _, _], _, [], rfl, rfl, ?_⟩
    decide
  · apply exists_cycle [.left, .left, .left, .right, .left, .left, .right, .right]
    refine ⟨_, rfl, rfl, rfl, ?_⟩
    decide

/-- A capture of the API that begins and ends while the cycle is in its
directory disturbs nothing. -/
theorem nested_capture_harmless : ∃ trace loop api w', Pair Perform (runLoop m3Mode [oneCycle])
    (apiCaptures m3Mode [⟨false, "yc-2"⟩]) home trace loop api w' ∧
      (∀ before e rest, ofSide .left trace = before ++ e :: rest → CreatesHere e.op →
        ownDir before = some e.before.cwd) ∧
      (∃ e, (Side.left, e) ∈ trace ∧ CreatesHere e.op) ∧
      api = .done ⟨⟩ ∧ w'.cwd = home.cwd := by
  obtain ⟨trace, loop, api, w', hpair, hapi, hrestores, hcreates, hloop, hdone⟩ := exists_cycle
    [.left, .left, .left, .right, .right, .right, .left, .left]
    (P := fun trace loop api _ => (∀ e, (Side.right, e) ∈ trace → StaysPut e) ∧
      (∀ e, (Side.left, e) ∈ trace → Restores home.cwd e) ∧
      (∃ e, (Side.left, e) ∈ trace ∧ CreatesHere e.op) ∧ loop = .done ⟨⟩ ∧ api = .done ⟨⟩) (by
    refine ⟨_, rfl, ?_, ?_, ?_, rfl, rfl⟩
    · intro e he
      simp only [List.mem_cons, Prod.mk.injEq, reduceCtorEq, false_and, true_and, false_or,
        List.not_mem_nil, or_false] at he
      rcases he with rfl | rfl | rfl
      · trivial
      · trivial
      · rfl
    · intro e he
      simp only [List.mem_cons, Prod.mk.injEq, reduceCtorEq, false_and, true_and, false_or,
        List.not_mem_nil, or_false] at he
      rcases he with rfl | rfl | rfl | rfl | rfl
      all_goals trivial
    · exact ⟨_, .tail _ (.tail _ (.tail _ (.tail _ (.tail _ (.tail _ (.head _)))))), rfl⟩)
  have hisolated := cycle_files_in_own_dir m3Mode [oneCycle] [⟨false, "yc-2"⟩] home w' trace loop
    api rfl hpair hapi
  exact ⟨trace, loop, api, w', hpair, hisolated.1, hcreates, hdone, hisolated.2 hloop hrestores⟩

end YcAgent.Agent
