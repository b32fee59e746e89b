import YcAgent.Agent.ActionResults

/-!
The status of the response to a request whose actions can all be carried out.
An attendance call is made while the actions are parsed and leaves nothing in
the list of targets, so that a request for nothing else looks to the validation
like one without a supported action.
-/

namespace YcAgent.Agent

open Go Lib.Program Lib.Program.Prog

section Status

variable {running : Int → Prop}

/-- Parsing an action went well: an attendance call, or a capture for which a
running process was among those that were found. -/
inductive Resolves (running : Int → Prop) (s : Bytes) (before after : Parsed) : Prop
  | attendance : s = ascii "attendance" → Resolves running s before after
  | capture (pids : List Int) (pid : Int) : (ascii "capture ").isPrefixOf s = true →
      after.err = none → after.result = before.result ++ pids.map .pid → pid ∈ pids →
      running pid → Resolves running s before after

/-- A run of `parseActions` in which every action is resolved, as a chain of the runs
of its rounds. None of them fails, so that the loop goes on to the end. -/
inductive ResolvedActions (running : Int → Prop) : List Bytes → Parsed → ActionWorld →
    Trace ActionOp ActionOp.Reply ActionWorld → Parsed → ActionWorld → Prop
  | nil {parsed w} : ResolvedActions running [] parsed w [] parsed w
  | cons {s rest before w first after w₁ second parsed w₂} :
      Runs PerformAction (parseAction s before) w first after w₁ →
      Resolves running s before after →
      ResolvedActions running rest after w₁ second parsed w₂ →
      ResolvedActions running (s :: rest) before w (first ++ second) parsed w₂

/-- A process that is running is found to exist. The look-up may be wrong only about
processes that are not. -/
def Honest (running : Int → Prop) : Event ActionOp ActionOp.Reply ActionWorld → Prop
  | ⟨_, .isProcessExists pid, (found : Bool)⟩ => running pid → found = true
  | _ => True

theorem parseAction_attendance (parsed : Parsed) :
    parseAction (ascii "attendance") parsed = .act .attend fun _ => .done parsed := rfl

theorem Resolves.err {s : Bytes} {before after : Parsed} {w w' : ActionWorld}
    {trace : Trace ActionOp ActionOp.Reply ActionWorld} (h : Resolves running s before after)
    (hrun : Runs PerformAction (parseAction s before) w trace after w') (herr : before.err = none) :
    after.err = none := by
  cases h with
  | attendance hs =>
    rw [hs, parseAction_attendance] at hrun
    obtain ⟨_, _, _, _, _, hrest⟩ := hrun.of_act
    obtain ⟨_, rfl, _⟩ := hrest.of_done
    exact herr
  | capture _ _ _ hafter => exact hafter

theorem ResolvedActions.runs {actions : List Bytes} {parsed parsed' : Parsed} {w w' : ActionWorld}
    {trace : Trace ActionOp ActionOp.Reply ActionWorld}
    (h : ResolvedActions running actions parsed w trace parsed' w') (herr : parsed.err = none) :
    Runs PerformAction (parseActions actions parsed) w trace parsed' w' := by
  induction h with
  | nil => exact Runs.stop _
  | @cons s rest before w first after w₁ second parsed w₂ hrun hresolves _ ih =>
    have hafter := hresolves.err hrun herr
    rw [parseActions]
    apply hrun.bind
    simp only [hafter, Option.isSome_none, Bool.false_eq_true, if_false]
    exact ih hafter

/-- The targets that the actions add: processes, one of which is running if some
action is a capture, and none if no action is. -/
theorem ResolvedActions.result {actions : List Bytes} {parsed parsed' : Parsed} {w w' : ActionWorld}
    {trace : Trace ActionOp ActionOp.Reply ActionWorld}
    (h : ResolvedActions running actions parsed w trace parsed' w') (herr : parsed.err = none) :
    parsed'.err = none ∧ ∃ pids : List Int, parsed'.result = parsed.result ++ pids.map .pid ∧
      ((∃ s ∈ actions, s ≠ ascii "attendance") → ∃ pid ∈ pids, running pid) ∧
      ((∀ s ∈ actions, s = ascii "attendance") → pids = []) := by
  induction h with
  | nil => exact ⟨herr, [], by simp⟩
  | @cons s rest before w first after w₁ second parsed w₂ hrun hresolves _ ih =>
    obtain ⟨hparsed, pids, hpids, hsome, hnone⟩ := ih (hresolves.err hrun herr)
    refine ⟨hparsed, ?_⟩
    cases hresolves with
    | attendance hs =>
      subst hs
      obtain ⟨_, _, _, _, _, hrest⟩ := Runs.of_act hrun
      obtain ⟨_, rfl, _⟩ := Runs.of_done hrest
      refine ⟨pids, hpids, ?_, ?_⟩
      · rintro ⟨s, hs, hne⟩
        rcases List.mem_cons.1 hs with rfl | hs
        · exact absurd rfl hne
        · exact hsome ⟨s, hs, hne⟩
      · intro hall
        exact hnone fun s hs => hall s (List.mem_cons_of_mem _ hs)
    | capture found pid hcapture _ hresult hmem hrunning =>
      refine ⟨found ++ pids, ?_, ?_, ?_⟩
      · rw [hpids, hresult, List.map_append, List.append_assoc]
      · intro _
        exact ⟨pid, List.mem_append_left _ hmem, hrunning⟩
      · intro hall
        rw [hall s List.mem_cons_self] at hcapture
        exact absurd hcapture (by decide)

abbrev PerformHonest (running : Int → Prop) (op : ActionOp) (w : ActionWorld) (r : op.Reply)
    (w' : ActionWorld) : Prop :=
  PerformAction op w r w' ∧ Honest running ⟨w, op, r⟩

theorem anyProcessExists_running {pids : List Int} (h : ∃ pid ∈ pids, running pid)
    (w : ActionWorld) :
    (anyProcessExists pids).Meets (PerformHonest running) w fun found w' =>
      found = true ∧ w'.found ≠ [] := by
  induction pids with
  | nil =>
    obtain ⟨pid, hpid, _⟩ := h
    cases hpid
  | cons pid rest ih =>
    rintro (found : Bool) w' ⟨hperform, hhonest⟩
    cases found with
    | true =>
      obtain rfl : w' = { w with found := w.found ++ [pid] } := hperform
      exact ⟨rfl, by simp⟩
    | false =>
      obtain rfl : w' = w := hperform
      have hdead : ¬ running pid := fun hrunning => Bool.noConfusion (hhonest hrunning)
      apply ih
      obtain ⟨other, hother, hrunning⟩ := h
      rcases List.mem_cons.1 hother with rfl | hother
      · exact absurd hrunning hdead
      · exact ⟨other, hother, hrunning⟩

theorem validate_running {pids : List Int} (h : ∃ pid ∈ pids, running pid) (w : ActionWorld) :
    (validateActionAPIParseResult (pids.map .pid)).Meets (PerformHonest running) w
      fun refusal w' => refusal = none ∧ w'.found ≠ [] := by
  have hpids : pidsOf (pids.map .pid) = pids := by
    simp [pidsOf, List.filterMap_map]
  have hsupported : ((pids.map Target.pid).all fun t => decide (t = .unsupported)) = false := by
    obtain ⟨pid, hpid, _⟩ := h
    rw [List.all_eq_false]
    exact ⟨.pid pid, List.mem_map_of_mem hpid, by simp⟩
  unfold validateActionAPIParseResult
  simp only [hsupported, hpids, Bool.false_eq_true, if_false]
  rw [meets_bind]
  apply (anyProcessExists_running h w).mono
  rintro found w' ⟨rfl, hfound⟩
  exact ⟨rfl, hfound⟩

theorem perform_found {op : ActionOp} {w w' : ActionWorld} {r : op.Reply}
    (h : PerformAction op w r w') (hw : w.found ≠ []) : w'.found ≠ [] := by
  cases op with
  | isProcessExists pid =>
    change Bool at r
    cases r with
    | true =>
      obtain rfl : w' = { w with found := w.found ++ [pid] } := h
      simp
    | false =>
      obtain rfl : w' = w := h
      exact hw
  | rangeResults keys =>
    obtain ⟨_, rfl⟩ := h
    exact hw
  | _ =>
    obtain rfl := h
    exact hw

theorem meets_found {α : Type} (p : ActionProg α) {w : ActionWorld} (hw : w.found ≠ []) :
    p.Meets (PerformHonest running) w fun _ w' => w'.found ≠ [] := by
  induction p generalizing w with
  | done a => exact hw
  | act op next ih => exact fun r w' hperform => ih r (perform_found hperform.1 hw)

theorem serveParsed_found {cfg : ActionConfig} {req : ActionRequest} {parsed : Parsed}
    {pids : List Int} (hok : parsed.err = none) (hpids : parsed.result = pids.map .pid)
    (h : ∃ pid ∈ pids, running pid) (w : ActionWorld) :
    (serveParsed cfg req parsed).Meets (PerformHonest running) w fun _ w' => w'.found ≠ [] := by
  unfold serveParsed
  simp only [hok, hpids]
  rw [meets_bind]
  apply (validate_running h w).mono
  rintro refusal w' ⟨rfl, hfound⟩
  exact meets_found _ hfound

theorem exists_of_lookup_recorded {runs : List CaptureRun} {target : Target}
    {r : ProcessPidsResult} (h : (recorded runs).lookup target = some r) :
    ∃ run ∈ runs, r = run.result := by
  induction runs using List.reverseRecOn with
  | nil => simp [recorded] at h
  | append_singleton runs last ih =>
    rw [recorded_concat] at h
    by_cases htarget : target = .pid last.pid
    · subst htarget
      rw [AList.lookup_insert] at h
      exact ⟨last, by simp, (Option.some.inj h).symm⟩
    · rw [AList.lookup_insert_ne htarget] at h
      obtain ⟨run, hrun, hr⟩ := ih h
      exact ⟨run, List.mem_append_left _ hrun, hr⟩

theorem foldl_only_code {rs : List ProcessPidsResult} (h : ∀ r ∈ rs, r.err = none)
    {resp : ActionResponse} (hresp : resp.code = 0) :
    (rs.foldl ActionResponse.only resp).code = 0 := by
  induction rs generalizing resp with
  | nil => exact hresp
  | cons r rs ih =>
    apply ih fun r' hr' => h r' (List.mem_cons_of_mem _ hr')
    rw [ActionResponse.only, h r List.mem_cons_self]
    exact hresp

theorem filled_code {runs : List CaptureRun} (h : AllSucceed runs) (order : List Target) :
    (filled (recorded runs) order).code = 0 := by
  have hnone : ∀ r ∈ order.filterMap (recorded runs).lookup, r.err = none := by
    intro r hr
    obtain ⟨target, _, hlookup⟩ := List.mem_filterMap.1 hr
    obtain ⟨run, hrun, rfl⟩ := exists_of_lookup_recorded hlookup
    exact h run hrun
  unfold filled
  split_ifs
  · exact foldl_only_code hnone rfl
  · rw [foldl_addRow]
  · rfl

/-- An authorised request that is waited for, with actions that were all resolved
and captures that all succeeded, is answered with code 0 if and only if one of the
actions is a capture. -/
theorem code_zero_iff {cfg : ActionConfig} {req : ActionRequest} {running : Int → Prop}
    {first second : Trace ActionOp ActionOp.Reply ActionWorld} {parsed : Parsed}
    {served : Served} {w₁ w' : ActionWorld}
    (hkey : cfg.apiKey = req.key) (hwait : req.waitFor = true)
    (hparse : ResolvedActions running req.actions {} {} first parsed w₁)
    (hserve : Runs PerformAction (serveParsed cfg req parsed) w₁ second served w')
    (hhonest : ∀ e ∈ second, Honest running e) (hsucceed : AllSucceed w'.captures) :
    Runs PerformAction (handleActionAPI cfg req) {} (first ++ second) served w' ∧
      ∃ resp, served = .ready resp ∧
        (resp.code = 0 ↔ ∃ s ∈ req.actions, s ≠ ascii "attendance") := by
  have hparsed := hparse.runs rfl
  constructor
  · rw [handleActionAPI, if_neg (by simp [hkey])]
    exact hparsed.bind hserve
  · obtain ⟨hok, pids, hpids, hsome, hnone⟩ := hparse.result rfl
    rw [List.nil_append] at hpids
    by_cases hcapture : ∃ s ∈ req.actions, s ≠ ascii "attendance"
    · have hfound := (hserve.restrict (Honest running) hhonest).of_meets
        (Q := fun _ w' => w'.found ≠ []) (serveParsed_found hok hpids (hsome hcapture) w₁)
      have huntouched : Untouched w₁ := hparsed.of_meets (Q := fun _ w' => Untouched w')
        (parseActions_meets req.actions {} ⟨rfl, rfl, rfl⟩)
      have hserved := hserve.of_meets
        (Q := fun served w' => w'.found ≠ [] → ∃ resp, served = .ready resp ∧
          ServedWith pids resp w')
        (serveParsed_meets cfg hwait hok hpids huntouched)
      obtain ⟨resp, hresp, _, _, hfilled⟩ := hserved hfound
      refine ⟨resp, hresp, iff_of_true ?_ hcapture⟩
      rw [hfilled]
      exact filled_code hsucceed _
    · have hempty : pids = [] := hnone (by
        intro s hs
        by_contra hne
        exact hcapture ⟨s, hs, hne⟩)
      have hrefused : serveParsed cfg req parsed = .done (.ready { code := -1 }) := by
        rw [serveParsed, hok, hpids, hempty]
        rfl
      rw [hrefused] at hserve
      obtain ⟨_, rfl, _⟩ := hserve.of_done
      exact ⟨_, rfl, iff_of_false (by simp) hcapture⟩

end Status

theorem attendance_runs (parsed : Parsed) (w : ActionWorld) :
    Runs PerformAction (parseAction (ascii "attendance") parsed) w [⟨w, .attend, ()⟩] parsed w := by
  rw [parseAction_attendance]
  exact .step rfl (Runs.stop parsed)

theorem capture_runs (w : ActionWorld) :
    Runs PerformAction (parseAction (ascii "capture 7") {}) w [] { result := [.pid 7] } w := by
  have hparsed : parseAction (ascii "capture 7") {} = .done { result := [.pid 7] } := rfl
  rw [hparsed]
  exact Runs.stop _

theorem attendance_resolved (w : ActionWorld) :
    ∃ trace, ResolvedActions (fun _ => True) [ascii "attendance"] {} w trace {} w :=
  ⟨_, .cons (attendance_runs {} w) (.attendance rfl) .nil⟩

theorem attendance_and_capture_resolved (w : ActionWorld) :
    ∃ trace, ResolvedActions (fun _ => True) [ascii "attendance", ascii "capture 7"] {} w trace
      { result := [.pid 7] } w :=
  ⟨_, .cons (attendance_runs {} w) (.attendance rfl) (.cons (capture_runs w)
    (.capture [7] 7 (by decide) rfl rfl (by simp) trivial) .nil)⟩

theorem attendance_and_capture_served :
    ∃ trace resp w', Runs PerformAction (handleActionAPI sampleConfig
        (requestFor [ascii "attendance", ascii "capture 7"])) {} trace (.ready resp) w' ∧
      resp.code = 0 := by
  obtain ⟨first, hparse⟩ := attendance_and_capture_resolved {}
  have hserve := play_runs sampleHost_performs (serveParsed sampleConfig
    (requestFor [ascii "attendance", ascii "capture 7"]) { result := [.pid 7] }) {}
  have hhonest : ∀ e ∈ (play sampleHost (serveParsed sampleConfig
      (requestFor [ascii "attendance", ascii "capture 7"]) { result := [.pid 7] }) {}).1,
      Honest (fun _ => True) e := by
    apply play_forall
    intro op w
    cases op with
    | isProcessExists pid => exact fun _ => rfl
    | _ => trivial
  obtain ⟨hrun, resp, hresp, hcode⟩ := code_zero_iff rfl rfl hparse hserve hhonest (by decide)
  rw [hresp] at hrun
  exact ⟨_, resp, _, hrun, hcode.2
    ⟨ascii "capture 7", List.mem_cons_of_mem _ List.mem_cons_self, by decide⟩⟩

/-- An attendance call on its own is carried out and answered with code -1. -/
theorem attendance_alone_refused :
    ∃ first w' resp,
      ResolvedActions (fun _ => True) [ascii "attendance"] {} {} first {} w' ∧
      Runs PerformAction (handleActionAPI sampleConfig (requestFor [ascii "attendance"])) {} first
        (.ready resp) w' ∧ AllSucceed w'.captures ∧ resp.code = -1 := by
  obtain ⟨first, hparse⟩ := attendance_resolved {}
  refine ⟨first, {}, { code := -1 }, hparse, ?_, by decide, rfl⟩
  have hrun := (hparse.runs rfl).bind
    (k := serveParsed sampleConfig (requestFor [ascii "attendance"])) (Runs.stop _)
  rwa [List.append_nil] at hrun

end YcAgent.Agent
