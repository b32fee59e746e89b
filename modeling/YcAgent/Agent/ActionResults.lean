import YcAgent.Agent.ActionApi
import YcAgent.Lib.Weakest

/-!
What a request to the action API gets back. The world keeps the captures that
were made and the order in which the runtime visited the map of their results.
Captures are made in the order of the resolved pids, one for each of them,
repeated or not; the response follows the order of the visit.
-/

namespace YcAgent.Agent

open Go Lib.Program Lib.Program.Prog

structure CaptureRun where
  pid : Int
  rUrls : List Bytes
  err : Option Bytes
deriving DecidableEq

def CaptureRun.row (run : CaptureRun) : List Bytes :=
  match run.err with
  | none => itoa run.pid :: run.rUrls
  | some err => [itoa run.pid, err]

@[simp] theorem CaptureRun.head?_row (run : CaptureRun) : run.row.head? = some (itoa run.pid) := by
  unfold CaptureRun.row
  cases run.err with
  | none => rfl
  | some err => rfl

def CaptureRun.result (run : CaptureRun) : ProcessPidsResult := ⟨run.rUrls, run.err, run.row⟩

/-- What the surroundings of the API have seen of it: the pids found to exist,
the captures, the order of the visit and the log. -/
structure ActionWorld where
  found : List Int := []
  captures : List CaptureRun := []
  order : List Target := []
  logs : List Bytes := []

open ActionOp in
/-- Answers are arbitrary, except that a `range` visits every key once. The world
keeps what a response is compared with: the processes found to exist, the captures
and the order of the visit. -/
def PerformAction : (op : ActionOp) → ActionWorld → op.Reply → ActionWorld → Prop
  | getTopCpu, w, _, w' => w' = w
  | getTopMem, w, _, w' => w' = w
  | getProcessIds _, w, _, w' => w' = w
  | attend, w, _, w' => w' = w
  | isProcessExists pid, w, (exists? : Bool), w' =>
    w' = if exists? then { w with found := w.found ++ [pid] } else w
  | processPids pid _ _ _, w, r, w' =>
    w' = { w with captures := w.captures ++ [⟨pid, r.1, r.2⟩] }
  | rangeResults keys, w, (order : List Target), w' =>
    order.Perm keys ∧ w' = { w with order := w.order ++ order }
  | hdAddress, w, _, w' => w' = w
  | forward _, w, _, w' => w' = w
  | encode _, w, _, w' => w' = w
  | log text, w, _, w' => w' = { w with logs := w.logs ++ [text] }

/-- The map of results after some captures: a repeated pid keeps its last. -/
def recorded (runs : List CaptureRun) : GoMap Target ProcessPidsResult :=
  runs.foldl (fun results run => results.insert (.pid run.pid) run.result) ∅

@[simp] theorem recorded_concat (runs : List CaptureRun) (run : CaptureRun) :
    recorded (runs ++ [run]) = (recorded runs).insert (.pid run.pid) run.result := by
  simp [recorded]

theorem mem_recorded {runs : List CaptureRun} {target : Target} :
    target ∈ recorded runs ↔ ∃ run ∈ runs, target = .pid run.pid := by
  induction runs using List.reverseRecOn with
  | nil => simp [recorded]
  | append_singleton runs run ih =>
    rw [recorded_concat, AList.mem_insert, ih]
    simp only [List.mem_append, List.mem_singleton]
    constructor
    · intro h
      rcases h with hnew | ⟨old, hold, htarget⟩
      · exact ⟨run, .inr rfl, hnew⟩
      · exact ⟨old, .inl hold, htarget⟩
    · intro h
      obtain ⟨one, hold | rfl, htarget⟩ := h
      · exact .inr ⟨one, hold, htarget⟩
      · exact .inl htarget

private theorem map_pidsOf {result : List Target} (h : .unsupported ∉ result) :
    result = (pidsOf result).map Target.pid := by
  induction result with
  | nil => rfl
  | cons target result ih =>
    rw [List.mem_cons, not_or] at h
    cases target with
    | pid pid => simpa [pidsOf] using ih h.2
    | unsupported => exact absurd rfl h.1

section Distinct

variable {runs : List CaptureRun} (hdistinct : (runs.map CaptureRun.pid).Nodup)

include hdistinct

theorem lookup_recorded {run : CaptureRun} (hrun : run ∈ runs) :
    (recorded runs).lookup (.pid run.pid) = some run.result := by
  induction runs using List.reverseRecOn with
  | nil => cases hrun
  | append_singleton runs last ih =>
    rw [List.map_append, List.map_singleton, List.nodup_append] at hdistinct
    obtain ⟨hbefore, -, hlast⟩ := hdistinct
    rw [recorded_concat]
    rcases List.mem_append.mp hrun with hold | hnew
    · have hne : Target.pid run.pid ≠ .pid last.pid := by
        intro heq
        exact hlast _ (List.mem_map_of_mem hold) _ List.mem_cons_self (Target.pid.inj heq)
      rw [AList.lookup_insert_ne hne]
      exact ih hbefore hold
    · rw [List.mem_singleton.mp hnew, AList.lookup_insert]

theorem keys_recorded :
    (recorded runs).keys.Perm ((runs.map CaptureRun.pid).map Target.pid) := by
  have hnodup : ((runs.map CaptureRun.pid).map Target.pid).Nodup :=
    hdistinct.map fun p q => Target.pid.inj
  rw [List.perm_ext_iff_of_nodup (recorded runs).keys_nodup hnodup]
  intro target
  rw [AList.mem_keys.symm, mem_recorded, List.map_map, List.mem_map]
  constructor
  · intro h
    obtain ⟨run, hrun, rfl⟩ := h
    exact ⟨run, hrun, rfl⟩
  · intro h
    obtain ⟨run, hrun, rfl⟩ := h
    exact ⟨run, hrun, rfl⟩

/-- Visited in the order of the captures, the map gives back their results. -/
theorem visited_in_order :
    ((runs.map CaptureRun.pid).map Target.pid).filterMap (recorded runs).lookup =
      runs.map CaptureRun.result := by
  rw [List.map_map, List.filterMap_map, ← List.filterMap_eq_map]
  apply List.filterMap_congr
  intro run hrun
  exact lookup_recorded hdistinct hrun

theorem order_of_rows {order : List Target}
    (hperm : order.Perm ((runs.map CaptureRun.pid).map Target.pid))
    (hrows : (order.filterMap (recorded runs).lookup).map ProcessPidsResult.output =
      runs.map CaptureRun.row) : order = (runs.map CaptureRun.pid).map Target.pid := by
  have hpids : order = (pidsOf order).map Target.pid := by
    apply map_pidsOf
    intro hmem
    have hin := hperm.mem_iff.mp hmem
    simp at hin
  generalize pidsOf order = pids at hpids
  subst hpids
  have hlabels : pids.map (fun pid => some (itoa pid)) =
      (runs.map CaptureRun.pid).map fun pid => some (itoa pid) := by
    calc
      pids.map (fun pid => some (itoa pid)) =
          ((pids.map Target.pid).filterMap (recorded runs).lookup).map fun r => r.output.head? := by
        rw [List.map_filterMap, List.filterMap_map, ← List.filterMap_eq_map]
        apply List.filterMap_congr
        intro pid hpid
        have hin := hperm.mem_iff.mp (List.mem_map_of_mem hpid)
        obtain ⟨run, hrun, rfl⟩ : ∃ run ∈ runs, run.pid = pid := by simpa using hin
        simp [lookup_recorded hdistinct hrun, CaptureRun.result]
      _ = (runs.map CaptureRun.row).map List.head? := by
        rw [← hrows, List.map_map]
        rfl
      _ = (runs.map CaptureRun.pid).map fun pid => some (itoa pid) := by
        rw [List.map_map, List.map_map]
        apply List.map_congr_left
        intro run _
        simp
  have hinjective : Function.Injective fun pid => some (itoa pid) :=
    (Option.some_injective _).comp itoa_injective
  rw [hinjective.list_map hlabels]

end Distinct

/-- What `populate` makes of the results, visited in an order. -/
def filled (results : GoMap Target ProcessPidsResult) (order : List Target) : ActionResponse :=
  if results.keys.length = 1 then (order.filterMap results.lookup).foldl ActionResponse.only {}
  else if 1 < results.keys.length then
    (order.filterMap results.lookup).foldl ActionResponse.addRow {}
  else {}

theorem foldl_addRow (rs : List ProcessPidsResult) (resp : ActionResponse) :
    rs.foldl ActionResponse.addRow resp =
      { resp with
        dashboardReportURLs := resp.dashboardReportURLs ++ rs.flatMap ProcessPidsResult.rUrls
        output := resp.output ++ rs.map ProcessPidsResult.output } := by
  induction rs generalizing resp with
  | nil => simp
  | cons r rs ih => simp [ih, ActionResponse.addRow]

/-- No capture has failed. Then each result is a list of URLs, and none is the text
of an error. -/
def AllSucceed (runs : List CaptureRun) : Prop := ∀ run ∈ runs, run.err = none

instance (runs : List CaptureRun) : Decidable (AllSucceed runs) :=
  inferInstanceAs (Decidable (∀ run ∈ runs, run.err = none))

/-- Every pid is captured once; if all captures succeed, the response has their
URLs in order and, for several processes, a row for each. -/
structure Delivered (pids : List Int) (runs : List CaptureRun) (resp : ActionResponse) : Prop where
  once : ∀ pid ∈ pids, (runs.map CaptureRun.pid).count pid = 1
  urls : AllSucceed runs → resp.dashboardReportURLs = runs.flatMap CaptureRun.rUrls
  rows : AllSucceed runs → (∃ p ∈ pids, ∃ q ∈ pids, p ≠ q) →
    resp.output = runs.map CaptureRun.row

section Filled

variable {runs : List CaptureRun} {order : List Target}
variable (hdistinct : (runs.map CaptureRun.pid).Nodup)
variable (hvisit : order.Perm ((runs.map CaptureRun.pid).map Target.pid))

include hdistinct

private theorem keys_length : (recorded runs).keys.length = runs.length := by
  rw [(keys_recorded hdistinct).length_eq, List.length_map, List.length_map]

private theorem filled_many (hmany : 1 < runs.length) :
    filled (recorded runs) order =
      { dashboardReportURLs :=
          (order.filterMap (recorded runs).lookup).flatMap ProcessPidsResult.rUrls
        output := (order.filterMap (recorded runs).lookup).map ProcessPidsResult.output } := by
  have hlength := keys_length hdistinct
  rw [filled, if_neg (by omega), if_pos (by omega), foldl_addRow]
  simp

private theorem two_pids (hmany : 1 < runs.length) :
    ∃ p ∈ runs.map CaptureRun.pid, ∃ q ∈ runs.map CaptureRun.pid, p ≠ q := by
  match runs with
  | first :: second :: rest =>
    refine ⟨first.pid, by simp, second.pid, by simp, ?_⟩
    rw [List.map_cons, List.nodup_cons] at hdistinct
    intro heq
    exact hdistinct.1 (heq ▸ List.mem_map_of_mem List.mem_cons_self)

include hvisit

private theorem delivered_many (hmany : 1 < runs.length) :
    Delivered (runs.map CaptureRun.pid) runs (filled (recorded runs) order) ↔
      (AllSucceed runs → order = (runs.map CaptureRun.pid).map Target.pid) := by
  rw [filled_many hdistinct hmany]
  constructor
  · intro h hall
    exact order_of_rows hdistinct hvisit (h.rows hall (two_pids hdistinct hmany))
  · intro h
    refine ⟨List.nodup_iff_count_eq_one.mp hdistinct, ?_, ?_⟩
    · intro hall
      rw [h hall, visited_in_order hdistinct, List.flatMap_map]
      rfl
    · intro hall _
      rw [h hall, visited_in_order hdistinct, List.map_map]
      rfl

private theorem delivered_few (hfew : runs.length ≤ 1) :
    Delivered (runs.map CaptureRun.pid) runs (filled (recorded runs) order) ∧
      order = (runs.map CaptureRun.pid).map Target.pid := by
  have hlength := keys_length hdistinct
  have honce := List.nodup_iff_count_eq_one.mp hdistinct
  match runs with
  | [] =>
    have hnone : order = [] := List.perm_nil.mp hvisit
    exact ⟨⟨honce, fun _ => rfl, fun _ _ => rfl⟩, hnone⟩
  | [run] =>
    have hone : order = [.pid run.pid] := List.perm_singleton.mp hvisit
    refine ⟨⟨honce, ?_, ?_⟩, hone⟩
    · intro hall
      have herr := hall run List.mem_cons_self
      have hlookup := lookup_recorded hdistinct (List.mem_cons_self : run ∈ [run])
      rw [filled, hlength, hone]
      simp [hlookup, ActionResponse.only, CaptureRun.result, herr]
    · intro _ hseveral
      obtain ⟨p, hp, q, hq, hne⟩ := hseveral
      simp only [List.map_cons, List.map_nil, List.mem_singleton] at hp hq
      exact absurd (hp.trans hq.symm) hne

end Filled

theorem delivered_filled_iff {runs : List CaptureRun} {order : List Target}
    (hperm : order.Perm (recorded runs).keys) :
    Delivered (runs.map CaptureRun.pid) runs (filled (recorded runs) order) ↔
      (runs.map CaptureRun.pid).Nodup ∧
        (AllSucceed runs → order = (runs.map CaptureRun.pid).map Target.pid) := by
  by_cases hdistinct : (runs.map CaptureRun.pid).Nodup
  · have hvisit := hperm.trans (keys_recorded hdistinct)
    rw [and_iff_right hdistinct]
    by_cases hmany : 1 < runs.length
    · exact delivered_many hdistinct hvisit hmany
    · have hfew := delivered_few hdistinct hvisit (by omega)
      exact iff_of_true hfew.1 fun _ => hfew.2
  · have hrepeated : ¬ Delivered (runs.map CaptureRun.pid) runs (filled (recorded runs) order) :=
      fun h => hdistinct (List.nodup_iff_count_eq_one.mpr h.once)
    exact iff_of_false hrepeated fun h => hdistinct h.1

section Programs

variable (pid2Name : GoMap Int Bytes) (hd : Bool) (tags : Bytes)

private theorem recordTarget_meets (runs : List CaptureRun) (pid : Int) (w : ActionWorld) :
    (recordTarget pid2Name hd tags (recorded runs) (.pid pid)).Meets PerformAction w
      fun results w' => ∃ run : CaptureRun, run.pid = pid ∧ results = recorded (runs ++ [run]) ∧
        w' = { w with captures := w.captures ++ [run] } := by
  intro r w' hperform
  obtain ⟨rUrls, err⟩ := r
  cases err with
  | none =>
    exact ⟨⟨pid, rUrls, none⟩, rfl, (recorded_concat runs ⟨pid, rUrls, none⟩).symm, hperform⟩
  | some err =>
    exact ⟨⟨pid, rUrls, some err⟩, rfl, (recorded_concat runs ⟨pid, rUrls, some err⟩).symm,
      hperform⟩

private theorem recordTargets_meets (runs : List CaptureRun) (pids : List Int) (w : ActionWorld) :
    ((pids.map .pid).foldlM (recordTarget pid2Name hd tags) (recorded runs)).Meets
      PerformAction w fun results w' => ∃ more, more.map CaptureRun.pid = pids ∧
        results = recorded (runs ++ more) ∧ w' = { w with captures := w.captures ++ more } := by
  induction pids generalizing runs w with
  | nil => exact ⟨[], rfl, by simp, by simp⟩
  | cons pid pids ih =>
    rw [List.map_cons, List.foldlM_cons, meets_bind]
    apply (recordTarget_meets pid2Name hd tags runs pid w).mono
    rintro results w₁ ⟨run, rfl, rfl, rfl⟩
    apply (ih (runs ++ [run]) _).mono
    rintro results w₂ ⟨more, rfl, rfl, rfl⟩
    exact ⟨run :: more, rfl, by simp, by simp⟩

/-- The loop over the pids captures each of them, and records the last capture
of each. -/
theorem processTargets_meets (pids : List Int) (w : ActionWorld) :
    (processTargets pid2Name hd tags (pids.map .pid)).Meets PerformAction w fun results w' =>
      ∃ runs, runs.map CaptureRun.pid = pids ∧ results = recorded runs ∧
        w' = { w with captures := w.captures ++ runs } :=
  recordTargets_meets pid2Name hd tags [] pids w

theorem populate_meets (results : GoMap Target ProcessPidsResult) (w : ActionWorld) :
    (populate results).Meets PerformAction w fun resp w' =>
      ∃ order, order.Perm results.keys ∧ resp = filled results order ∧
        w' = { w with order := w.order ++ order } := by
  unfold populate
  by_cases hone : results.keys.length = 1
  · rw [if_pos hone]
    rintro order w' ⟨hperm, rfl⟩
    exact ⟨order, hperm, by simp [filled, hone], rfl⟩
  · rw [if_neg hone]
    by_cases hmany : 1 < results.keys.length
    · rw [if_pos hmany]
      rintro order w' ⟨hperm, rfl⟩
      exact ⟨order, hperm, by simp [filled, hone, hmany], rfl⟩
    · rw [if_neg hmany]
      have hempty : results.keys = [] := List.length_eq_zero_iff.mp (by omega)
      exact ⟨[], by simp [hempty], by simp [filled, hempty], by simp⟩

def ServedWith (pids : List Int) (resp : ActionResponse) (w : ActionWorld) : Prop :=
  w.captures.map CaptureRun.pid = pids ∧
    w.order.Perm (recorded w.captures).keys ∧ resp = filled (recorded w.captures) w.order

theorem captureJob_meets (pids : List Int) {w : ActionWorld} (hcaptures : w.captures = [])
    (horder : w.order = []) :
    (captureJob pid2Name hd tags (pids.map .pid)).Meets PerformAction w fun resp w' =>
      ServedWith pids resp w' ∧ w'.found = w.found := by
  rw [captureJob, meets_bind]
  apply (processTargets_meets pid2Name hd tags pids w).mono
  rintro results w₁ ⟨runs, hpids, rfl, rfl⟩
  rw [meets_bind]
  apply (populate_meets _ _).mono
  rintro resp w₂ ⟨order, hperm, rfl, rfl⟩
  rintro _ w₃ rfl
  simp only [ServedWith, hcaptures, horder, List.nil_append]
  exact ⟨⟨hpids, hperm, rfl⟩, rfl⟩

def Untouched (w : ActionWorld) : Prop := w.found = [] ∧ w.captures = [] ∧ w.order = []

theorem parseCapture_meets (id : Bytes) (parsed : Parsed) {w : ActionWorld} (hw : Untouched w) :
    (parseCapture id parsed).Meets PerformAction w fun _ w' => Untouched w' := by
  unfold parseCapture
  split_ifs
  · rintro (err | pid) w' rfl <;> exact hw
  · rintro (err | pid) w' rfl <;> exact hw
  · rintro (err | top) w' rfl
    · exact hw
    · rintro (err | pid) w' rfl <;> exact hw
  · split
    · exact hw
    · rintro (err | entries) w' rfl <;> exact hw

theorem parseActions_meets (actions : List Bytes) (parsed : Parsed) {w : ActionWorld}
    (hw : Untouched w) :
    (parseActions actions parsed).Meets PerformAction w fun _ w' => Untouched w' := by
  induction actions generalizing parsed w with
  | nil => exact hw
  | cons s rest ih =>
    rw [parseActions, meets_bind]
    have hone : (parseAction s parsed).Meets PerformAction w fun _ w' => Untouched w' := by
      unfold parseAction
      split_ifs
      · split
        · exact parseCapture_meets _ _ hw
        · exact hw
      · rintro _ w' rfl
        exact hw
      · exact hw
    apply hone.mono
    intro parsed' w' hw'
    split_ifs
    · exact hw'
    · exact ih parsed' hw'

theorem anyProcessExists_meets (pids : List Int) (w : ActionWorld) :
    (anyProcessExists pids).Meets PerformAction w fun found w' =>
      (found = false → w' = w) ∧ w'.captures = w.captures ∧ w'.order = w.order := by
  induction pids with
  | nil => exact ⟨fun _ => rfl, rfl, rfl⟩
  | cons pid rest ih =>
    rintro (found : Bool) w' hperform
    cases found with
    | true =>
      obtain rfl : w' = { w with found := w.found ++ [pid] } := hperform
      exact ⟨fun h => absurd h (by simp), rfl, rfl⟩
    | false =>
      obtain rfl : w' = w := hperform
      exact ih

end Programs

theorem validate_meets (result : List Target) (w : ActionWorld) :
    (validateActionAPIParseResult result).Meets PerformAction w fun refusal w' =>
      (refusal.isSome → w' = w) ∧ w'.captures = w.captures ∧ w'.order = w.order := by
  unfold validateActionAPIParseResult
  split_ifs
  · exact ⟨fun _ => rfl, rfl, rfl⟩
  · rw [meets_bind]
    apply (anyProcessExists_meets _ w).mono
    intro found w' h
    cases found with
    | true => exact ⟨fun h => absurd h (by simp), h.2⟩
    | false => exact ⟨fun _ => h.1 rfl, h.2⟩

theorem needHeapDump_meets (cfg : ActionConfig) (req : ActionRequest) (w : ActionWorld) :
    (needHeapDump cfg req).Meets PerformAction w fun _ w' =>
      w'.captures = w.captures ∧ w'.order = w.order := by
  unfold needHeapDump
  cases req.hd with
  | some hd => exact ⟨rfl, rfl⟩
  | none =>
    rintro _ w' rfl
    exact ⟨rfl, rfl⟩

/-- A request that is waited for is refused, if no pid is found to exist, or
served. -/
theorem serveParsed_meets (cfg : ActionConfig) {req : ActionRequest} {parsed : Parsed}
    {pids : List Int} (hwait : req.waitFor = true) (hok : parsed.err = none)
    (hpids : parsed.result = pids.map .pid) {w : ActionWorld} (hw : Untouched w) :
    (serveParsed cfg req parsed).Meets PerformAction w fun served w' =>
      w'.found ≠ [] → ∃ resp, served = .ready resp ∧ ServedWith pids resp w' := by
  obtain ⟨hfound, hcaptures, horder⟩ := hw
  simp only [serveParsed, hok, hwait, hpids, Bool.true_or, ↓reduceIte]
  rw [meets_bind]
  apply (validate_meets _ w).mono
  rintro refusal w₁ ⟨hrefused, hcaptures₁, horder₁⟩
  cases refusal with
  | some refusal =>
    intro hexists
    rw [hrefused rfl] at hexists
    exact absurd hfound hexists
  | none =>
    rw [meets_bind]
    apply (needHeapDump_meets cfg req w₁).mono
    rintro hd w₂ ⟨hcaptures₂, horder₂⟩
    rw [meets_bind]
    apply (captureJob_meets parsed.pid2Name hd req.tags pids
      (by rw [hcaptures₂, hcaptures₁, hcaptures])
      (by rw [horder₂, horder₁, horder])).mono
    intro resp w₃ hserved _
    exact ⟨resp, rfl, hserved.1⟩

/-- For a request that is authorised, waited for and not refused, the response
is as it should be if and only if no pid was resolved twice and, once all
captures have succeeded, the runtime happens to visit the results in the order
of the pids. -/
theorem delivered_iff {cfg : ActionConfig} {req : ActionRequest}
    {trace : Trace ActionOp ActionOp.Reply ActionWorld} {served : Served} {w' : ActionWorld}
    (hkey : cfg.apiKey = req.key) (hwait : req.waitFor = true)
    (hrun : Runs PerformAction (handleActionAPI cfg req) {} trace served w') :
    ∃ first second parsed w₁, trace = first ++ second ∧
      Runs PerformAction (parseActions req.actions {}) {} first parsed w₁ ∧
      ∀ pids : List Int, parsed.err = none → parsed.result = pids.map .pid → w'.found ≠ [] →
        ∃ resp, served = .ready resp ∧ w'.captures.map CaptureRun.pid = pids ∧
          (Delivered pids w'.captures resp ↔
            pids.Nodup ∧ (AllSucceed w'.captures → w'.order = pids.map .pid)) := by
  have hauthorised : handleActionAPI cfg req =
      (parseActions req.actions {} >>= fun parsed => serveParsed cfg req parsed) := by
    rw [handleActionAPI, if_neg (by simp [hkey])]
  rw [hauthorised] at hrun
  obtain ⟨first, parsed, w₁, second, htrace, hparse, hserve⟩ := hrun.of_bind
  refine ⟨first, second, parsed, w₁, htrace, hparse, ?_⟩
  intro pids hok hpids hfound
  have huntouched : Untouched w₁ :=
    hparse.of_meets (Q := fun _ w' => Untouched w')
      (parseActions_meets req.actions {} ⟨rfl, rfl, rfl⟩)
  have hserved := hserve.of_meets
    (Q := fun served w' => w'.found ≠ [] → ∃ resp, served = .ready resp ∧ ServedWith pids resp w')
    (serveParsed_meets cfg hwait hok hpids huntouched)
  obtain ⟨resp, hresp, hruns, hperm, rfl⟩ := hserved hfound
  refine ⟨_, hresp, hruns, ?_⟩
  rw [← hruns]
  exact delivered_filled_iff hperm

section Sample

open ActionOp in
/-- One process is the first in both rankings; captures number their reports,
and a visit of the results goes from the first key inserted to the last. -/
def sampleHost : (op : ActionOp) → ActionWorld → op.Reply × ActionWorld
  | getTopCpu, w => (.ok 7, w)
  | getTopMem, w => (.ok 7, w)
  | getProcessIds _, w => (.ok [], w)
  | attend, w => ((), w)
  | isProcessExists pid, w => (true, { w with found := w.found ++ [pid] })
  | processPids pid _ _ _, w =>
    let rUrls := [ascii "report " ++ itoa (w.captures.length + 1)]
    ((rUrls, none), { w with captures := w.captures ++ [⟨pid, rUrls, none⟩] })
  | rangeResults keys, w => (keys.reverse, { w with order := w.order ++ keys.reverse })
  | hdAddress, w => (ascii "0xc000012345", w)
  | forward _, w => (({}, none), w)
  | encode _, w => (none, w)
  | log text, w => ((), { w with logs := w.logs ++ [text] })

theorem sampleHost_performs (op : ActionOp) (w : ActionWorld) :
    PerformAction op w (sampleHost op w).1 (sampleHost op w).2 := by
  cases op with
  | rangeResults keys => exact ⟨keys.reverse_perm, rfl⟩
  | _ => rfl

def sampleConfig : ActionConfig := ⟨ascii "key", false⟩

def requestFor (actions : List Bytes) : ActionRequest :=
  ⟨ascii "key", actions, true, some false, []⟩

theorem two_processes_delivered :
    ∃ trace resp w', Runs PerformAction
        (handleActionAPI sampleConfig (requestFor [ascii "capture 7", ascii "capture 8"]))
        {} trace (.ready resp) w' ∧ Delivered [7, 8] w'.captures resp := by
  have hrun := play_runs sampleHost_performs
    (handleActionAPI sampleConfig (requestFor [ascii "capture 7", ascii "capture 8"])) {}
  obtain ⟨first, second, parsed, w₁, _, hparse, hserved⟩ := delivered_iff rfl rfl hrun
  have hparsed : parsed = { result := [.pid 7, .pid 8] } := hparse.of_done.2.1
  obtain ⟨resp, hresp, _, hiff⟩ :=
    hserved [7, 8] (by rw [hparsed]) (by rw [hparsed]; rfl) (List.cons_ne_nil 7 [])
  refine ⟨_, resp, _, hresp ▸ hrun, hiff.mpr ⟨by decide, ?_⟩⟩
  intro _
  rfl

/-- The process that leads both rankings is captured twice, and the report of
the first capture is lost. -/
theorem repeated_pid_loses_report :
    ∃ trace resp w', Runs PerformAction
        (handleActionAPI sampleConfig (requestFor [ascii "capture PROCESS_UNKNOWN"]))
        {} trace (.ready resp) w' ∧
      w'.captures.map CaptureRun.pid = [7, 7] ∧ AllSucceed w'.captures ∧
      w'.captures.flatMap CaptureRun.rUrls = [ascii "report 1", ascii "report 2"] ∧
      resp.dashboardReportURLs = [ascii "report 2"] := by
  refine ⟨_, _, _, play_runs sampleHost_performs _ _, rfl, ?_, by decide, by decide⟩
  decide

end Sample

end YcAgent.Agent
