import YcAgent.Capture.Host
import YcAgent.Lib.Weakest

/-!
The processes of a host as the manager of the .NET GC collectors meets them. A
collector is a child of the agent: when it exits it keeps its pid, and is
listed with its start time, until it is waited for. A new process gets a pid
that is not in use.
-/

namespace YcAgent.Capture

open Lib.Program

inductive Life where
  | running
  | exited
  | reaped
  deriving DecidableEq, Repr

/-- A collector that was started for the process `target`. -/
structure Collector where
  pid : Pid
  target : Pid
  startTs : Int
  life : Life
  deriving DecidableEq, Repr

def Collector.Listed (c : Collector) : Prop := c.life ≠ .reaped

instance (c : Collector) : Decidable c.Listed := inferInstanceAs (Decidable (_ ≠ _))

/-- Every collector started so far, and the start times of all other
processes. -/
structure ProcessTable where
  others : Pid → Option Int
  collectors : List Collector
  positive : ∀ c ∈ collectors, 0 < c.pid
  apart : collectors.Pairwise fun a b => a.Listed → b.Listed → a.pid ≠ b.pid
  free : ∀ c ∈ collectors, c.Listed → others c.pid = none

namespace ProcessTable

def startTime (w : ProcessTable) (pid : Pid) : Option Int :=
  if pid ≤ 0 then none else
    match w.others pid with
    | some ts => some ts
    | none => (w.collectors.find? fun c => c.Listed ∧ c.pid = pid).map Collector.startTs

variable {w : ProcessTable}

theorem startTime_listed {c : Collector} (hmem : c ∈ w.collectors) (hlisted : c.Listed) :
    w.startTime c.pid ≠ none := by
  have hpos := w.positive c hmem
  rw [startTime, if_neg (not_le.mpr hpos), w.free c hmem hlisted]
  simp only [ne_eq, Option.map_eq_none_iff, List.find?_eq_none, not_forall]
  exact ⟨c, hmem, by simpa using hlisted⟩

theorem startTime_eq_none {pid : Pid} (hpos : 0 < pid) : w.startTime pid = none ↔
    w.others pid = none ∧ ∀ c ∈ w.collectors, c.Listed → c.pid ≠ pid := by
  rw [startTime, if_neg (not_le.mpr hpos)]
  cases w.others pid with
  | some ts => simp
  | none => simp

theorem eq_of_pid {a b : Collector} (ha : a ∈ w.collectors) (hb : b ∈ w.collectors)
    (hla : a.Listed) (hlb : b.Listed) (hpid : a.pid = b.pid) : a = b := by
  have hsymm : Std.Symm fun a b : Collector => a.Listed → b.Listed → a.pid ≠ b.pid :=
    ⟨fun _ _ h hb ha heq => h ha hb heq.symm⟩
  by_contra hne
  exact w.apart.forall ha hb hne hla hlb hpid

end ProcessTable

/-- What happens to a collector that is stopped. -/
def Collector.stopped (cmd : Cmd) (life : Life) (c : Collector) : Collector :=
  if c.Listed ∧ c.pid = cmd.pid then { c with life := life } else c

namespace ProcessTable

def started (w : ProcessTable) (cmd : Cmd) (target : Pid) (ts : Int) (hpos : 0 < cmd.pid)
    (hnone : w.startTime cmd.pid = none) : ProcessTable where
  others := w.others
  collectors := w.collectors ++ [⟨cmd.pid, target, ts, .running⟩]
  positive := by
    intro c hmem
    rcases List.mem_append.mp hmem with hmem | hmem
    · exact w.positive c hmem
    · rw [List.mem_singleton.mp hmem]
      exact hpos
  apart := by
    rw [List.pairwise_append]
    refine ⟨w.apart, List.pairwise_singleton _ _, fun a ha b hb hlisted _ => ?_⟩
    rw [List.mem_singleton.mp hb]
    exact ((startTime_eq_none hpos).mp hnone).2 a ha hlisted
  free := by
    intro c hmem hlisted
    rcases List.mem_append.mp hmem with hmem | hmem
    · exact w.free c hmem hlisted
    · rw [List.mem_singleton.mp hmem]
      exact ((startTime_eq_none hpos).mp hnone).1

def aged (w : ProcessTable) (f : Collector → Collector)
    (hf : ∀ c, (f c).pid = c.pid ∧ ((f c).Listed → c.Listed)) : ProcessTable where
  others := w.others
  collectors := w.collectors.map f
  positive := by
    intro c hmem
    obtain ⟨c₀, hmem₀, rfl⟩ := List.mem_map.mp hmem
    rw [(hf c₀).1]
    exact w.positive c₀ hmem₀
  apart := by
    rw [List.pairwise_map]
    refine w.apart.imp fun {a b} hapart ha hb => ?_
    rw [(hf a).1, (hf b).1]
    exact hapart ((hf a).2 ha) ((hf b).2 hb)
  free := by
    intro c hmem hlisted
    obtain ⟨c₀, hmem₀, rfl⟩ := List.mem_map.mp hmem
    rw [(hf c₀).1]
    exact w.free c₀ hmem₀ ((hf c₀).2 hlisted)

end ProcessTable

/-- What an operation may answer and do. Looking up a start time and starting a
collector may fail at any time; `GracefulStop`, whatever it returns, leaves the
collector dead. -/
def Perform : (op : HostOp) → ProcessTable → op.Reply → ProcessTable → Prop
  | .getProcessStartTimestamp pid, w, r, w' =>
    (∀ ts, r = .ok ts → w.startTime pid = some ts) ∧ w' = w
  | .startDotnetToolInBackground pid _ _, w, r, w' =>
    match r with
    | .error _ => w' = w
    | .ok cmd => 0 < cmd.pid ∧ w.startTime cmd.pid = none ∧ w'.others = w.others ∧
        ∃ ts, w'.collectors = w.collectors ++ [⟨cmd.pid, pid, ts, .running⟩]
  | .gracefulStop cmd, w, _, w' => w'.others = w.others ∧
      ∃ life, life ≠ .running ∧ w'.collectors = w.collectors.map (Collector.stopped cmd life)
  | _, w, _, w' => w' = w

/-- What may happen between two calls: other processes come and go and reuse
pids, and collectors exit. -/
def Passes (w w' : ProcessTable) : Prop :=
  ∃ exits : Collector → Prop, ∃ _ : DecidablePred exits,
    w'.collectors = w.collectors.map fun c =>
      if c.life = .running ∧ exits c then { c with life := .exited } else c

/-- A host on which everything works: lookups answer what is listed, and a
collector gets pid 100, if that is not in use. -/
def healthyHost : (op : HostOp) → ProcessTable → op.Reply × ProcessTable
  | .rangeOrder keys, w => (⟨keys, .refl keys⟩, w)
  | .getProcessStartTimestamp pid, w =>
    match w.startTime pid with
    | some ts => (.ok ts, w)
    | none => (.error "process not found", w)
  | .ensureDir _, w => (.ok (), w)
  | .startDotnetToolInBackground pid _ _, w =>
    if hnone : w.startTime 100 = none then
      (.ok ⟨100⟩, w.started ⟨100⟩ pid 2 (by decide) hnone)
    else (.error "fork failed", w)
  | .gracefulStop cmd, w => (.ok (), w.aged (Collector.stopped cmd .reaped) fun c => by
    unfold Collector.stopped
    split
    · next h => exact ⟨rfl, fun _ => h.1⟩
    · exact ⟨rfl, id⟩)
  | .uploadFromSession _ _ _, w => ((⟨"", true⟩, true), w)
  | .mkdirAll _, w => (.ok (), w)
  | .absPath path, w => (.ok path, w)
  | .resolveNodeGCStdoutPath _, w => (.ok "out.log", w)
  | .nodeHasTraceGCFlag _, w => (true, w)
  | .hookAvailable _, w => (false, w)
  | .statSize _, w => (.ok 0, w)
  | .splitToFiles _ _ _ _ _, w => ((0, ⟨"", true⟩), w)
  | .dumpGC _ _, w => (.ok (), w)
  | .upload _ _, w => ((), w)

theorem healthyHost_performs (op : HostOp) (w : ProcessTable) :
    Perform op w (healthyHost op w).1 (healthyHost op w).2 := by
  cases op with
  | getProcessStartTimestamp pid =>
    simp only [healthyHost]
    split
    · next ts hts =>
        refine ⟨fun ts' heq => ?_, rfl⟩
        cases heq
        exact hts
    · refine ⟨fun ts heq => ?_, rfl⟩
      cases heq
  | startDotnetToolInBackground pid args dir =>
    simp only [healthyHost]
    split
    · next hnone => exact ⟨by decide, hnone, rfl, 2, rfl⟩
    · exact rfl
  | gracefulStop cmd => exact ⟨rfl, .reaped, by decide, rfl⟩
  | _ => exact rfl

def ProcessTable.allExit (w : ProcessTable) : ProcessTable :=
  w.aged (fun c => if c.life = .running ∧ True then { c with life := .exited } else c) fun c => by
    split
    · next h => exact ⟨rfl, fun _ => by simp [Collector.Listed, h.1]⟩
    · exact ⟨rfl, id⟩

theorem passes_allExit (w : ProcessTable) : Passes w w.allExit :=
  ⟨fun _ => True, inferInstance, rfl⟩

def onlyFive : ProcessTable where
  others pid := if pid = 5 then some 1 else none
  collectors := []
  positive := by simp
  apart := .nil
  free := by simp

end YcAgent.Capture
