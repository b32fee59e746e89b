import YcAgent.Capture.DotnetGCLogCopy
import YcAgent.Capture.DotnetGCLogSearch
import YcAgent.Capture.Host

/-!
What becomes of the log of a .NET GC collector: every M3 cycle uploads the events
of the last half hour. The collector writes on while the log is read. Whether an
event ever gets to the server depends on when the first cycle that sees it runs.
-/

namespace YcAgent.Capture

open Lib.Lines Go

/-- What the calls of an upload answer. The log is read when it is opened, for its
header, and again after its size has been taken, for its events; `room` is what
the disk still takes. -/
structure SessionReplies where
  opened : Except String Bytes
  created : Except String Unit
  now : Time
  stat : Except String Nat
  file : Bytes
  room : Option Nat
  sync : Except String Unit
  rewind : Except String Unit
  post : PostReplies

def gcWindow : Int := 30 * 60 * 1000000000

section Upload

variable (p : GCLogParsers) (text : GCLogError → String)

def openSession (x : SessionReplies) : Except String DotnetGCLog := do
  let file ← x.opened
  (openDotnetGCLog p file).mapError text

def sessionFile (pid : Pid) (logPath : Option Path) (x : SessionReplies) : Except String Upload :=
  match logPath with
  | none => .error s!"dotnet gc session not found pid={pid}"
  | some logPath =>
  match openSession p text x with
  | .error err => .error s!"dotnet gc payload unavailable path={logPath} err={err}"
  | .ok gcLog =>
  match x.created with
  | .error err => .error s!"failed creating gc.log pid={pid}: {err}"
  | .ok () =>
  match x.stat with
  | .error err => .error s!"failed filtering dotnet gc events pid={pid}: {err}"
  | .ok fileSize =>
  match gcLog.copyLast p x.file fileSize x.now gcWindow ⟨[], x.room⟩ with
  | (_, some err) => .error s!"failed filtering dotnet gc events pid={pid}: {text err}"
  | (w, none) =>
  match x.sync with
  | .error err => .error s!"failed syncing gc.log pid={pid}: {err}"
  | .ok () =>
  match x.rewind with
  | .error err => .error s!"failed rewinding gc.log pid={pid}: {err}"
  | .ok () => .ok ⟨"gc.log", w.out⟩

def uploadFromSession (cfg : PostConfig) (endpoint : String) (pid : Pid) (logPath : Option Path)
    (x : SessionReplies) : Result × Bool :=
  match sessionFile p text pid logPath x with
  | .error msg => (⟨msg, false⟩, false)
  | .ok file =>
    let (msg, uploaded) := postCustomData cfg endpoint s!"dt=gc&pid={pid}" (some file) x.post
    (⟨msg, uploaded⟩, uploaded)

end Upload

namespace GCLogFile

variable {p : GCLogParsers} {text : GCLogError → String}

structure Reads (log : GCLogFile p) (x : SessionReplies) : Prop where
  opened : ∀ f, x.opened = .ok f → log.header.text <+: f
  statted : ∀ n, x.stat = .ok n → n = log.bytes.length
  file : log.bytes <+: x.file

def Carries (log : GCLogFile p) (content : Bytes) (j : Nat) : Prop :=
  j < log.events.length ∧ ∃ first ≤ j,
    content = log.header.text ++ joinLines (log.events.drop first)

def stopped (log : GCLogFile p) (j : Nat) : Option Time :=
  (log.events[j]?).bind fun line => stopTime p line.text

theorem lt_of_stopped {log : GCLogFile p} {j : Nat} {t : Time} (h : log.stopped j = some t) :
    j < log.events.length := by
  obtain ⟨line, hline, -⟩ := Option.bind_eq_some_iff.1 h
  exact (List.getElem?_eq_some_iff.1 hline).1

theorem exists_stopped {log : GCLogFile p} {j : Nat} (hj : j < log.events.length) :
    ∃ t, log.stopped j = some t := by
  obtain ⟨t, ht⟩ :=
    Option.isSome_iff_exists.1 (log.events_timed log.events[j] (List.getElem_mem hj))
  exact ⟨t, by simp [stopped, hj, ht]⟩

theorem openSession_eq {log : GCLogFile p} {x : SessionReplies} (hreads : log.Reads x)
    {d : DotnetGCLog} (h : openSession p text x = .ok d) :
    d = ⟨log.header.text, log.header.text.length⟩ := by
  cases hopened : x.opened with
  | error err => simp [openSession, hopened, bind, Except.bind] at h
  | ok f =>
    obtain ⟨rest, rfl⟩ := hreads.opened f hopened
    simp only [openSession, hopened, bind, Except.bind, openDotnetGCLog, readHeader,
      readBytes_line, log.header_valid, pure, Except.pure] at h
    simp [Except.mapError] at h
    rw [← h, Line.text_length]

/-- The events from `first` on are those at or after an instant. -/
structure CutAt (log : GCLogFile p) (after : Time) (first : Nat) : Prop where
  early : ∀ line ∈ log.events.take first, Early p after line
  late : ∀ line ∈ log.events.drop first, Late p after line

theorem CutAt.le_iff {log : GCLogFile p} {after : Time} {first : Nat} (h : log.CutAt after first)
    {j : Nat} {t : Time} (ht : log.stopped j = some t) : first ≤ j ↔ after ≤ t := by
  obtain ⟨line, hline, hstop⟩ := Option.bind_eq_some_iff.1 ht
  constructor
  · intro hle
    refine h.late line ?_ t hstop
    rw [List.mem_iff_getElem?]
    refine ⟨j - first, ?_⟩
    rw [List.getElem?_drop, Nat.add_sub_cancel' hle, hline]
  · intro hafter
    by_contra hlt
    have hearly : Early p after line := by
      refine h.early line ?_
      rw [List.mem_iff_getElem?]
      refine ⟨j, ?_⟩
      rw [List.getElem?_take, if_pos (by omega), hline]
    exact absurd (hearly t hstop) (not_lt.2 hafter)

theorem copyLast_ok {log : GCLogFile p} {f : Bytes} (hf : log.bytes <+: f) {now : Time}
    {w w' : Writer}
    (h : DotnetGCLog.copyLast ⟨log.header.text, log.header.text.length⟩ p f log.bytes.length now
      gcWindow w = (w', none)) :
    ∃ first, log.CutAt (now - gcWindow) first ∧
      w'.out = w.out ++ (log.header.text ++ joinLines (log.events.drop first)) := by
  obtain ⟨before, rest, hsplit, hsearch, hbefore, hrest⟩ :=
    log.searchOffset_of_cut hf (now - gcWindow) _ _ (log.fullCut (now - gcWindow))
  have hwindow : ¬gcWindow < 0 := by decide
  simp only [DotnetGCLog.copyLast, if_neg hwindow, DotnetGCLog.copyAfter,
    DotnetGCLog.findOffsetAfter, hsearch, bind, Except.bind, pure, Except.pure] at h
  split at h
  · next hok =>
      have hheader : (w.write log.header.text).1.out = w.out ++ log.header.text :=
        Writer.write_ok (Prod.ext rfl hok)
      have hrange : limitReader f (log.offsetOf before) log.bytes.length =
          joinLines rest ++ log.fragment := by
        rw [limitReader_grown hf _ (Nat.le_refl _), limitReader, List.take_length, bytes_eq, hsplit,
          offsetOf, ← List.cons_append, joinLines_append, List.append_assoc, List.drop_left]
      refine ⟨before.length, ⟨?_, ?_⟩, ?_⟩
      · simpa [hsplit] using hbefore
      · simpa [hsplit] using hrest
      · rw [copyFromOffset_ok hf.length_le h, hheader, hrange,
          splitLines_unique rest log.fragment log.fragment_free, hsplit, List.drop_left,
          List.append_assoc]
  · cases h

/-- What a cycle uploads is the log from the first event of the last half hour on. -/
theorem sessionFile_ok {log : GCLogFile p} {x : SessionReplies} (hreads : log.Reads x) {pid : Pid}
    {logPath : Option Path} {file : Upload} (h : sessionFile p text pid logPath x = .ok file) :
    ∃ first, log.CutAt (x.now - gcWindow) first ∧
      file.content = log.header.text ++ joinLines (log.events.drop first) := by
  unfold sessionFile at h
  split at h
  · cases h
  split at h
  · cases h
  next gcLog hopen =>
  cases openSession_eq hreads hopen
  split at h
  · cases h
  split at h
  · cases h
  next fileSize hstat =>
  cases hreads.statted fileSize hstat
  split at h
  · cases h
  next w hcopy =>
  split at h
  · cases h
  split at h
  · cases h
  · cases h
    exact copyLast_ok hreads.file hcopy

theorem joinLines_injective {first second : List (Line newline)}
    (h : joinLines first = joinLines second) : first = second := by
  have hfirst := splitLines_unique first [] List.not_mem_nil
  have hsecond := splitLines_unique second [] List.not_mem_nil
  rw [h, hsecond] at hfirst
  exact (congrArg Prod.fst hfirst).symm

/-- The events a cycle uploads are the complete ones that stopped in the last half
hour. -/
theorem carries_iff {log : GCLogFile p} {x : SessionReplies} (hreads : log.Reads x) {pid : Pid}
    {logPath : Option Path} {file : Upload} (h : sessionFile p text pid logPath x = .ok file)
    (j : Nat) :
    log.Carries file.content j ↔ ∃ t, log.stopped j = some t ∧ x.now - gcWindow ≤ t := by
  obtain ⟨first, hcut, hcontent⟩ := sessionFile_ok hreads h
  constructor
  · rintro ⟨hj, first', hle, hsame⟩
    obtain ⟨t, ht⟩ := exists_stopped hj
    have hdrop : log.events.drop first = log.events.drop first' :=
      joinLines_injective (List.append_cancel_left (hcontent.symm.trans hsame))
    have hfirst : first ≤ j := by
      have hlength := congrArg List.length hdrop
      simp only [List.length_drop] at hlength
      omega
    exact ⟨t, ht, (hcut.le_iff ht).1 hfirst⟩
  · rintro ⟨t, ht, hafter⟩
    exact ⟨lt_of_stopped ht, first, (hcut.le_iff ht).2 hafter, hcontent⟩

theorem grown_events {log log' : GCLogFile p} (h : log.bytes <+: log'.bytes) :
    log.events <+: log'.events := by
  have hlines (log : GCLogFile p) :
      splitLines newline log.bytes = (log.header :: log.events, log.fragment) := by
    rw [bytes_eq, splitLines_unique _ _ log.fragment_free]
  obtain ⟨more, hmore⟩ := h
  have hgrown := hlines log'
  rw [← hmore, bytes_eq, List.append_assoc, splitLines_join_append] at hgrown
  have hfirst := congrArg Prod.fst hgrown
  simp only [List.cons_append, List.cons.injEq] at hfirst
  exact ⟨_, hfirst.2⟩

theorem stopped_grown {log log' : GCLogFile p} (h : log.bytes <+: log'.bytes) {j : Nat}
    (hj : j < log.events.length) : log'.stopped j = log.stopped j := by
  obtain ⟨more, hmore⟩ := grown_events h
  rw [stopped, stopped, ← hmore, List.getElem?_append_left hj]

end GCLogFile

/-- The cycles of an agent for one session: what each of them finds of the log. -/
structure GCCycles (p : GCLogParsers) where
  log : Nat → GCLogFile p
  replies : Nat → SessionReplies
  grows : ∀ k, (log k).bytes <+: (log (k + 1)).bytes
  reads : ∀ k, (log k).Reads (replies k)

namespace GCCycles

variable {p : GCLogParsers} (c : GCCycles p) (text : GCLogError → String) (cfg : PostConfig)
  (endpoint : String) (pid : Pid) (logPath : Option Path)

/-- The cycle `k` uploads the event `j`: its upload succeeds, and the event is in the
file that is uploaded. -/
def Uploads (k j : Nat) : Prop :=
  (uploadFromSession p text cfg endpoint pid logPath (c.replies k)).2 = true ∧
    ∃ file, sessionFile p text pid logPath (c.replies k) = .ok file ∧
      (c.log k).Carries file.content j

variable {c text cfg endpoint pid logPath}

theorem file_of_uploaded {k : Nat}
    (h : (uploadFromSession p text cfg endpoint pid logPath (c.replies k)).2 = true) :
    ∃ file, sessionFile p text pid logPath (c.replies k) = .ok file := by
  unfold uploadFromSession at h
  split at h
  · cases h
  · next file hfile => exact ⟨file, hfile⟩

/-- A cycle that succeeds uploads the events that it finds in the log and that
stopped in the last half hour. -/
theorem uploads_iff {k j : Nat} : c.Uploads text cfg endpoint pid logPath k j ↔
    (uploadFromSession p text cfg endpoint pid logPath (c.replies k)).2 = true ∧
      ∃ t, (c.log k).stopped j = some t ∧ (c.replies k).now - gcWindow ≤ t := by
  constructor
  · rintro ⟨hok, file, hfile, hcarries⟩
    exact ⟨hok, (GCLogFile.carries_iff (c.reads k) hfile j).1 hcarries⟩
  · rintro ⟨hok, hfresh⟩
    obtain ⟨file, hfile⟩ := file_of_uploaded hok
    exact ⟨hok, file, hfile, (GCLogFile.carries_iff (c.reads k) hfile j).2 hfresh⟩

theorem bytes_mono {k n : Nat} (h : k ≤ n) : (c.log k).bytes <+: (c.log n).bytes := by
  induction h with
  | refl => exact List.prefix_refl _
  | step _ ih => exact ih.trans (c.grows _)

theorem stopped_mono {k n j : Nat} (h : k ≤ n) (hj : j < (c.log k).events.length) :
    (c.log n).stopped j = (c.log k).stopped j :=
  GCLogFile.stopped_grown (bytes_mono h) hj

/-- An event gets to the server if and only if the first cycle that succeeds with
the event in its log runs within half an hour of it. If it is too late for that
cycle, it is too late for all. -/
theorem event_uploaded_iff_first (hclock : ∀ k, (c.replies k).now ≤ (c.replies (k + 1)).now)
    {k j : Nat} {t : Time} (hstopped : (c.log k).stopped j = some t)
    (hok : (uploadFromSession p text cfg endpoint pid logPath (c.replies k)).2 = true)
    (hfirst : ∀ i < k, (uploadFromSession p text cfg endpoint pid logPath (c.replies i)).2 = true →
      (c.log i).events.length ≤ j) :
    (∃ i, c.Uploads text cfg endpoint pid logPath i j) ↔ (c.replies k).now ≤ t + gcWindow := by
  constructor
  · rintro ⟨i, hi⟩
    obtain ⟨hoki, u, hu, hfresh⟩ := uploads_iff.1 hi
    have hki : k ≤ i := by
      by_contra hlt
      have hlate := hfirst i (by omega) hoki
      have hsees := GCLogFile.lt_of_stopped hu
      omega
    rw [stopped_mono hki (GCLogFile.lt_of_stopped hstopped), hstopped] at hu
    cases hu
    have hnow : (c.replies k).now ≤ (c.replies i).now :=
      monotone_nat_of_le_succ hclock hki
    exact hnow.trans (Int.le_add_of_sub_right_le hfresh)
  · intro hfresh
    exact ⟨k, uploads_iff.2 ⟨hok, t, hstopped, Int.sub_right_le_of_le_add hfresh⟩⟩

/-- If the uploads succeed, no event is lost as long as the time between two cycles
and the time the collector takes to write an event down do not exceed half an
hour together. -/
theorem events_uploaded {frequency lag : Int} (hsum : frequency + lag ≤ gcWindow)
    (hfrequency : ∀ k, (c.replies (k + 1)).now ≤ (c.replies k).now + frequency)
    (hlag : ∀ k j t, (c.log k).events.length ≤ j → (c.log (k + 1)).stopped j = some t →
      (c.replies k).now ≤ t + lag)
    (hok : ∀ k, (uploadFromSession p text cfg endpoint pid logPath (c.replies k)).2 = true)
    {n j : Nat} (hnew : (c.log 0).events.length ≤ j) (hj : j < (c.log n).events.length) :
    ∃ k ≤ n, c.Uploads text cfg endpoint pid logPath k j := by
  classical
  have hseen : ∃ k, j < (c.log k).events.length := ⟨n, hj⟩
  obtain ⟨k, hk⟩ : ∃ k, Nat.find hseen = k + 1 := by
    refine Nat.exists_eq_succ_of_ne_zero fun hzero => ?_
    have hfound := Nat.find_spec hseen
    rw [hzero] at hfound
    omega
  have hfound : j < (c.log (k + 1)).events.length := hk ▸ Nat.find_spec hseen
  have hbefore : (c.log k).events.length ≤ j :=
    Nat.le_of_not_lt (Nat.find_min hseen (by omega))
  obtain ⟨t, ht⟩ := GCLogFile.exists_stopped hfound
  have hfresh : (c.replies (k + 1)).now ≤ t + gcWindow :=
    calc (c.replies (k + 1)).now
      _ ≤ (c.replies k).now + frequency := hfrequency k
      _ ≤ t + lag + frequency := Int.add_le_add_right (hlag k j t hbefore ht) frequency
      _ = t + (frequency + lag) := by ring
      _ ≤ t + gcWindow := Int.add_le_add_left hsum t
  refine ⟨k + 1, ?_, uploads_iff.2 ⟨hok (k + 1), t, ht, Int.sub_right_le_of_le_add hfresh⟩⟩
  rw [← hk]
  exact Nat.find_le hj

end GCCycles

namespace GCLogFile

def emptyToyLog : GCLogFile toyParsers where
  header := toyLog.header
  header_valid := rfl
  events := []
  events_timed := by simp
  events_ordered := .nil
  fragment := []
  fragment_free := List.not_mem_nil

def toyReplies (log : GCLogFile toyParsers) (now : Time) : SessionReplies where
  opened := .ok log.bytes
  created := .ok ()
  now := now
  stat := .ok log.bytes.length
  file := log.bytes
  room := none
  sync := .ok ()
  rewind := .ok ()
  post := ⟨.ok (), .ok (), .ok (), .ok (), .ok 200, .ok "ok"⟩

theorem toyReplies_reads (log : GCLogFile toyParsers) (now : Time) :
    log.Reads (toyReplies log now) where
  opened := by
    rintro f ⟨⟩
    rw [bytes, List.append_assoc]
    exact List.prefix_append _ _
  statted := by
    rintro n ⟨⟩
    rfl
  file := List.prefix_refl _

def toyCycles : GCCycles toyParsers where
  log k := if k = 0 then emptyToyLog else toyLog
  replies k := if k = 0 then toyReplies emptyToyLog 0 else toyReplies toyLog 9
  grows k := by
    cases k with
    | zero => decide
    | succ k => exact List.prefix_refl _
  reads k := by
    cases k with
    | zero => exact toyReplies_reads _ _
    | succ k => exact toyReplies_reads _ _

theorem toyCycles_uploaded (k : Nat) :
    (uploadFromSession toyParsers (fun _ => "") ⟨false, ""⟩ "https://yc" 5 (some "gc_output_5.json")
      (toyCycles.replies k)).2 = true := by
  cases k with
  | zero => decide +kernel
  | succ k =>
    change (uploadFromSession toyParsers (fun _ => "") ⟨false, ""⟩ "https://yc" 5
      (some "gc_output_5.json") (toyReplies toyLog 9)).2 = true
    decide +kernel

theorem toyCycles_clock (k : Nat) : (toyCycles.replies k).now ≤ (toyCycles.replies (k + 1)).now ∧
    (toyCycles.replies (k + 1)).now ≤ (toyCycles.replies k).now + 9 := by
  cases k with
  | zero => decide
  | succ k => exact ⟨Int.le_refl 9, show (9 : Int) ≤ 9 + 9 by decide⟩

theorem toyCycles_lag (k j : Nat) (t : Time) (hj : (toyCycles.log k).events.length ≤ j)
    (ht : (toyCycles.log (k + 1)).stopped j = some t) : (toyCycles.replies k).now ≤ t + 0 := by
  have hlt : j < 3 := lt_of_stopped ht
  cases k with
  | succ k =>
    have hle : 3 ≤ j := hj
    omega
  | zero =>
    have hstop : toyLog.stopped j = some t := ht
    interval_cases j
    all_goals
      cases hstop
      decide

theorem events_uploaded_toy : ∃ k ≤ 1, toyCycles.Uploads (fun _ => "") ⟨false, ""⟩ "https://yc" 5
    (some "gc_output_5.json") k 2 :=
  GCCycles.events_uploaded (by decide) (fun k => (toyCycles_clock k).2) toyCycles_lag
    toyCycles_uploaded (Nat.zero_le _) (by decide)

theorem event_uploaded_iff_first_toy :
    (∃ i, toyCycles.Uploads (fun _ => "") ⟨false, ""⟩ "https://yc" 5
      (some "gc_output_5.json") i 0) ↔
      (toyCycles.replies 1).now ≤ 1 + gcWindow :=
  GCCycles.event_uploaded_iff_first
    (fun k => (toyCycles_clock k).1) (by decide) (toyCycles_uploaded 1)
    (fun i hi _ => by interval_cases i; decide)

end GCLogFile

end YcAgent.Capture
