import YcAgent.Capture.JStack

/-!
`ThreadDump.CaptureToFile`, and whose bytes the file it uploads has. The rounds
of a capture overwrite the files of the same rounds of earlier captures in the
directory, as far as they get; `threaddump.out` is made of all the files that
match, whoever left them.
-/

namespace YcAgent.Capture

open Go Lib.Program

structure ThreadDump where
  pid : Pid
  tdPath : Path
  javaHome : Path
  tdCaptureDuration : Int
  executable : Path
  deriving DecidableEq, Repr

namespace ThreadDump

def jstack (t : ThreadDump) : JStack where
  executable := t.executable
  javaHome := t.javaHome
  pid := t.pid
  count := if t.tdCaptureDuration ≠ 0 then JStack.countFor t.tdCaptureDuration
    else JStack.defaultCount

def tdOut : String := DumpFile.threaddump.text

def copyThreadDumpFile (t : ThreadDump) : DumpProg (Except IOError (List Written)) := do
  match ← call (.openSource t.tdPath) with
  | .error e => return .error ("failed to open source file " ++ t.tdPath.quote ++ ": " ++ e)
  | .ok () =>
  match ← call (.create .threaddump) with
  | .error e => return .error ("failed to create destination file " ++ tdOut.quote ++ ": " ++ e)
  | .ok () =>
  match ← call (.copy t.pid t.tdPath .threaddump) with
  | .error e =>
    let _ ← call (.close .threaddump)
    return .error ("failed to copy from " ++ t.tdPath.quote ++ " to " ++ tdOut.quote ++ ": " ++ e)
  | .ok () =>
  match ← call (.seek .threaddump) with
  | .error e =>
    let _ ← call (.close .threaddump)
    return .error ("failed to rewind destination file " ++ tdOut.quote ++ ": " ++ e)
  | .ok () =>
    let file ← call .openDump
    return file

/-- The two commands that build `threaddump.out`. -/
def aggregate : DumpProg (Except IOError (List Written)) := do
  match ← call (.cat .javacores false) with
  | .error e => return .error e
  | .ok () =>
  match ← call (.cat .topdashHs true) with
  | .error e => return .error e
  | .ok () =>
    let file ← call .openDump
    return file

def captureFromProcess (t : ThreadDump) : DumpProg (Except IOError (List Written)) := do
  let found : Bool ← call (.isProcessExists t.pid)
  if found then
    let _ ← t.jstack.run
    aggregate
  else return .error ("process " ++ toString t.pid ++ " does not exist")

def captureLive (t : ThreadDump) : DumpProg (Except IOError (List Written)) :=
  if 0 < t.pid then t.captureFromProcess
  else return .error "no valid thread dump source: requires either TdPath or valid Pid"

def captureToFile (t : ThreadDump) : DumpProg (Except IOError (List Written)) := do
  if t.tdPath ≠ "" then
    match ← t.copyThreadDumpFile with
    | .ok file => return .ok file
    | .error _ => t.captureLive
  else t.captureLive

end ThreadDump

/-- All of these bytes were written while `pid` was captured. -/
def OnlyFrom (pid : Pid) (bytes : List Written) : Prop := ∀ b ∈ bytes, b.pid = pid

instance (pid : Pid) (bytes : List Written) : Decidable (OnlyFrom pid bytes) :=
  inferInstanceAs (Decidable (∀ b ∈ bytes, b.pid = pid))

theorem OnlyFrom.nil (pid : Pid) : OnlyFrom pid [] := by
  intro b hb
  cases hb

theorem OnlyFrom.map (pid : Pid) (bytes : List UInt8) : OnlyFrom pid (bytes.map (⟨pid, ·⟩)) := by
  intro b hb
  obtain ⟨byte, _, rfl⟩ := List.mem_map.mp hb
  rfl

theorem OnlyFrom.overwrite {pid : Pid} {old : List Written} (hold : OnlyFrom pid old) (pos : Nat)
    (bytes : List UInt8) : OnlyFrom pid (overwrite pid old pos bytes) := by
  intro b hb
  simp only [Capture.overwrite, List.mem_append] at hb
  rcases hb with ((hb | hb) | hb) | hb
  · exact hold b (List.mem_of_mem_take hb)
  · rw [List.eq_of_mem_replicate hb]
  · exact OnlyFrom.map pid bytes b hb
  · exact hold b (List.mem_of_mem_drop hb)

namespace DumpDir

variable {w : DumpDir} {name other : DumpFile} {bytes : List Written}

theorem lookup_put_of_ne (h : other ≠ name) :
    (w.put name bytes).files.lookup other = w.files.lookup other := AList.lookup_insert_ne h

@[simp] theorem content_put_self : (w.put name bytes).content name = bytes := by
  simp [content, put]

theorem content_put_of_ne (h : other ≠ name) :
    (w.put name bytes).content other = w.content other := by
  rw [content, content, lookup_put_of_ne h]

theorem mem_cat {glob : DumpGlob} {b : Written} :
    b ∈ w.cat glob ↔ ∃ name, glob.Matches name = true ∧ b ∈ w.content name := by
  simp only [cat, expand, List.mem_flatMap, List.mem_insertionSort, List.mem_filter]
  constructor
  · rintro ⟨name, ⟨_, hmatches⟩, hb⟩
    exact ⟨name, hmatches, hb⟩
  · rintro ⟨name, hmatches, hb⟩
    refine ⟨name, ⟨?_, hmatches⟩, hb⟩
    by_contra hnone
    -- an absent file has no bytes
    rw [content, AList.lookup_eq_none.mpr hnone] at hb
    cases hb

end DumpDir

/-- After a capture for `pid` that started in `start` and has created the files
of `held`: these have bytes of `pid` only, the others are as they were. -/
def Kept (pid : Pid) (start : DumpDir) (held : Set DumpFile) (w : DumpDir) : Prop :=
  ∀ name, (name ∈ held → OnlyFrom pid (w.content name)) ∧
    (name ∉ held → w.files.lookup name = start.files.lookup name)

section Kept

variable {pid : Pid} {start w w' : DumpDir} {held : Set DumpFile} {name : DumpFile}

theorem Kept.refl (pid : Pid) (w : DumpDir) : Kept pid w ∅ w :=
  fun _ => ⟨fun h => h.elim, fun _ => rfl⟩

theorem Kept.put (h : Kept pid start held w) {bytes : List Written} (hbytes : OnlyFrom pid bytes) :
    Kept pid start (held ∪ {name}) (w.put name bytes) := by
  intro other
  by_cases heq : other = name
  · subst heq
    exact ⟨fun _ => by simpa using hbytes, fun hnot => absurd (.inr rfl) hnot⟩
  · constructor
    · intro hheld
      rw [DumpDir.content_put_of_ne heq]
      exact (h other).1 (hheld.resolve_right heq)
    · intro hnot
      rw [DumpDir.lookup_put_of_ne heq]
      exact (h other).2 fun hheld => hnot (.inl hheld)

theorem Kept.rewrite (h : Kept pid start held w) (hname : name ∈ held) {bytes : List Written}
    (hbytes : OnlyFrom pid bytes) : Kept pid start held (w.put name bytes) := by
  have hput : Kept pid start (held ∪ {name}) (w.put name bytes) := h.put hbytes
  rwa [Set.union_eq_self_of_subset_right (Set.singleton_subset_iff.mpr hname)] at hput

theorem Kept.step {op : DumpOp} {r : op.Reply} (hop : MayTouch pid op held)
    (hperform : DumpPerform op w r w') (h : Kept pid start held w) :
    Kept pid start (held ∪ created op r) w' := by
  cases op with
  | create name =>
    cases r with
    | error e =>
      cases hperform
      simpa [created] using h
    | ok _ =>
      cases hperform
      exact h.put (.nil pid)
  | truncate name =>
    cases r with
    | error e =>
      cases hperform
      simpa [created] using h
    | ok _ =>
      cases hperform
      simpa [created] using h.rewrite hop (.nil pid)
  | write writer name pos bytes =>
    obtain ⟨rfl, hname⟩ := hop
    obtain ⟨part, _, _, rfl⟩ := hperform
    simpa [created] using h.rewrite hname (((h name).1 hname).overwrite pos part)
  | combinedOutput cmd name pos =>
    obtain ⟨rfl, hname⟩ := hop
    obtain ⟨bytes, _, rfl⟩ := hperform
    simpa [created] using h.rewrite hname (((h name).1 hname).overwrite pos bytes)
  | wait cmd name pos =>
    obtain ⟨rfl, hname⟩ := hop
    obtain ⟨bytes, _, rfl⟩ := hperform
    simpa [created] using h.rewrite hname (((h name).1 hname).overwrite pos bytes)
  | copy writer path name =>
    obtain ⟨rfl, hname⟩ := hop
    obtain ⟨bytes, rfl⟩ := hperform
    simpa [created] using h.rewrite hname (.map writer bytes)
  | cat glob append => exact hop.elim
  | setErr err =>
    cases hperform
    have herr : Kept pid start held { w with err := err } := h
    simpa [created] using herr
  | getErr =>
    obtain ⟨_, rfl⟩ := hperform
    simpa [created] using h
  | scan name =>
    obtain ⟨_, rfl⟩ := hperform
    simpa [created] using h
  | openDump =>
    obtain ⟨rfl, _⟩ := hperform
    simpa [created] using h
  | _ =>
    cases hperform
    simpa [created] using h

theorem Kept.run {α : Type} {p : DumpProg α} {trace : DumpTrace} {a : α} (hp : Tidy pid held p)
    (hrun : Runs DumpPerform p w trace a w') (h : Kept pid start held w) :
    Kept pid start (held ∪ gained created trace) w' :=
  Runs.of_heeds (Kept pid start) (fun _ _ _ _ _ hop hperform => Kept.step hop hperform) hp hrun h

end Kept

def createdIn (trace : DumpTrace) : List DumpFile :=
  trace.filterMap fun
    | ⟨_, .create name, .ok ()⟩ => some name
    | _ => none

theorem mem_createdIn {trace : DumpTrace} {name : DumpFile} :
    name ∈ createdIn trace ↔ name ∈ gained created trace := by
  induction trace with
  | nil => simp [createdIn]
  | cons e trace ih =>
    rw [gained_cons, Set.mem_union, ← ih]
    obtain ⟨before, op, r⟩ := e
    cases op with
    | create made =>
      cases r with
      | error e => simp [createdIn, created]
      | ok _ => simp [createdIn, created]
    | _ => simp [createdIn, created]

/-- The capture builds `threaddump.out` from the files in the directory. -/
def Aggregates (trace : DumpTrace) : Prop := ∃ e ∈ trace, e.op = .cat .javacores false

/-- Every file of a round that has bytes of another process when the capture
starts is created anew by the capture. -/
def Refreshed (pid : Pid) (start : DumpDir) (trace : DumpTrace) : Prop :=
  ∀ name ≠ .threaddump, ¬ OnlyFrom pid (start.content name) → name ∈ createdIn trace

section Capture

variable {t : ThreadDump} {w w' : DumpDir} {trace : DumpTrace} {dump : List Written}

theorem not_aggregates {α : Type} {p : DumpProg α} {held : Set DumpFile} {pid : Pid} {a : α}
    (hp : Tidy pid held p) (hrun : Runs DumpPerform p w trace a w') : ¬ Aggregates trace := by
  rintro ⟨e, he, hop⟩
  obtain ⟨held, hallowed⟩ := hrun.ops_allowed hp e he
  rw [hop] at hallowed
  exact hallowed

theorem copyThreadDumpFile_tidy {held : Set DumpFile} :
    Tidy t.pid held t.copyThreadDumpFile := by
  refine tidy_call (by trivial) ?_
  rintro (e | ⟨⟩)
  · trivial
  refine tidy_call (by trivial) ?_
  rintro (e | ⟨⟩)
  · trivial
  refine tidy_call (by exact ⟨rfl, mem_created _ _⟩) ?_
  rintro (e | ⟨⟩)
  · exact tidy_call (by trivial) fun _ => trivial
  refine tidy_call (by trivial) ?_
  rintro (e | ⟨⟩)
  · exact tidy_call (by trivial) fun _ => trivial
  · exact tidy_call (by trivial) fun _ => trivial

theorem copied_onlyFrom (hrun : Runs DumpPerform t.copyThreadDumpFile w trace (.ok dump) w') :
    OnlyFrom t.pid dump := by
  obtain ⟨r₁, w₁, t₁, -, -, h₁⟩ := hrun.of_act
  cases r₁ with
  | error e => cases h₁.of_done.2.1
  | ok _ =>
  obtain ⟨r₂, w₂, t₂, -, -, h₂⟩ := h₁.of_act
  cases r₂ with
  | error e => cases h₂.of_done.2.1
  | ok _ =>
  obtain ⟨r₃, w₃, t₃, hcopy, -, h₃⟩ := h₂.of_act
  cases r₃ with
  | error e =>
    obtain ⟨_, _, _, -, -, h₄⟩ := h₃.of_act
    cases h₄.of_done.2.1
  | ok _ =>
  obtain ⟨r₄, w₄, t₄, hseek, -, h₄⟩ := h₃.of_act
  cases r₄ with
  | error e =>
    obtain ⟨_, _, _, -, -, h₅⟩ := h₄.of_act
    cases h₅.of_done.2.1
  | ok _ =>
  obtain ⟨r₅, w₅, t₅, hopen, -, h₅⟩ := h₄.of_act
  obtain ⟨-, rfl, -⟩ := h₅.of_done
  obtain ⟨bytes, rfl⟩ := hcopy
  cases hseek
  rw [hopen.2 dump rfl, DumpDir.content_put_self]
  exact .map t.pid bytes

/-- A dump that was built: what was performed, and what was read. -/
theorem aggregate_ok (hrun : Runs DumpPerform ThreadDump.aggregate w trace (.ok dump) w') :
    Aggregates trace ∧ gained created trace = ∅ ∧
      dump = w.cat .javacores ++ (w.put .threaddump (w.cat .javacores)).cat .topdashHs := by
  obtain ⟨r₁, w₁, t₁, hjava, rfl, h₁⟩ := hrun.of_act
  cases r₁ with
  | error e => cases h₁.of_done.2.1
  | ok _ =>
  obtain ⟨r₂, w₂, t₂, htop, rfl, h₂⟩ := h₁.of_act
  cases r₂ with
  | error e => cases h₂.of_done.2.1
  | ok _ =>
  obtain ⟨r₃, w₃, t₃, hopen, rfl, h₃⟩ := h₂.of_act
  obtain ⟨rfl, rfl, -⟩ := h₃.of_done
  obtain ⟨-, rfl⟩ := hjava
  obtain ⟨-, rfl⟩ := htop
  refine ⟨⟨_, List.mem_cons_self, rfl⟩, ?_, ?_⟩
  · simp [gained_cons, created]
  · simpa using hopen.2 dump rfl

/-- The dump has the bytes of every file of a round that is there. -/
theorem mem_aggregate (hrun : Runs DumpPerform ThreadDump.aggregate w trace (.ok dump) w')
    (b : Written) : b ∈ dump ↔ ∃ name ≠ .threaddump, b ∈ w.content name := by
  rw [(aggregate_ok hrun).2.2, List.mem_append, DumpDir.mem_cat, DumpDir.mem_cat]
  constructor
  · rintro (⟨name, hmatches, hb⟩ | ⟨name, hmatches, hb⟩)
    · refine ⟨name, ?_, hb⟩
      rintro rfl
      cases hmatches
    · have hne : name ≠ .threaddump := by
        rintro rfl
        cases hmatches
      rw [DumpDir.content_put_of_ne hne] at hb
      exact ⟨name, hne, hb⟩
  · rintro ⟨name, hne, hb⟩
    cases name with
    | javacore n => exact .inl ⟨.javacore n, rfl, hb⟩
    | topdashH n =>
      refine .inr ⟨.topdashH n, rfl, ?_⟩
      rwa [DumpDir.content_put_of_ne hne]
    | threaddump => exact absurd rfl hne

/-- A dump of a live process is built from a directory in which the capture has
rewritten the files it created and nothing else. -/
theorem captureLive_built {start : DumpDir} {held : Set DumpFile}
    (hrun : Runs DumpPerform t.captureLive w trace (.ok dump) w')
    (hkept : Kept t.pid start held w) :
    ∃ first second wm, trace = first ++ second ∧
      Kept t.pid start (held ∪ gained created first) wm ∧
      Runs DumpPerform ThreadDump.aggregate wm second (.ok dump) w' := by
  unfold ThreadDump.captureLive at hrun
  split at hrun
  · obtain ⟨found, w₁, t₁, hfound, rfl, h₁⟩ := hrun.of_act
    cases hfound
    cases found with
    | false => cases h₁.of_done.2.1
    | true =>
      have hrest : Runs DumpPerform (t.jstack.run >>= fun _ => ThreadDump.aggregate) w t₁
        (.ok dump) w' := h₁
      obtain ⟨t₂, err, wm, second, rfl, hjstack, h₂⟩ := hrest.of_bind
      have hrounds : Kept t.pid start (held ∪ gained created t₂) wm :=
        hkept.run t.jstack.run_tidy hjstack
      refine ⟨⟨w, .isProcessExists t.pid, true⟩ :: t₂, second, wm, rfl, ?_, h₂⟩
      simpa [gained_cons, created] using hrounds
  · cases hrun.of_done.2.1

theorem captureToFile_ok (hrun : Runs DumpPerform t.captureToFile w trace (.ok dump) w') :
    (¬ Aggregates trace ∧ OnlyFrom t.pid dump) ∨
      ∃ first second wm, trace = first ++ second ∧ Kept t.pid w (gained created first) wm ∧
        Runs DumpPerform ThreadDump.aggregate wm second (.ok dump) w' := by
  unfold ThreadDump.captureToFile at hrun
  split at hrun
  · have htidy : Tidy t.pid ∅ t.copyThreadDumpFile := copyThreadDumpFile_tidy
    obtain ⟨t₁, copied, w₁, t₂, rfl, hcopy, h₁⟩ := hrun.of_bind
    cases copied with
    | ok file =>
      obtain ⟨rfl, heq, -⟩ := h₁.of_done
      cases heq
      rw [List.append_nil]
      exact .inl ⟨not_aggregates htidy hcopy, copied_onlyFrom hcopy⟩
    | error e =>
      have hkept := (Kept.refl t.pid w).run htidy hcopy
      obtain ⟨first, second, wm, rfl, hbuilt, hlast⟩ := captureLive_built h₁ hkept
      refine .inr ⟨t₁ ++ first, second, wm, by rw [List.append_assoc], ?_, hlast⟩
      rwa [Set.empty_union, ← gained_append] at hbuilt
  · obtain ⟨first, second, wm, rfl, hbuilt, hlast⟩ := captureLive_built hrun (Kept.refl t.pid w)
    rw [Set.empty_union] at hbuilt
    exact .inr ⟨first, second, wm, rfl, hbuilt, hlast⟩

/-- A built dump has bytes of the captured process only exactly if every file
with bytes of another one was created anew. -/
theorem built_onlyFrom_iff {pid : Pid} {first second : DumpTrace} {wm : DumpDir}
    (hkept : Kept pid w (gained created first) wm)
    (hbuild : Runs DumpPerform ThreadDump.aggregate wm second (.ok dump) w') :
    OnlyFrom pid dump ↔ Refreshed pid w (first ++ second) := by
  have hnames (name : DumpFile) :
      name ∈ createdIn (first ++ second) ↔ name ∈ gained created first := by
    rw [mem_createdIn, gained_append, (aggregate_ok hbuild).2.1, Set.union_empty]
  have hsame {name : DumpFile} (hnot : name ∉ gained created first) :
      wm.content name = w.content name := by
    rw [DumpDir.content, DumpDir.content, (hkept name).2 hnot]
  constructor
  · intro honly name hne hforeign
    rw [hnames]
    by_contra hnot
    apply hforeign
    intro b hb
    rw [← hsame hnot] at hb
    exact honly b ((mem_aggregate hbuild b).mpr ⟨name, hne, hb⟩)
  · intro hrefreshed b hb
    obtain ⟨name, hne, hb⟩ := (mem_aggregate hbuild b).mp hb
    by_cases hmade : name ∈ gained created first
    · exact (hkept name).1 hmade b hb
    · rw [hsame hmade] at hb
      by_contra hpid
      exact hmade ((hnames name).mp (hrefreshed name hne fun honly => hpid (honly b hb)))

end Capture

/-- Captures one after the other in one directory, whatever succeeds and fails:
the dump of a capture has bytes of its own process only exactly if the capture,
when it builds the dump, has created anew every `javacore` and `topdashH` file
that had bytes of another process when it started. -/
theorem dump_onlyFrom_iff (init w : DumpDir)
    (calls : List
      (Completed ThreadDump DumpOp DumpOp.Reply DumpDir (Except IOError (List Written))))
    (hcalls : Calls (.alone DumpPerform) ThreadDump.captureToFile init calls w)
    (call : Completed ThreadDump DumpOp DumpOp.Reply DumpDir (Except IOError (List Written)))
    (hcall : call ∈ calls) (dump : List Written) (hdump : call.result = .ok dump) :
    OnlyFrom call.call.pid dump ↔
      (Aggregates call.trace → Refreshed call.call.pid call.start call.trace) := by
  have hrun : Runs DumpPerform call.call.captureToFile call.start call.trace (.ok dump)
      call.finish := by
    rw [← hdump]
    exact hcalls.steps hcall
  rcases captureToFile_ok hrun with ⟨hnot, honly⟩ | ⟨first, second, wm, htrace, hkept, hbuild⟩
  · exact ⟨fun _ haggregates => absurd haggregates hnot, fun _ => honly⟩
  · have hiff := built_onlyFrom_iff hkept hbuild
    obtain ⟨e, he, hop⟩ := (aggregate_ok hbuild).1
    have haggregates : Aggregates call.trace := by
      rw [htrace]
      exact ⟨e, List.mem_append_right _ he, hop⟩
    rw [htrace] at haggregates ⊢
    exact hiff.trans ⟨fun h _ => h, fun h => h haggregates⟩

/-- A host on which every command for a process prints one byte. The thread
dump commands fail for the processes of `refused`. -/
def dumpHost (refused : Pid → Bool) : (op : DumpOp) → DumpDir → op.Reply × DumpDir
  | .turn, w => (true, w)
  | .getErr, w => (w.err, w)
  | .setErr err, w => ((), { w with err := err })
  | .isProcessExists _, w => (true, w)
  | .copy2TempPath, w => (.ok "/tmp/yc", w)
  | .create name, w => (.ok (), w.put name [])
  | .write pid name pos bytes, w => (.ok (), w.put name (overwrite pid (w.content name) pos bytes))
  | .scan name, w => ((min 6 (lineCount (w.content name)) : Nat), w)
  | .seek _, w => (.ok (), w)
  | .truncate name, w => (.ok (), w.put name [])
  | .combinedOutput cmd name pos, w =>
    (⟨1, 0, if refused cmd.pid then some "exit status 1" else none⟩,
      w.put name (overwrite cmd.pid (w.content name) pos [84]))
  | .start _, w => (.ok (), w)
  | .wait cmd name pos, w =>
    (⟨1, 0, none⟩, w.put name (overwrite cmd.pid (w.content name) pos [72]))
  | .sync _, w => (.ok (), w)
  | .close _, w => (.ok (), w)
  | .openSource _, w => (.ok (), w)
  | .copy pid _ name, w => (.ok (), w.put name ([84].map (⟨pid, ·⟩)))
  | .cat glob append, w =>
    if w.expand glob = [] then (.error "exit status 1", w)
    else (.ok (), w.put .threaddump
      ((if append then w.content .threaddump else []) ++ w.cat glob))
  | .openDump, w => (.ok (w.content .threaddump), w)

theorem dumpHost_performs (refused : Pid → Bool) (op : DumpOp) (w : DumpDir) :
    DumpPerform op w (dumpHost refused op w).1 (dumpHost refused op w).2 := by
  cases op with
  | getErr => exact ⟨rfl, rfl⟩
  | write pid name pos bytes => exact ⟨bytes, List.prefix_rfl, fun _ => rfl, rfl⟩
  | scan name => exact ⟨le_rfl, rfl⟩
  | combinedOutput cmd name pos => exact ⟨[84], rfl, rfl⟩
  | wait cmd name pos => exact ⟨[72], rfl, rfl⟩
  | copy pid path name => exact ⟨[84], rfl⟩
  | cat glob append =>
    simp only [dumpHost]
    split
    · exact .inl rfl
    · next hsome => exact ⟨hsome, rfl⟩
  | openDump =>
    refine ⟨rfl, ?_⟩
    rintro bytes ⟨⟩
    rfl
  | _ => rfl

def emptyDir : DumpDir := ⟨∅, none⟩

def m3Dump (pid : Pid) : ThreadDump := ⟨pid, "", "/opt/java", 0, "/opt/yc"⟩

def dumpOn (refused : Pid → Bool) (t : ThreadDump) (w : DumpDir) :
    Completed ThreadDump DumpOp DumpOp.Reply DumpDir (Except IOError (List Written)) :=
  let out := play (dumpHost refused) t.captureToFile w
  ⟨t, w, out.1, out.2.1, out.2.2⟩

def dumpOf : Except IOError (List Written) → List Written
  | .ok dump => dump
  | .error _ => []

def twoDumps (refused : Pid → Bool) :
    List (Completed ThreadDump DumpOp DumpOp.Reply DumpDir (Except IOError (List Written))) :=
  let first := dumpOn refused (m3Dump 100) emptyDir
  [first, dumpOn refused (m3Dump 200) first.finish]

private theorem dumpOn_call (refused : Pid → Bool) (t : ThreadDump) {init w : DumpDir}
    {calls : List
      (Completed ThreadDump DumpOp DumpOp.Reply DumpDir (Except IOError (List Written)))}
    (h : Calls (.alone DumpPerform) ThreadDump.captureToFile init calls w) :
    Calls (.alone DumpPerform) ThreadDump.captureToFile init (calls ++ [dumpOn refused t w])
      (dumpOn refused t w).finish :=
  h.call (play_runs (dumpHost_performs refused) t.captureToFile w)

theorem twoDumps_calls (refused : Pid → Bool) : ∃ w,
    Calls (.alone DumpPerform) ThreadDump.captureToFile emptyDir (twoDumps refused) w := by
  have hfirst := dumpOn_call refused (m3Dump 100) (.start (w := emptyDir) .refl)
  have hsecond := dumpOn_call refused (m3Dump 200) hfirst
  rw [List.nil_append, List.singleton_append] at hsecond
  exact ⟨_, hsecond⟩

/-- Every thread dump command fails for process 200, so its capture stops after
the first round and the dump sent for it has the later rounds of process 100. -/
theorem failed_dump_has_other_process : ∃ w calls call dump,
    Calls (.alone DumpPerform) ThreadDump.captureToFile emptyDir calls w ∧ call ∈ calls ∧
      call.result = .ok dump ∧ call.call.pid = 200 ∧ (⟨100, 84⟩ : Written) ∈ dump := by
  obtain ⟨w, hcalls⟩ := twoDumps_calls (· == 200)
  refine ⟨w, _, _, dumpOf (twoDumps (· == 200))[1].result, hcalls,
    List.mem_cons_of_mem _ List.mem_cons_self, ?_, rfl, ?_⟩
  · decide +kernel
  · decide +kernel

theorem refreshed_of_keys {pid : Pid} {start : DumpDir} {trace : DumpTrace}
    (h : ∀ name ∈ start.files.keys, name ≠ .threaddump → name ∈ createdIn trace) :
    Refreshed pid start trace := by
  intro name hne hforeign
  apply h name _ hne
  by_contra hnone
  apply hforeign
  rw [DumpDir.content, AList.lookup_eq_none.mpr hnone]
  exact .nil pid

/-- Where the commands work for both processes, the second capture replaces
every file of the first. -/
theorem second_dump_onlyFrom : ∃ w calls call dump,
    Calls (.alone DumpPerform) ThreadDump.captureToFile emptyDir calls w ∧ call ∈ calls ∧
      call.result = .ok dump ∧ ¬ OnlyFrom call.call.pid (call.start.content (.javacore 3)) ∧
      OnlyFrom call.call.pid dump := by
  obtain ⟨w, hcalls⟩ := twoDumps_calls fun _ => false
  have hmem : (twoDumps fun _ => false)[1] ∈ twoDumps fun _ => false :=
    List.mem_cons_of_mem _ List.mem_cons_self
  have hdump : (twoDumps fun _ => false)[1].result =
      .ok (dumpOf (twoDumps fun _ => false)[1].result) := by decide +kernel
  refine ⟨w, _, _, _, hcalls, hmem, hdump, by decide +kernel, ?_⟩
  apply (dump_onlyFrom_iff emptyDir w _ hcalls _ hmem _ hdump).mpr
  intro _
  apply refreshed_of_keys
  decide +kernel

end YcAgent.Capture
