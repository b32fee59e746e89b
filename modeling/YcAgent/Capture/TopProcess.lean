import YcAgent.Capture.ProcessIds

/-!
`GetTopCpu` and `GetTopMem` outside Windows: the Java process at the top of a
listing that `ps` has sorted. The two differ in the command only. Both results
are named and assigned for every line with a Java process before it is known
whether the line is skipped, and what a skipped line has left in them is
returned when the listing ends.
-/

namespace YcAgent.Capture

open Go Lib.Lines

inductive NumError where
  | invalid
  | outOfRange
deriving DecidableEq

/-- What `strconv.Atoi` returns with an error: nothing for a text that is not a
number, the nearest number for one beyond 64 bits. -/
def atoiFailure : List Char → Int × NumError
  | '-' :: s => if (digits s).isSome then (-2 ^ 63, .outOfRange) else (0, .invalid)
  | '+' :: s => if (digits s).isSome then (2 ^ 63 - 1, .outOfRange) else (0, .invalid)
  | s => if (digits s).isSome then (2 ^ 63 - 1, .outOfRange) else (0, .invalid)

def atoiResults (s : List Char) : Int × Option NumError :=
  match atoi s with
  | some n => (n, none)
  | none => ((atoiFailure s).1, some (atoiFailure s).2)

def namesJava (line : Bytes) : Bool := (index (trimSpace line) (ascii "java")).isSome

def firstColumn (line : Bytes) : Option Bytes := (columns (trimSpace line)).head?

/-- The loop over the lines, with the named results `pid` and `err`. -/
def scanTop (cpid : Int) : List Bytes → Int × Option NumError → Int × Option NumError
  | [], results => results
  | line :: rest, results =>
    if namesJava line then
      match firstColumn line with
      | none => scanTop cpid rest results
      | some col =>
        let results := atoiResults (text (trimSpace col))
        if results.2.isSome then scanTop cpid rest results
        else if results.1 = cpid then scanTop cpid rest results
        else results
    else scanTop cpid rest results

inductive TopCommand where
  | processTopCPU
  | processTopMEM

inductive TopError (ε : Type) where
  | command (err : ε)
  | number (err : NumError)
deriving DecidableEq

variable {ε : Type}

def getTop (command : TopCommand) (cpid : Int) (run : TopCommand → Except ε Bytes) :
    Int × Option (TopError ε) :=
  match run command with
  | .error err => (0, some (.command err))
  | .ok output =>
    let results := scanTop cpid (scanLines output) (0, none)
    (results.1, results.2.map .number)

def getTopCpu (cpid : Int) (run : TopCommand → Except ε Bytes) : Int × Option (TopError ε) :=
  getTop .processTopCPU cpid run

def getTopMem (cpid : Int) (run : TopCommand → Except ε Bytes) : Int × Option (TopError ε) :=
  getTop .processTopMEM cpid run

/-- The pid of a line that names Java, has a number in its first column and
does not belong to the agent. -/
def eligible (cpid : Int) (line : Bytes) : Option Int :=
  if namesJava line then
    ((firstColumn line).bind fun col => atoi (text (trimSpace col))).filter (· ≠ cpid)
  else none

def skipped (cpid : Int) (line : Bytes) : Bool := namesJava line && (eligible cpid line).isNone

/-- The results of a scan that has not found an eligible line, once it has
looked at one: an error or the agent's own pid. -/
def Leftover (cpid : Int) (results : Int × Option NumError) : Prop :=
  results.2 ≠ none ∨ results.1 = cpid

variable {cpid : Int}

theorem columns_ne_nil {line : Bytes} {b : UInt8} (h : b ∈ line) (hb : b ≠ 32) :
    columns line ≠ [] := by
  obtain ⟨part, hpart, hmem⟩ := exists_mem_splitOn h hb
  have hcolumn : part ∈ columns line := by
    apply List.mem_filter.mpr
    exact ⟨hpart, by simp [List.ne_nil_of_mem hmem]⟩
  exact List.ne_nil_of_mem hcolumn

theorem firstColumn_isSome {line : Bytes} (h : namesJava line = true) :
    ∃ col, firstColumn line = some col := by
  have hword : ascii "java" <:+: trimSpace line := index_isSome_iff.mp h
  have hmem : 106 ∈ trimSpace line := hword.subset (by decide)
  have hne := columns_ne_nil hmem (by decide)
  exact ⟨_, List.head?_eq_some_head hne⟩

theorem atoiResults_fst {s : List Char} {n : Int} (h : atoi s = some n) :
    atoiResults s = (n, none) := by
  rw [atoiResults, h]

theorem atoiResults_error {s : List Char} (h : atoi s = none) : (atoiResults s).2.isSome := by
  rw [atoiResults, h]
  rfl

theorem scanTop_eligible {line : Bytes} {pid : Int} (h : eligible cpid line = some pid)
    (rest : List Bytes) (results : Int × Option NumError) :
    scanTop cpid (line :: rest) results = (pid, none) := by
  unfold eligible at h
  split at h
  · next hjava =>
      obtain ⟨hnumber, hother⟩ := Option.filter_eq_some_iff.mp h
      obtain ⟨col, hcol, hatoi⟩ := Option.bind_eq_some_iff.mp hnumber
      have hne : pid ≠ cpid := by simpa using hother
      simp [scanTop, hjava, hcol, atoiResults_fst hatoi, hne]
  · cases h

/-- A line that is skipped leaves an error or the agent's pid. -/
theorem scanTop_skipped {line : Bytes} (hjava : namesJava line = true)
    (h : eligible cpid line = none) (rest : List Bytes) (results : Int × Option NumError) :
    ∃ left, Leftover cpid left ∧ scanTop cpid (line :: rest) results = scanTop cpid rest left := by
  obtain ⟨col, hcol⟩ := firstColumn_isSome hjava
  refine ⟨atoiResults (text (trimSpace col)), ?_, ?_⟩ <;>
    cases hatoi : atoi (text (trimSpace col)) with
    | none =>
      have herr := atoiResults_error hatoi
      simp [Leftover, scanTop, hjava, hcol, herr, Option.isSome_iff_ne_none.mp herr]
    | some n =>
      have hown : n = cpid := by
        by_contra hne
        simp [eligible, hjava, hcol, hatoi, Option.filter, hne] at h
      simp [Leftover, scanTop, hjava, hcol, atoiResults_fst hatoi, hown]

theorem scanTop_passed {line : Bytes} (hjava : namesJava line = false) (rest : List Bytes)
    (results : Int × Option NumError) :
    scanTop cpid (line :: rest) results = scanTop cpid rest results := by
  simp [scanTop, hjava]

theorem scanTop_first {lines : List Bytes} {pid : Int}
    (h : lines.findSome? (eligible cpid) = some pid) (results : Int × Option NumError) :
    scanTop cpid lines results = (pid, none) := by
  induction lines generalizing results with
  | nil => cases h
  | cons line rest ih =>
    rw [List.findSome?_cons] at h
    cases hline : eligible cpid line with
    | some found =>
      rw [hline] at h
      cases h
      exact scanTop_eligible hline rest results
    | none =>
      rw [hline] at h
      cases hjava : namesJava line with
      | true =>
        obtain ⟨left, _, hscan⟩ := scanTop_skipped hjava hline rest results
        rw [hscan]
        exact ih h left
      | false =>
        rw [scanTop_passed hjava]
        exact ih h results

theorem scanTop_leftover {lines : List Bytes} (hnone : ∀ line ∈ lines, eligible cpid line = none)
    {results : Int × Option NumError}
    (h : Leftover cpid results ∨ ∃ line ∈ lines, namesJava line = true) :
    Leftover cpid (scanTop cpid lines results) := by
  induction lines generalizing results with
  | nil => simpa [scanTop] using h
  | cons line rest ih =>
    have hrest : ∀ line ∈ rest, eligible cpid line = none :=
      fun other hother => hnone other (List.mem_cons_of_mem _ hother)
    cases hjava : namesJava line with
    | true =>
      obtain ⟨left, hleft, hscan⟩ :=
        scanTop_skipped hjava (hnone line List.mem_cons_self) rest results
      rw [hscan]
      exact ih hrest (.inl hleft)
    | false =>
      rw [scanTop_passed hjava]
      apply ih hrest
      apply h.imp_right
      intro hexists
      obtain ⟨other, hother, hnames⟩ := hexists
      rcases List.mem_cons.mp hother with heq | hmem
      · rw [heq, hjava] at hnames
        cases hnames
      · exact ⟨other, hmem, hnames⟩

theorem scanTop_quiet {lines : List Bytes} (h : ∀ line ∈ lines, namesJava line = false)
    (results : Int × Option NumError) : scanTop cpid lines results = results := by
  induction lines with
  | nil => rfl
  | cons line rest ih =>
    rw [scanTop_passed (h line List.mem_cons_self)]
    exact ih fun other hother => h other (List.mem_cons_of_mem _ hother)

def listed (output : Bytes) : List Bytes := (rawLines output).map dropCR

theorem scanLines_of_listed (output : Bytes) : scanLines output <+: listed output :=
  (List.takeWhile_prefix _).map dropCR

theorem listed_first {output : Bytes} {pid : Int}
    (h : (scanLines output).findSome? (eligible cpid) = some pid) :
    (listed output).findSome? (eligible cpid) = some pid := by
  obtain ⟨more, hmore⟩ := scanLines_of_listed output
  rw [← hmore, List.findSome?_append, h, Option.some_or]

/-- The answer to a listing is what it should be: no error, and zero or the pid
of the first eligible line, with or without the lines that are skipped. -/
structure AnswersFirst (cpid : Int) (output : Bytes) (answer : Int × Option (TopError ε)) :
    Prop where
  no_error : answer.2 = none
  not_own : answer.1 ≠ cpid
  first : answer.1 = 0 ∨ (listed output).findSome? (eligible cpid) = some answer.1
  unaffected :
    scanTop cpid ((scanLines output).filter fun line => !skipped cpid line) (0, none) =
      (answer.1, none)

/-- Some line the scan reaches is eligible, or none names Java. Otherwise the scan ends
with what a skipped line has left in its results. -/
def Settled (cpid : Int) (output : Bytes) : Prop :=
  (∃ line ∈ scanLines output, (eligible cpid line).isSome) ∨
    ∀ line ∈ scanLines output, namesJava line = false

private theorem eligible_kept {lines : List Bytes} :
    (lines.filter fun line => !skipped cpid line).findSome? (eligible cpid) =
      lines.findSome? (eligible cpid) := by
  apply Lib.Search.findSome?_filter
  intro line hline
  have hsome : (eligible cpid line).isNone = false := by
    rw [Option.isNone_eq_false_iff, Option.isSome_iff_ne_none]
    exact hline
  rw [skipped, hsome, Bool.and_false, Bool.not_false]

theorem getTop_answersFirst_iff (command : TopCommand) (hcpid : 0 < cpid)
    {run : TopCommand → Except ε Bytes} {output : Bytes} (hrun : run command = .ok output) :
    AnswersFirst cpid output (getTop command cpid run) ↔ Settled cpid output := by
  have hanswer : getTop command cpid run =
      ((scanTop cpid (scanLines output) (0, none)).1,
        (scanTop cpid (scanLines output) (0, none)).2.map .number) := by
    rw [getTop, hrun]
  rw [hanswer]
  cases hfirst : (scanLines output).findSome? (eligible cpid) with
  | some pid =>
    have hsettled : Settled cpid output := by
      left
      apply List.findSome?_isSome_iff.mp
      rw [hfirst, Option.isSome_some]
    have hother : pid ≠ cpid := by
      obtain ⟨line, -, hline⟩ := List.exists_of_findSome?_eq_some hfirst
      unfold eligible at hline
      split at hline
      · simpa using (Option.filter_eq_some_iff.mp hline).2
      · cases hline
    have hscan := scanTop_first hfirst (0, none)
    have hkept := scanTop_first (eligible_kept.trans hfirst) (0, none)
    rw [hscan]
    exact iff_of_true ⟨rfl, hother, .inr (listed_first hfirst), hkept⟩ hsettled
  | none =>
    have hnone := List.findSome?_eq_none_iff.mp hfirst
    by_cases hquiet : ∀ line ∈ scanLines output, namesJava line = false
    · have hkept : ∀ line ∈ (scanLines output).filter fun line => !skipped cpid line,
          namesJava line = false := fun line hline => hquiet line (List.mem_of_mem_filter hline)
      rw [scanTop_quiet hquiet]
      exact iff_of_true ⟨rfl, hcpid.ne, .inl rfl, scanTop_quiet hkept _⟩ (.inr hquiet)
    · have hjava : ∃ line ∈ scanLines output, namesJava line = true := by
        simpa using hquiet
      apply iff_of_false
      · intro h
        rcases scanTop_leftover hnone (.inr hjava) with herr | hown
        · exact herr (Option.map_eq_none_iff.mp h.no_error)
        · exact h.not_own hown
      · intro h
        rcases h with ⟨line, hline, hsome⟩ | h
        · rw [hnone line hline] at hsome
          cases hsome
        · exact hquiet h

/-- Each function answers as it should if and only if its listing has an
eligible line, or no line that names Java, before the first line too long for
the scanner. -/
theorem top_answersFirst_iff (cpid : Int) (hcpid : 0 < cpid) (run : TopCommand → Except ε Bytes)
    (cpu mem : Bytes) (hcpu : run .processTopCPU = .ok cpu) (hmem : run .processTopMEM = .ok mem) :
    (AnswersFirst cpid cpu (getTopCpu cpid run) ↔ Settled cpid cpu) ∧
      (AnswersFirst cpid mem (getTopMem cpid run) ↔ Settled cpid mem) := by
  constructor
  · exact getTop_answersFirst_iff .processTopCPU hcpid hcpu
  · exact getTop_answersFirst_iff .processTopMEM hcpid hmem

def appListing : Bytes := ascii " 90 9.0 ./yc -j /opt/java\n 17 2.5 java -jar app.jar\n"

theorem app_is_top :
    AnswersFirst 90 appListing (getTopCpu (ε := String) 90 fun _ => .ok appListing) ∧
      AnswersFirst 90 appListing (getTopMem (ε := String) 90 fun _ => .ok appListing) := by
  have hsettled : Settled 90 appListing := by
    left
    exact ⟨ascii " 17 2.5 java -jar app.jar", by decide⟩
  have h := top_answersFirst_iff (ε := String) 90 (by decide) (fun _ => .ok appListing) appListing
    appListing rfl rfl
  exact ⟨h.1.mpr hsettled, h.2.mpr hsettled⟩

/-- Without the Java process the agent itself is reported, and a listing whose
only line about Java does not begin with a number is an error. -/
theorem own_pid_and_error_returned :
    getTopCpu (ε := String) 90 (fun _ => .ok (ascii " 90 9.0 ./yc -j /opt/java\n")) = (90, none) ∧
      getTopMem (ε := String) 90 (fun _ => .ok (ascii "java: not found\n")) =
        (0, some (.number .invalid)) := by
  decide

end YcAgent.Capture
