import Mathlib.Data.List.TakeWhile
import YcAgent.Go.Map
import YcAgent.Go.Strings
import YcAgent.Lib.Search

/-!
`GetProcessIds` outside Windows: the pids of the processes that `ps -eLf` lists
and the process tokens select, with an application name for each. `ps` prints a
line for every thread, so a process has several lines; the first one that is
selected names it.
-/

namespace YcAgent.Capture

open Go Lib.Lines Lib.Search

/-- What one call looks for: the agent's own pid, the process tokens and the
tokens that rule a line out. -/
structure Discovery where
  cpid : Int
  tokens : List Bytes
  excludes : List Bytes
deriving DecidableEq

/-- The text of a token before its first `$` and the application name after it. -/
def splitToken (t : Bytes) : Bytes × Bytes :=
  match index t [36] with
  | some i => (t.take i, t.drop (i + 1))
  | none => (t, [])

def columns (line : Bytes) : List Bytes := (line.splitOn 32).filter fun column => !column.isEmpty

theorem columns_append {first : Bytes} (hfree : 32 ∉ first) (hne : first ≠ []) (rest : Bytes) :
    columns (first ++ 32 :: rest) = first :: columns rest := by
  have hsplit : (first ++ 32 :: rest).splitOn 32 = first :: rest.splitOn 32 := by
    apply List.splitOnP_append_cons_of_forall_mem
    · intro b hb
      simp only [beq_eq_false_iff_ne]
      rintro rfl
      exact hfree hb
    · rfl
  rw [columns, hsplit, List.filter_cons_of_pos (by simpa using hne), columns]

/-- The loop over the tokens for one line: the pid and the name it goes on to
record. -/
def selectLine (cpid : Int) (line : Bytes) : List Bytes → Option (Int × Bytes)
  | [] => none
  | t :: rest =>
    if (index line (splitToken t).1).isSome then
      match (columns line)[1]? with
      | none => selectLine cpid line rest
      | some id =>
        match atoi (text (trimSpace id)) with
        | none => none
        | some pid =>
          if pid = cpid then none
          else
            match atoi (text (splitToken t).1) with
            -- `continue Next`: the remaining tokens are not looked at
            | some tokenPid => if tokenPid ≠ pid then none else some (pid, (splitToken t).2)
            | none => some (pid, (splitToken t).2)
    else selectLine cpid line rest

/-- The process a line belongs to. The heading of the table belongs to none. -/
def linePid (line : Bytes) : Option Int :=
  (columns line)[1]?.bind fun id => atoi (text (trimSpace id))

def tokenNumber (t : Bytes) : Option Int := atoi (text (splitToken t).1)

def contained (line t : Bytes) : Bool := (index line (splitToken t).1).isSome

/-- The token is the number of a process other than `pid`. -/
def isOther (pid : Int) (t : Bytes) : Bool := (tokenNumber t).any (· ≠ pid)

/-- The first token found in a line decides about it. -/
theorem selectLine_eq (cpid : Int) (line : Bytes) (tokens : List Bytes) :
    selectLine cpid line tokens =
      (linePid line).bind fun pid =>
        if pid = cpid then none
        else (tokens.find? (contained line)).bind fun t =>
          if isOther pid t then none else some (pid, (splitToken t).2) := by
  induction tokens with
  | nil => simp [selectLine]
  | cons t tokens ih =>
    rw [selectLine, ih]
    by_cases hin : (index line (splitToken t).1).isSome
    · rw [if_pos hin, List.find?_cons_of_pos (p := contained line) hin]
      cases hcol : (columns line)[1]? with
      | none => simp [linePid, hcol]
      | some id =>
        cases hpid : atoi (text (trimSpace id)) with
        | none => simp [linePid, hcol, hpid]
        | some pid =>
          cases hnum : atoi (text (splitToken t).1) with
          | none => simp [linePid, isOther, tokenNumber, hcol, hpid, hnum]
          | some n => simp [linePid, isOther, tokenNumber, hcol, hpid, hnum]
    · rw [if_neg hin, List.find?_cons_of_neg (p := contained line) hin]

def psText (line : Line newline) : Bytes := trimSpace (dropCR line.body)

def ofProcess (pid : Int) (line : Line newline) : Bool := linePid (psText line) = some pid

def fits (line : Line newline) : Bool := line.body.length < maxScanTokenSize

namespace Discovery

variable (q : Discovery)

def excluded (line : Bytes) : Bool := q.excludes.any fun exclude => (index line exclude).isSome

def selection (line : Bytes) : Option (Int × Bytes) :=
  if q.excluded (trimSpace line) then none else selectLine q.cpid (trimSpace line) q.tokens

def scanLine (pids : GoMap Int Bytes) (line : Bytes) : GoMap Int Bytes :=
  match q.selection line with
  | none => pids
  | some (pid, appName) => if pid ∈ pids then pids else pids.insert pid appName

def getProcessIds {ε : Type} (ps : Except ε Bytes) : Except ε (GoMap Int Bytes) := do
  let output ← ps
  return (scanLines output).foldl q.scanLine ∅

def reported (lines : List (Line newline)) (pid : Int) : Option Bytes :=
  match q.getProcessIds (ε := Empty) (.ok (joinLines lines)) with
  | .ok pids => pids.lookup pid
  | .error e => e.elim

def nameBy (pid : Int) (line : Bytes) : Option Bytes :=
  (q.selection line).bind fun found => if found.1 = pid then some found.2 else none

def named (pid : Int) (line : Line newline) : Option Bytes := q.nameBy pid (dropCR line.body)

private theorem lookup_scanLine (pids : GoMap Int Bytes) (line : Bytes) (pid : Int) :
    (q.scanLine pids line).lookup pid = (pids.lookup pid).or (q.nameBy pid line) := by
  unfold scanLine nameBy
  cases q.selection line with
  | none => simp
  | some found => exact pids.lookup_recordFirst found.1 pid found.2

theorem lookup_scan (pids : GoMap Int Bytes) (lines : List Bytes) (pid : Int) :
    (lines.foldl q.scanLine pids).lookup pid =
      (pids.lookup pid).or (lines.findSome? (q.nameBy pid)) :=
  GoMap.lookup_foldl (fun pids line => q.lookup_scanLine pids line pid) lines pids

theorem reported_eq (lines : List (Line newline)) (pid : Int) :
    q.reported lines pid = (lines.takeWhile fits).findSome? (q.named pid) := by
  have hscan := q.lookup_scan ∅ (scanLines (joinLines lines)) pid
  rw [scanLines_joinLines, List.findSome?_map, AList.lookup_empty, Option.none_or,
    ← scanLines_joinLines] at hscan
  exact hscan

theorem linePid_of_nameBy {pid : Int} {line : Bytes} (h : q.nameBy pid line ≠ none) :
    linePid (trimSpace line) = some pid := by
  obtain ⟨name, hname⟩ := Option.ne_none_iff_exists'.mp h
  obtain ⟨found, hfound, hpid⟩ := Option.bind_eq_some_iff.mp hname
  have hfst : found.1 = pid := by
    by_contra hne
    simp [hne] at hpid
  unfold selection at hfound
  split at hfound
  · cases hfound
  · rw [selectLine_eq] at hfound
    obtain ⟨own, hown, hsel⟩ := Option.bind_eq_some_iff.mp hfound
    split at hsel
    · cases hsel
    · obtain ⟨t, -, ht⟩ := Option.bind_eq_some_iff.mp hsel
      split at ht
      · cases ht
      · cases ht
        rw [hown]
        exact congrArg some hfst

/-- A line too long for the scanner stands before every line that names the
process. -/
def Hidden (pid : Int) (lines : List (Line newline)) : Prop := GivesUp fits (q.named pid) lines

/-- In two tables with the same lines of a process, whatever the lines of the
others are, the process is reported alike if and only if it is hidden in both or
in neither. A process with a selected line is reported unless it is hidden. -/
theorem reported_alike_iff (lines lines' : List (Line newline)) (pid : Int)
    (hsame : lines.filter (ofProcess pid) = lines'.filter (ofProcess pid)) :
    (q.reported lines pid = q.reported lines' pid ↔
      (∀ line ∈ lines, q.named pid line = none) ∨ (q.Hidden pid lines ↔ q.Hidden pid lines')) ∧
    ((∃ line ∈ lines, q.named pid line ≠ none) →
      ((q.reported lines pid).isSome ↔ ¬ q.Hidden pid lines)) := by
  have hown : ∀ line, q.named pid line ≠ none → ofProcess pid line = true := by
    intro line hline
    exact decide_eq_true (q.linePid_of_nameBy hline)
  have hfirst : lines.findSome? (q.named pid) = lines'.findSome? (q.named pid) := by
    rw [← findSome?_filter hown lines, hsame, findSome?_filter hown lines']
  rw [reported_eq, reported_eq]
  refine ⟨findSome?_takeWhile_eq_iff hfirst, ?_⟩
  intro hselected
  by_cases hhidden : q.Hidden pid lines
  · rw [GivesUp.findSome? hhidden]
    simp [hhidden]
  · rw [findSome?_takeWhile hhidden, List.findSome?_isSome_iff]
    simpa [hhidden, Option.isSome_iff_ne_none] using hselected

end Discovery

section Sample

def sampleDiscovery : Discovery := ⟨1, [ascii "java"], []⟩

def sampleLine : Line newline := ⟨ascii "root 7 java -jar app.jar", by decide⟩

def otherLine : Line newline := ⟨ascii "root 8 java", by decide⟩

def longLine : Line newline :=
  ⟨ascii "root 8 java -cp " ++ List.replicate (2 ^ 16) 120, by
    rw [List.mem_append, List.mem_replicate]
    decide⟩

private theorem psText_longLine : psText longLine = longLine.body := by
  have hlast : longLine.body.reverse =
      120 :: (List.replicate (2 ^ 16 - 1) 120 ++ (ascii "root 8 java -cp ").reverse) := by
    rw [longLine, List.reverse_append, List.reverse_replicate]
    rfl
  have hcr : dropCR longLine.body = longLine.body := by
    have hget : longLine.body.getLast? = some 120 := by
      rw [← List.head?_reverse, hlast, List.head?_cons]
    simp [dropCR, hget]
  rw [psText, hcr]
  apply trimSpace_eq_self
  · intro word hword
    fin_cases hword <;> rfl
  · intro word hword
    rw [hlast]
    fin_cases hword <;> rfl

private theorem not_ofProcess_longLine : ofProcess 7 longLine = false := by
  have hbody : longLine.body = ascii "root" ++ 32 :: (ascii "8" ++ 32 ::
      (ascii "java -cp " ++ List.replicate (2 ^ 16) 120)) := rfl
  have hcolumn : (columns longLine.body)[1]? = some (ascii "8") := by
    rw [hbody, columns_append (by decide) (by decide), columns_append (by decide) (by decide)]
    rfl
  rw [ofProcess, psText_longLine, linePid, hcolumn]
  decide

theorem reported_beside_other :
    [sampleLine].filter (ofProcess 7) = [otherLine, sampleLine].filter (ofProcess 7) ∧
      sampleDiscovery.reported [sampleLine] 7 =
        sampleDiscovery.reported [otherLine, sampleLine] 7 := by
  have hsame : [sampleLine].filter (ofProcess 7) =
      [otherLine, sampleLine].filter (ofProcess 7) := by
    decide
  have halone : ¬ sampleDiscovery.Hidden 7 [sampleLine] :=
    ((sampleDiscovery.reported_alike_iff _ _ 7 hsame).2 ⟨sampleLine, by decide⟩).mp (by decide)
  have hbeside : ¬ sampleDiscovery.Hidden 7 [otherLine, sampleLine] :=
    ((sampleDiscovery.reported_alike_iff _ _ 7 hsame.symm).2 ⟨sampleLine, by decide⟩).mp (by decide)
  exact ⟨hsame, (sampleDiscovery.reported_alike_iff _ _ 7 hsame).1.mpr
    (.inr (iff_of_false halone hbeside))⟩

/-- The same process behind a line the scanner cannot hold. -/
theorem long_line_hides :
    [sampleLine].filter (ofProcess 7) = [longLine, sampleLine].filter (ofProcess 7) ∧
      sampleDiscovery.reported [sampleLine] 7 = some [] ∧
      sampleDiscovery.reported [longLine, sampleLine] 7 = none := by
  have hlong : fits longLine = false := by
    rw [fits, longLine, List.length_append, List.length_replicate]
    decide
  refine ⟨?_, by decide, ?_⟩
  · rw [List.filter_cons_of_neg (a := longLine) (by simp [not_ofProcess_longLine])]
  · rw [Discovery.reported_eq, List.takeWhile_cons_of_neg (by simp [hlong])]
    rfl

end Sample

/-! What a token stands for, and what the scan makes of a list of them. -/

/-- A pid column, if it is one, is in the form `ps` prints. -/
def WellFormed (line : Bytes) : Prop :=
  ∀ id ∈ (columns line)[1]?, ∀ pid ∈ atoi (text (trimSpace id)), id = itoa pid

instance (line : Bytes) : Decidable (WellFormed line) :=
  inferInstanceAs (Decidable (∀ _ ∈ _, _))

/-- A token that is a number is written as `strconv.Itoa` writes it. -/
def Canonical (t : Bytes) : Prop := ∀ n ∈ tokenNumber t, (splitToken t).1 = itoa n

instance (t : Bytes) : Decidable (Canonical t) := inferInstanceAs (Decidable (∀ _ ∈ _, _))

/-- A number stands for the process that has it as its pid, any other token for
the lines it occurs in. -/
def matchedBy (pid : Int) (line t : Bytes) : Bool :=
  match tokenNumber t with
  | some n => n = pid
  | none => contained line t

theorem contained_of_matchedBy {pid : Int} {line t : Bytes} (hline : WellFormed line)
    (hpid : linePid line = some pid) (ht : Canonical t) (hmatch : matchedBy pid line t = true) :
    contained line t = true := by
  unfold matchedBy at hmatch
  cases hnum : tokenNumber t with
  | none => simpa [hnum] using hmatch
  | some n =>
    have hn : n = pid := by simpa [hnum] using hmatch
    obtain ⟨id, hid, hatoi⟩ := Option.bind_eq_some_iff.mp hpid
    have hcolumn : id = itoa pid := hline id hid pid hatoi
    have htoken : (splitToken t).1 = id := by
      rw [ht n hnum, hn, hcolumn]
    have hmem : id ∈ line.splitOn 32 := List.mem_of_mem_filter (List.mem_of_getElem? hid)
    rw [contained, htoken]
    exact index_isSome_iff.mpr (infix_of_mem_splitOn hmem)

theorem matchedBy_of_contained {pid : Int} {line t : Bytes} (hin : contained line t = true)
    (hnum : isOther pid t = false) : matchedBy pid line t = true := by
  unfold matchedBy
  cases htoken : tokenNumber t with
  | none => exact hin
  | some n => simpa [isOther, htoken] using hnum

namespace Discovery

variable (q : Discovery)

/-- The line selects its process: it is not ruled out and some token matches. -/
def candidate (pid : Int) (line : Line newline) : Bool :=
  pid ≠ q.cpid && ofProcess pid line && !q.excluded (psText line) &&
    q.tokens.any (matchedBy pid (psText line))

def nameFor (pid : Int) (line : Line newline) : Option Bytes :=
  (q.tokens.find? (matchedBy pid (psText line))).map fun t => (splitToken t).2

/-- The name of a process by its first line that selects it. -/
def expectedName (lines : List (Line newline)) (pid : Int) : Option Bytes :=
  (lines.find? (q.candidate pid)).bind (q.nameFor pid)

/-- The first token found in the line is the pid of another process. -/
def shadowed (pid : Int) (line : Line newline) : Bool :=
  (q.tokens.find? (contained (psText line))).any (isOther pid)

private theorem nameFor_isSome {pid : Int} {line : Line newline}
    (h : q.candidate pid line = true) : (q.nameFor pid line).isSome := by
  simp only [candidate, Bool.and_eq_true] at h
  rw [nameFor, Option.isSome_map, List.find?_isSome]
  exact List.any_eq_true.mp h.2

theorem named_eq {pid : Int} {line : Line newline} (hline : WellFormed (psText line))
    (htokens : ∀ t ∈ q.tokens, Canonical t) :
    q.named pid line =
      if q.candidate pid line && !q.shadowed pid line then q.nameFor pid line else none := by
  by_cases hpid : linePid (psText line) = some pid
  swap
  · have hnone : q.named pid line = none := by
      by_contra hsome
      exact hpid (q.linePid_of_nameBy hsome)
    simp [hnone, candidate, ofProcess, hpid]
  unfold named nameBy selection
  rw [← psText, selectLine_eq, hpid, Option.bind_some]
  by_cases hout : q.excluded (psText line) = true
  · simp [hout, candidate]
  by_cases hself : pid = q.cpid
  · simp [hself, candidate]
  cases hfirst : q.tokens.find? (contained (psText line)) with
  | none =>
    have hnot : q.tokens.any (matchedBy pid (psText line)) = false := by
      rw [List.any_eq_false]
      intro t ht hmatch
      exact List.find?_eq_none.mp hfirst t ht
        (contained_of_matchedBy hline hpid (htokens t ht) hmatch)
    simp [hself, candidate, hnot]
  | some t =>
    have hshadowed : q.shadowed pid line = isOther pid t := by
      rw [shadowed, hfirst, Option.any_some]
    cases hother : isOther pid t with
    | true => simp [hself, hshadowed, hother]
    | false =>
      have hmatch : matchedBy pid (psText line) t = true :=
        matchedBy_of_contained (List.find?_some hfirst) hother
      have hfind : q.tokens.find? (matchedBy pid (psText line)) = some t := by
        apply find?_of_imp hfirst _ hmatch
        intro x hx hxmatch
        exact contained_of_matchedBy hline hpid (htokens x hx) hxmatch
      have hany : q.tokens.any (matchedBy pid (psText line)) = true :=
        List.any_eq_true.mpr ⟨t, List.mem_of_find?_eq_some hfind, hmatch⟩
      have hcandidate : q.candidate pid line = true := by
        simp [candidate, ofProcess, hself, hpid, hout, hany]
      simp [hout, hself, hcandidate, hshadowed, hother, nameFor, hfind]

/-- A process is reported under the name its lines and the tokens give it if and
only if its first line that selects it is not shadowed, or its first one that is
not gives the same name. -/
theorem reported_as_expected_iff (lines : List (Line newline)) (pid : Int)
    (hfits : ∀ line ∈ lines, fits line = true) (hlines : ∀ line ∈ lines, WellFormed (psText line))
    (htokens : ∀ t ∈ q.tokens, Canonical t) :
    q.reported lines pid = q.expectedName lines pid ↔
      ∀ line, lines.find? (q.candidate pid) = some line → q.shadowed pid line = true →
        ∃ other, lines.find? (fun line => q.candidate pid line && !q.shadowed pid line) =
          some other ∧ q.nameFor pid other = q.nameFor pid line := by
  have hnamed : q.reported lines pid =
      (lines.find? fun line => q.candidate pid line && !q.shadowed pid line).bind
        (q.nameFor pid) := by
    have hall : lines.takeWhile fits = lines := by
      rw [List.takeWhile_eq_self_iff]
      exact hfits
    rw [reported_eq, hall]
    apply findSome?_eq_find?_bind
    · intro line hline
      exact q.nameFor_isSome (Bool.and_eq_true _ _ ▸ hline).1
    · intro line hline
      exact q.named_eq (hlines line hline) htokens
  rw [hnamed, expectedName]
  exact find?_overlooking_iff (fun line => q.nameFor_isSome) lines

end Discovery

def mixedDiscovery : Discovery := ⟨1, [ascii "7$shop", ascii "java"], []⟩

theorem reported_as_expected_mixed :
    mixedDiscovery.reported [sampleLine, otherLine] 7 = some (ascii "shop") ∧
      (mixedDiscovery.reported [sampleLine, otherLine] 7 =
        mixedDiscovery.expectedName [sampleLine, otherLine] 7) := by
  refine ⟨by decide, ?_⟩
  apply (mixedDiscovery.reported_as_expected_iff [sampleLine, otherLine] 7 (by decide) (by decide)
    (by decide)).mpr
  intro line hline hshadowed
  have hfirst : [sampleLine, otherLine].find? (mixedDiscovery.candidate 7) = some sampleLine := by
    decide
  rw [hfirst] at hline
  cases hline
  exact absurd hshadowed (by decide)

/-- The number 7 occurs in the line of process 78, so the token after it is not
looked at. -/
def nearbyLine : Line newline := ⟨ascii "root 78 java", by decide⟩

theorem number_hides_later_token :
    (∀ line ∈ [nearbyLine], fits line = true ∧ WellFormed (psText line)) ∧
      (∀ t ∈ mixedDiscovery.tokens, Canonical t) ∧
      mixedDiscovery.expectedName [nearbyLine] 78 = some [] ∧
      mixedDiscovery.reported [nearbyLine] 78 = none := by
  decide

end YcAgent.Capture
