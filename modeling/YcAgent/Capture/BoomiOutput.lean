import YcAgent.Capture.BoomiPages
import YcAgent.Capture.LastLines
import YcAgent.Go.Strings
import YcAgent.Lib.Delimited

/-!
`boomi.out` and its upload. The file has a header, a line for each execution
record, and the sections of the atoms and of the connectors. It is uploaded from
where its last 5000 lines start, while up to 10000 records are fetched: a longer
file is uploaded without its header and its first records. Writing to the file
does not fail here.
-/

namespace YcAgent.Capture.Boomi

open Go Lib.Lines Lib.Program LastLines

structure AtomQuery where
  type : Bytes
  name : Bytes
  status : Bytes
  atomType : Bytes
  hostName : Bytes
  dateInstalled : Bytes
  currentVersion : Bytes
  forceRestartTime : Int
  id : Bytes

def convertExecutionDurationToInt (record : ExecutionRecord) (jobStatus : Bytes) : Int :=
  if jobStatus = ascii "COMPLETE" ∨ jobStatus = ascii "ERROR" then
    match record.executionDuration with
    | [_, .float64 value] => value
    | _ => 0
  else 0

def csvLine (cells : List Bytes) : Bytes := (ascii ",").intercalate cells ++ [newline]

def header : Bytes :=
  ascii "exec_time,exec_duration,status,atom_name,atom_id,process_id,atom_process_name," ++
    ascii " execution_id" ++
    [newline]

def delimiter : Bytes := ascii ";;;;;;;;" ++ [newline]

def atomDetailsHeader : Bytes :=
  ascii "type,name,status,atom_type,host_name,date_installed,version,atom_force_resatrt,atom_id," ++
    ascii "config" ++
    [newline]

def atomConnectorDetailsHeader : Bytes := ascii "type,name,atom_type" ++ [newline]

def ExecutionRecord.cells (record : ExecutionRecord) (pid : Int) : List Bytes :=
  [record.executionTime, itoa (convertExecutionDurationToInt record record.status), record.status,
    record.atomName, record.atomID, itoa pid, record.processName, record.executionID]

def AtomQuery.cells (atom : AtomQuery) (atomId : Bytes) : List Bytes :=
  [atom.type, atom.name, atom.status, atom.atomType, atom.hostName, atom.dateInstalled,
    atom.currentVersion, itoa atom.forceRestartTime, atom.id,
    if atomId = atom.id then ascii "Y" else ascii "N"]

def AtomConnector.cells (connector : AtomConnector) : List Bytes :=
  [connector.type, connector.name, connector.atomType]

structure BoomiDetails where
  pid : Int
  atomId : Bytes
  records : List ExecutionRecord
  atoms : List AtomQuery
  connectors : List AtomConnector

namespace BoomiDetails

variable (b : BoomiDetails)

def writeRecords : Bytes := b.records.flatMap fun record => csvLine (record.cells b.pid)

def writeAtomQueryDetails : Bytes := b.atoms.flatMap fun atom => csvLine (atom.cells b.atomId)

def writeAtomConnectorDetails : Bytes :=
  b.connectors.flatMap fun connector => csvLine connector.cells

def afterHeader : Bytes :=
  b.writeRecords ++ (delimiter ++ atomDetailsHeader) ++ b.writeAtomQueryDetails ++
    (delimiter ++ atomConnectorDetailsHeader) ++ b.writeAtomConnectorDetails

/-- `boomi.out`, in the order in which it is written. -/
def boomiOut : Bytes := header ++ b.afterHeader

end BoomiDetails

def ExecutionRecord.texts (record : ExecutionRecord) : List Bytes :=
  [record.executionTime, record.status, record.atomName, record.atomID, record.processName,
    record.executionID]

def AtomQuery.texts (atom : AtomQuery) : List Bytes :=
  [atom.type, atom.name, atom.status, atom.atomType, atom.hostName, atom.dateInstalled,
    atom.currentVersion, atom.id]

def AtomConnector.texts (connector : AtomConnector) : List Bytes :=
  [connector.type, connector.name, connector.atomType]

theorem newline_not_mem_itoa (n : Int) : newline ∉ itoa n := by
  intro hmem
  exact absurd (mem_itoa hmem).1 (by decide)

theorem hasLines_csvLine {cells : List Bytes} (h : ∀ cell ∈ cells, newline ∉ cell) :
    HasLines newline 1 (csvLine cells) := by
  have hcells : ∀ b ∈ (ascii ",").intercalate cells, b ≠ newline :=
    Lib.Delimited.forall_mem_intercalate (P := fun b => b ≠ newline) (by decide +kernel)
      fun cell hcell b hb heq => h cell hcell (heq ▸ hb)
  exact hasLines_one fun hmem => hcells newline hmem rfl

/-- What was fetched has no newline in a text, and the file is not larger than a
file can be. -/
structure BoomiCapture extends BoomiDetails where
  records_one_line : ∀ record ∈ records, ∀ text ∈ record.texts, newline ∉ text
  atoms_one_line : ∀ atom ∈ atoms, ∀ text ∈ atom.texts, newline ∉ text
  connectors_one_line : ∀ connector ∈ connectors, ∀ text ∈ connector.texts, newline ∉ text
  size_lt : toBoomiDetails.boomiOut.length < 2 ^ 63

namespace BoomiCapture

variable (c : BoomiCapture)

theorem hasLines_afterHeader :
    HasLines newline (c.records.length + c.atoms.length + c.connectors.length + 4)
      c.afterHeader := by
  have hdelimiter : HasLines newline 1 delimiter := hasLines_one (by decide +kernel)
  have hatomsHeader : HasLines newline 1 atomDetailsHeader := hasLines_one (by decide +kernel)
  have hconnectorsHeader : HasLines newline 1 atomConnectorDetailsHeader :=
    hasLines_one (by decide +kernel)
  have hrecords : HasLines newline c.records.length c.writeRecords := by
    apply hasLines_flatMap
    intro record hrecord
    have htexts := c.records_one_line record hrecord
    apply hasLines_csvLine
    simp only [ExecutionRecord.texts, ExecutionRecord.cells, List.forall_mem_cons] at htexts ⊢
    simp only [htexts, newline_not_mem_itoa, not_false_eq_true, true_and]
    simp
  have hatoms : HasLines newline c.atoms.length c.writeAtomQueryDetails := by
    apply hasLines_flatMap
    intro atom hatom
    have htexts := c.atoms_one_line atom hatom
    have hflag : newline ∉ (if c.atomId = atom.id then ascii "Y" else ascii "N") := by
      split <;> decide
    apply hasLines_csvLine
    simp only [AtomQuery.texts, AtomQuery.cells, List.forall_mem_cons] at htexts ⊢
    simp only [htexts, newline_not_mem_itoa, hflag, not_false_eq_true, true_and]
    simp
  have hconnectors : HasLines newline c.connectors.length c.writeAtomConnectorDetails := by
    apply hasLines_flatMap
    intro connector hconnector
    exact hasLines_csvLine (c.connectors_one_line connector hconnector)
  have hlines := (((hrecords.append (hdelimiter.append hatomsHeader)).append hatoms).append
    (hdelimiter.append hconnectorsHeader)).append hconnectors
  have hcount : c.records.length + (1 + 1) + c.atoms.length + (1 + 1) + c.connectors.length =
      c.records.length + c.atoms.length + c.connectors.length + 4 := by omega
  rwa [hcount] at hlines

theorem hasLines_boomiOut :
    HasLines newline (c.records.length + c.atoms.length + c.connectors.length + 5) c.boomiOut := by
  have hheader : HasLines newline 1 header := hasLines_one (by decide +kernel)
  have hlines := hheader.append c.hasLines_afterHeader
  rwa [Nat.add_comm 1] at hlines

def written : FileState := ⟨⟨c.boomiOut, c.size_lt⟩, c.boomiOut.length, []⟩

def positionLast5000Lines : FileProg (Option String) := positionLastLines 5000

/-- A body of the upload: what follows the position in the file. Without a record
nothing is written or uploaded. -/
def Uploads (body : Bytes) : Prop :=
  c.records ≠ [] ∧ ∃ trace w, Runs FileOp.Perform positionLast5000Lines c.written trace none w ∧
    body = w.file.content.drop w.offset

theorem uploads_iff (body : Bytes) :
    c.Uploads body ↔ c.records ≠ [] ∧ body = lastLines newline 5000 c.boomiOut := by
  have hstart {trace : FileTrace} {w : FileState}
      (hrun : Runs FileOp.Perform positionLast5000Lines c.written trace none w) :
      w.file.content.drop w.offset = lastLines newline 5000 c.boomiOut := by
    have hmoves := positionLastLines_moves hrun
    have hlimit : (5000 : UInt64).toNat = 5000 := by decide
    have hgood := hmoves.good rfl
    rw [StartsLast, hlimit] at hgood
    rw [hmoves.file_eq]
    exact hgood
  constructor
  · rintro ⟨hsome, trace, w, hrun, rfl⟩
    exact ⟨hsome, hstart hrun⟩
  · rintro ⟨hsome, hbody⟩
    obtain ⟨trace, err, w, hrun, hhealthy⟩ := exists_healthy positionLast5000Lines c.written
    have herr : err = none := (positionLastLines_moves hrun).healthy hhealthy
    subst herr
    exact ⟨hsome, trace, w, hrun, hbody.trans (hstart hrun).symm⟩

/-- The upload is the whole file just in case that has at most 5000 lines. -/
theorem uploads_boomiOut_iff :
    (∀ body, c.Uploads body → body = c.boomiOut) ↔
      c.records = [] ∨ c.records.length + c.atoms.length + c.connectors.length + 5 ≤ 5000 := by
  rw [← c.hasLines_boomiOut.length_allLines, ← lastLines_eq_self_iff]
  simp only [uploads_iff]
  constructor
  · intro hall
    by_cases hempty : c.records = []
    · exact .inl hempty
    · exact .inr (hall (lastLines newline 5000 c.boomiOut) ⟨hempty, rfl⟩)
  · rintro (hempty | hwhole) body ⟨hsome, hbody⟩
    · exact absurd hempty hsome
    · rw [hbody, hwhole]

end BoomiCapture

def capturedRecords (n : Nat) : BoomiDetails where
  pid := 7
  atomId := []
  records := List.replicate n sampleExecution
  atoms := []
  connectors := []

theorem length_capturedRecords {n : Nat} (hn : n ≤ 10000) :
    (capturedRecords n).boomiOut.length < 2 ^ 63 := by
  have hline : (csvLine (sampleExecution.cells 7)).length = 10 := by decide +kernel
  have hheader : header.length ≤ 200 := by decide +kernel
  have hatoms : (delimiter ++ atomDetailsHeader).length ≤ 200 := by decide +kernel
  have hconnectors : (delimiter ++ atomConnectorDetailsHeader).length ≤ 200 := by decide +kernel
  have hrecords : (capturedRecords n).writeRecords.length = n * 10 := by
    rw [BoomiDetails.writeRecords, List.length_flatMap, capturedRecords, List.map_replicate, hline,
      List.sum_replicate_nat]
  have hnone : (capturedRecords n).writeAtomQueryDetails = [] ∧
      (capturedRecords n).writeAtomConnectorDetails = [] := ⟨rfl, rfl⟩
  rw [BoomiDetails.boomiOut, BoomiDetails.afterHeader, hnone.1, hnone.2]
  simp only [List.length_append, List.length_nil] at hatoms hconnectors ⊢
  omega

def recordsCapture (n : Nat) (hn : n ≤ 10000) : BoomiCapture where
  toBoomiDetails := capturedRecords n
  records_one_line := by
    have htexts : ∀ text ∈ sampleExecution.texts, newline ∉ text := by decide
    intro record hrecord
    rwa [List.eq_of_mem_replicate hrecord]
  atoms_one_line := nofun
  connectors_one_line := nofun
  size_lt := length_capturedRecords hn

private theorem afterHeader_recordsCapture {n : Nat} (hn : n ≤ 10000) :
    (recordsCapture n hn).afterHeader = lastLines newline (n + 4)
      (recordsCapture n hn).boomiOut := by
  have hlines := (recordsCapture n hn).hasLines_afterHeader.length_allLines
  have hcount : (recordsCapture n hn).records.length + (recordsCapture n hn).atoms.length +
      (recordsCapture n hn).connectors.length + 4 = n + 4 := by
    have hrecords : (recordsCapture n hn).records.length = n := List.length_replicate
    rw [hrecords]
    rfl
  rw [hcount] at hlines
  rw [BoomiDetails.boomiOut, header, List.append_assoc]
  exact (lastLines_after _ hlines).symm

/-- With 4996 records there is one line too many, and the header is not uploaded. -/
theorem many_records_without_header :
    (recordsCapture 4996 (by decide)).Uploads (recordsCapture 4996 (by decide)).afterHeader ∧
    (recordsCapture 4996 (by decide)).afterHeader ≠ (recordsCapture 4996 (by decide)).boomiOut := by
  constructor
  · apply (BoomiCapture.uploads_iff _ _).2
    exact ⟨List.cons_ne_nil _ _, afterHeader_recordsCapture _⟩
  · intro heq
    have hlength := congrArg List.length heq
    rw [BoomiDetails.boomiOut, List.length_append] at hlength
    have hheader : 0 < header.length := by decide +kernel
    omega

end YcAgent.Capture.Boomi
