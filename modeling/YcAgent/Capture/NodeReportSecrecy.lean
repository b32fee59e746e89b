import YcAgent.Capture.NodeReport

/-!
The way of a Diagnostic Report through the signal mode: it is moved to the
capture directory, checked, reshaped in place and uploaded. Two reports that
differ in sensitive values of the environment only are followed through it, with
the same answers of the file system and the network. They end up the same exactly
when the report does not get to the capture directory or is masked there.
-/

namespace YcAgent.Capture

open Go Go.Json

/-- How writing a file fails: with the file as it was, or with the file truncated
and a part of the data in it. -/
inductive WriteFault where
  | untouched (err : IOError)
  | part (written : Nat) (err : IOError)

def WriteFault.err : WriteFault → IOError
  | .untouched err => err
  | .part _ err => err

def WriteFault.left {α : Type} (old : α) (part : Nat → α) : WriteFault → α
  | .untouched _ => old
  | .part written _ => part written

/-- The answers of what `runSignal` calls, in the order of the calls. How much of
a request's body goes out is `sent`. -/
structure SignalReplies where
  capture : Except String Path
  rename : Bool
  readReport : Option IOError
  copy : Option WriteFault
  readValid : Option IOError
  readReshape : Option IOError
  write : Option WriteFault
  openFile : Option IOError
  cfg : PostConfig
  net : PostReplies
  sent : Nat

/-- `nodeMoveFile`, with what is at the destination afterwards: `old` is what was
there before. -/
def nodeMoveFile (r : SignalReplies) (src dst : Path) (report : Bytes) (old : Option Bytes) :
    Option IOError × Option Bytes :=
  if src = dst then (none, some report) else
  if r.rename then (none, some report) else
  match r.readReport with
  | some err => (some err, old)
  | none =>
  match r.copy with
  | some fault => (some fault.err, fault.left old fun n => some (report.take n))
  | none => (none, some report)

/-- The body of the request that `PostData` makes, if it makes one. -/
def postedBody (r : SignalReplies) (content : Bytes) : Option Bytes :=
  if r.cfg.onlyCapture = false ∧ r.net.stat.isOk ∧ content ≠ [] ∧
      (r.cfg.caCertPath = "" ∨ r.net.readCA.isOk) ∧ r.net.position.isOk ∧ r.net.newRequest.isOk
  then some (content.take r.sent) else none

inductive SignalOutcome where
  | result (res : Result)
  | panics

/-- How `runSignal` ends, with what is at the path in the capture directory and
what was uploaded. -/
structure SignalRun where
  outcome : SignalOutcome
  file : Option Bytes
  uploaded : Option Bytes

def SignalRun.failed (msg : String) (file : Option Bytes) : SignalRun :=
  ⟨.result ⟨msg, false⟩, file, none⟩

def uploadOverview (r : SignalReplies) (endpoint outPath : String) (content : Bytes) : SignalRun :=
  match r.openFile with
  | some err => .failed s!"failed opening {outPath}: {err}" (some content)
  | none =>
    let posted := postData r.cfg endpoint "nodepo" (some ⟨outPath, content⟩) r.net
    ⟨.result ⟨posted.1, posted.2⟩, some content, postedBody r content⟩

/-- What is done with a report at its path in the capture directory. -/
def processReport (codec : Codec) (r : SignalReplies) (pid : Int) (endpoint outPath : String)
    (report : Bytes) : SignalRun :=
  if !nodeReportValid codec (match r.readValid with | some err => .error err | none => .ok report)
  then .failed s!"node signal-mode report for pid {pid} is not well-formed JSON" (some report) else
  match reshapeNodeReportToProcessOverview codec report ⟨r.readReshape, fun out =>
      r.write.map fun fault => (fault.err, fault.left report fun n => out.take n)⟩ with
  | (.panics, file) => ⟨.panics, some file, none⟩
  | (.err err, file) =>
    .failed s!"failed reshaping signal-mode report for pid {pid}: {err}" (some file)
  | (.ok, file) => uploadOverview r endpoint outPath file

def runSignal (codec : Codec) (r : SignalReplies) (pid : Int) (endpoint outPath : String)
    (report : Bytes) (old : Option Bytes) : SignalRun :=
  match r.capture with
  | .error err => .failed err old
  | .ok reportPath =>
  match nodeMoveFile r reportPath outPath report old with
  | (some err, left) => .failed s!"failed moving report {reportPath} to {outPath}: {err}" left
  | (none, _) => processReport codec r pid endpoint outPath report

/-- Equal values, or two strings of one length under a sensitive name. -/
def ValuesAgree (name : Text) (a b : Json) : Prop :=
  a = b ∨ sensitiveEnvName (clean name) = true ∧
    ∃ s t, a = .str s ∧ b = .str t ∧ byteLength s = byteLength t

def EnvironmentsAgree (a b : Json) : Prop :=
  ∃ vars vars', a = .obj vars ∧ b = .obj vars' ∧
    List.Forall₂ (fun m m' => m.1 = m'.1 ∧ ValuesAgree m.1 m.2 m'.2) vars vars'

def MembersAgree (k : Text) (a b : Json) : Prop :=
  a = b ∨ k = jsonText "environmentVariables" ∧ EnvironmentsAgree a b

def ReportsAgree (report report' : List (Text × Json)) : Prop :=
  List.Forall₂ (fun m m' => m.1 = m'.1 ∧ MembersAgree m.1 m.2 m'.2) report report'

structure DocumentsAgree (codec : Codec) (a b : Bytes) : Prop where
  length : a.length = b.length
  reports : ∃ report report', codec.parse a = some (.obj report) ∧
    codec.parse b = some (.obj report') ∧ ReportsAgree report report'

/-- Two contents of a report: complete, or cut at the same byte so that they are
no documents any more. -/
inductive ContentsAgree (codec : Codec) (a b : Bytes) : Prop
  | complete : DocumentsAgree codec a b → ContentsAgree codec a b
  | truncated (full full' : Bytes) (k : Nat) : DocumentsAgree codec full full' →
      a = full.take k → b = full'.take k → codec.parse a = none → codec.parse b = none →
      ContentsAgree codec a b

section Agreement

variable {f : ℚ → ℚ}

theorem byteLength_clean (s : Text) : byteLength (clean s) = byteLength s := by
  simp [byteLength, clean, Function.comp_def]

theorem forall₂_recodeMembers {P Q : Text → Json → Json → Prop}
    (hPQ : ∀ k a b, P k a b → Q (clean k) (a.recode f clean) (b.recode f clean))
    {l l' : List (Text × Json)}
    (h : List.Forall₂ (fun m m' => m.1 = m'.1 ∧ P m.1 m.2 m'.2) l l') :
    List.Forall₂ (fun m m' => m.1 = m'.1 ∧ Q m.1 m.2 m'.2) (recodeMembers f clean l)
      (recodeMembers f clean l') := by
  induction h with
  | nil => exact .nil
  | @cons m m' _ _ hm _ ih =>
    obtain ⟨k, a⟩ := m
    obtain ⟨k', b⟩ := m'
    obtain ⟨hk, hP⟩ := hm
    exact .cons ⟨congrArg clean hk, hPQ k a b hP⟩ ih

def SameMasked (k : Text) (a b : Json) : Prop := maskSensitiveValue k a = maskSensitiveValue k b

theorem sameMasked_of_valuesAgree (k : Text) (a b : Json) (h : ValuesAgree k a b) :
    SameMasked (clean k) (a.recode f clean) (b.recode f clean) := by
  rcases h with rfl | ⟨hk, s, t, rfl, rfl, hlength⟩
  · rfl
  · simp only [SameMasked, recode, maskSensitiveValue, hk, if_true, byteLength_clean, hlength]

/-- Environments that differ in secrets are the same once they are masked. -/
theorem maskEnvironment_same {a b : Json} (h : EnvironmentsAgree a b) :
    Same (maskEnvironment (a.recode f clean)) (maskEnvironment (b.recode f clean)) := by
  obtain ⟨vars, vars', rfl, rfl, hvars⟩ := h
  have hdecoded := forall₂_recodeMembers (f := f) sameMasked_of_valuesAgree hvars
  apply same_iff.2
  refine ⟨rfl, fun s => ?_⟩
  rw [child_maskEnvironment, child_maskEnvironment]
  cases s with
  | index i => exact True.intro
  | key k =>
    change SameOpt ((lastMember k (recodeMembers f clean vars)).map _)
      ((lastMember k (recodeMembers f clean vars')).map _)
    rcases lastMember_forall₂ hdecoded k with ⟨hnone, hnone'⟩ | ⟨c, c', hc, hc', hmask⟩
    · rw [hnone, hnone']
      exact True.intro
    · rw [hc, hc']
      change Same (maskSensitiveValue k c) (maskSensitiveValue k c')
      rw [hmask]
      exact Same.refl _

def DecodedAgree (f : ℚ → ℚ) (k : Text) (a b : Json) : Prop :=
  a = b ∨ k = jsonText "environmentVariables" ∧
    ∃ e e', EnvironmentsAgree e e' ∧ a = e.recode f clean ∧ b = e'.recode f clean

theorem decodedAgree_of_membersAgree (k : Text) (a b : Json) (h : MembersAgree k a b) :
    DecodedAgree f (clean k) (a.recode f clean) (b.recode f clean) := by
  rcases h with rfl | ⟨rfl, henv⟩
  · exact .inl rfl
  · exact .inr ⟨clean_text _, a, b, henv, rfl, rfl⟩

theorem lastMember_of_reportsAgree {report report' : List (Text × Json)}
    (h : ReportsAgree report report') (k : Text) :
    lastMember k (recodeMembers f clean report) = lastMember k (recodeMembers f clean report') ∨
      k = jsonText "environmentVariables" ∧ ∃ e e', EnvironmentsAgree e e' ∧
        lastMember k (recodeMembers f clean report) = some (e.recode f clean) ∧
        lastMember k (recodeMembers f clean report') = some (e'.recode f clean) := by
  have hdecoded := forall₂_recodeMembers (f := f) decodedAgree_of_membersAgree h
  rcases lastMember_forall₂ hdecoded k with ⟨hnone, hnone'⟩ | ⟨c, c', hc, hc', hagree⟩
  · exact .inl (hnone.trans hnone'.symm)
  · rcases hagree with rfl | ⟨hk, e, e', henv, rfl, rfl⟩
    · exact .inl (hc.trans hc'.symm)
    · exact .inr ⟨hk, e, e', henv, hc, hc'⟩

/-- Reports that differ in secrets are reshaped to the same overview. -/
theorem reshapedReport_same {report report' : List (Text × Json)}
    (h : ReportsAgree report report') :
    Same (.obj (reshapedReport (recodeMembers f clean report)))
      (.obj (reshapedReport (recodeMembers f clean report'))) := by
  have hfound := lastMember_of_reportsAgree (f := f) h
  have hcall : callStack (recodeMembers f clean report) =
      callStack (recodeMembers f clean report') := by
    rcases hfound (jsonText "javascriptStack") with heq | ⟨hk, _⟩
    · unfold callStack
      rw [heq]
    · exact absurd hk (by decide)
  apply same_iff.2
  refine ⟨rfl, fun s => ?_⟩
  cases s with
  | index i => exact True.intro
  | key k =>
    change SameOpt (lastMember k _) (lastMember k _)
    rw [lastMember_reshapedReport, lastMember_reshapedReport, hcall]
    rcases hfound k with heq | ⟨rfl, e, e', henv, he, he'⟩
    · rw [heq]
      exact SameOpt.refl _
    · rw [he, he', if_neg (by decide), if_neg (by decide), if_pos rfl, if_neg (by decide),
        if_neg (by decide), if_pos rfl]
      exact maskEnvironment_same henv

theorem allNumsMembers_of_agree {P : Text → Json → Json → Prop} {p : ℚ → Bool}
    (hP : ∀ k a b, P k a b → allNums p a = allNums p b) {l l' : List (Text × Json)}
    (h : List.Forall₂ (fun m m' => m.1 = m'.1 ∧ P m.1 m.2 m'.2) l l') :
    allNumsMembers p l = allNumsMembers p l' := by
  induction h with
  | nil => rfl
  | @cons m m' _ _ hm _ ih =>
    obtain ⟨k, a⟩ := m
    obtain ⟨k', b⟩ := m'
    rw [allNumsMembers, allNumsMembers, ih, hP k a b hm.2]

theorem allNums_of_membersAgree {p : ℚ → Bool} (k : Text) (a b : Json)
    (h : MembersAgree k a b) : allNums p a = allNums p b := by
  rcases h with rfl | ⟨_, vars, vars', rfl, rfl, hvars⟩
  · rfl
  · apply allNumsMembers_of_agree (P := ValuesAgree) _ hvars
    rintro k a b (rfl | ⟨_, s, t, rfl, rfl, _⟩)
    · rfl
    · rfl

end Agreement

section Runs

variable {codec : Codec} {r : SignalReplies} {pid : Int} {endpoint outPath : String}
  {a b : Bytes} {old : Option Bytes}

/-- Both contents are reports that are encoded alike once they are reshaped, or
neither is a report. -/
theorem ContentsAgree.decoded (h : ContentsAgree codec a b) :
    (∃ report report', codec.unmarshalMap a = .ok (some report) ∧
      codec.unmarshalMap b = .ok (some report') ∧
      codec.print (.obj (reshapedReport report)) = codec.print (.obj (reshapedReport report'))) ∨
    ¬ IsReport codec a ∧ ¬ IsReport codec b := by
  cases h with
  | truncated full full' k _ _ _ ha hb =>
    right
    constructor
    · rintro ⟨report, hparse, _⟩
      rw [ha] at hparse
      cases hparse
    · rintro ⟨report, hparse, _⟩
      rw [hb] at hparse
      cases hparse
  | complete hagree =>
    obtain ⟨report, report', hparse, hparse', hreports⟩ := hagree.reports
    have hnums : (Json.obj report).allNums inRange = (Json.obj report').allNums inRange :=
      allNumsMembers_of_agree allNums_of_membersAgree hreports
    cases hrange : (Json.obj report).allNums inRange with
    | true =>
      left
      exact ⟨_, _, codec.unmarshalMap_ok_some.2 ⟨report, hparse, hrange, rfl⟩,
        codec.unmarshalMap_ok_some.2 ⟨report', hparse', hnums ▸ hrange, rfl⟩,
        codec.print_same _ _ (reshapedReport_same hreports)⟩
    | false =>
      right
      constructor
      · rintro ⟨members, hmembers, htrue⟩
        rw [hparse] at hmembers
        obtain ⟨rfl⟩ := hmembers
        exact Bool.noConfusion (hrange.symm.trans htrue)
      · rintro ⟨members, hmembers, htrue⟩
        rw [hparse'] at hmembers
        obtain ⟨rfl⟩ := hmembers
        exact Bool.noConfusion ((hnums.symm.trans hrange).symm.trans htrue)

theorem ContentsAgree.length (h : ContentsAgree codec a b) : a.length = b.length := by
  cases h with
  | complete hagree => exact hagree.length
  | truncated full full' k hagree ha hb => simp [ha, hb, hagree.length]

/-- What of a run can be seen: the file in the capture directory and the upload. -/
def SignalRun.seen (run : SignalRun) : Option Bytes × Option Bytes := (run.file, run.uploaded)

structure Masks (codec : Codec) (r : SignalReplies) (report : Bytes) : Prop where
  readValid : r.readValid = none
  readReshape : r.readReshape = none
  valid : nodeReportValid codec (.ok report) = true
  report : IsReport codec report
  write : ∀ err, r.write ≠ some (.untouched err)

theorem processReport_raw (h : ¬ Masks codec r a) :
    (processReport codec r pid endpoint outPath a).seen = (some a, none) := by
  unfold processReport
  cases hread : r.readValid with
  | some err => rfl
  | none =>
    cases hvalid : nodeReportValid codec (.ok a) with
    | false => simp [SignalRun.failed, SignalRun.seen]
    | true =>
      cases hreshape : r.readReshape with
      | some err =>
        simp [reshapeNodeReportToProcessOverview, SignalRun.failed, SignalRun.seen]
      | none =>
        rw [reshape_eq codec _ _ rfl]
        cases hfile : codec.unmarshalMap a with
        | error err => simp [SignalRun.failed, SignalRun.seen]
        | ok found =>
          cases found with
          | none => simp [SignalRun.seen]
          | some report =>
            obtain ⟨members, hparse, hrange, _⟩ := codec.unmarshalMap_ok_some.1 hfile
            have huntouched : ∃ err, r.write = some (.untouched err) := by
              by_contra hne
              exact h ⟨hread, hreshape, hvalid, ⟨members, hparse, hrange⟩,
                not_exists.1 hne⟩
            obtain ⟨err, hwrite⟩ := huntouched
            simp [hwrite, WriteFault.left, SignalRun.failed, SignalRun.seen]

theorem processReport_of_masks (h : Masks codec r a) {report : List (Text × Json)}
    (hfile : codec.unmarshalMap a = .ok (some report)) :
    processReport codec r pid endpoint outPath a =
      match r.write with
      | none => uploadOverview r endpoint outPath (codec.print (.obj (reshapedReport report)))
      | some fault =>
        .failed s!"failed reshaping signal-mode report for pid {pid}: {fault.err}"
          (some (fault.left a fun n => (codec.print (.obj (reshapedReport report))).take n)) := by
  unfold processReport
  rw [h.readValid, h.readReshape, reshape_eq codec _ _ rfl, hfile]
  simp only [h.valid, Bool.not_true, if_false, Bool.false_eq_true]
  cases r.write <;> rfl

theorem processReport_masked (ha : Masks codec r a) (hb : Masks codec r b)
    (h : ContentsAgree codec a b) :
    (processReport codec r pid endpoint outPath a).seen =
      (processReport codec r pid endpoint outPath b).seen := by
  rcases h.decoded with ⟨report, report', hfile, hfile', hprint⟩ | ⟨hnot, _⟩
  · rw [processReport_of_masks ha hfile, processReport_of_masks hb hfile', hprint]
    cases hwrite : r.write with
    | none => rfl
    | some fault =>
      cases fault with
      | untouched err => exact absurd hwrite (ha.write err)
      | part n err => rfl
  · exact absurd ha.report hnot

theorem nodeReportValid_iff (h : IsReport codec a) :
    nodeReportValid codec (.ok a) = true ↔ a.length ≠ 0 := by
  obtain ⟨report, hparse, _⟩ := h
  simp [nodeReportValid, Codec.valid, hparse]

theorem Masks.congr (h : ContentsAgree codec a b) : Masks codec r a ↔ Masks codec r b := by
  rcases h.decoded with ⟨report, report', hfile, hfile', _⟩ | ⟨hnot, hnot'⟩
  · obtain ⟨members, hparse, hrange, _⟩ := codec.unmarshalMap_ok_some.1 hfile
    obtain ⟨members', hparse', hrange', _⟩ := codec.unmarshalMap_ok_some.1 hfile'
    have ha : IsReport codec a := ⟨members, hparse, hrange⟩
    have hb : IsReport codec b := ⟨members', hparse', hrange'⟩
    have hvalid : nodeReportValid codec (.ok a) = true ↔ nodeReportValid codec (.ok b) = true := by
      rw [nodeReportValid_iff ha, nodeReportValid_iff hb, h.length]
    constructor
    · intro hmasks
      exact ⟨hmasks.readValid, hmasks.readReshape, hvalid.1 hmasks.valid, hb, hmasks.write⟩
    · intro hmasks
      exact ⟨hmasks.readValid, hmasks.readReshape, hvalid.2 hmasks.valid, ha, hmasks.write⟩
  · constructor
    · intro hmasks
      exact absurd hmasks.report hnot
    · intro hmasks
      exact absurd hmasks.report hnot'

theorem processReport_seen_iff (h : ContentsAgree codec a b) :
    (processReport codec r pid endpoint outPath a).seen =
        (processReport codec r pid endpoint outPath b).seen ↔ a = b ∨ Masks codec r a := by
  constructor
  · intro hseen
    by_cases ha : Masks codec r a
    · exact .inr ha
    · rw [processReport_raw ha, processReport_raw ((Masks.congr h).not.1 ha)] at hseen
      exact .inl (Option.some.inj (Prod.mk.inj hseen).1)
  · rintro (rfl | ha)
    · rfl
    · exact processReport_masked ha ((Masks.congr h).1 ha) h

/-- The report gets to the capture directory as a whole. -/
inductive Moved (r : SignalReplies) (src dst : Path) : Prop
  | inPlace : src = dst → Moved r src dst
  | renamed : r.rename = true → Moved r src dst
  | copied : r.readReport = none → r.copy = none → Moved r src dst

/-- The ways in which secrets stay out of the capture directory: the reports do not
differ in any, nothing of them gets there that tells, or they are masked there. -/
inductive Conceals (codec : Codec) (r : SignalReplies) (outPath : Path) (a b : Bytes) : Prop
  | same : a = b → Conceals codec r outPath a b
  | notCaptured (err : String) : r.capture = .error err → Conceals codec r outPath a b
  | notMoved (path : Path) : r.capture = .ok path → ¬ Moved r path outPath →
      (∀ n err, r.readReport = none → r.copy = some (.part n err) → a.take n = b.take n) →
      Conceals codec r outPath a b
  | masked (path : Path) : r.capture = .ok path → Moved r path outPath → Masks codec r a →
      Conceals codec r outPath a b

theorem nodeMoveFile_of_moved {src dst : Path} (h : Moved r src dst) (report : Bytes) :
    nodeMoveFile r src dst report old = (none, some report) := by
  unfold nodeMoveFile
  cases h with
  | inPlace hsame => rw [if_pos hsame]
  | renamed hrename => simp [hrename]
  | copied hread hcopy => simp [hread, hcopy]

theorem nodeMoveFile_of_not_moved (old : Option Bytes) {src dst : Path} (h : ¬ Moved r src dst)
    (report : Bytes) :
    (∃ err, r.readReport = some err ∧ nodeMoveFile r src dst report old = (some err, old)) ∨
      ∃ fault, r.readReport = none ∧ r.copy = some fault ∧ nodeMoveFile r src dst report old =
        (some fault.err, fault.left old fun n => some (report.take n)) := by
  have hne : src ≠ dst := fun hsame => h (.inPlace hsame)
  have hrename : r.rename = false := by
    apply eq_false_of_ne_true
    intro hrename
    exact h (.renamed hrename)
  unfold nodeMoveFile
  rw [if_neg hne, hrename]
  cases hread : r.readReport with
  | some err => exact .inl ⟨err, rfl, rfl⟩
  | none =>
    cases hcopy : r.copy with
    | none => exact absurd (Moved.copied hread hcopy) h
    | some fault => exact .inr ⟨fault, rfl, rfl, rfl⟩

theorem not_moved_seen_iff {path : Path} (h : ¬ Moved r path outPath) :
    (nodeMoveFile r path outPath a old).2 = (nodeMoveFile r path outPath b old).2 ↔
      ∀ n err, r.readReport = none → r.copy = some (.part n err) → a.take n = b.take n := by
  rcases nodeMoveFile_of_not_moved old h a with ⟨err, hread, ha⟩ | ⟨fault, hread, hcopy, ha⟩
  · rcases nodeMoveFile_of_not_moved old h b with ⟨err', _, hb⟩ | ⟨fault', hread', _⟩
    · rw [ha, hb]
      simp [hread]
    · rw [hread] at hread'
      cases hread'
  · rcases nodeMoveFile_of_not_moved old h b with ⟨err', hread', _⟩ | ⟨fault', _, hcopy', hb⟩
    · rw [hread] at hread'
      cases hread'
    · rw [hcopy] at hcopy'
      obtain rfl := Option.some.inj hcopy'
      rw [ha, hb]
      cases fault with
      | untouched err => simp [hcopy, WriteFault.left]
      | part n err => simp [hread, hcopy, WriteFault.left]

theorem runSignal_of_not_moved {path : Path} (hcapture : r.capture = .ok path)
    (h : ¬ Moved r path outPath) :
    (runSignal codec r pid endpoint outPath a old).seen =
      ((nodeMoveFile r path outPath a old).2, none) := by
  unfold runSignal
  rw [hcapture]
  rcases nodeMoveFile_of_not_moved old h a with ⟨err, _, ha⟩ | ⟨fault, _, _, ha⟩
  · simp only [ha]
    rfl
  · simp only [ha]
    rfl

theorem runSignal_of_moved {path : Path} (hcapture : r.capture = .ok path)
    (h : Moved r path outPath) :
    runSignal codec r pid endpoint outPath a old =
      processReport codec r pid endpoint outPath a := by
  unfold runSignal
  rw [hcapture]
  simp only [nodeMoveFile_of_moved h]

/-- Two reports that differ in secrets only leave the same file in the capture
directory and the same upload if and only if they are the same, do not get there
or are masked there. -/
theorem runSignal_same_iff (codec : Codec) (r : SignalReplies) (pid : Int)
    (endpoint outPath : String) (a b : Bytes) (old : Option Bytes)
    (h : ContentsAgree codec a b) :
    (runSignal codec r pid endpoint outPath a old).seen =
        (runSignal codec r pid endpoint outPath b old).seen ↔ Conceals codec r outPath a b := by
  cases hcapture : r.capture with
  | error err =>
    apply iff_of_true _ (.notCaptured err hcapture)
    unfold runSignal
    rw [hcapture]
  | ok path =>
    by_cases hmoved : Moved r path outPath
    · rw [runSignal_of_moved hcapture hmoved, runSignal_of_moved hcapture hmoved,
        processReport_seen_iff h]
      constructor
      · rintro (hsame | hmasks)
        · exact .same hsame
        · exact .masked path hcapture hmoved hmasks
      · intro hconceals
        cases hconceals with
        | same hsame => exact .inl hsame
        | notCaptured err herr =>
          rw [hcapture] at herr
          cases herr
        | notMoved path' hpath hnot _ =>
          rw [hcapture] at hpath
          obtain ⟨rfl⟩ := hpath
          exact absurd hmoved hnot
        | masked path' _ _ hmasks => exact .inr hmasks
    · rw [runSignal_of_not_moved hcapture hmoved, runSignal_of_not_moved hcapture hmoved]
      simp only [Prod.mk.injEq, and_true]
      rw [not_moved_seen_iff hmoved]
      constructor
      · exact .notMoved path hcapture hmoved
      · intro hconceals
        cases hconceals with
        | same hsame => exact fun _ _ _ _ => congrArg _ hsame
        | notCaptured err herr =>
          rw [hcapture] at herr
          cases herr
        | notMoved path' hpath _ hpart => exact hpart
        | masked path' hpath hmoved' _ =>
          rw [hcapture] at hpath
          obtain ⟨rfl⟩ := hpath
          exact absurd hmoved' hmoved

end Runs

def tokenDocument (value : String) : Bytes :=
  ascii "\x7b\"environmentVariables\":\x7b\"API_TOKEN\":\"" ++ ascii value ++ ascii "\"\x7d\x7d"

def tokenReport (value : String) : List (Text × Json) :=
  [(jsonText "environmentVariables", .obj [(jsonText "API_TOKEN", .str (jsonText value))])]

def smoothReplies : SignalReplies where
  capture := .ok "/srv/app/report.json"
  rename := true
  readReport := none
  copy := none
  readValid := none
  readReshape := none
  write := none
  openFile := none
  cfg := ⟨false, ""⟩
  net := ⟨.ok (), .ok (), .ok (), .ok (), .ok 200, .ok ""⟩
  sent := 1000

/-- A codec reads the two documents, and not what is left of them without the last
byte. -/
structure ReadsTokens (codec : Codec) : Prop where
  first : codec.parse (tokenDocument "hunter2") = some (.obj (tokenReport "hunter2"))
  second : codec.parse (tokenDocument "hunter3") = some (.obj (tokenReport "hunter3"))
  firstCut : codec.parse ((tokenDocument "hunter2").take 47) = none
  secondCut : codec.parse ((tokenDocument "hunter3").take 47) = none

theorem documentsAgree_tokens {codec : Codec} (h : ReadsTokens codec) :
    DocumentsAgree codec (tokenDocument "hunter2") (tokenDocument "hunter3") := by
  have hvalues : ValuesAgree (jsonText "API_TOKEN") (.str (jsonText "hunter2"))
      (.str (jsonText "hunter3")) :=
    .inr ⟨by decide, _, _, rfl, rfl, by decide⟩
  have henv : EnvironmentsAgree (.obj [(jsonText "API_TOKEN", .str (jsonText "hunter2"))])
      (.obj [(jsonText "API_TOKEN", .str (jsonText "hunter3"))]) :=
    ⟨_, _, rfl, rfl, .cons ⟨rfl, hvalues⟩ .nil⟩
  exact ⟨by decide, _, _, h.first, h.second, .cons ⟨rfl, .inr ⟨rfl, henv⟩⟩ .nil⟩

theorem exists_readsTokens : ∃ codec : Codec, ReadsTokens codec := by
  obtain ⟨codec, hcodec⟩ := exists_codec fun data =>
    if data = tokenDocument "hunter2" then some (.obj (tokenReport "hunter2"))
    else if data = tokenDocument "hunter3" then some (.obj (tokenReport "hunter3")) else none
  refine ⟨codec, ?_, ?_, ?_, ?_⟩
  · rw [hcodec _ (by decide), if_pos rfl]
  · rw [hcodec _ (by decide), if_neg (by decide), if_pos rfl]
  · rw [hcodec _ (by decide), if_neg (by decide), if_neg (by decide)]
  · rw [hcodec _ (by decide), if_neg (by decide), if_neg (by decide)]

/-- Complete reports with two values of the token are seen to be the same. -/
theorem complete_tokens_same :
    ∃ codec : Codec, ReadsTokens codec ∧
      (runSignal codec smoothReplies 42 "" "/out/processoverview.out"
          (tokenDocument "hunter2") none).seen =
        (runSignal codec smoothReplies 42 "" "/out/processoverview.out"
          (tokenDocument "hunter3") none).seen := by
  obtain ⟨codec, h⟩ := exists_readsTokens
  refine ⟨codec, h, ?_⟩
  have hreport : IsReport codec (tokenDocument "hunter2") := ⟨_, h.first, rfl⟩
  have hmasks : Masks codec smoothReplies (tokenDocument "hunter2") :=
    ⟨rfl, rfl, (nodeReportValid_iff hreport).2 (by decide), hreport, fun _ => nofun⟩
  exact (runSignal_same_iff codec smoothReplies 42 "" _ _ _ none
    (.complete (documentsAgree_tokens h))).2 (.masked _ rfl (.renamed rfl) hmasks)

/-- The values of the token are in what is left of reports that were cut off. -/
theorem truncated_report_exposed :
    (∀ codec : Codec, ReadsTokens codec →
      ContentsAgree codec ((tokenDocument "hunter2").take 47) ((tokenDocument "hunter3").take 47) ∧
      (runSignal codec smoothReplies 42 "" "/out/processoverview.out"
          ((tokenDocument "hunter2").take 47) none).file ≠
        (runSignal codec smoothReplies 42 "" "/out/processoverview.out"
          ((tokenDocument "hunter3").take 47) none).file) ∧
      ∃ codec : Codec, ReadsTokens codec := by
  constructor
  · intro codec h
    refine ⟨.truncated _ _ 47 (documentsAgree_tokens h) rfl rfl h.firstCut h.secondCut, ?_⟩
    have hmoved : Moved smoothReplies "/srv/app/report.json" "/out/processoverview.out" :=
      .renamed rfl
    have hraw : ∀ value, codec.parse ((tokenDocument value).take 47) = none →
        (runSignal codec smoothReplies 42 "" "/out/processoverview.out"
          ((tokenDocument value).take 47) none).file = some ((tokenDocument value).take 47) := by
      intro value hcut
      rw [runSignal_of_moved rfl hmoved]
      have hnot : ¬ Masks codec smoothReplies ((tokenDocument value).take 47) := by
        intro hmasks
        obtain ⟨report, hparse, _⟩ := hmasks.report
        rw [hcut] at hparse
        cases hparse
      exact (Prod.mk.inj (processReport_raw hnot)).1
    rw [hraw _ h.firstCut, hraw _ h.secondCut]
    decide
  · exact exists_readsTokens

end YcAgent.Capture
