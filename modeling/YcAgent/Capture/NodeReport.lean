import Mathlib.Data.List.Infix
import YcAgent.Capture.Post
import YcAgent.Go.JsonCodec
import YcAgent.Go.Strings

/-!
What the signal mode makes of a Diagnostic Report: the document is decoded, its
call stack lifted out, its heavy members dropped and sensitive values of its
environment masked, and the file is overwritten with the encoding of what is
left.
-/

namespace YcAgent.Capture

open Go Go.Json

def jsonText (s : String) : Text := s.toList.map some

/-- Characters that the flag `(?i)` of the pattern does not tell apart. -/
def foldCase (c : Char) : Char :=
  if c = 'ſ' then 'S' else if c = Char.ofNat 0x212A then 'K' else c.toUpper

def sensitiveWords : List String :=
  ["PASSWORD", "PASSWD", "PWD", "PASS", "SECRET", "TOKEN", "CREDENTIAL", "PRIVATE", "_KEY",
    "APIKEY", "AUTH", "CERT"]

def sensitiveEnvName (name : Text) : Bool :=
  let folded := name.map (Option.map foldCase)
  sensitiveWords.any (fun word => decide (jsonText word <:+: folded)) || folded == jsonText "KEY"

def maskSensitiveValue (name : Text) : Json → Json
  | .str s =>
    if sensitiveEnvName name then .str (List.replicate (byteLength s) (some '*')) else .str s
  | value => value

def maskSensitiveEnvVars (envVars : List (Text × Json)) : List (Text × Json) :=
  envVars.map fun m => (m.1, maskSensitiveValue m.1 m.2)

/-- The array `javascriptStack.stack` of a report, or null. -/
def callStack (report : List (Text × Json)) : Json :=
  match lastMember (jsonText "javascriptStack") report with
  | some (.obj js) =>
    match lastMember (jsonText "stack") js with
    | some (.arr stack) => .arr stack
    | _ => .null
  | _ => .null

def reshapedReport (report : List (Text × Json)) : List (Text × Json) :=
  let report := setMember (jsonText "callStack") (callStack report) report
  let report := deleteMember (jsonText "javascriptStack") report
  let report := deleteMember (jsonText "nativeStack") report
  let report := deleteMember (jsonText "sharedObjects") report
  let report := deleteMember (jsonText "workers") report
  match lastMember (jsonText "environmentVariables") report with
  | some (.obj envVars) =>
    setMember (jsonText "environmentVariables") (.obj (maskSensitiveEnvVars envVars)) report
  | _ => report

inductive Reshape where
  | ok
  | err (jsonText : String)
  | panics
  deriving DecidableEq

/-- What the file system answers. A write that fails leaves some bytes in the
file. -/
structure ReshapeReplies where
  readFile : Option IOError
  writeFile : Bytes → Option (IOError × Bytes)

/-- Returns with what is in the file afterwards. The decoded report can always be
encoded, and the map of a report that is null has no entries to assign to. -/
def reshapeNodeReportToProcessOverview (codec : Codec) (file : Bytes) (fs : ReshapeReplies) :
    Reshape × Bytes :=
  match fs.readFile with
  | some err => (.err err, file)
  | none =>
  match codec.unmarshalMap file with
  | .error err => (.err err, file)
  | .ok none => (.panics, file)
  | .ok (some report) =>
  let out := codec.print (.obj (reshapedReport report))
  match fs.writeFile out with
  | some (err, left) => (.err err, left)
  | none => (.ok, out)

def nodeReportValid (codec : Codec) : Except IOError Bytes → Bool
  | .error _ => false
  | .ok data => if data.length = 0 then false else codec.valid data

def droppedMembers : List Text :=
  [jsonText "javascriptStack", jsonText "nativeStack", jsonText "sharedObjects", jsonText "workers"]

def touchedMembers : List Text :=
  droppedMembers ++ [jsonText "callStack", jsonText "environmentVariables"]

def maskEnvironment : Json → Json
  | .obj envVars => .obj (maskSensitiveEnvVars envVars)
  | j => j

theorem lastMember_reshapedReport (k : Text) (report : List (Text × Json)) :
    lastMember k (reshapedReport report) =
      if k = jsonText "callStack" then some (callStack report)
      else if k ∈ droppedMembers then none
      else if k = jsonText "environmentVariables" then (lastMember k report).map maskEnvironment
      else lastMember k report := by
  have henv : jsonText "environmentVariables" ≠ jsonText "callStack" ∧
      jsonText "environmentVariables" ∉ droppedMembers := by decide
  have hcall : jsonText "callStack" ∉ droppedMembers := by decide
  -- the report before its environment is masked
  have hbefore : ∀ k, lastMember k (deleteMember (jsonText "workers") (deleteMember
      (jsonText "sharedObjects") (deleteMember (jsonText "nativeStack") (deleteMember
      (jsonText "javascriptStack")
      (setMember (jsonText "callStack") (callStack report) report))))) =
      if k ∈ droppedMembers then none
      else if k = jsonText "callStack" then some (callStack report) else lastMember k report := by
    intro k
    simp only [lastMember_deleteMember, lastMember_setMember, droppedMembers, List.mem_cons,
      List.not_mem_nil, or_false]
    split_ifs <;> simp_all
  unfold reshapedReport
  simp only [hbefore, if_neg henv.1, if_neg henv.2]
  by_cases hk : k = jsonText "callStack"
  · subst hk
    rw [if_pos rfl]
    split
    · rw [lastMember_setMember, hbefore, if_neg henv.1.symm, if_neg hcall, if_pos rfl]
    · rw [hbefore, if_neg hcall, if_pos rfl]
  · rw [if_neg hk]
    by_cases hk' : k = jsonText "environmentVariables"
    · subst hk'
      split
      case h_1 envVars hmatch =>
        rw [lastMember_setMember, if_pos rfl, if_neg henv.2, if_pos rfl, hmatch]
        rfl
      case h_2 hmatch =>
        rw [hbefore, if_neg henv.2, if_neg hk, if_neg henv.2, if_pos rfl]
        cases hlast : lastMember (jsonText "environmentVariables") report with
        | none => rfl
        | some e =>
          cases e with
          | obj envVars => exact absurd hlast (hmatch envVars)
          | _ => rfl
    · rw [if_neg hk']
      split
      · rw [lastMember_setMember, if_neg hk', hbefore, if_neg hk]
      · rw [hbefore, if_neg hk]

theorem clean_text (s : String) : clean (jsonText s) = jsonText s := by
  simp [clean, jsonText]

/-- A text without the replacement character is decoded from itself alone. -/
theorem clean_eq_iff {k k' : Text} (h : some replacement ∉ k) (hk : clean k = k) :
    clean k' = k ↔ k' = k := by
  constructor
  · rintro rfl
    have hsome : ∀ c ∈ k', some (c.getD replacement) = id c := by
      intro c hc
      cases c with
      | some c => rfl
      | none => exact absurd (List.mem_map.2 ⟨none, hc, rfl⟩) h
    exact ((List.map_congr_left hsome).trans (List.map_id k')).symm
  · rintro rfl
    exact hk

theorem lastMember_decode {k : Text} (h : some replacement ∉ k) (hk : clean k = k)
    (f : ℚ → ℚ) (members : List (Text × Json)) :
    lastMember k (recodeMembers f clean members) = (lastMember k members).map (recode f clean) :=
  lastMember_recode fun _ _ => clean_eq_iff h hk

section Values

variable {f : ℚ → ℚ}

theorem stable_maskSensitiveValue {name : Text} {j : Json} (h : Stable f clean j) :
    Stable f clean (maskSensitiveValue name j) := by
  cases j with
  | str s =>
    rw [maskSensitiveValue]
    split
    · apply stable_str
      simp [clean]
    · exact h
  | _ => exact h

theorem stable_maskEnvironment {j : Json} (h : Stable f clean j) :
    Stable f clean (maskEnvironment j) := by
  cases j with
  | obj envVars =>
    apply stable_of_children
    · intro m hm
      obtain ⟨m', hm', rfl⟩ := List.mem_map.1 hm
      exact h.kept m' hm'
    · intro s c hc
      cases s with
      | index i => cases hc
      | key k =>
        change lastMember k (maskSensitiveEnvVars envVars) = some c at hc
        rw [maskSensitiveEnvVars, lastMember_map maskSensitiveValue] at hc
        obtain ⟨d, hd, rfl⟩ := Option.map_eq_some_iff.1 hc
        exact stable_maskSensitiveValue (h.child (s := .key k) hd)
  | _ => exact h

theorem stable_callStack {report : List (Text × Json)} (h : Stable f clean (.obj report)) :
    Stable f clean (callStack report) := by
  unfold callStack
  split
  case h_1 js hjs =>
    split
    case h_1 stack hstack =>
      have hobj : Stable f clean (.obj js) := h.child (s := .key (jsonText "javascriptStack")) hjs
      exact hobj.child (s := .key (jsonText "stack")) hstack
    case h_2 => exact stable_null
  case h_2 => exact stable_null

theorem exists_of_mem_reshapedReport {report : List (Text × Json)} {m : Text × Json}
    (h : m ∈ reshapedReport report) :
    (∃ m' ∈ report, m'.1 = m.1) ∨ m.1 = jsonText "callStack" ∨
      m.1 = jsonText "environmentVariables" := by
  obtain ⟨c, hc⟩ := lastMember_isSome.2 ⟨m, h, rfl⟩
  rw [lastMember_reshapedReport] at hc
  split_ifs at hc with hcall hdrop henv
  · exact .inr (.inl hcall)
  · exact .inr (.inr henv)
  · exact .inl (lastMember_isSome.1 ⟨c, hc⟩)

theorem stable_reshapedReport {report : List (Text × Json)} (h : Stable f clean (.obj report)) :
    Stable f clean (.obj (reshapedReport report)) := by
  apply stable_of_children
  · intro m hm
    rcases exists_of_mem_reshapedReport hm with ⟨m', hm', hname⟩ | hname | hname
    · rw [← hname]
      exact h.kept m' hm'
    · rw [hname, clean_text]
    · rw [hname, clean_text]
  · intro s c hc
    cases s with
    | index i => cases hc
    | key k =>
      change lastMember k (reshapedReport report) = some c at hc
      rw [lastMember_reshapedReport] at hc
      split_ifs at hc with hcall hdrop henv
      · obtain rfl := Option.some.inj hc
        exact stable_callStack h
      · obtain ⟨d, hd, rfl⟩ := Option.map_eq_some_iff.1 hc
        exact stable_maskEnvironment (h.child (s := .key k) hd)
      · exact h.child (s := .key k) hc

end Values

def stackOf (report : Json) : Json :=
  match report.follow [.key (jsonText "javascriptStack"), .key (jsonText "stack")] with
  | some (.arr stack) => .arr stack
  | _ => .null

def Hidden : Step → Json → Prop
  | .key name, .str _ => sensitiveEnvName name = true
  | _, _ => False

/-- Two environments that differ only in the strings under sensitive names. -/
def SameEnvironment : Option Json → Option Json → Prop
  | none, none => True
  | some a, some b => a.leaf = b.leaf ∧ ∀ s,
      (∀ c, b.child s = some c → Hidden s c → ∃ t, a.look [s] = some (.str t)) ∧
      ((∀ c, b.child s = some c → ¬ Hidden s c) → SameOpt (a.child s) (b.child s))
  | _, _ => False

structure Overview (report overview : Json) : Prop where
  others : ∀ k, k ∉ touchedMembers →
    SameOpt (overview.child (.key k)) (report.child (.key k))
  dropped : ∀ k ∈ droppedMembers, overview.child (.key k) = none
  callStack : SameOpt (overview.child (.key (jsonText "callStack"))) (some (stackOf report))
  environment : SameEnvironment (overview.child (.key (jsonText "environmentVariables")))
    (report.child (.key (jsonText "environmentVariables")))

/-- Whatever is found in a value comes out of the codec as it went in: numbers are
written with the fewest digits of their nearest numbers of 64 bits, and texts and
names consist of characters. -/
def Keeps (codec : Codec) (j : Json) : Prop := j.Stable codec.reprint clean

/-- The codec keeps the parts of a report that reshaping is to leave alone. -/
structure KeepsReport (codec : Codec) (report : Json) : Prop where
  names : NamesKept clean report
  others : ∀ k c, k ∉ touchedMembers → report.child (.key k) = some c → Keeps codec c
  callStack : Keeps codec (stackOf report)
  environment : ∀ env, report.child (.key (jsonText "environmentVariables")) = some env →
    Kept codec.reprint clean env ∧
      ∀ s c, env.child s = some c → ¬ Hidden s c → Keeps codec c

section Frame

variable (codec : Codec)

theorem same_reprint_iff {j : Json} : Same (j.recode codec.reprint clean) j ↔ Keeps codec j :=
  same_recode_iff clean_clean

/-- The members that are found again have names that consist of characters. -/
theorem clean_of_lastMember {f : ℚ → ℚ} {k : Text} {members : List (Text × Json)} {c : Json}
    (h : lastMember k (recodeMembers f clean members) = some c) : clean k = k := by
  obtain ⟨m, _, hname, _⟩ := exists_name_of_lastMember_recode h
  rw [← hname]
  exact clean_clean m.1

theorem others_iff (members : List (Text × Json)) :
    (∀ k, k ∉ touchedMembers → SameOpt (lastMember k (recodeMembers codec.reprint clean members))
        (lastMember k members)) ↔
      (∀ m ∈ members, clean m.1 = m.1) ∧
        ∀ k c, k ∉ touchedMembers → lastMember k members = some c → Keeps codec c := by
  have hfound : (∀ m ∈ members, clean m.1 = m.1) → ∀ k,
      lastMember k (recodeMembers codec.reprint clean members) =
        (lastMember k members).map (recode codec.reprint clean) := by
    intro hnames k
    apply lastMember_recode
    intro m hm
    rw [hnames m hm]
  constructor
  · intro h
    have hnames : ∀ m ∈ members, clean m.1 = m.1 := by
      intro m hm
      by_cases htouched : m.1 ∈ touchedMembers
      · have hall : ∀ k ∈ touchedMembers, clean k = k := by decide
        exact hall m.1 htouched
      · obtain ⟨c, hc⟩ := lastMember_isSome.2 ⟨m, hm, rfl⟩
        have hsame := h m.1 htouched
        rw [hc] at hsame
        obtain ⟨c', hc', _⟩ := sameOpt_some hsame
        exact clean_of_lastMember hc'
    refine ⟨hnames, fun k c hk hc => ?_⟩
    have hsame := h k hk
    rw [hfound hnames, hc] at hsame
    exact (same_reprint_iff codec).1 hsame
  · rintro ⟨hnames, hkeeps⟩ k hk
    rw [hfound hnames]
    cases hc : lastMember k members with
    | none => exact True.intro
    | some c => exact (same_reprint_iff codec).2 (hkeeps k c hk hc)

theorem callStack_decode (members : List (Text × Json)) (f : ℚ → ℚ) :
    callStack (recodeMembers f clean members) = (stackOf (.obj members)).recode f clean := by
  have hjs :=
    lastMember_decode (k := jsonText "javascriptStack") (by decide) (clean_text _) f members
  have hstack := lastMember_decode (k := jsonText "stack") (by decide) (clean_text _) f
  unfold callStack stackOf
  rw [hjs, Json.follow, child]
  cases hmember : lastMember (jsonText "javascriptStack") members with
  | none => rfl
  | some js =>
    cases js with
    | obj js =>
      simp only [Option.map_some, recode, hstack, Option.bind_some, Json.follow, child]
      cases lastMember (jsonText "stack") js with
      | none => rfl
      | some stack => cases stack <;> rfl
    | _ => rfl

def maskStep : Step → Json → Json
  | .key name, j => maskSensitiveValue name j
  | .index _, j => j

theorem child_maskEnvironment (e : Json) (s : Step) :
    (maskEnvironment e).child s = (e.child s).map (maskStep s) := by
  cases e with
  | obj envVars =>
    cases s with
    | index i => rfl
    | key k => exact lastMember_map maskSensitiveValue k envVars
  | arr elems =>
    cases s with
    | key k => rfl
    | index i => exact Option.map_id'.symm
  | _ => cases s <;> rfl

theorem maskStep_decode {s : Step} {c : Json} (h : ¬ Hidden s c) :
    maskStep s (codec.decode c) = codec.decode c := by
  cases s with
  | index i => rfl
  | key name =>
    cases c with
    | str t => exact if_neg h
    | _ => rfl

theorem maskStep_hidden {s : Step} {c : Json} (h : Hidden s c) :
    ∃ t, maskStep s (codec.decode c) = .str t := by
  cases s with
  | index i => cases h
  | key name =>
    cases c with
    | str t => exact ⟨_, if_pos h⟩
    | _ => cases h

def overviewEnvironment (e : Json) : Json :=
  (maskEnvironment (codec.decode e)).recode codec.printing.shortest id

theorem child_overviewEnvironment (e : Json) (s : Step) :
    (overviewEnvironment codec e).child s = ((codec.decode e).child s).map fun c =>
      (maskStep s c).recode codec.printing.shortest id := by
  unfold overviewEnvironment
  rw [child_recode (namesKept_id _), child_maskEnvironment, Option.map_map]
  rfl

theorem leaf_overviewEnvironment (e : Json) :
    (overviewEnvironment codec e).leaf = (e.recode codec.reprint clean).leaf := by
  cases e with
  | arr elems =>
    simp [overviewEnvironment, maskEnvironment, Codec.decode, recode, leaf, recodeElems_eq]
  | _ => rfl

private theorem not_hidden_of_child {e c : Json} {s : Step} (hc : e.child s = some c)
    (h : ¬ Hidden s c) : ∀ c', e.child s = some c' → ¬ Hidden s c' := by
  intro c' hc'
  rw [hc] at hc'
  obtain rfl := Option.some.inj hc'
  exact h

theorem child_of_sameEnvironment {a e c : Json} {s : Step}
    (h : SameEnvironment (some a) (some e)) (hc : e.child s = some c) :
    ∃ c', a.child s = some c' := by
  obtain ⟨_, hchild⟩ := h
  by_cases hhidden : Hidden s c
  · obtain ⟨t, ht⟩ := (hchild s).1 c hc hhidden
    rw [look_cons] at ht
    obtain ⟨c', hc', _⟩ := Option.bind_eq_some_iff.1 ht
    exact ⟨c', hc'⟩
  · have hsame := (hchild s).2 (not_hidden_of_child hc hhidden)
    rw [hc] at hsame
    obtain ⟨c', hc', _⟩ := sameOpt_some hsame
    exact ⟨c', hc'⟩

theorem namesKept_of_sameEnvironment {e : Json}
    (h : SameEnvironment (some (overviewEnvironment codec e)) (some e)) : NamesKept clean e := by
  cases e with
  | obj members =>
    intro m hm
    obtain ⟨c, hc⟩ := lastMember_isSome.2 ⟨m, hm, rfl⟩
    obtain ⟨c', hc'⟩ := child_of_sameEnvironment (s := .key m.1) h hc
    rw [child_overviewEnvironment] at hc'
    obtain ⟨d, hd, _⟩ := Option.map_eq_some_iff.1 hc'
    exact clean_of_lastMember hd
  | _ => exact True.intro

theorem child_overviewEnvironment_of_namesKept {e : Json} (h : NamesKept clean e) (s : Step) :
    (overviewEnvironment codec e).child s = (e.child s).map fun c =>
      (maskStep s (codec.decode c)).recode codec.printing.shortest id := by
  rw [child_overviewEnvironment, Codec.decode, child_recode h, Option.map_map]
  rfl

theorem environment_iff (e : Json) :
    SameEnvironment (some (overviewEnvironment codec e)) (some e) ↔
      Kept codec.reprint clean e ∧
        ∀ s c, e.child s = some c → ¬ Hidden s c → Keeps codec c := by
  constructor
  · intro h
    have hnames := namesKept_of_sameEnvironment codec h
    obtain ⟨hleaf, hchild⟩ := h
    constructor
    · rw [leaf_overviewEnvironment] at hleaf
      apply (leaf_recode_eq_iff ?_).1 hleaf
      rintro members rfl
      exact hnames
    · intro s c hc hhidden
      have hsame := (hchild s).2 (not_hidden_of_child hc hhidden)
      rw [child_overviewEnvironment_of_namesKept codec hnames, hc, Option.map_some,
        maskStep_decode codec hhidden, codec.recode_decode] at hsame
      exact (same_reprint_iff codec).1 hsame
  · rintro ⟨hkept, hkeeps⟩
    have hfound := child_overviewEnvironment_of_namesKept codec (.of_kept hkept)
    refine ⟨?_, fun s => ⟨?_, ?_⟩⟩
    · rw [leaf_overviewEnvironment]
      exact (leaf_recode_eq_iff fun _ _ => hkept).2 hkept
    · intro c hc hhidden
      obtain ⟨t, ht⟩ := maskStep_hidden codec hhidden
      refine ⟨t, ?_⟩
      rw [look_cons, hfound, hc, Option.map_some, ht]
      rfl
    · intro hvisible
      rw [hfound]
      cases hc : e.child s with
      | none => exact True.intro
      | some c =>
        rw [Option.map_some, maskStep_decode codec (hvisible c hc), codec.recode_decode]
        exact (same_reprint_iff codec).2 (hkeeps s c hc (hvisible c hc))

theorem child_overview {members : List (Text × Json)} {overview : Json}
    (h : overview.Same ((Json.obj (reshapedReport (recodeMembers codec.rounding.round clean
      members))).recode codec.printing.shortest id)) (k : Text) :
    SameOpt (overview.child (.key k))
      (if k = jsonText "callStack" then some ((stackOf (.obj members)).recode codec.reprint clean)
       else if k ∈ droppedMembers then none
       else if k = jsonText "environmentVariables" then
         (lastMember k members).map (overviewEnvironment codec)
       else lastMember k (recodeMembers codec.reprint clean members)) := by
  have hchild := (same_iff.1 h).2 (.key k)
  rw [child_recode (namesKept_id _), child, lastMember_reshapedReport] at hchild
  split_ifs at hchild ⊢ with hcall hdrop henv
  · rw [callStack_decode, Option.map_some, recode_recode] at hchild
    exact hchild
  · exact hchild
  · have hnames := lastMember_decode (k := k) (by rw [henv]; decide) (by rw [henv, clean_text])
      codec.rounding.round members
    rw [hnames, Option.map_map, Option.map_map] at hchild
    exact hchild
  · have hrecode : recodeMembers codec.reprint clean members =
        recodeMembers codec.printing.shortest id
          (recodeMembers codec.rounding.round clean members) :=
      (recodeMembers_recodeMembers codec.rounding.round clean codec.printing.shortest id
        members).symm
    rw [hrecode, lastMember_recode fun _ _ => Iff.rfl]
    exact hchild

theorem SameEnvironment.congr {a b c : Option Json} (h : SameOpt a b) :
    SameEnvironment a c ↔ SameEnvironment b c := by
  cases a with
  | none =>
    cases b with
    | none => exact Iff.rfl
    | some b => cases h
  | some a =>
    cases b with
    | none => cases h
    | some b =>
      cases c with
      | none => exact Iff.rfl
      | some c =>
        obtain ⟨hleaf, hchild⟩ := same_iff.1 h
        have hlook : ∀ s, a.look [s] = b.look [s] := fun s => h [s]
        have hopt : ∀ s d, SameOpt (a.child s) d ↔ SameOpt (b.child s) d :=
          fun s _ => (hchild s).congr_left
        simp only [SameEnvironment, hleaf, hlook, hopt]

/-- The overview of a report is as it should be if and only if the codec keeps the
parts that are to be left alone. -/
theorem overview_iff {members : List (Text × Json)} {overview : Json}
    (h : overview.Same ((Json.obj (reshapedReport (recodeMembers codec.rounding.round clean
      members))).recode codec.printing.shortest id)) :
    Overview (.obj members) overview ↔ KeepsReport codec (.obj members) := by
  have hfound := child_overview codec h
  have hcall := hfound (jsonText "callStack")
  rw [if_pos rfl] at hcall
  have henv := hfound (jsonText "environmentVariables")
  rw [if_neg (by decide), if_neg (by decide), if_pos rfl] at henv
  have hothers : ∀ k, k ∉ touchedMembers → SameOpt (overview.child (.key k))
      (lastMember k (recodeMembers codec.reprint clean members)) := by
    intro k hk
    simp only [touchedMembers, List.mem_append, List.mem_cons, List.not_mem_nil, or_false,
      not_or] at hk
    have hk' := hfound k
    rwa [if_neg hk.2.1, if_neg hk.1, if_neg hk.2.2] at hk'
  have hother_iff := others_iff codec members
  have henv_iff : SameEnvironment (overview.child (.key (jsonText "environmentVariables")))
      (lastMember (jsonText "environmentVariables") members) ↔
      ∀ env, lastMember (jsonText "environmentVariables") members = some env →
        Kept codec.reprint clean env ∧
          ∀ s c, env.child s = some c → ¬ Hidden s c → Keeps codec c := by
    rw [SameEnvironment.congr henv]
    cases lastMember (jsonText "environmentVariables") members with
    | none => simp [SameEnvironment]
    | some env => simp [environment_iff codec env]
  constructor
  · rintro ⟨ho, _, hc, he⟩
    have hkept := hother_iff.1 fun k hk => (SameOpt.congr_left (hothers k hk)).1 (ho k hk)
    exact ⟨hkept.1, hkept.2, (same_reprint_iff codec).1 ((SameOpt.congr_left hcall).1 hc),
      henv_iff.1 he⟩
  · rintro ⟨hn, ho, hc, he⟩
    refine ⟨?_, ?_, ?_, henv_iff.2 he⟩
    · intro k hk
      exact (SameOpt.congr_left (hothers k hk)).2 (hother_iff.2 ⟨hn, ho⟩ k hk)
    · intro k hk
      have hne : k ≠ jsonText "callStack" := by
        rintro rfl
        exact absurd hk (by decide)
      have hk' := hfound k
      rw [if_neg hne, if_pos hk] at hk'
      cases hnone : overview.child (.key k) with
      | none => rfl
      | some c =>
        rw [hnone] at hk'
        cases hk'
    · exact (SameOpt.congr_left hcall).2 ((same_reprint_iff codec).2 hc)

end Frame

section Files

variable (codec : Codec)

theorem reshape_eq (file : Bytes) (fs : ReshapeReplies) (hread : fs.readFile = none) :
    reshapeNodeReportToProcessOverview codec file fs =
      match codec.unmarshalMap file with
      | .error err => (.err err, file)
      | .ok none => (.panics, file)
      | .ok (some report) =>
        match fs.writeFile (codec.print (.obj (reshapedReport report))) with
        | some (err, left) => (.err err, left)
        | none => (.ok, codec.print (.obj (reshapedReport report))) := by
  unfold reshapeNodeReportToProcessOverview
  rw [hread]

theorem reshape_ok_iff {file out : Bytes} {fs : ReshapeReplies} :
    reshapeNodeReportToProcessOverview codec file fs = (.ok, out) ↔
      fs.readFile = none ∧ ∃ report, codec.unmarshalMap file = .ok (some report) ∧
        out = codec.print (.obj (reshapedReport report)) ∧ fs.writeFile out = none := by
  cases hread : fs.readFile with
  | some err => simp [reshapeNodeReportToProcessOverview, hread]
  | none =>
    rw [reshape_eq codec file fs hread]
    cases codec.unmarshalMap file with
    | error err => simp
    | ok found =>
      cases found with
      | none => simp
      | some report =>
        simp only [true_and, Except.ok.injEq, Option.some.injEq, exists_eq_left']
        constructor
        · intro hout
          split at hout
          · cases hout
          case h_2 hwrite =>
            obtain rfl := (Prod.mk.inj hout).2
            exact ⟨rfl, hwrite⟩
        · rintro ⟨rfl, hwrite⟩
          rw [hwrite]

theorem overview_of_reshape {file out : Bytes} {fs : ReshapeReplies} {report : List (Text × Json)}
    (hparse : codec.parse file = some (.obj report))
    (hok : reshapeNodeReportToProcessOverview codec file fs = (.ok, out)) :
    ∃ overview, codec.parse out = some overview ∧
      (Overview (.obj report) overview ↔ KeepsReport codec (.obj report)) := by
  obtain ⟨_, members, hmembers, rfl, _⟩ := (reshape_ok_iff codec).1 hok
  obtain ⟨report', hparse', _, rfl⟩ := (codec.unmarshalMap_ok_some).1 hmembers
  rw [hparse] at hparse'
  obtain ⟨rfl⟩ := hparse'
  obtain ⟨overview, hoverview, hsame⟩ := codec.parse_print _
    (stable_reshapedReport (codec.stable_decode (.obj report)))
  exact ⟨overview, hoverview, overview_iff codec hsame⟩

/-- A report that is an object and is reshaped comes out with what is to be left
alone unchanged. -/
def ReshapedAsMeant (file : Bytes) : Prop :=
  ∀ fs report out, codec.parse file = some (.obj report) →
    reshapeNodeReportToProcessOverview codec file fs = (.ok, out) →
    ∃ overview, codec.parse out = some overview ∧ Overview (.obj report) overview

/-- Reshaping leaves alone what it should if and only if the codec keeps it: a
report whose numbers cannot all be decoded is not reshaped at all. -/
theorem reshapedAsMeant_iff (file : Bytes) :
    ReshapedAsMeant codec file ↔
      ∀ report, codec.parse file = some (.obj report) →
        (Json.obj report).allNums inRange = true → KeepsReport codec (.obj report) := by
  constructor
  · intro h report hparse hrange
    have hmembers := codec.unmarshalMap_ok_some.2 ⟨report, hparse, hrange, rfl⟩
    have hok : reshapeNodeReportToProcessOverview codec file ⟨none, fun _ => none⟩ = (.ok, _) :=
      (reshape_ok_iff codec).2 ⟨rfl, _, hmembers, rfl, rfl⟩
    obtain ⟨overview, hoverview, hiff⟩ := overview_of_reshape codec hparse hok
    obtain ⟨overview', hoverview', hmeant⟩ := h _ report _ hparse hok
    rw [hoverview] at hoverview'
    obtain rfl := Option.some.inj hoverview'
    exact hiff.1 hmeant
  · intro h fs report out hparse hok
    obtain ⟨_, members, hmembers, _, _⟩ := (reshape_ok_iff codec).1 hok
    obtain ⟨report', hparse', hrange, _⟩ := codec.unmarshalMap_ok_some.1 hmembers
    rw [hparse] at hparse'
    obtain ⟨rfl⟩ := hparse'
    obtain ⟨overview, hoverview, hiff⟩ := overview_of_reshape codec hparse hok
    exact ⟨overview, hoverview, hiff.2 (h report hparse hrange)⟩

/-! A report with an integer that has no number of 64 bits of its own. -/

def largeHeader : Bytes := ascii "\x7b\"header\":100000000000000001\x7d"

def largeReport : List (Text × Json) := [(jsonText "header", .num (10 ^ 17 + 1))]

private theorem not_digits_large : ¬ Lib.Float64.Digits 1 (10 ^ 17 + 1) := by
  rintro ⟨m, e, hm, heq⟩
  rcases le_or_gt e 0 with he | he
  · have hpow : (10 : ℚ) ^ e ≤ 1 := zpow_le_one_of_nonpos₀ (by norm_num) he
    have hpos : (0 : ℚ) < 10 ^ e := zpow_pos (by norm_num) e
    have hm' : (m : ℚ) ≤ 9 := by
      have hlt := (abs_lt.1 hm).2
      exact_mod_cast Int.lt_add_one_iff.1 hlt
    nlinarith
  · obtain ⟨n, rfl⟩ : ∃ n : ℕ, e = n + 1 := ⟨(e - 1).toNat, by omega⟩
    have hint : (10 : ℤ) ^ 17 + 1 = m * 10 ^ n * 10 := by
      have hcast : ((10 : ℚ) ^ 17 + 1) = ((m * 10 ^ n * 10 : ℤ) : ℚ) := by
        rw [heq, zpow_add_one₀ (by norm_num), zpow_natCast]
        push_cast
        ring
      exact_mod_cast hcast
    omega

private theorem round_large : codec.rounding.round (10 ^ 17 + 1) = 10 ^ 17 := by
  have hrep : Lib.Float64.Representable (10 ^ 17) :=
    ⟨5 ^ 17, 17, by norm_num, by norm_num, by norm_num, by norm_num⟩
  have hle := codec.rounding.le_round hrep (x := 10 ^ 17 + 1) (by norm_num)
  have hnear := codec.rounding.nearest (10 ^ 17 + 1) _ hrep
  obtain ⟨k, hk⟩ := Lib.Float64.Rounding.exists_mul_sixteen
    (codec.rounding.representable (10 ^ 17 + 1)) (by linarith)
  rw [hk] at hle hnear ⊢
  have hupper := (abs_le.1 hnear).2
  norm_num at hupper
  have hlow : (10 : ℤ) ^ 17 ≤ k * 16 := by exact_mod_cast hle
  have hhigh : k * 16 ≤ (10 : ℤ) ^ 17 + 2 := by
    have hcast : (k : ℚ) * 16 ≤ 10 ^ 17 + 2 := by linarith
    exact_mod_cast hcast
  have hk' : k * 16 = (10 : ℤ) ^ 17 := by omega
  exact_mod_cast hk'

/-- The codecs that parse the report, of which there are some, change the
number. -/
theorem large_integer_changed :
    (∀ codec : Codec, codec.parse largeHeader = some (.obj largeReport) →
      ¬ ReshapedAsMeant codec largeHeader) ∧
      ∃ codec : Codec, codec.parse largeHeader = some (.obj largeReport) := by
  constructor
  · intro codec hparse hmeant
    have hrange : (Json.obj largeReport).allNums inRange = true := by
      simp only [largeReport, allNums, allNumsMembers, Bool.and_true]
      exact inRange_of_le (by norm_num)
    have hkeeps := (reshapedAsMeant_iff codec largeHeader).1 hmeant largeReport hparse hrange
    have hheader := hkeeps.others (jsonText "header") (.num (10 ^ 17 + 1)) (by decide) rfl
    have hnum : codec.reprint (10 ^ 17 + 1) = 10 ^ 17 + 1 := hheader.kept
    rw [Codec.reprint, round_large] at hnum
    have hrep : Lib.Float64.Representable (10 ^ 17) := by
      rw [← round_large codec]
      exact codec.rounding.representable _
    apply not_digits_large
    rw [← hnum]
    apply codec.printing.fewest (10 ^ 17) 1 (10 ^ 17) hrep
    · exact ⟨1, 17, by norm_num, by norm_num⟩
    · exact codec.rounding.round_eq hrep
  · obtain ⟨codec, hcodec⟩ := exists_codec fun _ => some (.obj largeReport)
    exact ⟨codec, hcodec _ (by decide)⟩

/-- The reshaped object is in the file, or an error is returned and the file is as
it was. -/
def ReturnsNormally (file : Bytes) (out : Reshape × Bytes) : Prop :=
  (out.1 = .ok ∧ ∃ report, codec.unmarshalMap file = .ok (some report) ∧
    out.2 = codec.print (.obj (reshapedReport report))) ∨
  ∃ err, out.1 = .err err ∧ out.2 = file

/-- The document is an object whose numbers can be decoded, so that it is reshaped. -/
def IsReport (file : Bytes) : Prop :=
  ∃ report, codec.parse file = some (.obj report) ∧ (Json.obj report).allNums inRange = true

/-- Reshaping returns normally if and only if the document is not null and writing
the file back does not fail after the file was changed. -/
theorem returnsNormally_iff (file : Bytes) (readErr : Option IOError)
    (failed : Option (IOError × Bytes)) :
    ReturnsNormally codec file
        (reshapeNodeReportToProcessOverview codec file ⟨readErr, fun _ => failed⟩) ↔
      readErr = none → codec.parse file ≠ some .null ∧
        (IsReport codec file → ∀ err left, failed = some (err, left) → left = file) := by
  cases readErr with
  | some err => simp [ReturnsNormally, reshapeNodeReportToProcessOverview]
  | none =>
    rw [reshape_eq codec file _ rfl]
    cases hfile : codec.unmarshalMap file with
    | error err =>
      have hnull : codec.parse file ≠ some .null := by
        rw [ne_eq, ← codec.unmarshalMap_ok_none, hfile]
        nofun
      have hreport : ¬ IsReport codec file := by
        rintro ⟨report, hparse, hrange⟩
        have hsome := codec.unmarshalMap_ok_some.2 ⟨report, hparse, hrange, rfl⟩
        rw [hfile] at hsome
        cases hsome
      simp [ReturnsNormally, hnull, hreport]
    | ok found =>
      cases found with
      | none =>
        have hnull := codec.unmarshalMap_ok_none.1 hfile
        simp [ReturnsNormally, hnull]
      | some report =>
        obtain ⟨members, hparse, hrange, _⟩ := codec.unmarshalMap_ok_some.1 hfile
        have hreport : IsReport codec file := ⟨members, hparse, hrange⟩
        cases failed with
        | none => simp [ReturnsNormally, hparse, hfile]
        | some failed =>
          obtain ⟨err, left⟩ := failed
          simp [ReturnsNormally, hparse, hreport]

def nullDocument : Bytes := ascii "null"

/-- The document null is valid, and reshaping it is a panic. -/
theorem null_document_panics :
    (∀ codec : Codec, codec.parse nullDocument = some .null →
      nodeReportValid codec (.ok nullDocument) = true ∧
      reshapeNodeReportToProcessOverview codec nullDocument ⟨none, fun _ => none⟩ =
        (.panics, nullDocument) ∧
      ¬ ReturnsNormally codec nullDocument
        (reshapeNodeReportToProcessOverview codec nullDocument ⟨none, fun _ => none⟩)) ∧
      ∃ codec : Codec, codec.parse nullDocument = some .null := by
  constructor
  · intro codec hparse
    have hpanics : reshapeNodeReportToProcessOverview codec nullDocument ⟨none, fun _ => none⟩ =
        (.panics, nullDocument) := by
      rw [reshape_eq codec _ _ rfl, codec.unmarshalMap_ok_none.2 hparse]
    refine ⟨?_, hpanics, ?_⟩
    · simp only [nodeReportValid, Codec.valid, hparse, Option.isSome_some]
      rfl
    · rw [hpanics]
      simp [ReturnsNormally]
  · obtain ⟨codec, hcodec⟩ := exists_codec fun _ => some .null
    exact ⟨codec, hcodec _ (by decide)⟩

end Files

end YcAgent.Capture
