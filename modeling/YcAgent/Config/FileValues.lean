import YcAgent.Config.Precedence

/-!
The options that the configuration file sets and the command line does not
mention. The first pass of `copyFlagsValue` finds their flag variables equal to
the defaults and drops them, so the second pass leaves the decoded values
alone. The list of commands is not compared and never dropped.
-/

namespace YcAgent.Config

variable {flags : FlagPackage} {field : Field} {settings : List Setting}

/-- The setting is one of the field's flags; the commands have two. -/
def Field.mentionedBy (field : Field) (setting : Setting) : Prop :=
  if field.kind = .commands then setting.flag = "urlParams" ∨ setting.flag = "cmd"
  else field.flagName = some setting.flag

instance (field : Field) (setting : Setting) : Decidable (field.mentionedBy setting) := by
  unfold Field.mentionedBy
  infer_instance

/-- No flag of the field is on the command line. -/
def Unmentioned (field : Field) (settings : List Setting) : Prop :=
  ∀ setting ∈ settings, ¬ field.mentionedBy setting

instance (field : Field) (settings : List Setting) : Decidable (Unmentioned field settings) :=
  inferInstanceAs (Decidable (∀ setting ∈ settings, ¬ field.mentionedBy setting))

/-- The two lists of `-urlParams` and `-cmd` belong to the commands. -/
def Cell.Paired (cell : Cell) : Prop :=
  match cell.flag with
  | some (.pair _ _) => cell.field.kind = .commands
  | some _ => cell.field.kind ≠ .commands
  | none => True

instance (cell : Cell) : Decidable cell.Paired := by
  unfold Cell.Paired
  split <;> infer_instance

theorem registerFlag_paired :
    ∀ field ∈ optionFields, (registerFlag ⟨field, defaultValue field, none⟩).Paired := by
  decide +kernel

theorem setFlag_unmentioned {cell : Cell} {setting : Setting} (hpaired : cell.Paired)
    (h : ¬ cell.field.mentionedBy setting) : setFlag flags cell setting = .ok cell := by
  obtain ⟨field, value, flag⟩ := cell
  cases flag with
  | none => rfl
  | some var =>
    cases var with
    | pair urlParams cmds =>
      have hkind : field.kind = .commands := hpaired
      simp only [Field.mentionedBy, hkind, ↓reduceIte, not_or] at h
      simp [setFlag, h.1, h.2]
    | _ =>
      have hkind : field.kind ≠ .commands := hpaired
      simp only [Field.mentionedBy, hkind, ↓reduceIte] at h
      simp [setFlag, h]

/-- The flag package leaves an option alone that no setting mentions. -/
theorem foldlM_unmentioned {cell : Cell} (hpaired : cell.Paired)
    (h : Unmentioned cell.field settings) :
    settings.foldlM (setFlag flags) cell = .ok cell := by
  induction settings with
  | nil => rfl
  | cons setting rest ih =>
    have hfirst : setFlag flags cell setting = .ok cell :=
      setFlag_unmentioned hpaired (h setting List.mem_cons_self)
    rw [List.foldlM_cons, hfirst]
    exact ih fun other hother => h other (List.mem_cons_of_mem _ hother)

/-- The first pass drops every variable that still has its default, except the
commands. -/
theorem first_pass : ∀ field ∈ optionFields,
    copyFlagValue (registerFlag ⟨field, defaultValue field, none⟩) =
      .ok (if field.kind = .commands then ⟨field, .commands (some []), some (.pair [] [])⟩
        else ⟨field, defaultValue field, none⟩) := by
  decide +kernel

/-- The file's value survives the second pass: the commands are always
overwritten by those of the command line, of which there are none. -/
def FileKept (field : Field) (y : Value) : Prop :=
  field.kind = .commands → y = .commands (some [])

private theorem commands_not_server :
    ∀ field ∈ optionFields, field.kind = .commands → field.name ≠ "Server" := by
  decide

private theorem trimmed_of_ne (h : field.name ≠ "Server") (v : Value) : field.trimmed v = v := by
  cases v with
  | str s => simp [Field.trimmed, h]
  | _ => rfl

/-- After a successful `ParseFlags` with a configuration file, an option that
the file sets and the command line does not mention has the file's value exactly
under `FileKept`, up to the slash the server URL loses whatever its source, and
to the letter if it has no such slash. -/
theorem file_value_iff (readConfig : String → Except ConfigError Document)
    (args : List String) (path : String) (doc : Document) (cells' : List Cell)
    (hargs : 2 ≤ args.length) (hsettings : flags.settings args.tail = some settings)
    (hpath : explicitValue flags configPathField settings = some (.str path))
    (hnamed : path ≠ "") (hdoc : readConfig path = .ok doc)
    (hok : parseFlags flags readConfig args defaultConfig = .ok cells') :
    cells'.map Cell.field = optionFields ∧
      ∀ cell ∈ cells', ∀ y, cell.field.yamlKey.bind doc = some y →
        Unmentioned cell.field settings →
        (cell.value = cell.field.trimmed y ↔ FileKept cell.field y) ∧
        (cell.value = y ↔ FileKept cell.field y ∧ cell.field.trimmed y = y) := by
  have hstart : parseFlags flags readConfig args (options defaultValue) = .ok cells' := hok
  obtain ⟨hfields, hcells⟩ := parseFlags_settled hargs hsettings hpath hnamed hdoc hstart
  refine ⟨hfields, ?_⟩
  intro cell hcell y hy hunmentioned
  obtain ⟨hfield, middle, first, last, hfold, hfirst, hsecond, hvalue⟩ := hcells cell hcell
  rw [foldlM_unmentioned (registerFlag_paired _ hfield)
    (by rwa [registerFlag_field]), Except.ok.injEq] at hfold
  subst hfold
  rw [first_pass _ hfield, Except.ok.injEq] at hfirst
  subst hfirst
  rw [hvalue]
  by_cases hkind : cell.field.kind = .commands
  · simp only [hkind, ↓reduceIte, decode_eq, copyFlagValue, FlagVar.read, ne_eq,
      not_true_eq_false, List.zip_nil_left, Except.ok.injEq] at hsecond
    subst hsecond
    have hsame (v : Value) : cell.field.trimmed v = v :=
      trimmed_of_ne (commands_not_server _ hfield hkind) v
    simp [hsame, FileKept, hkind, eq_comm]
  · simp only [hkind, ↓reduceIte, decode_eq, hy, Option.getD_some, copyFlagValue,
      Except.ok.injEq] at hsecond
    subst hsecond
    simp [FileKept, hkind]

def listDocument : Document := fun key =>
  if key = "processTokens" then some (.strings (some ["buggyApp"]))
  else if key = "cmds" then some (.commands (some [("dt=date", "date")]))
  else none

private theorem list_run : ∃ cells',
    parseFlags sampleFlags (fun _ => .ok listDocument) sampleArgs defaultConfig = .ok cells' ∧
      valueOf cells' "Commands" = some (.commands (some [])) := by
  apply ok_of_toOption_map
  decide +kernel

theorem process_tokens_from_file : ∃ cells',
    parseFlags sampleFlags (fun _ => .ok listDocument) sampleArgs defaultConfig = .ok cells' ∧
      ∀ cell ∈ cells', cell.field = tagged "ProcessTokens" "processTokens" .strings →
        cell.value = .strings (some ["buggyApp"]) := by
  obtain ⟨cells', hrun, _⟩ := list_run
  refine ⟨cells', hrun, ?_⟩
  intro cell hcell hfield
  obtain ⟨_, hvalues⟩ := file_value_iff (fun _ => .ok listDocument) sampleArgs "conf.yaml"
    listDocument cells' (by decide) (by decide +kernel : sampleFlags.settings sampleArgs.tail =
      some sampleSettings) (by decide +kernel) (by decide) rfl hrun
  apply (hvalues cell hcell (.strings (some ["buggyApp"])) ?_ ?_).2.mpr
  · rw [hfield]
    refine ⟨?_, rfl⟩
    intro hkind
    cases hkind
  · rw [hfield]
    decide +kernel
  · rw [hfield]
    decide +kernel

/-- The custom command of the file is lost although no flag mentions it. -/
theorem commands_of_file_lost : ∃ cells',
    parseFlags sampleFlags (fun _ => .ok listDocument) sampleArgs defaultConfig = .ok cells' ∧
      Unmentioned (tagged "Commands" "cmds" .commands) sampleSettings ∧
      listDocument "cmds" = some (.commands (some [("dt=date", "date")])) ∧
      valueOf cells' "Commands" = some (.commands (some [])) := by
  obtain ⟨cells', hrun, hvalue⟩ := list_run
  exact ⟨cells', hrun, by decide, by decide, hvalue⟩

end YcAgent.Config
