import YcAgent.Config.Flags

/-!
Which of the default, the configuration file and the command line a field ends
up with. A flag variable that equals its field is taken for one that was not
given and dropped before the file is read, so the file then decides; and a
duration flag writes through to its field, which the file overwrites.
-/

namespace YcAgent.Config

theorem mapM_ok {ε α β : Type} {f : α → Except ε β} {xs : List α} {ys : List β}
    (h : xs.mapM f = .ok ys) : List.Forall₂ (fun x y => f x = .ok y) xs ys := by
  induction xs generalizing ys with
  | nil =>
    cases h
    exact .nil
  | cons x xs ih =>
    rw [List.mapM_cons] at h
    cases hx : f x with
    | error err => simp [hx, bind, Except.bind] at h
    | ok y =>
      cases hxs : xs.mapM f with
      | error err => simp [hx, hxs, bind, Except.bind] at h
      | ok rest =>
        simp only [hx, hxs, bind, Except.bind, pure, Except.pure, Except.ok.injEq] at h
        subst h
        exact .cons hx (ih hxs)

def textsOf (settings : List Setting) (flag : String) : List String :=
  (settings.filter fun setting => setting.flag = flag).map Setting.text

def explicitValue (flags : FlagPackage) (field : Field) (settings : List Setting) :
    Option Value :=
  match field.flagName with
  | none => none
  | some name =>
    let texts := textsOf settings name
    if field.name = "VerifySSL" then
      texts.getLast?.bind fun text => (parseLowerBool text).map Value.bool
    else
      match field.kind with
      | .strings => if texts = [] then none else some (.strings (some texts))
      | .commands =>
        let urlParams := textsOf settings "urlParams"
        let cmds := textsOf settings "cmd"
        if urlParams = [] ∧ cmds = [] then none
        else some (.commands (some (urlParams.zip cmds)))
      | .healthChecks => none
      | kind => texts.getLast?.bind (flags.parse kind)

/-- What becomes of a field with default `d`, command-line value `v` and value
`y` in the file. -/
def resolve (field : Field) (d v : Value) (y : Option Value) : Value :=
  match field.kind with
  | .duration => y.getD v
  | .commands => v
  | _ => if v = d then y.getD d else v

theorem setFlag_field {flags : FlagPackage} {cell cell' : Cell} {setting : Setting}
    (h : setFlag flags cell setting = .ok cell') : cell'.field = cell.field := by
  unfold setFlag at h
  repeat' split at h
  all_goals first
    | (cases h; rfl)
    | cases h

theorem copyFlagValue_field {cell cell' : Cell} (h : copyFlagValue cell = .ok cell') :
    cell'.field = cell.field := by
  unfold copyFlagValue at h
  repeat' split at h
  all_goals first
    | (cases h; rfl)
    | cases h

theorem textsOf_append (settings : List Setting) (setting : Setting) (flag : String) :
    textsOf (settings ++ [setting]) flag =
      textsOf settings flag ++ if setting.flag = flag then [setting.text] else [] := by
  simp only [textsOf, List.filter_append, List.map_append, List.filter_cons, List.filter_nil]
  by_cases h : setting.flag = flag <;> simp [h]

/-- The state of the flag variable of `field`, and of the field itself, after
the flag package has gone through `settings`. -/
inductive Heard (flags : FlagPackage) (field : Field) (name : String) (d : Value)
    (settings : List Setting) : Value → FlagVar → Prop
  | text {s} (hname : field.name = "VerifySSL")
      (hlast : ∀ text, (textsOf settings name).getLast? = some text → s = text) :
      Heard flags field name d settings d (.text s)
  | list (hname : field.name ≠ "VerifySSL") (hkind : field.kind = .strings) :
      Heard flags field name d settings d
        (.list (if textsOf settings name = [] then none else some (textsOf settings name)))
  | value {u} (hname : field.name ≠ "VerifySSL")
      (hkind : field.kind = .string ∨ field.kind = .bool ∨ field.kind = .int)
      (hlast : ∀ text, (textsOf settings name).getLast? = some text →
        flags.parse field.kind text = some u) :
      Heard flags field name d settings d (.value u)
  | through {u} (hname : field.name ≠ "VerifySSL") (hkind : field.kind = .duration)
      (hlast : ∀ text, (textsOf settings name).getLast? = some text →
        flags.parse field.kind text = some u) :
      Heard flags field name d settings u .through
  | pair (hname : field.name ≠ "VerifySSL") (hkind : field.kind = .commands) :
      Heard flags field name d settings d
        (.pair (textsOf settings "urlParams") (textsOf settings "cmd"))

variable {flags : FlagPackage} {field : Field} {name : String} {d : Value}
variable {settings : List Setting}

theorem heard_registerFlag (hname : field.flagName = some name)
    (hkind : field.kind ≠ .healthChecks) (flag : Option FlagVar) :
    ∃ var, registerFlag ⟨field, d, flag⟩ = ⟨field, d, some var⟩ ∧
      Heard flags field name d [] d var := by
  by_cases hssl : field.name = "VerifySSL"
  · refine ⟨.text (formatBool d), by simp [registerFlag, hname, hssl], .text hssl ?_⟩
    simp [textsOf]
  · have hvalue (hscalar : field.kind = .string ∨ field.kind = .bool ∨ field.kind = .int) :
        ∃ var, registerFlag ⟨field, d, flag⟩ = ⟨field, d, some var⟩ ∧
          Heard flags field name d [] d var := by
      refine ⟨.value d, ?_, .value hssl hscalar (by simp [textsOf])⟩
      rcases hscalar with h | h | h <;> simp [registerFlag, hname, hssl, h]
    cases hcase : field.kind with
    | string => exact hvalue (by simp [hcase])
    | bool => exact hvalue (by simp [hcase])
    | int => exact hvalue (by simp [hcase])
    | duration =>
      refine ⟨.through, by simp [registerFlag, hname, hssl, hcase], .through hssl hcase ?_⟩
      simp [textsOf]
    | strings =>
      exact ⟨.list none, by simp [registerFlag, hname, hssl, hcase], .list hssl hcase⟩
    | commands =>
      exact ⟨.pair [] [], by simp [registerFlag, hname, hssl, hcase], .pair hssl hcase⟩
    | healthChecks => exact absurd hcase hkind

theorem getLast_textsOf_given {setting : Setting} {P : String → Prop}
    (hflag : setting.flag = name) (hnew : P setting.text) (text : String)
    (htext : (textsOf (settings ++ [setting]) name).getLast? = some text) : P text := by
  rw [textsOf_append, if_pos hflag, List.getLast?_concat, Option.some.injEq] at htext
  rw [← htext]
  exact hnew

theorem getLast_textsOf_other {setting : Setting} {P : String → Prop}
    (hflag : ¬ setting.flag = name)
    (h : ∀ text, (textsOf settings name).getLast? = some text → P text) (text : String)
    (htext : (textsOf (settings ++ [setting]) name).getLast? = some text) : P text := by
  rw [textsOf_append, if_neg hflag, List.append_nil] at htext
  exact h text htext

theorem parsed_unique {u v : Value}
    (hlast : ∀ text, (textsOf settings name).getLast? = some text →
      flags.parse field.kind text = some u)
    (hv : (textsOf settings name).getLast?.bind (flags.parse field.kind) = some v) : u = v := by
  obtain ⟨text, htext, hparse⟩ := Option.bind_eq_some_iff.mp hv
  rw [hlast text htext, Option.some.injEq] at hparse
  exact hparse

theorem Heard.step {val : Value} {var : FlagVar} {setting : Setting} {cell' : Cell}
    (hname : field.flagName = some name) (h : Heard flags field name d settings val var)
    (hset : setFlag flags ⟨field, val, some var⟩ setting = .ok cell') :
    ∃ val' var', cell' = ⟨field, val', some var'⟩ ∧
      Heard flags field name d (settings ++ [setting]) val' var' := by
  cases h with
  | @text s hssl hlast =>
    simp only [setFlag, hname, Option.some.injEq] at hset
    split at hset
    · next hflag =>
        cases hset
        exact ⟨d, .text setting.text, rfl, .text hssl (getLast_textsOf_given hflag.symm rfl)⟩
    · next hflag =>
        cases hset
        exact ⟨d, .text s, rfl, .text hssl (getLast_textsOf_other (Ne.symm hflag) hlast)⟩
  | list hssl hkind =>
    simp only [setFlag, hname, Option.some.injEq] at hset
    refine ⟨d, _, ?_, .list hssl hkind⟩
    rw [textsOf_append]
    split at hset
    · next hflag =>
        cases hset
        subst hflag
        by_cases hnone : textsOf settings setting.flag = [] <;> simp [hnone]
    · next hflag =>
        cases hset
        have hother : ¬ setting.flag = name := fun heq => hflag heq.symm
        simp [hother]
  | @value u hssl hkind hlast =>
    simp only [setFlag, hname, Option.some.injEq] at hset
    split at hset
    · next hflag =>
        cases hparse : flags.parse field.kind setting.text with
        | none => simp [hparse] at hset
        | some v =>
          simp only [hparse, reduceCtorEq, ↓reduceIte, Except.ok.injEq] at hset
          exact ⟨d, .value v, hset.symm,
            .value hssl hkind (getLast_textsOf_given hflag.symm hparse)⟩
    · next hflag =>
        cases hset
        exact ⟨d, .value u, rfl,
          .value hssl hkind (getLast_textsOf_other (Ne.symm hflag) hlast)⟩
  | through hssl hkind hlast =>
    simp only [setFlag, hname, Option.some.injEq] at hset
    split at hset
    · next hflag =>
        cases hparse : flags.parse field.kind setting.text with
        | none => simp [hparse] at hset
        | some v =>
          simp only [hparse, ↓reduceIte, Except.ok.injEq] at hset
          exact ⟨v, .through, hset.symm,
            .through hssl hkind (getLast_textsOf_given hflag.symm hparse)⟩
    · next hflag =>
        cases hset
        exact ⟨val, .through, rfl,
          .through hssl hkind (getLast_textsOf_other (Ne.symm hflag) hlast)⟩
  | pair hssl hkind =>
    refine ⟨d, _, ?_, .pair hssl hkind⟩
    rw [textsOf_append, textsOf_append]
    simp only [setFlag] at hset
    split at hset
    · next hurl =>
        cases hset
        simp [hurl]
    · next hurl =>
        split at hset
        · next hcmd =>
            cases hset
            simp [hcmd]
        · next hcmd =>
            cases hset
            simp [hurl, hcmd]

theorem heard_settings (hname : field.flagName = some name) {val : Value} {var : FlagVar}
    {before more : List Setting} {cell' : Cell} (h : Heard flags field name d before val var)
    (hfold : more.foldlM (setFlag flags) ⟨field, val, some var⟩ = .ok cell') :
    ∃ val' var', cell' = ⟨field, val', some var'⟩ ∧
      Heard flags field name d (before ++ more) val' var' := by
  induction more generalizing before val var with
  | nil =>
    cases hfold
    exact ⟨val, var, rfl, by rwa [List.append_nil]⟩
  | cons setting more ih =>
    rw [List.foldlM_cons] at hfold
    cases hset : setFlag flags ⟨field, val, some var⟩ setting with
    | error err => simp [hset, bind, Except.bind] at hfold
    | ok cell =>
      obtain ⟨val', var', rfl, hheard⟩ := h.step hname hset
      simp only [hset, bind, Except.bind] at hfold
      have hdone := ih hheard hfold
      rwa [List.append_assoc] at hdone

/-- After the settings, the flag variable of a field that was given explicitly
reads as the value given. -/
theorem Heard.read (hname : field.flagName = some name) {val v : Value} {var : FlagVar}
    (h : Heard flags field name d settings val var)
    (hv : explicitValue flags field settings = some v) {cell : Cell}
    (hcopy : copyFlagValue ⟨field, val, some var⟩ = .ok cell) :
    var.read ⟨field, val, some var⟩ = .ok v := by
  simp only [explicitValue, hname] at hv
  cases h with
  | text hssl hlast =>
    rw [if_pos hssl] at hv
    obtain ⟨text, htext, hbool⟩ := Option.bind_eq_some_iff.mp hv
    obtain ⟨b, hparse, rfl⟩ := Option.map_eq_some_iff.mp hbool
    rw [hlast text htext]
    simp [FlagVar.read, hparse]
  | list hssl hkind =>
    rw [if_neg hssl] at hv
    simp only [hkind] at hv
    split at hv
    · cases hv
    · next htexts =>
        cases hv
        simp [FlagVar.read, htexts]
  | @value u hssl hkind hlast =>
    rw [if_neg hssl] at hv
    have hbind : (textsOf settings name).getLast?.bind (flags.parse field.kind) = some v := by
      rcases hkind with hkind | hkind | hkind <;> simpa only [hkind] using hv
    rw [← parsed_unique hlast hbind]
    rfl
  | through hssl hkind hlast =>
    rw [if_neg hssl] at hv
    have hbind : (textsOf settings name).getLast?.bind (flags.parse field.kind) = some v := by
      simpa only [hkind] using hv
    rw [← parsed_unique hlast hbind]
    rfl
  | pair hssl hkind =>
    rw [if_neg hssl] at hv
    simp only [hkind] at hv
    split at hv
    · cases hv
    · cases hv
      simp only [copyFlagValue, FlagVar.read] at hcopy ⊢
      split at hcopy
      · next hlength =>
          split at hlength
          · cases hcopy
          · cases hlength
      · next hlength =>
          split at hlength
          · cases hlength
          · next heq => simp [heq]

theorem copyFlagValue_of_read {cell : Cell} {var : FlagVar} {v : Value}
    (hflag : cell.flag = some var) (hpair : ∀ urlParams cmds, var ≠ .pair urlParams cmds)
    (hread : var.read cell = .ok v) :
    copyFlagValue cell =
      .ok (if v = cell.value then { cell with flag := none } else { cell with value := v }) := by
  simp only [copyFlagValue, hflag, hread]
  cases var with
  | pair urlParams cmds => exact absurd rfl (hpair urlParams cmds)
  | _ => split <;> rfl

theorem copyFlagValue_value {cell first : Cell} {var : FlagVar} {v : Value}
    (hflag : cell.flag = some var) (hread : var.read cell = .ok v)
    (h : copyFlagValue cell = .ok first) : first.value = v := by
  cases var with
  | pair urlParams cmds =>
    simp only [copyFlagValue, hflag, hread, Except.ok.injEq] at h
    rw [← h]
  | _ =>
    rw [copyFlagValue_of_read hflag (by simp) hread, Except.ok.injEq] at h
    rw [← h]
    split
    · next heq => exact heq.symm
    · rfl

theorem decode_eq (doc : Document) (cell : Cell) :
    decode doc cell =
      { cell with value := (cell.field.yamlKey.bind doc).getD cell.value } := by
  unfold decode
  split
  · next h => simp [h]
  · next v h => simp [h]

/-- The two passes of `copyFlagsValue` around the decoding of the file. -/
theorem Heard.settle (hname : field.flagName = some name)
    (hssl : field.name = "VerifySSL" → field.kind = .bool) {val v : Value} {var : FlagVar}
    (h : Heard flags field name d settings val var)
    (hv : explicitValue flags field settings = some v) (doc : Document) {first second : Cell}
    (hfirst : copyFlagValue ⟨field, val, some var⟩ = .ok first)
    (hsecond : copyFlagValue (decode doc first) = .ok second) :
    second.value = resolve field d v (field.yamlKey.bind doc) := by
  have hread := h.read hname hv hfirst
  -- a variable of its own keeps its value over the decoding
  have hown (hval : val = d) (hpair : ∀ urlParams cmds, var ≠ .pair urlParams cmds)
      (hsame : ∀ cell, var.read cell = .ok v) :
      second.value = if v = d then (field.yamlKey.bind doc).getD d else v := by
    rw [copyFlagValue_of_read rfl hpair hread, Except.ok.injEq] at hfirst
    subst hfirst hval
    by_cases heq : v = val
    · simp only [heq, ↓reduceIte, decode_eq, copyFlagValue, Except.ok.injEq] at hsecond
      subst hsecond
      simp [heq]
    · simp only [heq, ↓reduceIte, decode_eq] at hsecond ⊢
      exact copyFlagValue_value rfl (hsame _) hsecond
  cases h with
  | text hname' hlast =>
    have hdone := hown rfl (by simp) (fun _ => hread)
    simpa [resolve, hssl hname'] using hdone
  | list _ hkind =>
    have hdone := hown rfl (by simp) (fun _ => hread)
    simpa [resolve, hkind] using hdone
  | value _ hkind _ =>
    have hdone := hown rfl (by simp) (fun _ => hread)
    rcases hkind with hkind | hkind | hkind <;> simpa [resolve, hkind] using hdone
  | through _ hkind _ =>
    rw [copyFlagValue_of_read rfl (by simp) hread, Except.ok.injEq] at hfirst
    have heq : v = val := by simpa [FlagVar.read] using hread.symm
    simp only [heq, ↓reduceIte] at hfirst
    subst hfirst
    simp only [decode_eq, copyFlagValue, Except.ok.injEq] at hsecond
    subst hsecond
    simp [resolve, hkind, heq]
  | pair _ hkind =>
    have hcopy (cell : Cell) (hflag : cell.flag =
        some (.pair (textsOf settings "urlParams") (textsOf settings "cmd"))) :
        copyFlagValue cell = .ok { cell with value := v } := by
      have hread' : (FlagVar.pair (textsOf settings "urlParams")
          (textsOf settings "cmd")).read cell = .ok v := hread
      simp [copyFlagValue, hflag, hread']
    rw [hcopy _ rfl, Except.ok.injEq] at hfirst
    subst hfirst
    rw [decode_eq, hcopy _ rfl, Except.ok.injEq] at hsecond
    subst hsecond
    simp [resolve, hkind]

/-- The command-line value survives the file: the file is silent or agrees, or
the field is neither a duration nor given its default. -/
def CliKept (field : Field) (d v : Value) (y : Option Value) : Prop :=
  y = none ∨ y = some v ∨ field.kind = .commands ∨ (field.kind ≠ .duration ∧ v ≠ d)

/-- The field ends up with the command-line value `v` as the server URL is
trimmed: `v` survives, or nothing but a final slash tells it from the file's. -/
def CliWins (field : Field) (d v : Value) (y : Option Value) : Prop :=
  CliKept field d v y ∨ ∃ y', y = some y' ∧ field.trimmed y' = field.trimmed v

/-- The field ends up with `v` itself: it survives and loses no slash, or what
replaces it becomes `v` by losing one. -/
def CliHolds (field : Field) (d v : Value) (y : Option Value) : Prop :=
  (CliKept field d v y ∧ field.trimmed v = v) ∨
    (¬ CliKept field d v y ∧ ∃ y', y = some y' ∧ field.trimmed y' = v)

theorem resolve_of_kept {v : Value} {y : Option Value} (h : CliKept field d v y) :
    resolve field d v y = v := by
  unfold resolve
  rcases h with rfl | rfl | hkind | ⟨hkind, hne⟩
  · split <;> simp_all
  · split <;> simp_all
  · simp [hkind]
  · split <;> simp_all

theorem resolve_of_not_kept {v : Value} {y : Option Value} (h : ¬ CliKept field d v y) :
    ∃ y', y = some y' ∧ resolve field d v y = y' := by
  simp only [CliKept, not_or, not_and, ne_eq, Decidable.not_not] at h
  obtain ⟨hnone, _, hcommands, hdefault⟩ := h
  obtain ⟨y', rfl⟩ := Option.ne_none_iff_exists'.mp hnone
  refine ⟨y', rfl, ?_⟩
  unfold resolve
  split
  · rfl
  · next hkind => exact absurd hkind hcommands
  · next hkind _ => simp [hdefault hkind]

theorem trimmed_resolve_iff_wins (field : Field) (d v : Value) (y : Option Value) :
    field.trimmed (resolve field d v y) = field.trimmed v ↔ CliWins field d v y := by
  by_cases hkept : CliKept field d v y
  · simp [CliWins, hkept, resolve_of_kept hkept]
  · obtain ⟨y', rfl, hresolve⟩ := resolve_of_not_kept hkept
    simp [CliWins, hkept, hresolve]

theorem trimmed_resolve_iff_holds (field : Field) (d v : Value) (y : Option Value) :
    field.trimmed (resolve field d v y) = v ↔ CliHolds field d v y := by
  by_cases hkept : CliKept field d v y
  · simp [CliHolds, hkept, resolve_of_kept hkept]
  · obtain ⟨y', rfl, hresolve⟩ := resolve_of_not_kept hkept
    simp [CliHolds, hkept, hresolve]

theorem exists_left_of_forall₂ {α β : Type} {R : α → β → Prop} {xs : List α} {ys : List β}
    (h : List.Forall₂ R xs ys) {y : β} (hy : y ∈ ys) : ∃ x ∈ xs, R x y := by
  induction h with
  | nil => cases hy
  | @cons x y' xs ys hR _ ih =>
    rcases List.mem_cons.mp hy with rfl | hy
    · exact ⟨x, List.mem_cons_self, hR⟩
    · obtain ⟨x', hx', hR'⟩ := ih hy
      exact ⟨x', List.mem_cons_of_mem _ hx', hR'⟩

theorem map_field_eq {R : Cell → Cell → Prop} {xs ys : List Cell}
    (hR : ∀ x y, R x y → y.field = x.field) (h : List.Forall₂ R xs ys) :
    ys.map Cell.field = xs.map Cell.field := by
  induction h with
  | nil => rfl
  | cons hxy _ ih => simp [hR _ _ hxy, ih]

theorem foldlM_setFlag_field {cell cell' : Cell}
    (h : settings.foldlM (setFlag flags) cell = .ok cell') : cell'.field = cell.field := by
  induction settings generalizing cell with
  | nil =>
    cases h
    rfl
  | cons setting more ih =>
    rw [List.foldlM_cons] at h
    cases hset : setFlag flags cell setting with
    | error err => simp [hset, bind, Except.bind] at h
    | ok next =>
      simp only [hset, bind, Except.bind] at h
      exact (ih h).trans (setFlag_field hset)

def configPathField : Field := ⟨"ConfigPath", some "-", some "c", .string⟩

theorem configPathField_unique :
    ∀ f ∈ optionFields, f.name = "ConfigPath" → f = configPathField := by decide

theorem verifySSL_bool : ∀ f ∈ optionFields, f.name = "VerifySSL" → f.kind = .bool := by decide

def options (values : Field → Value) : List Cell :=
  optionFields.map fun field => ⟨field, values field, none⟩

theorem registerFlag_field (cell : Cell) : (registerFlag cell).field = cell.field := by
  unfold registerFlag
  repeat' split
  all_goals rfl

theorem bind_eq_ok {ε α β : Type} {x : Except ε α} {k : α → Except ε β} {b : β}
    (h : (x >>= k) = .ok b) : ∃ a, x = .ok a ∧ k a = .ok b := by
  cases x with
  | error err => cases h
  | ok a => exact ⟨a, rfl, h⟩

theorem parseFlags_ok {readConfig : String → Except ConfigError Document} {args : List String}
    {cells cells' : List Cell} (hargs : 2 ≤ args.length)
    (hsettings : flags.settings args.tail = some settings)
    (hok : parseFlags flags readConfig args cells = .ok cells') :
    ∃ parsed copied,
      List.Forall₂ (fun cell cell' => settings.foldlM (setFlag flags) cell = .ok cell')
        (cells.map registerFlag) parsed ∧
      List.Forall₂ (fun cell cell' => copyFlagValue cell = .ok cell') parsed copied ∧
      ((configPath copied = "" ∧ cells' = copied.map Cell.trim) ∨
        ∃ doc settled, configPath copied ≠ "" ∧ readConfig (configPath copied) = .ok doc ∧
          List.Forall₂ (fun cell cell' => copyFlagValue cell = .ok cell')
            (copied.map (decode doc)) settled ∧
          cells' = settled.map Cell.trim) := by
  simp only [parseFlags, Nat.not_lt.mpr hargs, ↓reduceIte, hsettings] at hok
  split at hok
  · obtain ⟨parsed, hparsed, hok⟩ := bind_eq_ok hok
    obtain ⟨copied, hcopied, hok⟩ := bind_eq_ok hok
    refine ⟨parsed, copied, mapM_ok hparsed, mapM_ok hcopied, ?_⟩
    split at hok
    · next hpath =>
        cases hok
        exact .inl ⟨hpath, rfl⟩
    · next hpath =>
        obtain ⟨doc, hdoc, hok⟩ := bind_eq_ok hok
        obtain ⟨settled, hsettled, hok⟩ := bind_eq_ok hok
        cases hok
        exact .inr ⟨doc, settled, hpath, hdoc, mapM_ok hsettled, rfl⟩
  · cases hok

theorem explicitValue_flag {v : Value} (hv : explicitValue flags field settings = some v)
    (hssl : field.name = "VerifySSL" → field.kind = .bool) :
    ∃ name, field.flagName = some name ∧ field.kind ≠ .healthChecks := by
  unfold explicitValue at hv
  cases hname : field.flagName with
  | none => simp [hname] at hv
  | some name =>
    refine ⟨name, rfl, fun hkind => ?_⟩
    by_cases hverify : field.name = "VerifySSL"
    · rw [hssl hverify] at hkind
      cases hkind
    · simp [hname, hverify, hkind] at hv

theorem heard_of_parsed {v : Value} {parsed : Cell} (hfield : field ∈ optionFields)
    (hv : explicitValue flags field settings = some v)
    (hparsed : settings.foldlM (setFlag flags) (registerFlag ⟨field, d, none⟩) = .ok parsed) :
    ∃ name val var, field.flagName = some name ∧ parsed = ⟨field, val, some var⟩ ∧
      Heard flags field name d settings val var := by
  obtain ⟨name, hname, hkind⟩ := explicitValue_flag hv (verifySSL_bool field hfield)
  obtain ⟨var, hregister, hheard⟩ := heard_registerFlag (d := d) hname hkind none
  rw [hregister] at hparsed
  obtain ⟨val', var', hcell, hheard'⟩ := heard_settings hname hheard hparsed
  exact ⟨name, val', var', hname, hcell, hheard'⟩

theorem configPath_eq {cells : List Cell} {path : String}
    (hfields : cells.map Cell.field = optionFields)
    (hvalue : ∀ cell ∈ cells, cell.field.name = "ConfigPath" → cell.value = .str path) :
    configPath cells = path := by
  have hmem : configPathField ∈ cells.map Cell.field := by
    rw [hfields]
    decide
  obtain ⟨cell, hcell, hfield⟩ := List.mem_map.mp hmem
  unfold configPath
  cases hfind : cells.find? (fun cell => cell.field.name = "ConfigPath") with
  | none =>
    have hnone := List.find?_eq_none.mp hfind cell hcell
    simp [hfield, configPathField] at hnone
  | some found =>
    have hname : found.field.name = "ConfigPath" := by
      simpa using List.find?_some hfind
    have hstr := hvalue found (List.mem_of_find?_eq_some hfind) hname
    obtain ⟨f, value, flag⟩ := found
    simp only at hstr
    rw [hstr]

/-- Where the options come from after a successful `ParseFlags` with a
configuration file: each field by itself goes through the registration, the
settings, the first pass, the file and the second pass. -/
theorem parseFlags_settled {readConfig : String → Except ConfigError Document}
    {values : Field → Value} {args : List String} {path : String} {doc : Document}
    {cells' : List Cell} (hargs : 2 ≤ args.length)
    (hsettings : flags.settings args.tail = some settings)
    (hpath : explicitValue flags configPathField settings = some (.str path))
    (hnamed : path ≠ "") (hdoc : readConfig path = .ok doc)
    (hok : parseFlags flags readConfig args (options values) = .ok cells') :
    cells'.map Cell.field = optionFields ∧
      ∀ cell ∈ cells', cell.field ∈ optionFields ∧ ∃ middle first last,
        settings.foldlM (setFlag flags)
          (registerFlag ⟨cell.field, values cell.field, none⟩) = .ok middle ∧
        copyFlagValue middle = .ok first ∧ copyFlagValue (decode doc first) = .ok last ∧
        cell.value = cell.field.trimmed last.value := by
  obtain ⟨parsed, copied, hparsed, hcopied, hfile⟩ := parseFlags_ok hargs hsettings hok
  have hfields : copied.map Cell.field = optionFields := by
    rw [map_field_eq (fun _ _ => copyFlagValue_field) hcopied,
      map_field_eq (fun _ _ => foldlM_setFlag_field) hparsed, options, List.map_map, List.map_map]
    exact (List.map_congr_left fun field _ => registerFlag_field _).trans (List.map_id _)
  -- where a cell of the first pass comes from
  have horigin (cell : Cell) (hcell : cell ∈ copied) : cell.field ∈ optionFields ∧
      ∃ middle, settings.foldlM (setFlag flags)
          (registerFlag ⟨cell.field, values cell.field, none⟩) = .ok middle ∧
        copyFlagValue middle = .ok cell := by
    obtain ⟨middle, hmiddle, hcopy⟩ := exists_left_of_forall₂ hcopied hcell
    obtain ⟨registered, hregistered, hfold⟩ := exists_left_of_forall₂ hparsed hmiddle
    simp only [options, List.map_map, List.mem_map, Function.comp] at hregistered
    obtain ⟨field, hfield, rfl⟩ := hregistered
    have hsame : cell.field = field := by
      rw [copyFlagValue_field hcopy, foldlM_setFlag_field hfold, registerFlag_field]
    rw [hsame]
    exact ⟨hfield, middle, hfold, hcopy⟩
  have hread : configPath copied = path := by
    apply configPath_eq hfields
    intro cell hcell hname
    obtain ⟨hfield, middle, hfold, hcopy⟩ := horigin cell hcell
    have hunique := configPathField_unique _ hfield hname
    rw [hunique] at hfold hfield
    obtain ⟨name, val, var, hflag, rfl, hheard⟩ := heard_of_parsed hfield hpath hfold
    exact copyFlagValue_value rfl (hheard.read hflag hpath hcopy) hcopy
  rcases hfile with ⟨hempty, _⟩ | ⟨doc', settled, _, hdoc', hsettled, rfl⟩
  · exact absurd (hread.symm.trans hempty) hnamed
  rw [hread, hdoc, Except.ok.injEq] at hdoc'
  subst hdoc'
  constructor
  · rw [List.map_map]
    calc
      settled.map Cell.field = (copied.map (decode doc)).map Cell.field :=
        map_field_eq (fun _ _ => copyFlagValue_field) hsettled
      _ = copied.map Cell.field := by
        rw [List.map_map]
        exact List.map_congr_left fun cell _ => by simp [decode_eq]
      _ = optionFields := hfields
  · intro cell hcell
    obtain ⟨last, hlast, rfl⟩ := List.mem_map.mp hcell
    obtain ⟨decoded, hdecoded, hsecond⟩ := exists_left_of_forall₂ hsettled hlast
    obtain ⟨first, hfirst, rfl⟩ := List.mem_map.mp hdecoded
    have hsame : last.field = first.field := by
      rw [copyFlagValue_field hsecond, decode_eq]
    obtain ⟨hfield, middle, hfold, hcopy⟩ := horigin first hfirst
    simp only [Cell.trim, hsame]
    exact ⟨hfield, middle, first, last, hfold, hcopy, hsecond, rfl⟩

/-- After a successful `ParseFlags` with a configuration file, an option given
explicitly on the command line has the command-line value exactly under
`CliWins`, up to the slash the server URL loses whatever its source, and
exactly under `CliHolds` to the letter. -/
theorem cli_value_iff (readConfig : String → Except ConfigError Document)
    (values : Field → Value) (args : List String) (path : String) (doc : Document)
    (cells' : List Cell) (hargs : 2 ≤ args.length)
    (hsettings : flags.settings args.tail = some settings)
    (hpath : explicitValue flags configPathField settings = some (.str path))
    (hnamed : path ≠ "") (hdoc : readConfig path = .ok doc)
    (hok : parseFlags flags readConfig args (options values) = .ok cells') :
    cells'.map Cell.field = optionFields ∧
      ∀ cell ∈ cells', ∀ v, explicitValue flags cell.field settings = some v →
        (cell.value = cell.field.trimmed v ↔
          CliWins cell.field (values cell.field) v (cell.field.yamlKey.bind doc)) ∧
        (cell.value = v ↔
          CliHolds cell.field (values cell.field) v (cell.field.yamlKey.bind doc)) := by
  obtain ⟨hfields, hcells⟩ := parseFlags_settled hargs hsettings hpath hnamed hdoc hok
  refine ⟨hfields, ?_⟩
  intro cell hcell v hv
  obtain ⟨hfield, middle, first, last, hfold, hfirst, hsecond, hvalue⟩ := hcells cell hcell
  obtain ⟨name, val, var, hflag, rfl, hheard⟩ := heard_of_parsed hfield hv hfold
  rw [hvalue, hheard.settle hflag (verifySSL_bool _ hfield) hv doc hfirst hsecond]
  exact ⟨trimmed_resolve_iff_wins _ _ _ _, trimmed_resolve_iff_holds _ _ _ _⟩

def sampleArgs : List String :=
  ["yc", "-c", "conf.yaml", "-pingHost", "google.com", "-cmdTimeout", "30s"]

def sampleSettings : List Setting :=
  [⟨"c", "conf.yaml"⟩, ⟨"pingHost", "google.com"⟩, ⟨"cmdTimeout", "30s"⟩]

def sampleFlags : FlagPackage where
  settings args := if args = sampleArgs.tail then some sampleSettings else none
  parse kind text :=
    match kind with
    | .string => some (.str text)
    | .duration => if text = "30s" then some (.duration (30 * second)) else none
    | _ => none

def sampleDocument : Document := fun key =>
  if key = "pingHost" then some (.str "example.com")
  else if key = "cmdTimeout" then some (.duration (90 * second))
  else none

def valueOf (cells : List Cell) (name : String) : Option Value :=
  (cells.find? fun cell => cell.field.name = name).map Cell.value

/-- A computation is evaluated through an observation of its result. -/
theorem ok_of_toOption_map {ε α β : Type} {x : Except ε α} {f : α → β} {b : β}
    (h : x.toOption.map f = some b) : ∃ a, x = .ok a ∧ f a = b := by
  cases x with
  | error err => cases h
  | ok a => exact ⟨a, rfl, Option.some.inj h⟩

private theorem sample_run : ∃ cells',
    parseFlags sampleFlags (fun _ => .ok sampleDocument) sampleArgs defaultConfig = .ok cells' ∧
      valueOf cells' "PingHost" = some (.str "example.com") ∧
      valueOf cells' "CmdTimeout" = some (.duration (90 * second)) := by
  have hrun : (parseFlags sampleFlags (fun _ => .ok sampleDocument) sampleArgs
      defaultConfig).toOption.map
        (fun cells => (valueOf cells "PingHost", valueOf cells "CmdTimeout")) =
      some (some (.str "example.com"), some (.duration (90 * second))) := by
    decide +kernel
  obtain ⟨cells', hcells, hvalues⟩ := ok_of_toOption_map hrun
  obtain ⟨hhost, htimeout⟩ := Prod.mk.inj hvalues
  exact ⟨cells', hcells, hhost, htimeout⟩

/-- The host is given as its default and the timeout is a duration: the file
wins over the command line for both. -/
theorem file_overrides_command_line : ∃ cells',
    parseFlags sampleFlags (fun _ => .ok sampleDocument) sampleArgs defaultConfig = .ok cells' ∧
      explicitValue sampleFlags (tagged "PingHost" "pingHost" .string) sampleSettings =
        some (.str "google.com") ∧
      valueOf cells' "PingHost" = some (.str "example.com") ∧
      explicitValue sampleFlags (tagged "CmdTimeout" "cmdTimeout" .duration) sampleSettings =
        some (.duration (30 * second)) ∧
      valueOf cells' "CmdTimeout" = some (.duration (90 * second)) := by
  obtain ⟨cells', hrun, hhost, htimeout⟩ := sample_run
  exact ⟨cells', hrun, by decide +kernel, hhost, by decide +kernel, htimeout⟩

theorem config_path_kept : ∃ cells',
    parseFlags sampleFlags (fun _ => .ok sampleDocument) sampleArgs defaultConfig = .ok cells' ∧
      ∀ cell ∈ cells', cell.field = configPathField → cell.value = .str "conf.yaml" := by
  obtain ⟨cells', hrun, _⟩ := sample_run
  refine ⟨cells', hrun, ?_⟩
  intro cell hcell hfield
  have hpath : explicitValue sampleFlags configPathField sampleSettings =
      some (.str "conf.yaml") := by
    decide +kernel
  have hsettings : sampleFlags.settings sampleArgs.tail = some sampleSettings := by
    decide +kernel
  obtain ⟨_, hiff⟩ := cli_value_iff (fun _ => .ok sampleDocument) defaultValue sampleArgs
    "conf.yaml" sampleDocument cells' (by decide) hsettings hpath (by decide) rfl hrun
  apply (hiff cell hcell (.str "conf.yaml") ?_).2.mpr
  · rw [hfield]
    refine .inl ⟨.inl ?_, ?_⟩
    · rfl
    · rfl
  · rw [hfield]
    decide +kernel

end YcAgent.Config
