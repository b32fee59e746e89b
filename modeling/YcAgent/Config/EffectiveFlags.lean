import YcAgent.Config.Precedence

/-!
`EffectiveFlags`: the listing of every flag with its effective value that goes
into the log. The API key and the Boomi password are replaced by a fixed text,
so the listing tells only whether they are set.
-/

namespace YcAgent.Config

def sensitiveFlags : List String := ["k", "boomiPassword"]

section Listing

variable (formatV : Value → String)

def formatFlagValue (name : String) (v : Value) : String :=
  if name ∈ sensitiveFlags then
    if v = .str "" then "" else "<redacted>"
  else formatV v

/-- One round of the loop: nested structures and fields without a flag are left
out. -/
def effectiveFlag (cell : Cell) : Option String :=
  match cell.field.flagName with
  | none => none
  | some name =>
    if cell.field.kind = .healthChecks ∨ cell.field.kind = .commands then none
    else
      let origin := if cell.value = defaultValue cell.field then "default" else "set"
      some (name ++ ": " ++ formatFlagValue formatV name cell.value ++ " (" ++ origin ++ ")")

def effectiveFlags (cells : List Cell) : String :=
  ", ".intercalate (cells.filterMap (effectiveFlag formatV))

end Listing

def Field.Sensitive (field : Field) : Prop := ∃ name ∈ sensitiveFlags, field.flagName = some name

instance (field : Field) : Decidable field.Sensitive :=
  inferInstanceAs (Decidable (∃ name ∈ sensitiveFlags, field.flagName = some name))

/-- Two configurations that differ only in the values of secrets, which both of
them set. -/
structure SameButSecrets (values values' : Field → Value) : Prop where
  same : ∀ field ∈ optionFields, ¬ field.Sensitive → values field = values' field
  set : ∀ field ∈ optionFields, field.Sensitive →
    (∃ s, values field = .str s ∧ s ≠ "") ∧ ∃ s, values' field = .str s ∧ s ≠ ""

private theorem sensitive_default :
    ∀ field ∈ optionFields, field.Sensitive → defaultValue field = .str "" := by
  decide +kernel

private theorem effectiveFlag_secret (formatV : Value → String) {field : Field}
    (hfield : field ∈ optionFields) (hsensitive : field.Sensitive) {s s' : String}
    (hs : s ≠ "") (hs' : s' ≠ "") :
    effectiveFlag formatV ⟨field, .str s, none⟩ = effectiveFlag formatV ⟨field, .str s', none⟩ := by
  obtain ⟨name, hname, hflag⟩ := hsensitive
  have hdefault := sensitive_default field hfield ⟨name, hname, hflag⟩
  simp [effectiveFlag, hflag, formatFlagValue, hname, hdefault, hs, hs']

theorem effectiveFlags_alike (formatV : Value → String) {values values' : Field → Value}
    (h : SameButSecrets values values') :
    effectiveFlags formatV (options values) = effectiveFlags formatV (options values') := by
  have hcells : (options values).filterMap (effectiveFlag formatV) =
      (options values').filterMap (effectiveFlag formatV) := by
    rw [options, options, List.filterMap_map, List.filterMap_map]
    apply List.filterMap_congr
    intro field hfield
    by_cases hsensitive : field.Sensitive
    · obtain ⟨⟨s, hvalue, hs⟩, s', hvalue', hs'⟩ := h.set field hfield hsensitive
      simp only [Function.comp, hvalue, hvalue']
      exact effectiveFlag_secret formatV hfield hsensitive hs hs'
    · simp only [Function.comp, h.same field hfield hsensitive]
  rw [effectiveFlags, effectiveFlags, hcells]

end YcAgent.Config
