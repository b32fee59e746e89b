import YcAgent.Ondemand.GCPath

/-!
The GC log path of `-Xlog:<what>:<output>[:<decorators>[:<options>]]` for
outputs without `file=`. The pattern for them is `-Xlog:gc:(\S+)`: it looks for
the one selector `gc`, and whatever text stands in the place of the output is
taken for a path, `stdout` and `stderr` too.
-/

namespace YcAgent.Ondemand.GCPath

open Lib.Regex

inductive XlogOutput where
  | file (path : LogPath) (plain : path.text ∉ [[], "stdout".toList, "stderr".toList])
  | stdout
  | stderr
  | empty

def XlogOutput.text : XlogOutput → Text
  | .file path _ => path.text
  | .stdout => "stdout".toList
  | .stderr => "stderr".toList
  | .empty => []

/-- `-Xlog:<what>:<output>`, with any number of fields behind the output. -/
structure XlogOption where
  what : Text
  output : XlogOutput
  rest : List JepText
  what_ok : ':' ∉ what

namespace XlogOption

def setting (option : XlogOption) : Text :=
  option.what ++ ':' :: (option.output.text ++ behind option.rest)

def argument (option : XlogOption) : Text := "-Xlog".toList ++ ':' :: option.setting

/-- The file that the option names to the extraction. -/
def named (option : XlogOption) : Text :=
  match option.output with
  | .file path _ => if option.what = "gc".toList then path.text else []
  | _ => []

end XlogOption

def gcOptions : List Text :=
  ["-Xloggc:".toList, "-Xlog:gc".toList, "-Xverbosegclog:".toList]

/-- A command line with that option and no other for a GC log: nowhere else
does it hold the letters that such an option starts with. -/
structure OnlyXlog (option : XlogOption) where
  text : Text
  before : List Text
  after : List Text
  split : fields space text = before ++ option.argument :: after
  unfiled : ¬ ":file=".toList <:+: option.argument
  inside : ∀ start ∈ gcOptions, ¬ start <:+: option.setting
  others : ∀ argument ∈ before ++ after, ∀ start ∈ gcOptions, ¬ start <:+: argument

section Search

variable {option : XlogOption}

/-- What one of the options is followed by, in the option or behind its start. -/
theorem OnlyXlog.textAfter_eq (cmdline : OnlyXlog option) (start : Text) {l r : Text} (hl : ':' ∉ l)
    (hstart : start ∈ gcOptions) (hlead : start <+: l ++ ':' :: r) :
    (fields space cmdline.text).findSome? (textAfter (l ++ ':' :: r)) =
      if l <:+ "-Xlog".toList then restAfter r option.setting else none := by
  have hnone {s : Text} (hs : ¬ start <:+: s) : textAfter (l ++ ':' :: r) s = none :=
    textAfter_eq_none fun h => hs (hlead.isInfix.trans h)
  have hother : ∀ args : List Text, (∀ a ∈ args, a ∈ cmdline.before ++ cmdline.after) →
      args.findSome? (textAfter (l ++ ':' :: r)) = none := by
    intro args hargs
    rw [List.findSome?_eq_none_iff]
    intro a ha
    exact hnone (cmdline.others a (hargs a ha) start hstart)
  have hcolon : ':' ∉ "-Xlog".toList := by decide
  rw [cmdline.split, List.findSome?_append, hother _ fun a => List.mem_append_left _,
    Option.none_or,
    List.findSome?_cons]
  delta XlogOption.argument
  -- a name keeps the literal from being unfolded
  generalize "-Xlog".toList = name at hcolon ⊢
  rw [textAfter_mark hl hcolon, hnone (cmdline.inside start hstart), Option.or_none,
    hother _ fun a => List.mem_append_right _]
  split
  · next v hv => exact hv.symm
  · next hv => exact hv.symm

theorem OnlyXlog.no_xloggc (cmdline : OnlyXlog option) :
    (fields space cmdline.text).findSome? (textAfter "-Xloggc:".toList) = none := by
  have hliteral : "-Xloggc:".toList = "-Xloggc".toList ++ ':' :: [] := by decide
  rw [hliteral, cmdline.textAfter_eq "-Xloggc:".toList (by decide) (by decide) (by decide)]
  exact if_neg (by decide)

theorem OnlyXlog.no_xverbosegclog (cmdline : OnlyXlog option) :
    (fields space cmdline.text).findSome? (textAfter "-Xverbosegclog:".toList) = none := by
  have hliteral : "-Xverbosegclog:".toList = "-Xverbosegclog".toList ++ ':' :: [] := by decide
  rw [hliteral,
    cmdline.textAfter_eq "-Xverbosegclog:".toList (by decide) (by decide) (by decide)]
  exact if_neg (by decide)

theorem OnlyXlog.no_file (cmdline : OnlyXlog option) : (fields space cmdline.text).findSome?
    (greedyAfter "-Xlog:gc".toList ":file=".toList) = none := by
  rw [List.findSome?_eq_none_iff]
  intro argument hmem
  apply greedyAfter_eq_none
  rintro ⟨hxlog, hfile⟩
  rw [cmdline.split] at hmem
  rcases List.mem_append.1 hmem with hbefore | hmem
  · exact cmdline.others argument (List.mem_append_left _ hbefore) _ (by decide) hxlog
  rcases List.mem_cons.1 hmem with rfl | hafter
  · exact cmdline.unfiled hfile
  · exact cmdline.others argument (List.mem_append_right _ hafter) _ (by decide) hxlog

/-- The third attempt finds the output and what is behind it, if the selector
is `gc`. -/
theorem OnlyXlog.xlog_found (cmdline : OnlyXlog option) :
    (fields space cmdline.text).findSome? (textAfter "-Xlog:gc:".toList) =
      if option.what = "gc".toList then restAfter [] (option.output.text ++ behind option.rest)
      else none := by
  have hliteral : "-Xlog:gc:".toList = "-Xlog".toList ++ ':' :: "gc:".toList := by decide
  have hselector : "gc:".toList = "gc".toList ++ ':' :: [] := by decide
  rw [hliteral, cmdline.textAfter_eq "-Xlog:gc".toList (by decide) (by decide) (by decide),
    if_pos (List.suffix_refl _), hselector, XlogOption.setting,
    restAfter_mark (by decide) option.what_ok]
  exact if_congr eq_comm rfl rfl

end Search

private theorem clean_of_all {v : Text} (h : v.all (fun c => !quoteOrSpace c) = true) :
    ∀ c ∈ v, quoteOrSpace c = false := by
  intro c hc
  simpa using List.all_eq_true.1 h c hc

theorem outputFile_output (output : XlogOutput) (rest : List JepText) :
    outputFile (output.text ++ behind rest) = output.text := by
  cases output with
  | file path _ => exact outputFile_path path rest
  | stdout => exact outputFile_plain (by decide) (clean_of_all (by decide)) rest
  | stderr => exact outputFile_plain (by decide) (clean_of_all (by decide)) rest
  | empty => exact outputFile_plain (by decide) (clean_of_all (by decide)) rest

/-- The text in the place of the output is taken for the path if the selector
is `gc`. -/
theorem OnlyXlog.extracted_eq {option : XlogOption} (cmdline : OnlyXlog option) :
    extractGCLogPathFromCmdline cmdline.text =
      if option.what = "gc".toList then option.output.text else [] := by
  have hnamed : (((fields space cmdline.text).findSome? (textAfter "-Xlog:gc:".toList)).map
      outputFile).getD [] = if option.what = "gc".toList then option.output.text else [] := by
    rw [cmdline.xlog_found]
    split
    · rw [restAfter, List.length_nil, List.drop_zero]
      split
      · rw [Option.map_some, Option.getD_some, outputFile_output]
      · next hnone =>
          have hempty : option.output.text ++ behind option.rest = [] := by
            by_contra hne
            exact hnone ⟨List.nil_prefix, hne⟩
          exact (List.append_eq_nil_iff.1 hempty).1.symm
    · rfl
  rw [extractGCLogPathFromCmdline_of_no_file cmdline.no_xloggc cmdline.no_file,
    namedOtherwise, hnamed,
    cmdline.no_xverbosegclog]
  generalize (if option.what = "gc".toList then option.output.text else []) = named
  simp only [Option.map_none, Option.getD_none]
  split
  · next hnil => exact hnil.symm
  · rfl

/-- For the selector `gc` the file of the output is extracted, and nothing if
the output is empty; for every other selector nothing is. -/
theorem extracted_of_only_xlog {option : XlogOption} (cmdline : OnlyXlog option)
    (hstream : option.what = "gc".toList → option.output ≠ .stdout ∧ option.output ≠ .stderr) :
    extractGCLogPathFromCmdline cmdline.text = option.named := by
  rw [cmdline.extracted_eq, XlogOption.named]
  split
  · next hwhat =>
      cases houtput : option.output with
      | file path plain => rfl
      | stdout => exact absurd houtput (hstream hwhat).1
      | stderr => exact absurd houtput (hstream hwhat).2
      | empty => rfl
  · cases option.output with
    | _ => rfl

def tmpGcLog : LogPath := ⟨[], "/tmp/gc.log".toList, .inl rfl, by simp [space]⟩

def tmpGcLogOption (what : Text) (what_ok : ':' ∉ what) : XlogOption where
  what := what
  output := .file tmpGcLog (by decide)
  rest := [⟨"time".toList, by decide⟩]
  what_ok := what_ok

set_option maxRecDepth 8000 in
theorem gc_output_extracted : ∃ (option : XlogOption) (cmdline : OnlyXlog option),
    cmdline.text = "java -Xlog:gc:/tmp/gc.log:time -jar app.jar".toList ∧
    option.what = "gc".toList ∧ option.named = "/tmp/gc.log".toList ∧
    extractGCLogPathFromCmdline cmdline.text = option.named :=
  let option := tmpGcLogOption "gc".toList (by decide)
  let cmdline : OnlyXlog option :=
    { text := "java -Xlog:gc:/tmp/gc.log:time -jar app.jar".toList
      before := ["java".toList]
      after := ["-jar".toList, "app.jar".toList]
      split := by decide
      unfiled := by decide
      inside := by decide
      others := by decide }
  ⟨option, cmdline, rfl, rfl, by decide, extracted_of_only_xlog cmdline fun _ => ⟨nofun, nofun⟩⟩

set_option maxRecDepth 8000 in
/-- Nothing is extracted for another selector, though the output is a file. -/
theorem wildcard_output_not_extracted : ∃ (option : XlogOption) (cmdline : OnlyXlog option),
    cmdline.text = "java -Xlog:gc*:/tmp/gc.log:time -jar app.jar".toList ∧
    option.what = "gc*".toList ∧ option.output.text = "/tmp/gc.log".toList ∧
    extractGCLogPathFromCmdline cmdline.text = [] :=
  let option := tmpGcLogOption "gc*".toList (by decide)
  let cmdline : OnlyXlog option :=
    { text := "java -Xlog:gc*:/tmp/gc.log:time -jar app.jar".toList
      before := ["java".toList]
      after := ["-jar".toList, "app.jar".toList]
      split := by decide
      unfiled := by decide
      inside := by decide
      others := by decide }
  ⟨option, cmdline, rfl, rfl, by decide, by decide⟩

set_option maxRecDepth 8000 in
example : extractGCLogPathFromCmdline "java -Xlog:gc:stdout -jar app.jar".toList =
    "stdout".toList := by
  decide

end YcAgent.Ondemand.GCPath
