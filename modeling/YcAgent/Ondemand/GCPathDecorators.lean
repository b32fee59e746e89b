import YcAgent.Ondemand.GCPath

/-!
The GC log path of `-Xlog:gc*:file=P` with and without decorators and options
behind the path. `GetFileFromJEP158` takes the quotes off a path, and is only
called when there is a colon in the text, so it takes a drive or decorators to
lose them.
-/

namespace YcAgent.Ondemand.GCPath

open Lib.Regex

/-- `-Xlog:gc*:file=P` and the fields behind it. -/
def fileArgument (q : Quotes) (path : LogPath) (ds : List JepText) : Text :=
  "-Xlog:gc*:file=".toList ++ (q.wrap path ++ behind ds)

theorem fileArgument_eq (q : Quotes) (path : LogPath) (ds : List JepText) :
    fileArgument q path ds = "-Xlog:gc*:file=".toList ++ (q.wrap path ++ behind ds) := rfl

/-- A quote, escaped or not, is left at an end of the text. -/
def Quoted (s : Text) : Prop :=
  "\"".toList <+: s ∨ "\\\"".toList <+: s ∨ "\"".toList <:+ s

theorem Quotes.blank_not_mem (q : Quotes) {b : Char} (hb : space b = true) : b ∉ q.mark := by
  cases q with
  | bare => exact List.not_mem_nil
  | plain =>
    intro hmem
    rw [List.mem_singleton.mp hmem] at hb
    exact absurd hb (by decide)
  | escaped =>
    intro hmem
    have hnone : ∀ c ∈ Quotes.escaped.mark, space c = false := by simp [Quotes.mark, space]
    rw [hnone b hmem] at hb
    cases hb

theorem blank_not_mem_behind {b : Char} (hb : space b = true) (ds : List JepText) :
    b ∉ behind ds := by
  simp only [space, Bool.or_eq_true, decide_eq_true_eq] at hb
  rcases hb with (((rfl | rfl) | rfl) | rfl) | rfl <;>
    exact not_mem_behind (by decide) (by decide) ds

theorem dash_not_mem_fields (d : JepText) (ds : List JepText) : '-' ∉ d.text ++ behind ds := by
  rw [List.mem_append, not_or]
  exact ⟨d.not_mem (by decide), not_mem_behind (by decide) (by decide) ds⟩

theorem fields_fileArgument (q : Quotes) (path : LogPath) (ds : List JepText) :
    fields space (fileArgument q path ds) = [fileArgument q path ds] := by
  have hne : fileArgument q path ds ≠ [] := by
    rw [fileArgument_eq]
    exact List.append_ne_nil_of_left_ne_nil (by decide) _
  have hword : ∀ c ∈ fileArgument q path ds, space c = false := by
    intro c hc
    by_contra hspace
    rw [Bool.not_eq_false] at hspace
    simp only [fileArgument_eq, Quotes.wrap, List.mem_append] at hc
    rcases hc with hc | ((hc | hc) | hc) | hc
    · have hnone : ∀ c ∈ "-Xlog:gc*:file=".toList, space c = false := by simp [space]
      rw [hnone c hc] at hspace
      cases hspace
    · exact q.blank_not_mem hspace hc
    · exact path.blank_not_mem hspace hc
    · exact q.blank_not_mem hspace hc
    · exact blank_not_mem_behind hspace ds hc
  rw [fields_of_not_blank hword, if_neg hne]

/-- A word that starts with what a front lacks ends a text just in case it ends
what is behind that front. -/
private theorem suffix_append_iff {a : Char} {l front back : Text} (hfront : a ∉ front) :
    a :: l <:+ front ++ back ↔ a :: l <:+ back := by
  constructor
  · intro h
    rcases List.suffix_or_suffix_of_suffix h (List.suffix_append front back) with hl | ⟨more, heq⟩
    · exact hl
    · cases more with
      | nil => rw [← heq, List.nil_append]
      | cons b more =>
        rw [List.cons_append, List.cons.injEq] at heq
        obtain ⟨rfl, rfl⟩ := heq
        obtain ⟨before, hbefore⟩ := h
        rw [← List.cons_append, ← List.append_assoc] at hbefore
        have hmem : b ∈ front := by
          rw [← List.append_cancel_right hbefore]
          simp
        exact absurd hmem hfront
  · intro h
    exact h.trans (List.suffix_append _ _)

section Options

variable {l r : Text} (q : Quotes) (path : LogPath)

private theorem dash_not_mem_front : '-' ∉ q.mark ++ path.drive := by
  intro hmem
  rcases List.mem_append.mp hmem with hq | hdrive
  · cases q with
    | bare => cases hq
    | plain => exact absurd hq (by decide)
    | escaped => exact absurd hq (by decide)
  · exact path.not_mem_drive (by decide) (by decide) (by decide) (by decide) hdrive

private theorem wrap_eq : q.wrap path = (q.mark ++ path.drive) ++ (path.tail ++ q.mark) := by
  simp [Quotes.wrap, LogPath.text]

/-- An option's name other than at the start of the argument: the path ends in
it and there are fields behind the path. -/
theorem textAfter_fileArgument (hl : ':' ∉ '-' :: l)
    (hhead : ∀ t, restAfter ('-' :: l ++ ':' :: r) ("-Xlog:gc*:file=".toList ++ t) = none)
    (ds : List JepText) :
    textAfter ('-' :: l ++ ':' :: r) (fileArgument q path ds) =
      match ds with
      | [] => none
      | d :: ds =>
        if '-' :: l <:+ q.wrap path then restAfter r (d.text ++ behind ds) else none := by
  have hfront : '-' ∉ "Xlog:gc*:file=".toList ++ (q.mark ++ path.drive) := by
    rw [List.mem_append, not_or]
    exact ⟨by decide, dash_not_mem_front q path⟩
  have hcolon : ':' ∉ path.tail ++ q.mark := by
    simp [q.colon_not_mem, path.colon_not_mem]
  have hsplit : fileArgument q path ds = '-' :: (("Xlog:gc*:file=".toList ++
      (q.mark ++ path.drive)) ++ ((path.tail ++ q.mark) ++ behind ds)) := by
    have hliteral : "-Xlog:gc*:file=".toList = '-' :: "Xlog:gc*:file=".toList := by decide
    rw [fileArgument_eq, wrap_eq, hliteral]
    simp only [List.cons_append, List.append_assoc]
  have hskip : textAfter ('-' :: l ++ ':' :: r) (fileArgument q path ds) =
      textAfter ('-' :: l ++ ':' :: r) ((path.tail ++ q.mark) ++ behind ds) := by
    have hnone := hhead (q.wrap path ++ behind ds)
    change restAfter _ (fileArgument q path ds) = none at hnone
    rw [hsplit] at hnone
    rw [hsplit, textAfter_cons, hnone, Option.none_or]
    exact textAfter_append hfront
  rw [hskip]
  cases ds with
  | nil =>
    rw [behind_nil, List.append_nil]
    exact textAfter_of_not_mem (a := ':') (by simp) hcolon
  | cons d ds =>
    have hdash := dash_not_mem_fields d ds
    rw [behind_cons, textAfter_mark hl hcolon, textAfter_of_not_mem (a := '-') (by simp) hdash,
      Option.or_none]
    simp only [wrap_eq, suffix_append_iff (dash_not_mem_front q path)]

end Options

private theorem not_suffix_wrap {l : Text} {q : Quotes} {path : LogPath} (hl : '"' ∉ '-' :: l)
    (hdash : q = .bare → '-' ∉ path.tail) : ¬ '-' :: l <:+ q.wrap path := by
  intro h
  rw [wrap_eq, suffix_append_iff (dash_not_mem_front q path)] at h
  have hquote (front : Text) (heq : path.tail ++ q.mark = front ++ ['"']) : False := by
    obtain ⟨before, hbefore⟩ := h
    have hlast := congrArg List.getLast? (hbefore.trans heq)
    rw [List.getLast?_append_of_ne_nil _ (List.cons_ne_nil _ _), List.getLast?_concat] at hlast
    exact hl (List.mem_of_getLast? hlast)
  cases q with
  | bare =>
    have hmem := h.mem List.mem_cons_self
    rw [Quotes.mark, List.append_nil] at hmem
    exact hdash rfl hmem
  | plain => exact hquote path.tail rfl
  | escaped =>
    apply hquote (path.tail ++ ['\\'])
    rw [List.append_assoc]
    rfl

theorem xloggc_fileArgument (q : Quotes) (path : LogPath) (ds : List JepText) :
    textAfter "-Xloggc:".toList (fileArgument q path ds) =
      match ds with
      | [] => none
      | d :: ds =>
        if "-Xloggc".toList <:+ q.wrap path then restAfter [] (d.text ++ behind ds) else none := by
  have hliteral : "-Xloggc:".toList = '-' :: "Xloggc".toList ++ ':' :: [] := by decide
  have hname : "-Xloggc".toList = '-' :: "Xloggc".toList := by decide
  rw [hliteral, hname]
  exact textAfter_fileArgument q path (by decide) (fun t => by simp [restAfter]) ds

theorem xlog_fileArgument (q : Quotes) (path : LogPath) (ds : List JepText) :
    textAfter "-Xlog:gc:".toList (fileArgument q path ds) =
      match ds with
      | [] => none
      | d :: ds =>
        if '-' :: "Xlog".toList <:+ q.wrap path then restAfter "gc:".toList (d.text ++ behind ds)
        else none := by
  have hliteral : "-Xlog:gc:".toList = '-' :: "Xlog".toList ++ ':' :: "gc:".toList := by decide
  rw [hliteral]
  exact textAfter_fileArgument q path (by decide) (fun t => by simp [restAfter]) ds

theorem xverbosegclog_fileArgument (q : Quotes) (path : LogPath) (ds : List JepText) :
    textAfter "-Xverbosegclog:".toList (fileArgument q path ds) =
      match ds with
      | [] => none
      | d :: ds =>
        if '-' :: "Xverbosegclog".toList <:+ q.wrap path then restAfter [] (d.text ++ behind ds)
        else none := by
  have hliteral : "-Xverbosegclog:".toList = '-' :: "Xverbosegclog".toList ++ ':' :: [] := by
    decide
  rw [hliteral]
  exact textAfter_fileArgument q path (by decide) (fun t => by simp [restAfter]) ds

private theorem namedOtherwise_singleton {argument : Text}
    (hxlog : textAfter "-Xlog:gc:".toList argument = none) :
    namedOtherwise [argument] =
      ((textAfter "-Xverbosegclog:".toList argument).map verboseFile).getD [] := by
  simp only [namedOtherwise, List.findSome?_cons, hxlog, List.findSome?_nil, Option.map_none,
    Option.getD_none, if_true]
  cases textAfter "-Xverbosegclog:".toList argument with
  | none => rfl
  | some v => rfl

/-- A dash in a bare path is all that lets a later attempt find something. -/
theorem namedOtherwise_eq_nil {q : Quotes} {path : LogPath} (hdash : q = .bare → '-' ∉ path.tail)
    (ds : List JepText) : namedOtherwise [fileArgument q path ds] = [] := by
  have hxlog : textAfter "-Xlog:gc:".toList (fileArgument q path ds) = none := by
    rw [xlog_fileArgument]
    cases ds with
    | nil => rfl
    | cons d ds => exact if_neg (not_suffix_wrap (by decide) hdash)
  have hverbose : textAfter "-Xverbosegclog:".toList (fileArgument q path ds) = none := by
    rw [xverbosegclog_fileArgument]
    cases ds with
    | nil => rfl
    | cons d ds => exact if_neg (not_suffix_wrap (by decide) hdash)
  rw [namedOtherwise_singleton hxlog, hverbose]
  rfl

private theorem not_mem_verboseFile {c : Char} {t : Text} (hc : c ∉ t) : c ∉ verboseFile t := by
  rw [verboseFile]
  split
  · split
    · next name _ _ hsplit =>
        have hjoin : [','].intercalate (t.splitOn ',') = t := List.intercalate_splitOn ','
        rw [hsplit] at hjoin
        intro hmem
        apply hc
        rw [← hjoin]
        simp [List.intercalate, hmem]
    · exact hc
  · exact hc

/-- What a later attempt then finds has no dash itself. -/
theorem dash_not_mem_namedOtherwise (q : Quotes) (path : LogPath) {d : JepText}
    (hd : "file=".toList <+: d.text) (ds : List JepText) :
    '-' ∉ namedOtherwise [fileArgument q path (d :: ds)] := by
  have hxlog : textAfter "-Xlog:gc:".toList (fileArgument q path (d :: ds)) = none := by
    obtain ⟨more, hmore⟩ := hd
    have hnone : restAfter "gc:".toList (d.text ++ behind ds) = none := by
      rw [← hmore]
      simp [restAfter]
    simp only [xlog_fileArgument, hnone, ite_self]
  rw [namedOtherwise_singleton hxlog]
  cases hverbose : textAfter "-Xverbosegclog:".toList (fileArgument q path (d :: ds)) with
  | none => exact List.not_mem_nil
  | some v =>
    rw [xverbosegclog_fileArgument] at hverbose
    apply not_mem_verboseFile
    simp only at hverbose
    split at hverbose
    · have hv := (restAfter_eq_some hverbose).2
      rw [List.nil_append] at hv
      rw [hv]
      exact dash_not_mem_fields d ds
    · cases hverbose

private theorem trimSuffix_append (s t : Text) : trimSuffix (s ++ t) t = s := by
  rw [trimSuffix, if_pos (List.suffix_append _ _), List.length_append, Nat.add_sub_cancel,
    List.take_left]

private theorem trimFront_append (s t : Text) : trimFront (t ++ s) t = s := by
  rw [trimFront, if_pos (List.prefix_append _ _), List.drop_left]

/-- The path without its quotes; a backslash before a plain quote goes with it. -/
theorem trimQuotes_wrap (q : Quotes) (path : LogPath) :
    trimQuotes (q.wrap path) = path.text ∨ trimQuotes (q.wrap path) = path.text.dropLast := by
  have hquote : ∀ c ∈ ['"'], quoteOrSpace c = true := by simp [quoteOrSpace]
  have hnone : ∀ c ∈ ([] : Text), quoteOrSpace c = true := by simp
  have hfront (s : Text) : trimFront ('"' :: s) "\\\"".toList = '"' :: s := by
    simp [trimFront]
  cases q with
  | bare =>
    rw [Quotes.bare_wrap]
    exact .inl (trimQuotes_path path)
  | escaped =>
    left
    rw [trimQuotes, Quotes.wrap, Quotes.mark, trimSuffix_append, trimFront_append,
      trim_of_clean path.clean]
  | plain =>
    have hwrap : Quotes.plain.wrap path = '"' :: (path.text ++ ['"']) := rfl
    rw [hwrap, trimQuotes]
    by_cases hsuffix : "\\\"".toList <:+ '"' :: (path.text ++ ['"'])
    · right
      obtain ⟨before, hbefore⟩ := hsuffix
      have hcancel : before ++ ['\\'] = '"' :: path.text := by
        have heq : (before ++ ['\\']) ++ ['"'] = ('"' :: path.text) ++ ['"'] := by
          simpa using hbefore
        exact List.append_cancel_right heq
      rw [← hbefore, trimSuffix_append]
      cases before with
      | nil => cases hcancel
      | cons c before =>
        rw [List.cons_append, List.cons.injEq] at hcancel
        obtain ⟨rfl, htext⟩ := hcancel
        have hclean : ∀ c ∈ before, quoteOrSpace c = false := by
          intro c hc
          apply path.clean
          rw [← htext]
          exact List.mem_append_left _ hc
        have htrim := trim_around hquote hnone hclean
        rw [List.append_nil] at htrim
        rw [hfront, ← htext, List.dropLast_concat]
        exact htrim
    · left
      rw [trimSuffix, if_neg hsuffix, hfront]
      exact trim_around hquote hquote path.clean

theorem quote_not_mem_trimQuotes (q : Quotes) (path : LogPath) :
    '"' ∉ trimQuotes (q.wrap path) := by
  rcases trimQuotes_wrap q path with htext | htext
  · rw [htext]
    exact path.quote_not_mem
  · rw [htext]
    exact fun hmem => path.quote_not_mem (List.mem_of_mem_dropLast hmem)

theorem LogPath.colon_mem_dropLast {path : LogPath} (hdrive : path.drive ≠ []) :
    ':' ∈ path.text.dropLast := by
  rcases path.drive_ok with hnone | ⟨letter, slash, _, _, hsome⟩
  · exact absurd hnone hdrive
  · simp [LogPath.text, hsome, List.dropLast]

theorem colon_mem_trimQuotes (q : Quotes) {path : LogPath} (hdrive : path.drive ≠ []) :
    ':' ∈ trimQuotes (q.wrap path) := by
  have hcolon := path.colon_mem_dropLast hdrive
  rcases trimQuotes_wrap q path with htext | htext
  · rw [htext]
    exact List.mem_of_mem_dropLast hcolon
  · rw [htext]
    exact hcolon

section Arguments

variable {q : Quotes} {path : LogPath}

theorem outputFile_wrap (hquotes : q = .bare ∨ path.drive ≠ []) (ds : List JepText) :
    outputFile (q.wrap path ++ behind ds) = trimQuotes (q.wrap path) := by
  rcases hquotes with rfl | hdrive
  · rw [Quotes.bare_wrap, outputFile_path, trimQuotes_path]
  · have hcolon : ':' ∈ q.wrap path ++ behind ds := by
      apply List.mem_append_left
      rw [Quotes.wrap]
      exact List.mem_append_left _ (List.mem_append_right _
        (List.mem_of_mem_dropLast (path.colon_mem_dropLast hdrive)))
    rw [outputFile, if_pos hcolon, getFileFromJEP158_wrap]

theorem extract_fileArgument {ds : List JepText}
    (hnone : textAfter "-Xloggc:".toList (fileArgument q path ds) = none)
    (hne : q.wrap path ++ behind ds ≠ []) {v : Text}
    (hv : (lastOutput ds).getD (outputFile (q.wrap path ++ behind ds)) = v) :
    extractGCLogPathFromCmdline (fileArgument q path ds) =
      if v = [] then namedOtherwise [fileArgument q path ds] else v := by
  have hliteral : "-Xlog:gc*:file=".toList =
      "-Xlog:gc".toList ++ ("*".toList ++ ":file=".toList) := by decide
  have houtput := output_of_argument "*".toList (by decide) q path ds hne
  have hargument : "-Xlog:gc".toList ++ ("*".toList ++ (":file=".toList ++
      (q.wrap path ++ behind ds))) = fileArgument q path ds := by
    rw [fileArgument_eq, hliteral, List.append_assoc, List.append_assoc]
  rw [hargument, hv] at houtput
  have hfields := fields_fileArgument q path ds
  have hloggc : (fields space (fileArgument q path ds)).findSome?
      (textAfter "-Xloggc:".toList) = none := by
    rw [hfields, List.findSome?_singleton, hnone]
  have hfound : ((fields space (fileArgument q path ds)).findSome?
      (greedyAfter "-Xlog:gc".toList ":file=".toList)).map outputFile = some v := by
    rw [hfields, List.findSome?_singleton, houtput]
  rw [extractGCLogPathFromCmdline_of_no_xloggc hloggc hfound, hfields]

theorem extract_of_no_output (hquotes : q = .bare ∨ path.drive ≠ []) {ds : List JepText}
    (hnone : textAfter "-Xloggc:".toList (fileArgument q path ds) = none)
    (hlast : lastOutput ds = none) :
    extractGCLogPathFromCmdline (fileArgument q path ds) = trimQuotes (q.wrap path) := by
  by_cases hne : q.wrap path ++ behind ds = []
  · have hwrap : q.wrap path = [] := (List.append_eq_nil_iff.mp hne).1
    rw [fileArgument_eq, hne, hwrap]
    decide
  · have hv : (lastOutput ds).getD (outputFile (q.wrap path ++ behind ds)) =
        trimQuotes (q.wrap path) := by
      rw [hlast, Option.getD_none, outputFile_wrap hquotes]
    rw [extract_fileArgument hnone hne hv]
    split
    · next hnil =>
        rw [hnil]
        apply namedOtherwise_eq_nil
        rintro rfl
        rw [Quotes.bare_wrap, trimQuotes_path, LogPath.text, List.append_eq_nil_iff] at hnil
        rw [hnil.2]
        exact List.not_mem_nil
    · rfl

theorem colon_not_mem_lastOutput {ds : List JepText} {v : Text} (h : lastOutput ds = some v) :
    ':' ∉ v := by
  induction ds with
  | nil => cases h
  | cons d ds ih =>
    rw [lastOutput, Option.or_eq_some_iff] at h
    rcases h with hlater | ⟨_, hhere⟩
    · exact ih hlater
    · split at hhere
      · cases hhere
        exact fun hmem => d.colon_not_mem (List.mem_of_mem_drop hmem)
      · cases hhere

/-- Of one or two fields only the first can be an empty output. -/
private theorem file_of_empty_output {d : JepText} {ds : List JepText} (hshort : ds.length ≤ 1)
    (h : lastOutput (d :: ds) = some []) : "file=".toList <+: d.text := by
  have hlater : lastOutput ds ≠ some [] := by
    match ds, hshort with
    | [], _ =>
      intro hnil
      cases hnil
    | [o], _ =>
      intro hnil
      rw [lastOutput, lastOutput, Option.none_or] at hnil
      split at hnil
      · next hoption =>
          rcases hoption.2 with hne | hne
          · exact hne (Option.some.inj hnil)
          · exact hne rfl
      · cases hnil
  rw [lastOutput, Option.or_eq_some_iff] at h
  rcases h with hnil | ⟨_, hhere⟩
  · exact absurd hnil hlater
  · split at hhere
    · next hfile => exact hfile.1
    · cases hhere

private theorem namedOtherwise_eq_iff (hquotes : q = .bare ∨ path.drive ≠ []) {d : JepText}
    (hd : "file=".toList <+: d.text) (ds : List JepText) :
    namedOtherwise [fileArgument q path (d :: ds)] = trimQuotes (q.wrap path) ↔
      q = .bare ∧ path.text = [] := by
  by_cases hdash : q = .bare → '-' ∉ path.tail
  · rw [namedOtherwise_eq_nil hdash]
    constructor
    · intro heq
      have hbare : q = .bare := by
        rcases hquotes with hbare | hdrive
        · exact hbare
        · have hcolon := colon_mem_trimQuotes q hdrive
          rw [← heq] at hcolon
          cases hcolon
      subst hbare
      rw [Quotes.bare_wrap, trimQuotes_path] at heq
      exact ⟨rfl, heq.symm⟩
    · rintro ⟨rfl, hnil⟩
      rw [Quotes.bare_wrap, trimQuotes_path, hnil]
  · rw [Classical.not_imp, not_not] at hdash
    obtain ⟨rfl, hmem⟩ := hdash
    have hpath : '-' ∈ path.text := List.mem_append_right _ hmem
    rw [Quotes.bare_wrap, trimQuotes_path]
    constructor
    · intro heq
      have hnone := dash_not_mem_namedOtherwise .bare path hd ds
      rw [heq] at hnone
      exact absurd hpath hnone
    · intro hnil
      rw [hnil.2] at hpath
      cases hpath

theorem extract_of_output (hquotes : q = .bare ∨ path.drive ≠ []) {d : JepText}
    {ds : List JepText} (hshort : ds.length ≤ 1)
    (hnone : textAfter "-Xloggc:".toList (fileArgument q path (d :: ds)) = none) {v : Text}
    (hlast : lastOutput (d :: ds) = some v) :
    extractGCLogPathFromCmdline (fileArgument q path (d :: ds)) = trimQuotes (q.wrap path) ↔
      q = .bare ∧ v = path.text := by
  have hne : q.wrap path ++ behind (d :: ds) ≠ [] := by simp
  have hv : (lastOutput (d :: ds)).getD (outputFile (q.wrap path ++ behind (d :: ds))) = v := by
    rw [hlast, Option.getD_some]
  rw [extract_fileArgument hnone hne hv]
  split
  · next hnil =>
      subst hnil
      rw [namedOtherwise_eq_iff hquotes (file_of_empty_output hshort hlast),
        eq_comm (a := path.text)]
  · constructor
    · intro heq
      rcases hquotes with rfl | hdrive
      · rw [Quotes.bare_wrap, trimQuotes_path] at heq
        exact ⟨rfl, heq⟩
      · have hcolon := colon_mem_trimQuotes q hdrive
        rw [← heq] at hcolon
        exact absurd hcolon (colon_not_mem_lastOutput hlast)
    · rintro ⟨rfl, heq⟩
      rw [Quotes.bare_wrap, trimQuotes_path, heq]

theorem extract_with_fields_iff (hquotes : q = .bare ∨ path.drive ≠ [])
    (hoption : ¬ "-Xloggc".toList <:+ q.wrap path) {d : JepText} {ds : List JepText}
    (hshort : ds.length ≤ 1) :
    extractGCLogPathFromCmdline (fileArgument q path (d :: ds)) = trimQuotes (q.wrap path) ↔
      ∀ v, lastOutput (d :: ds) = some v → q = .bare ∧ v = path.text := by
  have hnone : textAfter "-Xloggc:".toList (fileArgument q path (d :: ds)) = none := by
    rw [xloggc_fileArgument]
    exact if_neg hoption
  cases hlast : lastOutput (d :: ds) with
  | none =>
    have hpath := extract_of_no_output hquotes hnone hlast
    simp [hpath]
  | some v =>
    rw [extract_of_output hquotes hshort hnone hlast]
    simp

theorem extract_alone (hquotes : q = .bare ∨ path.drive ≠ []) :
    extractGCLogPathFromCmdline (fileArgument q path []) = trimQuotes (q.wrap path) :=
  extract_of_no_output hquotes (xloggc_fileArgument q path []) rfl

/-- Alone, a quoted path without a drive keeps its quotes. -/
theorem quoted_alone (hquotes : ¬ (q = .bare ∨ path.drive ≠ [])) :
    Quoted (extractGCLogPathFromCmdline (fileArgument q path [])) := by
  obtain ⟨hbare, hdrive⟩ := not_or.mp hquotes
  rw [not_not] at hdrive
  have hcolon := q.colon_not_mem_wrap hdrive
  have hne : q.wrap path ≠ [] := by
    cases q with
    | bare => exact absurd rfl hbare
    | plain => exact List.cons_ne_nil _ _
    | escaped => exact List.cons_ne_nil _ _
  have hv : (lastOutput []).getD (outputFile (q.wrap path ++ behind [])) = q.wrap path := by
    rw [behind_nil, List.append_nil, outputFile, if_neg hcolon]
    rfl
  rw [extract_fileArgument (xloggc_fileArgument q path []) (by simpa using hne) hv, if_neg hne]
  cases q with
  | bare => exact absurd rfl hbare
  | plain => exact .inl ⟨path.text ++ ['"'], rfl⟩
  | escaped => exact .inr (.inl ⟨path.text ++ "\\\"".toList, rfl⟩)

/-- A path that ends in `-Xloggc` makes an option with the colon behind it. -/
theorem extract_with_xloggc (hoption : "-Xloggc".toList <:+ q.wrap path) (d o : JepText) :
    extractGCLogPathFromCmdline (fileArgument q path [d, o]) ≠
      extractGCLogPathFromCmdline (fileArgument q path []) := by
  have hbare : q = .bare ∧ '-' ∈ path.tail := by
    by_contra hnot
    have hdash : q = .bare → '-' ∉ path.tail := fun hq hmem => hnot ⟨hq, hmem⟩
    exact not_suffix_wrap (l := "Xloggc".toList) (by decide) hdash hoption
  obtain ⟨rfl, hmem⟩ := hbare
  have hfound : (fields space (fileArgument .bare path [d, o])).findSome?
      (textAfter "-Xloggc:".toList) = some (d.text ++ behind [o]) := by
    have hrest : restAfter [] (d.text ++ behind [o]) = some (d.text ++ behind [o]) := by
      simp [restAfter]
    rw [fields_fileArgument, List.findSome?_singleton, xloggc_fileArgument]
    exact (if_pos hoption).trans hrest
  rw [extractGCLogPathFromCmdline_of_xloggc hfound, extract_alone (.inl rfl), Quotes.bare_wrap,
    trimQuotes_path]
  intro heq
  have hpath : '-' ∈ path.text := List.mem_append_right _ hmem
  rw [← heq] at hpath
  exact dash_not_mem_fields d [o] hpath

end Arguments

/-- When decorators and options leave the path alone: its quotes come off in any case,
it does not make an `-Xloggc` option of the argument, and no field behind it is taken
for the file in its place. -/
structure PathKept (q : Quotes) (path : LogPath) (d o : JepText) : Prop where
  quotes : q = .bare ∨ path.drive ≠ []
  option : ¬ "-Xloggc".toList <:+ q.wrap path
  decorators : ∀ v, lastOutput [d] = some v → q = .bare ∧ v = path.text
  options : ∀ v, lastOutput [d, o] = some v → q = .bare ∧ v = path.text

/-- The path that is extracted has no quotes and does not depend on the decorators
and the options, if and only if these leave it alone. -/
theorem decorators_keep_path_iff (q : Quotes) (path : LogPath) (d o : JepText) :
    (extractGCLogPathFromCmdline (fileArgument q path [d]) =
        extractGCLogPathFromCmdline (fileArgument q path []) ∧
      extractGCLogPathFromCmdline (fileArgument q path [d, o]) =
        extractGCLogPathFromCmdline (fileArgument q path []) ∧
      ¬ Quoted (extractGCLogPathFromCmdline (fileArgument q path []))) ↔
      PathKept q path d o := by
  constructor
  · rintro ⟨hdecorators, hoptions, hplain⟩
    have hquotes : q = .bare ∨ path.drive ≠ [] := by
      by_contra hnot
      exact hplain (quoted_alone hnot)
    have hoption : ¬ "-Xloggc".toList <:+ q.wrap path :=
      fun hends => extract_with_xloggc hends d o hoptions
    rw [extract_alone hquotes] at hdecorators hoptions
    exact ⟨hquotes, hoption,
      (extract_with_fields_iff hquotes hoption (Nat.zero_le _)).mp hdecorators,
      (extract_with_fields_iff hquotes hoption (Nat.le_refl _)).mp hoptions⟩
  · intro hkept
    have hplain : ¬ Quoted (trimQuotes (q.wrap path)) := by
      have hquote := quote_not_mem_trimQuotes q path
      rintro (hfront | hfront | hback)
      · exact hquote (hfront.mem (by decide))
      · exact hquote (hfront.mem (by decide))
      · exact hquote (hback.mem (by decide))
    rw [extract_alone hkept.quotes]
    exact ⟨(extract_with_fields_iff hkept.quotes hkept.option (Nat.zero_le _)).mpr hkept.decorators,
      (extract_with_fields_iff hkept.quotes hkept.option (Nat.le_refl _)).mpr hkept.options, hplain⟩

/-- With a drive in front, the quotes come off in every case. -/
theorem quoted_drive_path_kept :
    let path : LogPath := ⟨"F:/".toList, "tmp/gc.log".toList,
      .inr ⟨'F', '/', by decide, .inr rfl, rfl⟩, by simp [space]⟩
    let time : JepText := ⟨"time".toList, by decide⟩
    let count : JepText := ⟨"filecount=5".toList, by decide⟩
    PathKept .plain path time count ∧
      extractGCLogPathFromCmdline (fileArgument .plain path [time, count]) =
        extractGCLogPathFromCmdline (fileArgument .plain path []) := by
  intro path time count
  have hkept : PathKept .plain path time count :=
    { quotes := .inr (by decide)
      option := by decide
      decorators := by
        intro v hv
        rw [show lastOutput [time] = none by decide] at hv
        cases hv
      options := by
        intro v hv
        rw [show lastOutput [time, count] = none by decide] at hv
        cases hv }
  exact ⟨hkept, ((decorators_keep_path_iff .plain path time count).mpr hkept).2.1⟩

/-- The quotes stay on, and decorators take them off. -/
theorem quotes_come_off_with_decorators :
    let path : LogPath := ⟨[], "/tmp/gc.log".toList, .inl rfl, by simp [space]⟩
    let time : JepText := ⟨"time".toList, by decide⟩
    extractGCLogPathFromCmdline (fileArgument .plain path []) = "\"/tmp/gc.log\"".toList ∧
      extractGCLogPathFromCmdline (fileArgument .plain path [time]) = "/tmp/gc.log".toList := by
  decide

end YcAgent.Ondemand.GCPath
