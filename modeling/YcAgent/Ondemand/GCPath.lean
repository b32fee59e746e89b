import YcAgent.Lib.Regex

/-!
The GC log of a Java process as its command line tells it:
`ExtractGCLogPathFromCmdline` and `GetFileFromJEP158`. Four patterns are tried
in turn until one yields a path. The one for `-Xlog:gc…:file=…` is greedy and
goes on to the last `:file=` of the argument, which need not be the output.
-/

namespace YcAgent.Ondemand.GCPath

open Lib.Regex Lib.Regex.Pattern

abbrev Text := List Char

/-- `\s` of a Go regular expression. -/
def space (c : Char) : Bool := c = '\t' || c = '\n' || c = '\x0c' || c = '\r' || c = ' '

def notSpace (c : Char) : Bool := !space c

/-- `(\S+)`. -/
def word : Pattern Char := .group (plus notSpace)

/-- `-Xloggc:(\S+)`. -/
def xloggc : Pattern Char := .seq (literal "-Xloggc:".toList) word

/-- `-Xlog:gc\S*:file=(\S+)`. -/
def xlogFile : Pattern Char :=
  .seq (literal "-Xlog:gc".toList) (.seq (.many notSpace) (.seq (literal ":file=".toList) word))

/-- `-Xlog:gc:(\S+)`. -/
def xlog : Pattern Char := .seq (literal "-Xlog:gc:".toList) word

/-- `-Xverbosegclog:(\S+)`. -/
def xverbosegclog : Pattern Char := .seq (literal "-Xverbosegclog:".toList) word

/-- `strings.SplitAfterN(s, sep, 2)` of a text that contains `sep`. -/
def splitAfter (sep : Text) : Text → Option (Text × Text)
  | [] => none
  | c :: s =>
    if sep <+: c :: s then some (sep, (c :: s).drop sep.length)
    else (splitAfter sep s).map fun (first, rest) => (c :: first, rest)

def trimSuffix (s suffix : Text) : Text :=
  if suffix <:+ s then s.take (s.length - suffix.length) else s

def trimFront (s front : Text) : Text := if front <+: s then s.drop front.length else s

def quoteOrSpace (c : Char) : Bool := c = '"' || c = ' '

/-- `strings.Trim(s, "\" ")`. -/
def trim (s : Text) : Text :=
  ((s.dropWhile quoteOrSpace).reverse.dropWhile quoteOrSpace).reverse

/-- A path without the quotes around it, escaped or not. -/
def trimQuotes (s : Text) : Text :=
  trim (trimFront (trimSuffix s "\\\"".toList) "\\\"".toList)

def getFileFromJEP158 (s : Text) : Text :=
  let (drive, rest) :=
    match splitAfter ":\\".toList s with
    | some parts => parts
    | none =>
      match splitAfter ":/".toList s with
      | some parts => parts
      | none => ([], s)
  trimQuotes (drive ++ rest.takeWhile (· ≠ ':'))

def outputFile (logFile : Text) : Text :=
  if ':' ∈ logFile then getFileFromJEP158 logFile else logFile

def verboseFile (logFile : Text) : Text :=
  if ',' ∈ logFile then
    match logFile.splitOn ',' with
    | [name, _, _] => name
    | _ => logFile
  else logFile

def attempt (p : Pattern Char) (path : Text → Text) (cmdline logFile : Text) : Text :=
  if logFile = [] then
    match p.submatch cmdline with
    | some found => path found
    | none => logFile
  else logFile

def laterAttempts (cmdline logFile : Text) : Text :=
  attempt xverbosegclog verboseFile cmdline (attempt xlog outputFile cmdline logFile)

def extractGCLogPathFromCmdline (cmdline : Text) : Text :=
  let logFile := attempt xloggc id cmdline []
  let logFile := attempt xlogFile outputFile cmdline logFile
  laterAttempts cmdline logFile

theorem submatch_xloggc (cmdline : Text) : xloggc.submatch cmdline =
    (fields space cmdline).findSome? (textAfter "-Xloggc:".toList) :=
  submatch_literal_plus_fields (fun _ => rfl) (by decide) (by simp [space]) cmdline

theorem submatch_xlogFile (cmdline : Text) : xlogFile.submatch cmdline =
    (fields space cmdline).findSome? (greedyAfter "-Xlog:gc".toList ":file=".toList) :=
  submatch_greedy_fields (fun _ => rfl) (by decide) (by simp [space]) (by simp [space]) cmdline

theorem submatch_xlog (cmdline : Text) : xlog.submatch cmdline =
    (fields space cmdline).findSome? (textAfter "-Xlog:gc:".toList) :=
  submatch_literal_plus_fields (fun _ => rfl) (by decide) (by simp [space]) cmdline

theorem submatch_xverbosegclog (cmdline : Text) : xverbosegclog.submatch cmdline =
    (fields space cmdline).findSome? (textAfter "-Xverbosegclog:".toList) :=
  submatch_literal_plus_fields (fun _ => rfl) (by decide) (by simp [space]) cmdline

/-- A path: perhaps with a drive, and with no blank, quote or other colon. -/
structure LogPath where
  drive : Text
  tail : Text
  drive_ok : drive = [] ∨ ∃ letter slash : Char, letter.isAlpha = true ∧
    (slash = '\\' ∨ slash = '/') ∧ drive = [letter, ':', slash]
  tail_ok : ∀ c ∈ tail, c ≠ ':' ∧ c ≠ '"' ∧ space c = false

def LogPath.text (path : LogPath) : Text := path.drive ++ path.tail

def jepChar (c : Char) : Bool := c.isAlphanum || c = ',' || c = '='

/-- Decorators or output options of JEP 158. -/
structure JepText where
  text : Text
  text_ok : text.all jepChar = true

def behind (ds : List JepText) : Text := ds.flatMap fun d => ':' :: d.text

@[simp] theorem behind_nil : behind [] = [] := rfl

@[simp] theorem behind_cons (d : JepText) (ds : List JepText) :
    behind (d :: ds) = ':' :: (d.text ++ behind ds) := rfl

theorem JepText.not_mem (d : JepText) {c : Char} (hc : jepChar c = false) : c ∉ d.text := by
  intro hmem
  have hok := List.all_eq_true.mp d.text_ok c hmem
  rw [hc] at hok
  cases hok

theorem JepText.colon_not_mem (d : JepText) : ':' ∉ d.text :=
  d.not_mem (by decide)

theorem not_mem_behind {c : Char} (hc : jepChar c = false) (hcolon : c ≠ ':')
    (ds : List JepText) : c ∉ behind ds := by
  induction ds with
  | nil => exact List.not_mem_nil
  | cons d ds ih =>
    rw [behind_cons, List.mem_cons, List.mem_append]
    rintro (heq | hmem | hmem)
    · exact hcolon heq
    · exact d.not_mem hc hmem
    · exact ih hmem

section Cut

variable {c : Char} {seg t : Text}

private theorem splitAfter_append (hseg : ':' ∉ seg) :
    splitAfter [':', c] (seg ++ t) =
      (splitAfter [':', c] t).map fun parts => (seg ++ parts.1, parts.2) := by
  induction seg with
  | nil => simp
  | cons a seg ih =>
    have hne : ':' ≠ a := fun heq => hseg (heq ▸ List.mem_cons_self)
    have hrest : ':' ∉ seg := fun hmem => hseg (List.mem_cons_of_mem _ hmem)
    rw [List.cons_append, splitAfter, if_neg, ih hrest, Option.map_map]
    · rfl
    · simp [List.cons_prefix_cons, hne]

private theorem splitAfter_mark : splitAfter [':', c] (':' :: c :: t) = some ([':', c], t) := by
  simp [splitAfter, List.cons_prefix_cons]

private theorem splitAfter_mark_ne (hne : t.head? ≠ some c) (hrest : splitAfter [':', c] t = none) :
    splitAfter [':', c] (':' :: t) = none := by
  rw [splitAfter, if_neg, hrest]
  · rfl
  · cases t with
    | nil => simp [List.cons_prefix_cons]
    | cons a t =>
      rw [List.head?_cons] at hne
      intro hstart
      simp only [List.cons_prefix_cons, true_and] at hstart
      exact hne (congrArg some hstart.1.symm)

private theorem splitAfter_behind (hc : jepChar c = false) (hcolon : c ≠ ':')
    (ds : List JepText) : splitAfter [':', c] (behind ds) = none := by
  induction ds with
  | nil => rfl
  | cons d ds ih =>
    have hrest : splitAfter [':', c] (d.text ++ behind ds) = none := by
      rw [splitAfter_append d.colon_not_mem, ih]
      rfl
    rw [behind_cons]
    apply splitAfter_mark_ne _ hrest
    intro hhead
    have hmem : c ∈ d.text ++ behind ds := List.mem_of_head? hhead
    rcases List.mem_append.mp hmem with hd | hds
    · exact d.not_mem hc hd
    · exact not_mem_behind hc hcolon ds hds

private theorem takeWhile_behind (hseg : ':' ∉ seg) (ds : List JepText) :
    (seg ++ behind ds).takeWhile (fun c => decide (c ≠ ':')) = seg := by
  have hpos : ∀ a ∈ seg, decide (a ≠ ':') = true := by
    intro a ha
    rw [decide_eq_true_iff]
    rintro rfl
    exact hseg ha
  rw [List.takeWhile_append_of_pos hpos]
  cases ds with
  | nil => simp
  | cons d ds => simp

private theorem splitAfter_slash_behind {slash : Char} (hslash : slash = '\\' ∨ slash = '/')
    (hseg : ':' ∉ seg) (ds : List JepText) : splitAfter [':', slash] (seg ++ behind ds) = none := by
  have hbehind : splitAfter [':', slash] (behind ds) = none := by
    rcases hslash with rfl | rfl
    · exact splitAfter_behind (by decide) (by decide) ds
    · exact splitAfter_behind (by decide) (by decide) ds
  rw [splitAfter_append hseg, hbehind]
  rfl

/-- Without a drive the file ends at the first colon. -/
theorem getFileFromJEP158_plain (hseg : ':' ∉ seg) (ds : List JepText) :
    getFileFromJEP158 (seg ++ behind ds) = trimQuotes seg := by
  have hback : splitAfter ":\\".toList (seg ++ behind ds) = none :=
    splitAfter_slash_behind (.inl rfl) hseg ds
  have hslash : splitAfter ":/".toList (seg ++ behind ds) = none :=
    splitAfter_slash_behind (.inr rfl) hseg ds
  simp only [getFileFromJEP158, hback, hslash, List.nil_append, takeWhile_behind hseg]

/-- With a drive it ends at the colon after that. -/
theorem getFileFromJEP158_drive {slash : Char} (hslash : slash = '\\' ∨ slash = '/')
    (hseg : ':' ∉ seg) (ht : ':' ∉ t) (ds : List JepText) :
    getFileFromJEP158 (seg ++ ':' :: slash :: (t ++ behind ds)) =
      trimQuotes (seg ++ ':' :: slash :: t) := by
  have hcut (slash : Char) : splitAfter [':', slash] (seg ++ ':' :: slash :: (t ++ behind ds)) =
      some (seg ++ [':', slash], t ++ behind ds) := by
    rw [splitAfter_append hseg, splitAfter_mark]
    rfl
  rcases hslash with rfl | rfl
  · have hback : splitAfter ":\\".toList (seg ++ ':' :: '\\' :: (t ++ behind ds)) =
        some (seg ++ [':', '\\'], t ++ behind ds) := hcut '\\'
    simp only [getFileFromJEP158, hback, takeWhile_behind ht, List.append_assoc, List.cons_append,
      List.nil_append]
  · have hback : splitAfter ":\\".toList (seg ++ ':' :: '/' :: (t ++ behind ds)) = none := by
      change splitAfter [':', '\\'] _ = none
      rw [splitAfter_append hseg, splitAfter_mark_ne (by simp)]
      · rfl
      · have hrest : ':' ∉ '/' :: t := by simpa using ht
        exact splitAfter_slash_behind (.inl rfl) hrest ds
    have hslash : splitAfter ":/".toList (seg ++ ':' :: '/' :: (t ++ behind ds)) =
        some (seg ++ [':', '/'], t ++ behind ds) := hcut '/'
    simp only [getFileFromJEP158, hback, hslash, takeWhile_behind ht, List.append_assoc,
      List.cons_append, List.nil_append]

end Cut

inductive Quotes where
  | bare
  | plain
  | escaped
  deriving DecidableEq

def Quotes.mark : Quotes → Text
  | .bare => []
  | .plain => "\"".toList
  | .escaped => "\\\"".toList

def Quotes.wrap (q : Quotes) (path : LogPath) : Text := q.mark ++ path.text ++ q.mark

@[simp] theorem Quotes.bare_wrap (path : LogPath) : Quotes.bare.wrap path = path.text :=
  List.append_nil _

theorem Quotes.colon_not_mem (q : Quotes) : ':' ∉ q.mark := by
  cases q with
  | bare => decide
  | plain => decide
  | escaped => decide

theorem LogPath.colon_not_mem (path : LogPath) : ':' ∉ path.tail :=
  fun hmem => (path.tail_ok ':' hmem).1 rfl

theorem Quotes.colon_not_mem_wrap (q : Quotes) {path : LogPath} (hdrive : path.drive = []) :
    ':' ∉ q.wrap path := by
  simp [Quotes.wrap, LogPath.text, hdrive, q.colon_not_mem, path.colon_not_mem]

/-- The only colon is that of a drive, with its slash behind it. -/
theorem Quotes.wrap_cases (q : Quotes) (path : LogPath) :
    ':' ∉ q.wrap path ∨ ∃ (front back : Text) (slash : Char), (slash = '\\' ∨ slash = '/') ∧
      ':' ∉ front ∧ ':' ∉ back ∧ q.wrap path = front ++ ':' :: slash :: back := by
  rcases path.drive_ok with hdrive | ⟨letter, slash, hletter, hslash, hdrive⟩
  · exact .inl (q.colon_not_mem_wrap hdrive)
  · have hne : ':' ≠ letter := by
      rintro rfl
      exact absurd hletter (by decide)
    refine .inr ⟨q.mark ++ [letter], path.tail ++ q.mark, slash, hslash, ?_, ?_, ?_⟩
    · simp [q.colon_not_mem, hne]
    · simp [q.colon_not_mem, path.colon_not_mem]
    · simp [Quotes.wrap, LogPath.text, hdrive]

/-- Whatever decorators and options there are, what is left is the path with
its quotes trimmed. -/
theorem getFileFromJEP158_wrap (q : Quotes) (path : LogPath) (ds : List JepText) :
    getFileFromJEP158 (q.wrap path ++ behind ds) = trimQuotes (q.wrap path) := by
  rcases q.wrap_cases path with hwrap | ⟨front, back, slash, hslash, hfront, hback, hwrap⟩
  · exact getFileFromJEP158_plain hwrap ds
  · have hfile := getFileFromJEP158_drive hslash hfront hback ds
    rw [hwrap, ← hfile, List.append_assoc]
    rfl

private theorem dropWhile_clean {s : Text} (hs : ∀ c ∈ s, quoteOrSpace c = false) (t : Text)
    (ht : ∀ c ∈ t, quoteOrSpace c = true) :
    (s ++ t).dropWhile quoteOrSpace = if s = [] then [] else s ++ t := by
  cases s with
  | nil =>
    have hall : (t ++ []).dropWhile quoteOrSpace = ([] : Text).dropWhile quoteOrSpace :=
      List.dropWhile_append_of_pos ht
    simpa using hall
  | cons c s => simp [hs c List.mem_cons_self]

theorem trim_around {front s back : Text} (hfront : ∀ c ∈ front, quoteOrSpace c = true)
    (hback : ∀ c ∈ back, quoteOrSpace c = true) (hs : ∀ c ∈ s, quoteOrSpace c = false) :
    trim (front ++ s ++ back) = s := by
  have hreverse : ∀ c ∈ s.reverse, quoteOrSpace c = false := by simpa using hs
  have hback' : ∀ c ∈ back.reverse, quoteOrSpace c = true := by simpa using hback
  have hlast := dropWhile_clean hreverse [] (by simp)
  rw [List.append_nil] at hlast
  rw [trim, List.append_assoc, List.dropWhile_append_of_pos hfront, dropWhile_clean hs back hback]
  split
  · next hnil => simp [hnil]
  · next hne =>
      rw [List.reverse_append, List.dropWhile_append_of_pos hback', hlast]
      simp [hne]

theorem trim_of_clean {s : Text} (hs : ∀ c ∈ s, quoteOrSpace c = false) : trim s = s := by
  have hnone : ∀ c ∈ ([] : Text), quoteOrSpace c = true := by simp
  simpa using trim_around hnone hnone hs

theorem trimQuotes_of_clean {s : Text} (hs : ∀ c ∈ s, quoteOrSpace c = false) :
    trimQuotes s = s := by
  have hquote : '"' ∉ s := fun hmem => absurd (hs _ hmem) (by decide)
  have hsuffix : ¬ "\\\"".toList <:+ s := fun h => hquote (h.mem (by decide))
  have hfront : ¬ "\\\"".toList <+: s := fun h => hquote (h.mem (by decide))
  rw [trimQuotes, trimSuffix, if_neg hsuffix, trimFront, if_neg hfront, trim_of_clean hs]

theorem quoteOrSpace_of_not_mem {s : Text} (hquote : '"' ∉ s) (hblank : ' ' ∉ s) :
    ∀ c ∈ s, quoteOrSpace c = false := by
  intro c hc
  have hne : c ≠ '"' := fun heq => hquote (heq ▸ hc)
  have hne' : c ≠ ' ' := fun heq => hblank (heq ▸ hc)
  simp [quoteOrSpace, hne, hne']

theorem LogPath.not_mem_drive (path : LogPath) {c : Char} (hc : c.isAlpha = false)
    (hcolon : c ≠ ':') (hback : c ≠ '\\') (hslash : c ≠ '/') : c ∉ path.drive := by
  rcases path.drive_ok with hnone | ⟨letter, slash, hletter, hmark, hsome⟩
  · rw [hnone]
    exact List.not_mem_nil
  · have hne : c ≠ letter := by
      rintro rfl
      rw [hc] at hletter
      cases hletter
    rw [hsome]
    rcases hmark with rfl | rfl
    · simp [hne, hcolon, hback]
    · simp [hne, hcolon, hslash]

theorem LogPath.quote_not_mem (path : LogPath) : '"' ∉ path.text := by
  intro hmem
  rcases List.mem_append.mp hmem with hdrive | htail
  · exact path.not_mem_drive (by decide) (by decide) (by decide) (by decide) hdrive
  · exact (path.tail_ok _ htail).2.1 rfl

theorem LogPath.blank_not_mem (path : LogPath) {b : Char} (hb : space b = true) :
    b ∉ path.text := by
  have hdrive : b ∉ path.drive := by
    simp only [space, Bool.or_eq_true, decide_eq_true_eq] at hb
    rcases hb with (((rfl | rfl) | rfl) | rfl) | rfl <;>
      exact path.not_mem_drive (by decide) (by decide) (by decide) (by decide)
  intro hmem
  rcases List.mem_append.mp hmem with hmem | htail
  · exact hdrive hmem
  · rw [(path.tail_ok _ htail).2.2] at hb
    cases hb

theorem LogPath.clean (path : LogPath) : ∀ c ∈ path.text, quoteOrSpace c = false :=
  quoteOrSpace_of_not_mem path.quote_not_mem (path.blank_not_mem (by decide))

theorem trimQuotes_path (path : LogPath) : trimQuotes path.text = path.text :=
  trimQuotes_of_clean path.clean

theorem JepText.clean (d : JepText) : ∀ c ∈ d.text, quoteOrSpace c = false :=
  quoteOrSpace_of_not_mem (d.not_mem (by decide)) (d.not_mem (by decide))

/-- The text behind `file=` in the last of the fields that start with it and
have any text behind it, up to the next field. -/
def lastOutput : List JepText → Option Text
  | [] => none
  | d :: ds => (lastOutput ds).or
      (if "file=".toList <+: d.text ∧ (d.text.drop 5 ≠ [] ∨ ds ≠ []) then
        some (d.text.drop 5)
      else none)

theorem outputFile_plain {v : Text} (hcolon : ':' ∉ v) (hclean : ∀ c ∈ v, quoteOrSpace c = false)
    (ds : List JepText) : outputFile (v ++ behind ds) = v := by
  rw [outputFile]
  split
  · rw [getFileFromJEP158_plain hcolon, trimQuotes_of_clean hclean]
  · next hnone =>
      cases ds with
      | nil => rw [behind_nil, List.append_nil]
      | cons d ds => exact absurd (by simp) hnone

theorem outputFile_path (path : LogPath) (ds : List JepText) :
    outputFile (path.text ++ behind ds) = path.text := by
  rw [outputFile]
  split
  · have hfile := getFileFromJEP158_wrap .bare path ds
    rw [Quotes.bare_wrap] at hfile
    rw [hfile, trimQuotes_path]
  · next hnone =>
      cases ds with
      | nil => rw [behind_nil, List.append_nil]
      | cons d ds => exact absurd (by simp) hnone

private theorem prefix_behind_iff (d : JepText) (ds : List JepText) :
    "file=".toList <+: d.text ++ behind ds ↔ "file=".toList <+: d.text := by
  constructor
  · intro h
    rcases List.prefix_or_prefix_of_prefix h (List.prefix_append d.text (behind ds)) with
      hd | ⟨more, heq⟩
    · exact hd
    · cases more with
      | nil =>
        rw [← heq, List.append_nil]
      | cons c more =>
        rw [← heq, List.prefix_append_right_inj] at h
        cases ds with
        | nil => exact absurd (List.prefix_nil.mp h) (List.cons_ne_nil _ _)
        | cons d' ds =>
          rw [behind_cons, List.cons_prefix_cons] at h
          have hcolon : ':' ∈ "file=".toList := by
            rw [← heq, ← h.1]
            simp
          exact absurd hcolon (by decide)
  · intro h
    exact h.trans (List.prefix_append _ _)

private theorem restAfter_behind (d : JepText) (ds : List JepText) :
    restAfter "file=".toList (d.text ++ behind ds) =
      if "file=".toList <+: d.text ∧ (d.text.drop 5 ≠ [] ∨ ds ≠ []) then
        some (d.text.drop 5 ++ behind ds)
      else none := by
  simp only [restAfter, prefix_behind_iff]
  by_cases hd : "file=".toList <+: d.text
  · have hlength : "file=".toList.length ≤ d.text.length := hd.length_le
    have hdrop : (d.text ++ behind ds).drop "file=".toList.length = d.text.drop 5 ++ behind ds :=
      List.drop_append_of_le_length hlength
    have hbehind : behind ds = [] ↔ ds = [] := by
      cases ds with
      | nil => simp
      | cons d ds => simp
    simp only [hdrop, hd, true_and, ne_eq, List.append_eq_nil_iff, hbehind, not_and_or]
  · simp only [hd, false_and, if_false]

/-- In the fields the greedy pattern finds the last output. -/
theorem textAfterLast_behind (ds : List JepText) :
    (textAfterLast ":file=".toList (behind ds)).map outputFile = lastOutput ds := by
  induction ds with
  | nil => rfl
  | cons d ds ih =>
    change (textAfterLast (':' :: "file=".toList) (':' :: (d.text ++ behind ds))).map outputFile = _
    rw [textAfterLast_mark, textAfterLast_append d.colon_not_mem, restAfter_behind,
      lastOutput, ← ih]
    have hdrop : outputFile (d.text.drop 5 ++ behind ds) = d.text.drop 5 := by
      apply outputFile_plain
      · exact fun hmem => d.colon_not_mem (List.mem_of_mem_drop hmem)
      · exact fun c hc => d.clean c (List.mem_of_mem_drop hc)
    change ((textAfterLast ":file=".toList (behind ds)).or _).map outputFile = _
    cases textAfterLast ":file=".toList (behind ds) with
    | some v => rfl
    | none =>
      rw [Option.none_or, Option.map_none, Option.none_or]
      split
      · rw [Option.map_some, hdrop]
      · rfl

theorem textAfterLast_wrap (q : Quotes) (path : LogPath) (t : Text) :
    textAfterLast ":file=".toList (q.wrap path ++ t) = textAfterLast ":file=".toList t := by
  change textAfterLast (':' :: "file=".toList) _ = textAfterLast (':' :: "file=".toList) _
  rcases q.wrap_cases path with hwrap | ⟨front, back, slash, hslash, hfront, hback, hwrap⟩
  · exact textAfterLast_append hwrap
  · have hrest : ':' ∉ slash :: back := by
      rcases hslash with rfl | rfl
      · simp [hback]
      · simp [hback]
    have hnone : restAfter "file=".toList (slash :: back ++ t) = none := by
      rcases hslash with rfl | rfl
      · simp [restAfter]
      · simp [restAfter]
    rw [hwrap, List.append_assoc, textAfterLast_append hfront, List.cons_append, textAfterLast_mark,
      textAfterLast_append hrest, hnone, Option.or_none]

/-- The second attempt at an argument with an output file: the last output of
its fields, or else the path. -/
theorem output_of_argument (selectors : Text) (hselectors : ':' ∉ selectors) (q : Quotes)
    (path : LogPath) (ds : List JepText) (hne : q.wrap path ++ behind ds ≠ []) :
    (greedyAfter "-Xlog:gc".toList ":file=".toList ("-Xlog:gc".toList ++ (selectors ++
      (":file=".toList ++ (q.wrap path ++ behind ds))))).map outputFile =
      some ((lastOutput ds).getD (outputFile (q.wrap path ++ behind ds))) := by
  have hlast : textAfterLast ":file=".toList
      (selectors ++ (":file=".toList ++ (q.wrap path ++ behind ds))) =
      (textAfterLast ":file=".toList (behind ds)).or (some (q.wrap path ++ behind ds)) := by
    change textAfterLast (':' :: "file=".toList)
      (selectors ++ ':' :: ("file=".toList ++ (q.wrap path ++ behind ds))) = _
    rw [textAfterLast_append hselectors, textAfterLast_mark, textAfterLast_append (by decide)]
    change (textAfterLast ":file=".toList (q.wrap path ++ behind ds)).or _ = _
    rw [textAfterLast_wrap]
    congr 1
    rw [restAfter, List.drop_left, if_pos ⟨List.prefix_append _ _, hne⟩]
  rw [← textAfterLast_behind]
  cases hbehind : textAfterLast ":file=".toList (behind ds) with
  | some v =>
    rw [hbehind, Option.some_or] at hlast
    rw [greedyAfter_append hlast]
    rfl
  | none =>
    rw [hbehind, Option.none_or] at hlast
    rw [greedyAfter_append hlast]
    rfl

private theorem attempt_nil (p : Pattern Char) (path : Text → Text) (cmdline : Text) :
    attempt p path cmdline [] = ((p.submatch cmdline).map path).getD [] := by
  rw [attempt, if_pos rfl]
  cases p.submatch cmdline with
  | none => rfl
  | some found => rfl

private theorem attempt_of_ne_nil {logFile : Text} (hne : logFile ≠ []) (p : Pattern Char)
    (path : Text → Text) (cmdline : Text) : attempt p path cmdline logFile = logFile :=
  if_neg hne

/-- The file that `-Xlog:gc:` names in the arguments, or else `-Xverbosegclog:`. -/
def namedOtherwise (args : List Text) : Text :=
  let named := ((args.findSome? (textAfter "-Xlog:gc:".toList)).map outputFile).getD []
  if named = [] then
    ((args.findSome? (textAfter "-Xverbosegclog:".toList)).map verboseFile).getD []
  else named

theorem laterAttempts_nil (cmdline : Text) :
    laterAttempts cmdline [] = namedOtherwise (fields space cmdline) := by
  rw [laterAttempts, attempt_nil, submatch_xlog, namedOtherwise]
  split
  · next hnil => rw [hnil, attempt_nil, submatch_xverbosegclog]
  · next hne => rw [attempt_of_ne_nil hne]

theorem laterAttempts_of_ne_nil {logFile : Text} (hne : logFile ≠ []) (cmdline : Text) :
    laterAttempts cmdline logFile = logFile := by
  rw [laterAttempts, attempt_of_ne_nil hne, attempt_of_ne_nil hne]

/-- An argument with `-Xloggc:` in it decides alone. -/
theorem extractGCLogPathFromCmdline_of_xloggc {cmdline v : Text}
    (hfound : (fields space cmdline).findSome? (textAfter "-Xloggc:".toList) = some v) :
    extractGCLogPathFromCmdline cmdline = v := by
  have hne : v ≠ [] := by
    obtain ⟨word, _, hword⟩ := List.exists_of_findSome?_eq_some hfound
    exact (textAfter_eq_some hword).1
  rw [extractGCLogPathFromCmdline, attempt_nil, submatch_xloggc, hfound]
  change laterAttempts cmdline (attempt xlogFile outputFile cmdline v) = v
  rw [attempt_of_ne_nil hne, laterAttempts_of_ne_nil hne]

theorem extractGCLogPathFromCmdline_of_no_xloggc {cmdline : Text}
    (hnone : (fields space cmdline).findSome? (textAfter "-Xloggc:".toList) = none) {v : Text}
    (hfound : ((fields space cmdline).findSome?
      (greedyAfter "-Xlog:gc".toList ":file=".toList)).map outputFile = some v) :
    extractGCLogPathFromCmdline cmdline =
      if v = [] then namedOtherwise (fields space cmdline) else v := by
  rw [extractGCLogPathFromCmdline, attempt_nil, submatch_xloggc, hnone]
  change laterAttempts cmdline (attempt xlogFile outputFile cmdline []) = _
  rw [attempt_nil, submatch_xlogFile, hfound, Option.getD_some]
  split
  · next hnil => rw [hnil, laterAttempts_nil]
  · next hne => rw [laterAttempts_of_ne_nil hne]

theorem extractGCLogPathFromCmdline_of_no_file {cmdline : Text}
    (hnone : (fields space cmdline).findSome? (textAfter "-Xloggc:".toList) = none)
    (hfile : (fields space cmdline).findSome?
      (greedyAfter "-Xlog:gc".toList ":file=".toList) = none) :
    extractGCLogPathFromCmdline cmdline = namedOtherwise (fields space cmdline) := by
  rw [extractGCLogPathFromCmdline, attempt_nil, submatch_xloggc, hnone]
  change laterAttempts cmdline (attempt xlogFile outputFile cmdline []) = _
  rw [attempt_nil, submatch_xlogFile, hfile]
  exact laterAttempts_nil cmdline

/-- `-Xlog:gc<selectors>:file=P[:decorators[:options]]`, with any number of
fields behind the path. -/
structure FileOption where
  selectors : Text
  path : LogPath
  rest : List JepText
  selectors_ok : ∀ c ∈ selectors, c ≠ ':' ∧ space c = false
  path_ok : path.text ≠ []

def FileOption.argument (option : FileOption) : Text :=
  "-Xlog:gc".toList ++ (option.selectors ++
    (":file=".toList ++ (option.path.text ++ behind option.rest)))

/-- A command line with that option, and no other argument that holds both
`-Xlog:gc` and `:file=`. -/
structure CommandLine (option : FileOption) where
  text : Text
  before : List Text
  after : List Text
  split : fields space text = before ++ option.argument :: after
  others : ∀ argument ∈ before ++ after,
    ¬ ("-Xlog:gc".toList <:+: argument ∧ ":file=".toList <:+: argument)

theorem CommandLine.output {option : FileOption} (cmdline : CommandLine option) :
    ((fields space cmdline.text).findSome?
      (greedyAfter "-Xlog:gc".toList ":file=".toList)).map outputFile =
      some ((lastOutput option.rest).getD option.path.text) := by
  have hbefore : cmdline.before.findSome? (greedyAfter "-Xlog:gc".toList ":file=".toList) =
      none := by
    rw [List.findSome?_eq_none_iff]
    intro argument hmem
    exact greedyAfter_eq_none (cmdline.others argument (List.mem_append_left _ hmem))
  have hselectors : ':' ∉ option.selectors := fun hmem => (option.selectors_ok _ hmem).1 rfl
  have hne : Quotes.bare.wrap option.path ++ behind option.rest ≠ [] := by
    rw [Quotes.bare_wrap]
    exact List.append_ne_nil_of_left_ne_nil option.path_ok _
  have hargument := output_of_argument option.selectors hselectors .bare option.path option.rest hne
  rw [Quotes.bare_wrap, outputFile_path] at hargument
  change (greedyAfter _ _ option.argument).map outputFile = _ at hargument
  obtain ⟨v, hv, hpath⟩ := Option.map_eq_some_iff.mp hargument
  rw [cmdline.split, List.findSome?_append, hbefore, Option.none_or, List.findSome?_cons, hv]
  exact congrArg some hpath

/-- What stands between the path and the result: text behind `-Xloggc:` in some
argument, or a field behind the path that starts with `file=`. -/
def PathDecides (option : FileOption) (args : List Text) : Prop :=
  match args.findSome? (textAfter "-Xloggc:".toList) with
  | some v => v = option.path.text
  | none => ∀ v, lastOutput option.rest = some v →
      v = option.path.text ∨ (v = [] ∧ namedOtherwise args = option.path.text)

/-- The path behind the first `:file=` is what is extracted, whatever selectors and
fields are around it, if and only if it decides. -/
theorem file_option_path_iff (option : FileOption) (cmdline : CommandLine option) :
    extractGCLogPathFromCmdline cmdline.text = option.path.text ↔
      PathDecides option (fields space cmdline.text) := by
  rw [PathDecides]
  split
  · next v hfound => rw [extractGCLogPathFromCmdline_of_xloggc hfound]
  · next hnone =>
      rw [extractGCLogPathFromCmdline_of_no_xloggc hnone cmdline.output]
      cases hlast : lastOutput option.rest with
      | none => simp [option.path_ok]
      | some v =>
        have hpath := option.path_ok
        by_cases hv : v = []
        · simp [hv, hpath.symm]
        · simp [hv]

set_option maxRecDepth 8000 in
/-- Decorators and options without a `file=` leave the path to be found. -/
theorem decorated_option_path_found : ∃ (option : FileOption) (cmdline : CommandLine option),
    cmdline.text =
      "java -Xlog:gc*:file=/tmp/gc.log:time,level:filecount=5 -jar app.jar".toList ∧
    PathDecides option (fields space cmdline.text) ∧
    option.path.text = "/tmp/gc.log".toList ∧
    extractGCLogPathFromCmdline cmdline.text = option.path.text :=
  let option : FileOption :=
    { selectors := "*".toList
      path := ⟨[], "/tmp/gc.log".toList, .inl rfl, by simp [space]⟩
      rest := [⟨"time,level".toList, by decide⟩, ⟨"filecount=5".toList, by decide⟩]
      selectors_ok := by simp [space]
      path_ok := by decide }
  let cmdline : CommandLine option :=
    { text := "java -Xlog:gc*:file=/tmp/gc.log:time,level:filecount=5 -jar app.jar".toList
      before := ["java".toList]
      after := ["-jar".toList, "app.jar".toList]
      split := by decide
      others := by decide }
  have hdecides : PathDecides option (fields space cmdline.text) := by
    have hnone : (fields space cmdline.text).findSome? (textAfter "-Xloggc:".toList) = none := by
      decide
    have hlast : lastOutput option.rest = none := by decide
    rw [PathDecides, hnone, hlast]
    intro v hv
    cases hv
  ⟨option, cmdline, rfl, hdecides, by decide, (file_option_path_iff option cmdline).mpr hdecides⟩

set_option maxRecDepth 8000 in
/-- The field behind the path is taken for the output. -/
theorem last_file_field_taken_for_path : ∃ (option : FileOption) (cmdline : CommandLine option),
    cmdline.text = "java -Xlog:gc*:file=/tmp/gc.log:file=abc -jar app.jar".toList ∧
    (∀ argument ∈ fields space cmdline.text, ¬ "-Xloggc:".toList <:+: argument) ∧
    option.path.text = "/tmp/gc.log".toList ∧
    extractGCLogPathFromCmdline cmdline.text = "abc".toList :=
  let option : FileOption :=
    { selectors := "*".toList
      path := ⟨[], "/tmp/gc.log".toList, .inl rfl, by simp [space]⟩
      rest := [⟨"file=abc".toList, by decide⟩]
      selectors_ok := by simp [space]
      path_ok := by decide }
  let cmdline : CommandLine option :=
    { text := "java -Xlog:gc*:file=/tmp/gc.log:file=abc -jar app.jar".toList
      before := ["java".toList]
      after := ["-jar".toList, "app.jar".toList]
      split := by decide
      others := by decide }
  ⟨option, cmdline, rfl, by decide, by decide, by decide⟩

set_option maxRecDepth 8000 in
example : extractGCLogPathFromCmdline
    "java -Dhint=-Xloggc:/tmp/old.log -Xlog:gc*:file=/tmp/gc.log".toList =
    "/tmp/old.log".toList := by
  decide

end YcAgent.Ondemand.GCPath
