import YcAgent.Go.Url

/-!
The URLs of the uploads that carry the name of a file: application logs, access
logs and extended data. The name is written into the query as it is, so it comes
back only if it has no byte that a query gives a meaning to; and the two
captures of the M3 mode never say that a file is compressed.
-/

namespace YcAgent.Capture.UploadUrl

open Go

structure FileName where
  name : Bytes
  nonempty : name ≠ []
  no_slash : (47 : UInt8) ∉ name
  no_nul : (0 : UInt8) ∉ name

def dot : UInt8 := 46

/-- `strings.TrimPrefix(filepath.Ext(name), ".")`. -/
def fileExt (name : Bytes) : Bytes :=
  if dot ∈ name then (name.reverse.takeWhile (· ≠ dot)).reverse else []

def compressedFileExtensions : List Bytes := [ascii "zip", ascii "gz"]

def isCompressedFileExt (s : Bytes) : Bool := compressedFileExtensions.any fun ext => ext == s

def buildPostData (fileName ext : Bytes) (isCompressed : Bool) : Bytes :=
  let dt := ascii "applog&logName=" ++ fileName
  if isCompressed then dt ++ ascii "&content-encoding=" ++ ext else dt

/-- An upload; the two of the M3 mode send the process id as well. -/
inductive Upload where
  | appLog (file : FileName)
  | appLogM3 (file : FileName) (pid : Int)
  | accessLogM3 (file : FileName) (pid : Int)
  | extendedData (file : FileName)

namespace Upload

def file : Upload → FileName
  | appLog file | appLogM3 file _ | accessLogM3 file _ | extendedData file => file

def data : Upload → Bytes
  | appLog file =>
    let ext := fileExt file.name
    buildPostData file.name ext (isCompressedFileExt ext)
  | appLogM3 file pid => ascii "applog&logName=" ++ file.name ++ ascii "&pid=" ++ itoa pid
  | accessLogM3 file pid => ascii "accessLog&logName=" ++ file.name ++ ascii "&pid=" ++ itoa pid
  | extendedData file =>
    let ext := fileExt file.name
    let data := ascii "ed&fileName=" ++ file.name
    if isCompressedFileExt ext then data ++ ascii "&content-encoding=" ++ ext else data

/-- The type of the data and the parameter for the name of the file. -/
def dataType : Upload → Bytes
  | appLog _ | appLogM3 _ _ => ascii "applog"
  | accessLogM3 _ _ => ascii "accessLog"
  | extendedData _ => ascii "ed"

def nameKey : Upload → Bytes
  | appLog _ | appLogM3 _ _ | accessLogM3 _ _ => ascii "logName"
  | extendedData _ => ascii "fileName"

def pid : Upload → Option Int
  | appLog _ | extendedData _ => none
  | appLogM3 _ pid | accessLogM3 _ pid => some pid

def intended (u : Upload) : List (Bytes × Bytes) :=
  [(ascii "dt", u.dataType), (u.nameKey, u.file.name)] ++
    (u.pid.map fun pid => (ascii "pid", itoa pid)).toList ++
    if isCompressedFileExt (fileExt u.file.name) then
      [(ascii "content-encoding", fileExt u.file.name)]
    else []

end Upload

structure Endpoint where
  base : Bytes
  query : Bytes
  base_bytes : ∀ b ∈ base, b ≠ questionMark ∧ b ≠ hashSign ∧ isControl b = false
  query_unbroken : Unbroken query

def Endpoint.text (e : Endpoint) : Bytes := e.base ++ questionMark :: e.query

/-- `PostData` and `PostCustomDataWithPositionFuncWithTimeout` up to the URL. -/
def uploadURL (e : Endpoint) (u : Upload) : Bytes :=
  let params := ascii "dt=" ++ u.data
  e.text ++ ascii "&" ++ params

/-- The server reads the parameters of the endpoint and those of the upload, in
some order, and no others. -/
def Survives (e : Endpoint) (u : Upload) : Prop :=
  ∃ pairs, urlQuery (uploadURL e u) = some pairs ∧ pairs.Perm (parseQuery e.query ++ u.intended)

namespace Upload

def last : Upload → Option (Bytes × Bytes)
  | appLog file | extendedData file =>
    if isCompressedFileExt (fileExt file.name) then
      some (ascii "content-encoding", fileExt file.name)
    else none
  | appLogM3 _ pid | accessLogM3 _ pid => some (ascii "pid", itoa pid)

/-- The parameters that are meant to be there and are not written. -/
def unsent (u : Upload) : List (Bytes × Bytes) :=
  if u.pid.isSome ∧ isCompressedFileExt (fileExt u.file.name) then
    [(ascii "content-encoding", fileExt u.file.name)]
  else []

theorem intended_eq (u : Upload) :
    u.intended = (ascii "dt", u.dataType) :: (u.nameKey, u.file.name) ::
      (u.last.toList ++ u.unsent) := by
  by_cases h : isCompressedFileExt (fileExt u.file.name) = true
  · cases u <;> simp_all [intended, last, unsent, pid, file]
  · cases u <;> simp_all [intended, last, unsent, pid, file]

def ending (u : Upload) : Bytes := u.last.toList.flatMap fun pair => ampersand :: writePair pair

theorem params_eq (u : Upload) :
    ascii "dt=" ++ u.data =
      writePair (ascii "dt", u.dataType) ++ ampersand ::
        (writePair (u.nameKey, u.file.name) ++ u.ending) := by
  have hencoding : ascii "&content-encoding=" = ampersand ::
      (ascii "content-encoding" ++ [equals]) := rfl
  have hpid : ascii "&pid=" = ampersand :: (ascii "pid" ++ [equals]) := rfl
  have happLog : ascii "applog&logName=" = ascii "applog" ++ ampersand ::
      (ascii "logName" ++ [equals]) := rfl
  have haccessLog : ascii "accessLog&logName=" =
      ascii "accessLog" ++ ampersand :: (ascii "logName" ++ [equals]) := rfl
  have hextended : ascii "ed&fileName=" = ascii "ed" ++ ampersand ::
      (ascii "fileName" ++ [equals]) := rfl
  have hdt : ascii "dt=" = ascii "dt" ++ [equals] := rfl
  cases u with
  | appLog file =>
    simp only [data, buildPostData, ending, last, dataType, nameKey, Upload.file]
    split_ifs <;> simp [writePair, hdt, happLog, hencoding]
  | appLogM3 file pid =>
    simp [data, ending, last, dataType, nameKey, Upload.file, writePair, hdt, happLog, hpid]
  | accessLogM3 file pid =>
    simp [data, ending, last, dataType, nameKey, Upload.file, writePair, hdt, haccessLog, hpid]
  | extendedData file =>
    simp only [data, ending, last, dataType, nameKey, Upload.file]
    split_ifs <;> simp [writePair, hdt, hextended, hencoding]

theorem plainKey_nameKey (u : Upload) : PlainKey u.nameKey := by
  have hlogName : PlainKey (ascii "logName") := by decide +kernel
  have hfileName : PlainKey (ascii "fileName") := by decide +kernel
  cases u with
  | appLog | appLogM3 | accessLogM3 => exact hlogName
  | extendedData => exact hfileName

theorem plain_dataType (u : Upload) : Plain u.dataType := by
  have happLog : Plain (ascii "applog") := by decide +kernel
  have haccessLog : Plain (ascii "accessLog") := by decide +kernel
  have hextended : Plain (ascii "ed") := by decide +kernel
  cases u with
  | appLog | appLogM3 => exact happLog
  | accessLogM3 => exact haccessLog
  | extendedData => exact hextended

private theorem plain_of_compressed {ext : Bytes} (h : isCompressedFileExt ext = true) :
    Plain ext := by
  have hall : ∀ ext ∈ compressedFileExtensions, Plain ext := by decide +kernel
  obtain ⟨known, hknown, heq⟩ := List.any_eq_true.1 h
  exact beq_iff_eq.1 heq ▸ hall known hknown

theorem last_plain (u : Upload) : ∀ pair ∈ u.last, PlainKey pair.1 ∧ Plain pair.2 := by
  have hencoding : PlainKey (ascii "content-encoding") := by decide +kernel
  have hpid : PlainKey (ascii "pid") := by decide +kernel
  intro pair hpair
  cases u with
  | appLog file | extendedData file =>
    rw [last] at hpair
    split at hpair
    · next hcompressed =>
        cases hpair
        exact ⟨hencoding, plain_of_compressed hcompressed⟩
    · cases hpair
  | appLogM3 file pid | accessLogM3 file pid =>
    cases hpair
    exact ⟨hpid, plain_itoa pid⟩

theorem parseQuery_ending (u : Upload) (s : Bytes) :
    parseQuery (s ++ u.ending) = parseQuery s ++ u.last.toList := by
  rw [ending]
  cases hlast : u.last with
  | none => simp
  | some pair =>
    obtain ⟨hkey, hvalue⟩ := u.last_plain pair hlast
    have hend : [pair].flatMap (fun pair => ampersand :: writePair pair) =
        ampersand :: writePair pair := by
      simp
    rw [Option.toList_some, hend, parseQuery_append, parseQuery_writePair_of_plain hkey hvalue]

end Upload

section Read

variable (e : Endpoint) (u : Upload)

def queryFront : Bytes :=
  e.query ++ ampersand :: (writePair (ascii "dt", u.dataType) ++ [ampersand])

theorem uploadURL_eq :
    uploadURL e u = e.base ++ questionMark ::
      (queryFront e u ++ (writePair (u.nameKey, u.file.name) ++ u.ending)) := by
  have hampersand : ascii "&" = [ampersand] := rfl
  rw [uploadURL, u.params_eq, Endpoint.text, hampersand, queryFront]
  simp

theorem parseQuery_queryFront (s : Bytes) :
    parseQuery (queryFront e u ++ s) =
      parseQuery e.query ++ (ascii "dt", u.dataType) :: parseQuery s := by
  have hfront : queryFront e u ++ s =
      e.query ++ ampersand :: (writePair (ascii "dt", u.dataType) ++ ampersand :: s) := by
    simp [queryFront]
  rw [hfront, parseQuery_append, parseQuery_append,
    parseQuery_writePair_of_plain (by decide +kernel) u.plain_dataType]
  rfl

private theorem unbroken_front : Unbroken (queryFront e u) := by
  have hdt : Unbroken (writePair (ascii "dt", u.dataType)) :=
    unbroken_writePair (by decide +kernel) u.plain_dataType.unbroken
  have hampersand : Unbroken [ampersand] := Unbroken.cons (by decide) (by simp [Unbroken])
  exact e.query_unbroken.append ((hdt.append hampersand).cons (by decide))

private theorem unbroken_ending : Unbroken u.ending := by
  intro b hb
  obtain ⟨pair, hpair, hmem⟩ := List.mem_flatMap.1 hb
  obtain ⟨hkey, hvalue⟩ := u.last_plain pair (Option.mem_toList.1 hpair)
  exact (unbroken_writePair hkey.plain hvalue.unbroken).cons (by decide) b hmem

theorem urlQuery_uploadURL (hname : Unbroken u.file.name) :
    urlQuery (uploadURL e u) =
      some (parseQuery e.query ++ (ascii "dt", u.dataType) ::
        (parseQuery (writePair (u.nameKey, u.file.name)) ++ u.last.toList)) := by
  have hpair := unbroken_writePair u.plainKey_nameKey.plain hname
  have hquery := (unbroken_front e u).append (hpair.append (unbroken_ending u))
  rw [urlQuery, uploadURL_eq, rawQuery_append e.base_bytes hquery, Option.map_some,
    parseQuery_queryFront, Upload.parseQuery_ending]

/-- The URL with a part of the name in place of the name. -/
def urlUpTo (part : Bytes) : Bytes :=
  e.base ++ questionMark :: (queryFront e u ++ writePair (u.nameKey, part))

private theorem hash_not_mem_urlUpTo {part : Bytes} (hpart : hashSign ∉ part) :
    hashSign ∉ urlUpTo e u part := by
  simp only [urlUpTo, writePair, List.mem_append, List.mem_cons, not_or]
  exact ⟨fun hmem => (e.base_bytes _ hmem).2.1 rfl, by decide,
    fun hmem => (unbroken_front e u _ hmem).1 rfl,
      u.plainKey_nameKey.plain.not_mem rfl, by decide, hpart⟩

/-- A fragment begins in the name: the rest of the URL is not part of the query. -/
theorem urlQuery_of_hash {front back : Bytes} (hname : u.file.name = front ++ hashSign :: back)
    (hfront : hashSign ∉ front) {pairs : List (Bytes × Bytes)}
    (hread : urlQuery (uploadURL e u) = some pairs) :
    pairs = parseQuery e.query ++
      (ascii "dt", u.dataType) :: parseQuery (writePair (u.nameKey, front)) := by
  have hurl : uploadURL e u = urlUpTo e u front ++ hashSign :: (back ++ u.ending) := by
    rw [uploadURL_eq, hname]
    simp [urlUpTo, writePair]
  have htext : queryText (uploadURL e u) = queryFront e u ++ writePair (u.nameKey, front) := by
    rw [queryText, hurl, cut_at (hash_not_mem_urlUpTo e u hfront), urlUpTo,
      cut_at fun hmem => (e.base_bytes _ hmem).1 rfl]
  obtain ⟨query, hquery, rfl⟩ := Option.map_eq_some_iff.1 hread
  rw [rawQuery] at hquery
  split at hquery
  · cases hquery
  split at hquery
  · cases hquery
  rw [htext] at hquery
  cases hquery
  exact parseQuery_queryFront e u _

/-- A control byte in the name, and no fragment: the URL is not accepted. -/
theorem urlQuery_of_control (hhash : hashSign ∉ u.file.name) {b : UInt8} (hb : b ∈ u.file.name)
    (hcontrol : isControl b = true) : urlQuery (uploadURL e u) = none := by
  have hurl : uploadURL e u = urlUpTo e u u.file.name ++ u.ending := by
    rw [uploadURL_eq, urlUpTo]
    simp
  have hfree : hashSign ∉ urlUpTo e u u.file.name ++ u.ending := by
    rw [List.mem_append, not_or]
    exact ⟨hash_not_mem_urlUpTo e u hhash, fun hmem => (unbroken_ending u _ hmem).1 rfl⟩
  have hmem : b ∈ urlUpTo e u u.file.name ++ u.ending := by
    simp [urlUpTo, writePair, hb]
  rw [urlQuery, rawQuery, hurl, cut_of_not_mem hfree,
    if_pos (List.any_eq_true.2 ⟨b, hmem, hcontrol⟩)]
  rfl

private theorem pairsLength_named (value : Bytes) (rest : List (Bytes × Bytes)) :
    pairsLength ((u.nameKey, value) :: rest) =
      u.nameKey.length + value.length + pairsLength rest := by
  simp [pairsLength]

private theorem hash_not_mem_of_survives (h : Survives e u) : hashSign ∉ u.file.name := by
  intro hmem
  obtain ⟨front, back, hname, hfront⟩ := List.eq_append_cons_of_mem hmem
  obtain ⟨pairs, hread, hperm⟩ := h
  rw [urlQuery_of_hash e u hname hfront hread, u.intended_eq] at hperm
  have hlost := pairsLength_perm ((List.perm_append_left_iff _).1 hperm).cons_inv
  have hle := (pairsLength_parseQuery_writePair u.plainKey_nameKey front).1
  rw [pairsLength_named, hname, List.length_append, List.length_cons] at hlost
  omega

private theorem unbroken_of_survives (h : Survives e u) : Unbroken u.file.name := by
  have hhash := hash_not_mem_of_survives e u h
  intro b hb
  refine ⟨ne_of_mem_of_not_mem hb hhash, ?_⟩
  by_contra hcontrol
  obtain ⟨pairs, hread, -⟩ := h
  rw [urlQuery_of_control e u hhash hb (Bool.eq_true_of_not_eq_false hcontrol)] at hread
  cases hread

private theorem perm_of_survives (h : Survives e u) :
    (parseQuery (writePair (u.nameKey, u.file.name))).Perm
      ((u.nameKey, u.file.name) :: u.unsent) := by
  have hunbroken := unbroken_of_survives e u h
  obtain ⟨pairs, hread, hperm⟩ := h
  rw [urlQuery_uploadURL e u hunbroken] at hread
  cases hread
  rw [u.intended_eq] at hperm
  have hrest := ((List.perm_append_left_iff _).1 hperm).cons_inv
  have hlast : ((u.nameKey, u.file.name) :: (u.last.toList ++ u.unsent)).Perm
      ((u.nameKey, u.file.name) :: u.unsent ++ u.last.toList) := List.perm_append_comm.cons _
  exact (List.perm_append_right_iff _).1 (hrest.trans hlast)

private theorem unsent_eq_nil_iff :
    u.unsent = [] ↔ (u.pid.isSome → isCompressedFileExt (fileExt u.file.name) = false) := by
  rw [Upload.unsent]
  split
  · next hboth => simp [hboth.1, hboth.2]
  · next hnot =>
      refine ⟨fun _ hpid => ?_, fun _ => rfl⟩
      exact Bool.eq_false_of_not_eq_true fun hcompressed => hnot ⟨hpid, hcompressed⟩

private theorem plusSign_not_mem {s : Bytes}
    (h : (s.map fun b => if b = plusSign then 32 else b) = s) : plusSign ∉ s := by
  intro hmem
  rw [← h, List.mem_map] at hmem
  obtain ⟨b, -, hb⟩ := hmem
  split at hb
  · exact absurd hb (by decide)
  · next hne => exact hne hb

/-- The parameters survive just in case the name has no byte that a query gives a
meaning to and, for the captures of the M3 mode, it is not that of a compressed
file. -/
theorem survives_iff :
    Survives e u ↔ Plain u.file.name ∧
      (u.pid.isSome → isCompressedFileExt (fileExt u.file.name) = false) := by
  rw [← unsent_eq_nil_iff]
  constructor
  · intro h
    have hunbroken := unbroken_of_survives e u h
    have hperm := perm_of_survives e u h
    obtain ⟨hle, hlt⟩ := pairsLength_parseQuery_writePair u.plainKey_nameKey u.file.name
    rw [pairsLength_perm hperm, pairsLength_named] at hle hlt
    have hkept : ¬ (ampersand ∈ u.file.name ∨ percent ∈ u.file.name ∨ semicolon ∈ u.file.name) := by
      intro hbad
      have hshort := hlt hbad
      omega
    rw [not_or, not_or] at hkept
    obtain ⟨hampersand, hpercent, hsemicolon⟩ := hkept
    rw [parseQuery_eq_toList (ampersand_not_mem_writePair u.plainKey_nameKey hampersand),
      decodePair_writePair u.plainKey_nameKey, if_neg hsemicolon,
      queryUnescape_of_no_percent hpercent, Option.map_some, Option.toList_some] at hperm
    have hread := List.singleton_perm.1 hperm
    rw [List.cons.injEq, Prod.mk.injEq] at hread
    obtain ⟨⟨-, hplus⟩, hunsent⟩ := hread
    exact ⟨plain_of_unbroken hunbroken hampersand hpercent (plusSign_not_mem hplus) hsemicolon,
      hunsent.symm⟩
  · rintro ⟨hplain, hunsent⟩
    refine ⟨_, urlQuery_uploadURL e u hplain.unbroken, ?_⟩
    rw [parseQuery_writePair_of_plain u.plainKey_nameKey hplain, u.intended_eq, hunsent,
      List.append_nil]
    rfl

end Read

def incidentEndpoint : Endpoint where
  base := ascii "https://yc/ou-receiver"
  query := ascii "de=10.0.0.1"
  base_bytes := by decide +kernel
  query_unbroken := by unfold Unbroken; decide +kernel

def ampersandLog : FileName where
  name := ascii "in&out.log"
  nonempty := by decide
  no_slash := by decide
  no_nul := by decide

/-- The server is told of a log `in` and of a parameter that nobody sent. -/
theorem ampersandLog_lost :
    urlQuery (uploadURL incidentEndpoint (.appLog ampersandLog)) =
      some [(ascii "de", ascii "10.0.0.1"), (ascii "dt", ascii "applog"),
        (ascii "logName", ascii "in"),
        (ascii "out.log", [])] ∧
    ¬ Survives incidentEndpoint (.appLog ampersandLog) := by
  have hread : urlQuery (uploadURL incidentEndpoint (.appLog ampersandLog)) =
      some [(ascii "de", ascii "10.0.0.1"), (ascii "dt", ascii "applog"),
        (ascii "logName", ascii "in"),
        (ascii "out.log", [])] := by decide +kernel
  refine ⟨hread, ?_⟩
  rintro ⟨pairs, hpairs, hperm⟩
  rw [hread] at hpairs
  cases hpairs
  exact absurd hperm.length_eq (by decide +kernel)

end YcAgent.Capture.UploadUrl
