import YcAgent.Agent.IncidentCapture
import YcAgent.Lib.Delimited

/-!
The three places where two lists of tags become one. `mergeTags` trims the commas
of both sides before it joins them. The API server and the M3 agent trim the
configured tags only and then the joined text, so commas in front of the other
side stay in the middle: `x` and `,y` make `x,,y`. A Go string is its bytes here,
also one that is not UTF-8.
-/

namespace YcAgent.Ondemand

open Go Lib.Delimited

def comma : UInt8 := 44

/-- `strings.Trim(s, ",")`. -/
def trimTags (s : Bytes) : Bytes := trim comma s

/-- `strings.Join(tags, ",")`. -/
def joinTags (tags : List Bytes) : Bytes := [comma].intercalate tags

/-- The tags a text lists, the empty ones between two commas included. -/
def tagsOf (s : Bytes) : List Bytes := fields comma s

def mergeTags (existing additional : Bytes) : Bytes :=
  let existing := trimTags existing
  let additional := trimTags additional
  if existing = [] then additional
  else if additional = [] then existing
  else existing ++ [comma] ++ additional

end YcAgent.Ondemand

namespace YcAgent.Agent

open Go Lib.Delimited Ondemand

/-- The tags of `processM3FinResponse`; the server sends a list. -/
def finTags (configured : Bytes) (tags : List Bytes) : Bytes :=
  mergeConfigured comma configured (joinTags tags)

/-- The tags of `ProcessPidsWithMutex`. -/
def requestTags (configured tags : Bytes) : Bytes := mergeConfigured comma configured tags

private theorem utf8_ofList (s : List Char) :
    utf8 (String.ofList s) = s.flatMap String.utf8EncodeChar := by
  rw [utf8, String.toUTF8_eq_toByteArray, String.toByteArray_ofList, List.utf8Encode,
    List.data_toByteArray]

private theorem utf8_eq (s : String) : utf8 s = s.toList.flatMap String.utf8EncodeChar := by
  rw [← utf8_ofList, String.ofList_toList]

private theorem comma_ne_ofNat {n : Nat} (h : n < 256) (hn : n ≠ 44) : comma ≠ UInt8.ofNat n := by
  intro heq
  have hnat : 44 = n % 256 := congrArg UInt8.toNat heq
  omega

private theorem comma_not_mem_encoded {c : Char} (hc : c ≠ ',') :
    String.utf8EncodeChar c ≠ [] ∧ comma ∉ String.utf8EncodeChar c := by
  have hval : c.val.toNat ≠ 44 := fun hval => hc (Char.ext (UInt32.toNat_inj.1 hval))
  rw [String.utf8EncodeChar]
  split_ifs
  all_goals
    refine ⟨List.cons_ne_nil _ _, ?_⟩
    simp only [List.mem_cons, List.not_mem_nil, or_false, not_or]
    repeat' apply And.intro
    all_goals exact comma_ne_ofNat (by omega) (by omega)

private theorem utf8_append (s t : String) : utf8 (s ++ t) = utf8 s ++ utf8 t := by
  rw [utf8_eq, utf8_eq, utf8_eq, String.toList_append, List.flatMap_append]

private theorem utf8_comma : utf8 "," = [comma] := by
  rw [utf8_eq]
  rfl

/-- The merge on characters that the captures of this development are given. -/
theorem utf8_configuredTags (configured tags : String) :
    utf8 (configuredTags configured tags) = requestTags (utf8 configured) (utf8 tags) := by
  have hcomma : String.utf8EncodeChar ',' = [comma] := rfl
  have htrim (s : List Char) : (trim ',' s).flatMap String.utf8EncodeChar =
      trim comma (s.flatMap String.utf8EncodeChar) :=
    (trim_flatMap hcomma (fun _ hc => comma_not_mem_encoded hc) s).symm
  rw [configuredTags, utf8_ofList, requestTags, utf8_eq configured, utf8_eq tags]
  cases configured.toList with
  | nil => exact htrim _
  | cons c cs =>
    have hencoded : 0 < ((c :: cs).flatMap String.utf8EncodeChar).length := by
      rw [List.length_pos_iff, List.flatMap_cons]
      exact List.append_ne_nil_of_left_ne_nil String.utf8EncodeChar_ne_nil _
    rw [mergeConfigured, if_pos (by simp), mergeConfigured, if_pos hencoded]
    dsimp only
    rw [htrim, List.flatMap_append, List.flatMap_append, htrim]
    rfl

private theorem utf8_intercalate (tags : List String) :
    utf8 (",".intercalate tags) = joinTags (tags.map utf8) := by
  induction tags with
  | nil => rfl
  | cons first rest ih =>
    cases rest with
    | nil => simp [joinTags]
    | cons second rest =>
      rw [String.intercalate_cons_cons, utf8_append, utf8_append, utf8_comma, ih]
      simp [joinTags, List.intercalate]

theorem utf8_incidentTags (m3 : M3App) (o : CaptureLog.CaptureSettings) (heapDump : Bool)
    (parsed : ParsedFin) (pid2Name : GoMap Int String) :
    utf8 (m3.incidentArgs o heapDump parsed pid2Name).tags =
      finTags (utf8 o.tags) (parsed.tags.map utf8) := by
  rw [M3App.incidentArgs, utf8_configuredTags, requestTags, finTags, utf8_intercalate]

theorem mergeConfigured_eq (configured t : Bytes) :
    mergeConfigured comma configured t =
      if trimTags configured = [] then trimTags t
      else if trimTags t = [] then trimTags configured
      else trimTags configured ++ comma :: (t.takeWhile (· = comma) ++ trimTags t) := by
  rw [mergeConfigured]
  split
  · next hsome =>
      split
      · next hempty =>
          change trim comma (trimTags configured ++ [comma] ++ t) = _
          rw [hempty]
          exact trim_cons_sep t
      · next hne =>
          dsimp only
          rw [List.append_assoc]
          exact trim_append_cons hne (head?_trim_ne _) (getLast?_trim_ne _) t
  · next hempty =>
      have hnil : configured = [] := List.eq_nil_of_length_eq_zero (by omega)
      rw [hnil]
      rfl

/-- The three merges of the tags `a` with the tags `b` of a server or a request
have one result, and there is an empty tag in it only if a side had one. -/
structure MergersAgree (a b : Bytes) (tags : List Bytes) : Prop where
  fin : finTags a tags = Ondemand.mergeTags a b
  request : requestTags a b = Ondemand.mergeTags a b
  no_empty_tag : [] ∉ tagsOf (trimTags a) → [] ∉ tagsOf (trimTags b) →
    ∀ result ∈ [Ondemand.mergeTags a b, finTags a tags, requestTags a b], [] ∉ tagsOf result

theorem no_empty_tag_mergeTags {a b : Bytes} (ha : [] ∉ tagsOf (trimTags a))
    (hb : [] ∉ tagsOf (trimTags b)) : [] ∉ tagsOf (Ondemand.mergeTags a b) := by
  rw [Ondemand.mergeTags]
  split
  · exact hb
  split
  · exact ha
  · next hleft hright =>
      rw [List.append_assoc, tagsOf]
      exact mt (nil_mem_fields_join hleft hright).1 (not_or.2 ⟨ha, hb⟩)

theorem mergeConfigured_eq_mergeTags_iff (a b : Bytes) :
    mergeConfigured comma a b = Ondemand.mergeTags a b ↔
      trimTags a = [] ∨ trimTags b = [] ∨ b.head? ≠ some comma := by
  rw [mergeConfigured_eq, Ondemand.mergeTags]
  by_cases hleft : trimTags a = []
  · simp [hleft]
  by_cases hright : trimTags b = []
  · simp [hleft, hright]
  simp only [hleft, hright, if_false, false_or, List.append_assoc, List.singleton_append,
    List.append_cancel_left_eq, List.cons.injEq, true_and, List.append_left_eq_self]
  cases b with
  | nil => exact absurd rfl hright
  | cons x b => simp [List.takeWhile_cons]

/-- They agree unless two sides that both list something are joined and the
second one begins with a comma. Every text `b` is the join of the list `[b]`. -/
theorem mergersAgree_iff (a : Bytes) (tags : List Bytes) :
    MergersAgree a (joinTags tags) tags ↔
      trimTags a = [] ∨ trimTags (joinTags tags) = [] ∨ (joinTags tags).head? ≠ some comma := by
  rw [← mergeConfigured_eq_mergeTags_iff]
  constructor
  · intro hagree
    exact hagree.request
  · intro heq
    refine ⟨heq, heq, ?_⟩
    intro ha hb result hresult
    have hmerged := no_empty_tag_mergeTags ha hb
    rw [finTags, requestTags, heq] at hresult
    simp only [List.mem_cons, List.not_mem_nil, or_false, or_self] at hresult
    rwa [hresult]

/-- With `x` configured, a request or a server that sends `,y` leaves an empty
tag between the two. -/
theorem leading_comma_leaves_empty_tag :
    Ondemand.mergeTags (ascii "x") (ascii ",y") = ascii "x,y" ∧
    requestTags (ascii "x") (ascii ",y") = ascii "x,,y" ∧
    finTags (ascii "x") [[], ascii "y"] = ascii "x,,y" ∧
    [] ∈ tagsOf (ascii "x,,y") ∧
    ¬ MergersAgree (ascii "x") (ascii ",y") [[], ascii "y"] := by
  refine ⟨by decide, by decide, by decide, by decide, ?_⟩
  intro hagree
  exact absurd hagree.request (by decide)

end YcAgent.Agent
