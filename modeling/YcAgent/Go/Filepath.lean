import Mathlib.Data.List.Basic

/-!
File paths as the agent builds them, with `/` as the separator.
-/

namespace YcAgent.Go

def filepathBase (path : String) : String :=
  if path = "" then "." else
  match ((path.splitOn "/").filter (· ≠ "")).getLast? with
  | some name => name
  | none => "/"

/-- `filepath.Join` of a cleaned directory and a plain file name. -/
def joinPath (dir name : String) : String :=
  if dir = "." then name else if dir = "/" then dir ++ name else dir ++ "/" ++ name

structure FilePath where
  isAbs : Bool
  text : String
  deriving DecidableEq, Repr

/-- The file a path names for a process that works in `cwd`. -/
def FilePath.resolve (cwd : String) (p : FilePath) : String :=
  if p.isAbs then p.text else joinPath cwd p.text

/-- The elements of a path after `out`, the last of which is its head. A `..`
takes an element away, if there is one to take. -/
def cleanElements (rooted : Bool) : List (List Char) → List (List Char) → List (List Char)
  | out, [] => out.reverse
  | out, e :: rest =>
    if e = [] ∨ e = ['.'] then cleanElements rooted out rest
    else if e = ['.', '.'] then
      match out with
      | [] => cleanElements rooted (if rooted then [] else [e]) rest
      | last :: before => cleanElements rooted (if last = e then e :: out else before) rest
    else cleanElements rooted (e :: out) rest

def cleaned (path : List Char) : Bool × List (List Char) :=
  (path.head? = some '/', cleanElements (path.head? = some '/') [] (path.splitOn '/'))

def rendered (p : Bool × List (List Char)) : List Char :=
  let elements := ['/'].intercalate p.2
  if p.1 then '/' :: elements else if elements = [] then ['.'] else elements

def filepathClean (path : String) : String := String.ofList (rendered (cleaned path.toList))

def filepathDir (path : String) : String :=
  filepathClean (String.ofList (path.toList.reverse.dropWhile (· != '/')).reverse)

def filepathJoin (dir name : String) : String :=
  if dir ≠ "" then filepathClean (dir ++ "/" ++ name)
  else if name ≠ "" then filepathClean name else ""

def baseName (path : String) : String :=
  String.ofList (path.toList.reverse.takeWhile (· != '/')).reverse

/-- A path without the extension of its last element:
`strings.TrimSuffix(p, filepath.Ext(p))`. -/
def trimExt (path : String) : String :=
  let base := (baseName path).toList.reverse
  match base.dropWhile (· != '.') with
  | [] => path
  | _ :: _ => String.ofList
      (path.toList.reverse.drop ((base.takeWhile (· != '.')).length + 1)).reverse

example : filepathDir "/var//log/gc.log" = "/var/log" ∧ filepathDir "gc.log" = "." ∧
    filepathClean "a/../../b/./" = "../b" ∧ trimExt "/var/gc.log.001" = "/var/gc.log" := by
  decide

section Clean

/-- The elements of a path, in reverse, as `cleanElements` leaves them: none is empty
or `.`, and a `..` has only others before it, in a path that is not rooted. -/
def CleanStack (rooted : Bool) : List (List Char) → Prop
  | [] => True
  | e :: out => e ≠ [] ∧ e ≠ ['.'] ∧ '/' ∉ e ∧
      (e = ['.', '.'] → rooted = false ∧ ∀ x ∈ out, x = ['.', '.']) ∧ CleanStack rooted out

variable {rooted : Bool} {out es : List (List Char)}

theorem CleanStack.of_append {front : List (List Char)} (h : CleanStack rooted (front ++ out)) :
    CleanStack rooted out := by
  induction front with
  | nil => exact h
  | cons e front ih => exact ih h.2.2.2.2

theorem CleanStack.not_mem (h : CleanStack rooted out) : ∀ e ∈ out, e ≠ [] ∧ '/' ∉ e := by
  induction out with
  | nil => simp
  | cons e out ih =>
    intro x hx
    rcases List.mem_cons.1 hx with rfl | hx
    · exact ⟨h.1, h.2.2.1⟩
    · exact ih h.2.2.2.2 x hx

theorem cleanElements_stack (hout : CleanStack rooted out) (hes : ∀ e ∈ es, '/' ∉ e) :
    CleanStack rooted (cleanElements rooted out es).reverse := by
  induction es generalizing out with
  | nil => rwa [cleanElements, List.reverse_reverse]
  | cons e es ih =>
    obtain ⟨he, hrest⟩ := List.forall_mem_cons.1 hes
    unfold cleanElements
    split
    · exact ih hout hrest
    next hne =>
      split
      · next hdots =>
          cases out with
          | nil =>
            cases rooted with
            | true => exact ih trivial hrest
            | false => exact ih (by simp [CleanStack, hdots]) hrest
          | cons last before =>
            apply ih _ hrest
            split
            · next hlast =>
                obtain ⟨hfalse, hall⟩ := hout.2.2.2.1 (hlast.trans hdots)
                refine ⟨by simp [hdots], by simp [hdots], he, fun _ => ⟨hfalse, ?_⟩, hout⟩
                exact List.forall_mem_cons.2 ⟨hlast.trans hdots, hall⟩
            · exact hout.2.2.2.2
      · next hdots =>
          exact ih ⟨fun h => hne (.inl h), fun h => hne (.inr h), he, fun h => absurd h hdots, hout⟩
            hrest

theorem cleanElements_of_stack (h : CleanStack rooted (es.reverse ++ out)) :
    cleanElements rooted out es = out.reverse ++ es := by
  induction es generalizing out with
  | nil => rw [cleanElements, List.append_nil]
  | cons e es ih =>
    rw [List.reverse_cons, List.append_assoc] at h
    obtain ⟨hne, hdot, -, hdots, -⟩ : CleanStack rooted (e :: out) := h.of_append
    have hpush : cleanElements rooted out (e :: es) = cleanElements rooted (e :: out) es := by
      conv_lhs => unfold cleanElements
      rw [if_neg (not_or.2 ⟨hne, hdot⟩)]
      split
      · next he =>
          obtain ⟨rfl, hall⟩ := hdots he
          cases out with
          | nil => rfl
          | cons last before =>
            have hlast : last = e := (hall last List.mem_cons_self).trans he.symm
            simp [hlast]
      · rfl
    have hrest : cleanElements rooted (e :: out) es = (e :: out).reverse ++ es := ih h
    rw [hpush, hrest]
    simp

theorem cleanElements_append (more : List (List Char)) :
    cleanElements rooted out (es ++ more) =
      cleanElements rooted (cleanElements rooted out es).reverse more := by
  induction es generalizing out with
  | nil => rw [List.nil_append, cleanElements, List.reverse_reverse]
  | cons e es ih =>
    rw [List.cons_append]
    conv_lhs => unfold cleanElements
    conv_rhs => rw [cleanElements.eq_def rooted out]
    dsimp only
    split
    · exact ih
    · split
      · cases out <;> exact ih
      · exact ih

theorem not_mem_of_splitOn (path : List Char) : ∀ e ∈ path.splitOn '/', '/' ∉ e := by
  induction path with
  | nil => simp
  | cons c path ih =>
    rw [List.splitOn_cons_eq_if_modifyHead]
    split
    · simpa using ih
    · next hc =>
        cases hsplit : path.splitOn '/' with
        | nil => exact absurd hsplit (List.splitOn_ne_nil _ _)
        | cons first rest =>
          rw [hsplit] at ih
          obtain ⟨hfirst, hrest⟩ := List.forall_mem_cons.1 ih
          have hne : '/' ≠ c := fun heq => hc (by simp [← heq])
          exact List.forall_mem_cons.2 ⟨by simp [hne, hfirst], hrest⟩

theorem cleaned_stack (path : List Char) :
    CleanStack (cleaned path).1 (cleaned path).2.reverse :=
  cleanElements_stack trivial (not_mem_of_splitOn path)

/-- A clean path is told by its rendering. -/
theorem cleaned_rendered {p : Bool × List (List Char)} (h : CleanStack p.1 p.2.reverse) :
    cleaned (rendered p) = p := by
  obtain ⟨rooted, es⟩ := p
  have hmem : ∀ e ∈ es, e ≠ [] ∧ '/' ∉ e := fun e he => h.not_mem e (List.mem_reverse.2 he)
  have hself : cleanElements rooted [] es = es :=
    cleanElements_of_stack (by rwa [List.append_nil])
  cases es with
  | nil => cases rooted <;> decide
  | cons e es =>
    have hsplit : (['/'].intercalate (e :: es)).splitOn '/' = e :: es :=
      List.splitOn_intercalate '/' (fun x hx => (hmem x hx).2) (by simp)
    obtain ⟨hne, hslash⟩ := hmem e List.mem_cons_self
    obtain ⟨c, cs, rfl⟩ := List.exists_cons_of_ne_nil hne
    have hhead : (['/'].intercalate ((c :: cs) :: es)).head? = some c := by
      cases es <;> rfl
    have hc : c ≠ '/' := fun heq => hslash (by simp [heq])
    cases rooted with
    | true =>
      have hroot : ('/' :: ['/'].intercalate ((c :: cs) :: es)).splitOn '/' =
          [] :: (c :: cs) :: es := by
        rw [List.splitOn_cons_eq_if_modifyHead, hsplit]
        rfl
      simp only [rendered, cleaned, if_true, List.head?_cons, decide_true, hroot]
      rw [cleanElements, if_pos (.inl rfl), hself]
    | false =>
      have hnil : ['/'].intercalate ((c :: cs) :: es) ≠ [] := fun hnil => by
        rw [hnil] at hhead
        cases hhead
      simp only [rendered, cleaned, Bool.false_eq_true, if_false, hnil, hhead, hsplit,
        Option.some.injEq, hc, decide_false, hself]

/-- A plain name of a file: one element of a path, and neither `.` nor `..`. -/
structure PlainName (name : List Char) : Prop where
  ne_nil : name ≠ []
  ne_dot : name ≠ ['.']
  ne_dots : name ≠ ['.', '.']
  no_slash : '/' ∉ name

theorem cleaned_concat_slash {path : List Char} (hpath : path ≠ []) :
    cleaned (path ++ ['/']) = cleaned path := by
  have hhead : (path ++ ['/']).head? = path.head? := List.head?_append_of_ne_nil _ hpath
  have hsplit : (path ++ ['/']).splitOn '/' = path.splitOn '/' ++ [[]] :=
    List.splitOn_append_cons_self path []
  rw [cleaned, hhead, hsplit, cleanElements_append]
  simp [cleaned, cleanElements]

theorem cleaned_append {dir name : List Char} (hname : PlainName name)
    (hdir : dir = [] ∨ dir.getLast? = some '/') :
    cleaned (dir ++ name) = ((cleaned dir).1, (cleaned dir).2 ++ [name]) := by
  have hsingle : name.splitOn '/' = [name] := List.splitOn_eq_singleton hname.no_slash
  rcases hdir with rfl | hlast
  · obtain ⟨c, cs, rfl⟩ := List.exists_cons_of_ne_nil hname.ne_nil
    have hc : c ≠ '/' := fun heq => hname.no_slash (by simp [heq])
    simp [cleaned, hsingle, hc, cleanElements, hname.ne_dot, hname.ne_dots]
  · obtain ⟨front, rfl⟩ := List.getLast?_eq_some_iff.1 hlast
    have hhead : (front ++ ['/'] ++ name).head? = (front ++ ['/']).head? :=
      List.head?_append_of_ne_nil _ (by simp)
    have hsplit : (front ++ ['/'] ++ name).splitOn '/' = front.splitOn '/' ++ [name] := by
      rw [List.append_assoc, List.singleton_append, List.splitOn_append_cons_self, hsingle]
    have hsplit' : (front ++ ['/']).splitOn '/' = front.splitOn '/' ++ [[]] :=
      List.splitOn_append_cons_self front []
    rw [cleaned, cleaned, hhead, hsplit, hsplit', cleanElements_append, cleanElements_append]
    simp [cleanElements, hname.ne_nil, hname.ne_dot, hname.ne_dots]

theorem cleanStack_concat {name : List Char} (hname : PlainName name) (dir : List Char) :
    CleanStack (cleaned dir).1 ((cleaned dir).2 ++ [name]).reverse := by
  rw [List.reverse_append]
  exact ⟨hname.ne_nil, hname.ne_dot, hname.no_slash, fun h => absurd h hname.ne_dots,
    cleaned_stack dir⟩

theorem rendered_inj {p q : Bool × List (List Char)} (hp : CleanStack p.1 p.2.reverse)
    (hq : CleanStack q.1 q.2.reverse) : rendered p = rendered q ↔ p = q := by
  refine ⟨fun h => ?_, congrArg rendered⟩
  rw [← cleaned_rendered hp, h, cleaned_rendered hq]

def dirPart (path : List Char) : List Char := (path.reverse.dropWhile (· != '/')).reverse

theorem dirPart_cases (path : List Char) :
    dirPart path = [] ∨ (dirPart path).getLast? = some '/' := by
  rw [dirPart, List.getLast?_reverse, List.reverse_eq_nil_iff]
  cases hdrop : path.reverse.dropWhile (· != '/') with
  | nil => exact .inl rfl
  | cons c rest =>
    have hnot := List.head?_dropWhile_not (· != '/') path.reverse
    simp only [hdrop, List.head?_cons] at hnot
    exact .inr (by simpa using hnot)

theorem dirPart_append_baseName (path : String) :
    dirPart path.toList ++ (baseName path).toList = path.toList := by
  rw [dirPart, baseName, String.toList_ofList, ← List.reverse_append,
    List.takeWhile_append_dropWhile, List.reverse_reverse]

theorem rendered_ne_nil (p : Bool × List (List Char)) : rendered p ≠ [] := by
  unfold rendered
  dsimp only
  split
  · simp
  · split
    · simp
    · assumption

theorem toList_filepathDir (path : String) :
    (filepathDir path).toList = rendered (cleaned (dirPart path.toList)) := by
  rw [filepathDir, filepathClean, String.toList_ofList, String.toList_ofList]
  rfl

theorem toList_filepathJoin {name : List Char} (hname : PlainName name) (path : String) :
    (filepathJoin (filepathDir path) (String.ofList name)).toList =
      rendered
        ((cleaned (dirPart path.toList)).1, (cleaned (dirPart path.toList)).2 ++ [name]) := by
  have hdir := toList_filepathDir path
  generalize hp : cleaned (dirPart path.toList) = p at hdir
  have hne : filepathDir path ≠ "" := by
    intro hempty
    rw [hempty] at hdir
    exact rendered_ne_nil p hdir.symm
  have hclean : cleaned (rendered p ++ ['/']) = p := by
    rw [cleaned_concat_slash (rendered_ne_nil p), ← hp, cleaned_rendered (cleaned_stack _)]
  have htext : (filepathDir path ++ "/" ++ String.ofList name).toList =
      rendered p ++ ['/'] ++ name := by
    simp [hdir]
  rw [filepathJoin, if_pos hne, filepathClean, String.toList_ofList, htext,
    cleaned_append hname (.inr (by simp)), hclean]

end Clean

/-- A name in the directory of a path is a file exactly if that is the directory of
the file, and the name its name. -/
theorem filepathJoin_eq_clean_iff (path : String) {file : String} {name : List Char}
    (hname : PlainName name) (hfile : PlainName (baseName file).toList) :
    filepathJoin (filepathDir path) (String.ofList name) = filepathClean file ↔
      filepathDir file = filepathDir path ∧ (baseName file).toList = name := by
  have hclean : (filepathClean file).toList = rendered ((cleaned (dirPart file.toList)).1,
      (cleaned (dirPart file.toList)).2 ++ [(baseName file).toList]) := by
    rw [filepathClean, String.toList_ofList, ← cleaned_append hfile (dirPart_cases _),
      dirPart_append_baseName]
  rw [← String.toList_inj, toList_filepathJoin hname, hclean, ← String.toList_inj,
    toList_filepathDir, toList_filepathDir,
    rendered_inj (cleanStack_concat hname _) (cleanStack_concat hfile _),
    rendered_inj (cleaned_stack _) (cleaned_stack _)]
  constructor
  · intro h
    obtain ⟨hrooted, happend⟩ := Prod.mk.inj h
    obtain ⟨helements, hlast⟩ := List.append_inj' happend rfl
    exact ⟨Prod.ext hrooted.symm helements.symm, (List.singleton_inj.1 hlast).symm⟩
  · rintro ⟨hdir, rfl⟩
    rw [hdir]

end YcAgent.Go
