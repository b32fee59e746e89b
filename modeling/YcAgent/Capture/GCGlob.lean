import YcAgent.Capture.GCLog
import YcAgent.Go.Template

/-!
The file names that a JVM makes of a GC path with placeholders, and the pattern
that `GetGlobPatternFromGCPath` looks for them with. The placeholders are
replaced one after the other in the text. A word that another one starts with
comes after it, so that each replacement finds its own placeholder only.
-/

namespace YcAgent.Capture

open Go

inductive GCToken where
  | pid | seq | tick | uid | last | p | t | Y | y | m | d | H | M | S
  deriving DecidableEq

namespace GCToken

def word : GCToken → List Char
  | .pid => "pid".toList
  | .seq => "seq".toList
  | .tick => "tick".toList
  | .uid => "uid".toList
  | .last => "last".toList
  | .p => "p".toList
  | .t => "t".toList
  | .Y => "Y".toList
  | .y => "y".toList
  | .m => "m".toList
  | .d => "d".toList
  | .H => "H".toList
  | .M => "M".toList
  | .S => "S".toList

def spell (tok : GCToken) : List Char := '%' :: tok.word

def wildcard (pid : Int) : GCToken → List Char
  | .pid => (toString pid).toList
  | .seq => "???".toList
  | .tick | .uid | .last => "*".toList
  | .p => '*' :: (toString pid).toList
  | .t => "????-??-??_??-??-??".toList
  | .Y => "????".toList
  | .y | .m | .d | .H | .M | .S => "??".toList

def order : List GCToken :=
  [.pid, .seq, .tick, .uid, .last, .p, .t, .Y, .y, .m, .d, .H, .M, .S]

/-- Only the first of these is replaced. -/
def single : GCToken → Bool
  | .pid | .p => true
  | _ => false

end GCToken

/-- The characters of a glob pattern that do not stand for themselves. -/
def globMeta : List Char := "*?[]\x7b\x7d\\".toList

/-- A path is read from left to right: literal text without metacharacters, and
the longest placeholder that stands at a place. -/
inductive ReadsTemplate : List Char → List (Piece GCToken) → Prop
  | nil : ReadsTemplate [] []
  | lit {c s pieces} : c ≠ '%' → c ∉ globMeta → ReadsTemplate s pieces →
      ReadsTemplate (c :: s) (.lit c :: pieces)
  | token {tok s pieces} : ReadsTemplate s pieces →
      (∀ other : GCToken, other.spell <+: tok.spell ++ s →
        other.spell.length ≤ tok.spell.length) →
      ReadsTemplate (tok.spell ++ s) (.token tok :: pieces)

/-- A path as it is given to a JVM, read as characters and placeholders. It has `%pid`
and `%p` once at most, since only the first of them is replaced. -/
structure GCTemplate where
  path : Path
  pieces : List (Piece GCToken)
  reads : ReadsTemplate path.toList pieces
  one_pid : pieces.count (.token .pid) ≤ 1
  one_p : pieces.count (.token .p) ≤ 1

/-- A text of the given form, in which a letter stands for any character of a
file name. -/
def OfForm (form : String) (text : List Char) : Prop :=
  List.Forall₂ (fun f c => if f.isAlpha then c ≠ '/' else c = f) form.toList text

/-- What a JVM puts in the place of a placeholder. -/
def Fills (pid : Int) : GCToken → List Char → Prop
  | .pid, text => text = (toString pid).toList
  | .p, text => text = (toString pid).toList ∨ text = "pid".toList ++ (toString pid).toList
  | .t, text => OfForm "YYYY-MM-DD_HH-MM-SS" text
  | .seq, text => OfForm "nnn" text
  | .Y, text => OfForm "YYYY" text
  | .y, text | .m, text | .d, text | .H, text | .M, text | .S, text => OfForm "nn" text
  | .tick, text | .uid, text | .last, text => '/' ∉ text

/-- The file names that a JVM makes of a path. -/
def Produces (pid : Int) : List (Piece GCToken) → List Char → Prop
  | [], name => name = []
  | .lit c :: pieces, name => ∃ rest, name = c :: rest ∧ Produces pid pieces rest
  | .token tok :: pieces, name =>
    ∃ text rest, name = text ++ rest ∧ Fills pid tok text ∧ Produces pid pieces rest

section Replacements

variable {pid : Int}

/-- The placeholders of `done` have been replaced. -/
def stage (pid : Int) (done : List GCToken) (tok : GCToken) : List Char :=
  if tok ∈ done then tok.wildcard pid else tok.spell

def replaceToken (pid : Int) (s : List Char) (tok : GCToken) : List Char :=
  replaceFrom tok.spell (tok.wildcard pid) 0 (if tok.single then 1 else s.length) s

private theorem replaceToken_first (tok : GCToken) {path old new : String} {s : List Char}
    (hsingle : tok.single = true) (hold : old.toList = tok.spell)
    (hnew : new.toList = tok.wildcard pid) (hpath : path.toList = s) :
    (replaceFirst path old new).toList = replaceToken pid s tok := by
  rw [toList_replaceFirst, replaceToken, hold, hnew, hpath, hsingle, if_pos rfl]

private theorem replaceToken_all (tok : GCToken) {path old new : String} {s : List Char}
    (hsingle : tok.single = false) (hold : old.toList = tok.spell)
    (hnew : new.toList = tok.wildcard pid) (hpath : path.toList = s) :
    (replaceAll path old new).toList = replaceToken pid s tok := by
  rw [toList_replaceAll, replaceToken, hold, hnew, hpath, hsingle, if_neg Bool.false_ne_true]

theorem getGlobPattern_toList (gcPath : Path) (pid : Int) :
    (getGlobPatternFromGCPath gcPath pid).toList =
      GCToken.order.foldl (replaceToken pid) gcPath.toList := by
  have hstar : ("*" ++ toString pid).toList = '*' :: (toString pid).toList := by
    rw [String.toList_append]
    rfl
  simp only [getGlobPatternFromGCPath, GCToken.order, List.foldl_cons, List.foldl_nil]
  refine replaceToken_all .S rfl rfl rfl ?_
  refine replaceToken_all .M rfl rfl rfl ?_
  refine replaceToken_all .H rfl rfl rfl ?_
  refine replaceToken_all .d rfl rfl rfl ?_
  refine replaceToken_all .m rfl rfl rfl ?_
  refine replaceToken_all .y rfl rfl rfl ?_
  refine replaceToken_all .Y rfl rfl rfl ?_
  refine replaceToken_all .t rfl rfl rfl ?_
  refine replaceToken_first .p rfl rfl hstar ?_
  refine replaceToken_all .last rfl rfl rfl ?_
  refine replaceToken_all .uid rfl rfl rfl ?_
  refine replaceToken_all .tick rfl rfl rfl ?_
  refine replaceToken_all .seq rfl rfl rfl ?_
  exact replaceToken_first .pid rfl rfl rfl rfl

theorem GCToken.mem_order (tok : GCToken) : tok ∈ GCToken.order := by
  cases tok <;> decide

/-- A word that another one starts with is replaced after it. -/
theorem GCToken.order_prefix_free :
    GCToken.order.Pairwise fun first second => ¬first.word <+: second.word := by decide

theorem GCToken.word_alpha (tok : GCToken) : tok.word.all Char.isAlpha = true := by
  cases tok <;> decide

theorem toString_pid_cons (pid : Int) :
    ∃ c s, (toString pid).toList = c :: s ∧ c.isAlpha = false ∧ '%' ∉ c :: s := by
  obtain ⟨c, s, heq⟩ := List.exists_cons_of_ne_nil (toString_int_ne_nil pid)
  refine ⟨c, s, heq, ?_, ?_⟩
  · rw [← Bool.not_eq_true]
    intro halpha
    have hbig : 57 < c.toNat := by
      have hA : 'A'.val.toNat = 65 := rfl
      have ha : 'a'.val.toNat = 97 := rfl
      have hc : c.toNat = c.val.toNat := rfl
      rcases Bool.or_eq_true_iff.1 halpha with hupper | hlower
      · have hle : 'A'.val ≤ c.val := (of_decide_eq_true hupper).1
        rw [UInt32.le_iff_toNat_le] at hle
        omega
      · have hle : 'a'.val ≤ c.val := of_decide_eq_true (Bool.and_eq_true_iff.1 hlower).1
        rw [UInt32.le_iff_toNat_le] at hle
        omega
    exact not_mem_toString_int (.inr hbig) pid (heq ▸ List.mem_cons_self)
  · rw [← heq]
    exact not_mem_toString_int (by decide) pid

theorem GCToken.wildcard_cons (pid : Int) (tok : GCToken) :
    ∃ c s, tok.wildcard pid = c :: s ∧ c.isAlpha = false ∧ '%' ∉ c :: s := by
  cases tok with
  | pid => exact toString_pid_cons pid
  | p =>
    refine ⟨'*', _, rfl, by decide, ?_⟩
    rw [List.mem_cons, not_or]
    exact ⟨by decide, not_mem_toString_int (by decide) pid⟩
  | seq | tick | uid | last | t | Y | y | m | d | H | M | S =>
    exact ⟨_, _, rfl, by decide, by decide⟩

theorem stage_cons (pid : Int) (done : List GCToken) (tok : GCToken) :
    ∃ c s, stage pid done tok = c :: s ∧ c.isAlpha = false := by
  unfold stage
  split
  · obtain ⟨c, s, heq, halpha, _⟩ := tok.wildcard_cons pid
    exact ⟨c, s, heq, halpha⟩
  · exact ⟨'%', tok.word, rfl, by decide⟩

theorem ReadsTemplate.render_spell {s : List Char} {pieces : List (Piece GCToken)}
    (h : ReadsTemplate s pieces) : render GCToken.spell pieces = s := by
  induction h with
  | nil => rfl
  | lit _ _ _ ih => rw [render, ih]
  | token _ _ ih => rw [render, ih]

/-- A word is not taken for another one that is replaced later, with what
follows it. -/
theorem spell_not_prefix {tok other : GCToken} {text shown : List Char}
    (hlater : ¬tok.word <+: other.word)
    (hlongest : tok.spell <+: other.spell ++ text → tok.spell.length ≤ other.spell.length)
    (hshown : ∀ word : List Char, word.all Char.isAlpha = true → word <+: shown → word <+: text) :
    ¬tok.spell <+: other.spell ++ shown := by
  intro h
  have hword : tok.word <+: other.word ++ shown := (List.cons_prefix_cons.mp h).2
  rcases List.prefix_or_prefix_of_prefix hword (List.prefix_append _ _) with hshort | ⟨more, hmore⟩
  · exact hlater hshort
  · -- the rest of the longer word would be literal text, and the longer word was read
    rw [← hmore] at hword
    have halpha := tok.word_alpha
    rw [← hmore, List.all_append, Bool.and_eq_true] at halpha
    have htext := hshown more halpha.2 ((List.prefix_append_right_inj _).mp hword)
    have hlength := hlongest (by
      rw [GCToken.spell, ← hmore]
      exact List.cons_prefix_cons.mpr ⟨rfl, (List.prefix_append_right_inj _).mpr htext⟩)
    rw [GCToken.spell, GCToken.spell, ← hmore] at hlength
    simp only [List.length_cons, List.length_append] at hlength
    have hnil : more = [] := List.length_eq_zero_iff.mp (by omega)
    rw [hnil, List.append_nil] at hmore
    exact hlater (hmore ▸ List.prefix_refl _)

theorem ReadsTemplate.distinct {s : List Char} {pieces : List (Piece GCToken)}
    (h : ReadsTemplate s pieces) {done rest : List GCToken} {tok : GCToken}
    (horder : done ++ tok :: rest = GCToken.order) :
    Distinct '%' tok.word (stage pid done) tok pieces := by
  have hpairwise := GCToken.order_prefix_free
  rw [← horder, List.pairwise_append] at hpairwise
  obtain ⟨_, hrest, hdone⟩ := hpairwise
  induction h with
  | nil => exact trivial
  | lit hmark _ _ ih => exact ⟨hmark, ih⟩
  | @token other s pieces hreads hlongest ih =>
    refine ⟨?_, ih⟩
    split
    · next heq =>
        have hmem : other ∉ done := fun hmem =>
          hdone other hmem tok List.mem_cons_self (heq ▸ List.prefix_refl _)
        rw [stage, if_neg hmem, heq, GCToken.spell]
    · next hne =>
        by_cases hmem : other ∈ done
        · obtain ⟨c, w, heq, _, hfree⟩ := other.wildcard_cons pid
          rw [stage, if_pos hmem, heq]
          refine ⟨fun h => hfree (List.mem_cons_of_mem _ h), fun h => ?_⟩
          exact hfree (List.mem_cons.mpr (.inl (List.cons_prefix_cons.mp h).1))
        · have hlater : other ∈ rest := by
            have hall := other.mem_order
            rw [← horder, List.mem_append, List.mem_cons] at hall
            tauto
          rw [stage, if_neg hmem]
          refine ⟨?_, spell_not_prefix ((List.pairwise_cons.mp hrest).1 other hlater)
            (hlongest tok) fun word hword hfront => ?_⟩
          · exact fun h => absurd (List.all_eq_true.mp other.word_alpha _ h) (by decide)
          · rw [← hreads.render_spell]
            apply prefix_render_of_prefix _ hfront
            intro shown
            obtain ⟨c, w, heq, halpha⟩ := stage_cons pid done shown
            refine ⟨c, w, heq, fun h => ?_⟩
            rw [List.all_eq_true.mp hword c h] at halpha
            cases halpha

theorem stage_append (done : List GCToken) (tok : GCToken) :
    Function.update (stage pid done) tok (tok.wildcard pid) = stage pid (done ++ [tok]) := by
  funext other
  by_cases heq : other = tok
  · subst heq
    rw [Function.update_self, stage, if_pos (List.mem_append_right _ List.mem_cons_self)]
  · have hmem : other ∈ done ++ [tok] ↔ other ∈ done := by simp [heq]
    rw [Function.update_of_ne heq, stage, stage]
    simp only [hmem]

theorem GCTemplate.replaceToken_stage (template : GCTemplate) {done rest : List GCToken}
    {tok : GCToken} (horder : done ++ tok :: rest = GCToken.order) :
    replaceToken pid (render (stage pid done) template.pieces) tok =
      render (stage pid (done ++ [tok])) template.pieces := by
  have hlimit : template.pieces.count (.token tok) ≤
      if tok.single then 1 else (render (stage pid done) template.pieces).length := by
    split
    · next hsingle =>
        cases tok with
        | pid => exact template.one_pid
        | p => exact template.one_p
        | seq | tick | uid | last | t | Y | y | m | d | H | M | S => cases hsingle
    · apply count_le_length_render
      obtain ⟨c, s, heq, _⟩ := stage_cons pid done tok
      rw [heq]
      exact List.cons_ne_nil c s
  rw [← stage_append]
  exact replaceFrom_render (template.reads.distinct horder) hlimit

theorem GCTemplate.foldl_replaceToken (template : GCTemplate) (pid : Int) {done rest : List GCToken}
    (horder : done ++ rest = GCToken.order) :
    rest.foldl (replaceToken pid) (render (stage pid done) template.pieces) =
      render (stage pid GCToken.order) template.pieces := by
  induction rest generalizing done with
  | nil =>
    rw [List.append_nil] at horder
    rw [List.foldl_nil, horder]
  | cons tok rest ih =>
    rw [List.foldl_cons, template.replaceToken_stage horder]
    exact ih (by rw [List.append_assoc, List.singleton_append, horder])

theorem GCTemplate.pattern_eq_render (template : GCTemplate) (pid : Int) :
    (getGlobPatternFromGCPath template.path pid).toList =
      render (GCToken.wildcard pid) template.pieces := by
  have hstart : stage pid [] = GCToken.spell := rfl
  have hend : stage pid GCToken.order = GCToken.wildcard pid :=
    funext fun tok => if_pos tok.mem_order
  have hfold := template.foldl_replaceToken pid (List.nil_append _)
  rw [hstart, template.reads.render_spell, hend] at hfold
  rw [getGlobPattern_toList, hfold]

end Replacements

section Matching

variable {pid : Int} {pattern s : List Char}

theorem globMatch_ofForm {form text : List Char}
    (h : List.Forall₂ (fun f c => if f.isAlpha then c ≠ '/' else c = f) form text)
    (hform : '*' ∉ form ∧ '?' ∉ form) (hmore : globMatch pattern s = true) :
    globMatch (form.map (fun f => if f.isAlpha then '?' else f) ++ pattern) (text ++ s) = true := by
  induction h with
  | nil => exact hmore
  | @cons f c form text hhere _ ih =>
    obtain ⟨hstar, hone⟩ := hform
    rw [List.mem_cons, not_or] at hstar hone
    have hrest := ih ⟨hstar.2, hone.2⟩
    rw [List.map_cons, List.cons_append, List.cons_append]
    by_cases halpha : f.isAlpha = true
    · rw [if_pos halpha] at hhere ⊢
      exact globMatch_one hhere hrest
    · rw [if_neg halpha] at hhere ⊢
      rw [hhere]
      exact globMatch_lit (Ne.symm hstar.1) (Ne.symm hone.1) hrest

theorem globMatch_toString_pid (pid : Int) (hmore : globMatch pattern s = true) :
    globMatch ((toString pid).toList ++ pattern) ((toString pid).toList ++ s) = true :=
  globMatch_text (not_mem_toString_int (by decide) pid) (not_mem_toString_int (by decide) pid) hmore

theorem globMatch_of_fills {tok : GCToken} {text : List Char} (h : Fills pid tok text)
    (hmore : globMatch pattern s = true) :
    globMatch (tok.wildcard pid ++ pattern) (text ++ s) = true := by
  cases tok with
  | pid =>
    rw [show text = _ from h]
    exact globMatch_toString_pid pid hmore
  | p =>
    have hpid := globMatch_toString_pid pid hmore
    rcases h with rfl | rfl
    · have hnone : '/' ∉ ([] : List Char) := List.not_mem_nil
      have hmatch := globMatch_star hnone hpid
      exact hmatch
    · rw [List.append_assoc]
      exact globMatch_star (by decide) hpid
  | tick | uid | last => exact globMatch_star h hmore
  | t | seq | Y | y | m | d | H | M | S => exact globMatch_ofForm h (by decide) hmore

/-- Every file name that a JVM makes of a path is found by its pattern. -/
theorem glob_matches_produced (template : GCTemplate) (pid : Int) (name : List Char)
    (h : Produces pid template.pieces name) :
    globMatch (getGlobPatternFromGCPath template.path pid).toList name = true := by
  rw [template.pattern_eq_render pid]
  have hreads := template.reads
  revert h
  generalize template.pieces = pieces at *
  generalize template.path.toList = path at *
  induction hreads generalizing name with
  | nil =>
    intro h
    rw [show name = [] from h]
    rfl
  | @lit c s pieces _ hmeta _ ih =>
    rintro ⟨rest, rfl, hrest⟩
    have hstar : c ≠ '*' := fun heq => hmeta (heq ▸ by decide)
    have hone : c ≠ '?' := fun heq => hmeta (heq ▸ by decide)
    exact globMatch_lit hstar hone (ih rest hrest)
  | token _ _ ih =>
    rintro ⟨text, rest, rfl, htext, hrest⟩
    exact globMatch_of_fills htext (ih rest hrest)

def sampleTemplate : GCTemplate where
  path := "gc%p.%t"
  pieces := [.lit 'g', .lit 'c', .token .p, .lit '.', .token .t]
  reads := by
    change ReadsTemplate ('g' :: 'c' :: (GCToken.p.spell ++ '.' :: (GCToken.t.spell ++ []))) _
    refine .lit (by decide) (by decide) (.lit (by decide) (by decide) (.token ?_ ?_))
    · refine .lit (by decide) (by decide) (.token .nil ?_)
      intro other
      cases other <;> decide
    · intro other
      cases other <;> decide
  one_pid := by decide
  one_p := by decide

theorem glob_matches_sample :
    globMatch (getGlobPatternFromGCPath sampleTemplate.path 77).toList
      "gcpid77.2024-01-02_03-04-05".toList = true := by
  apply glob_matches_produced
  refine ⟨_, rfl, _, rfl, "pid77".toList, ".2024-01-02_03-04-05".toList, rfl, .inr rfl, _, rfl,
    "2024-01-02_03-04-05".toList, [], rfl, ?_, rfl⟩
  change List.Forall₂ _ "YYYY-MM-DD_HH-MM-SS".toList "2024-01-02_03-04-05".toList
  decide

end Matching

end YcAgent.Capture
