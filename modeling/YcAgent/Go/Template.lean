import YcAgent.Go.Strings
import Mathlib.Logic.Function.Basic

/-!
Texts with placeholders, and patterns with wildcards. A placeholder starts with
a mark that stands nowhere else. Replacing the text of one placeholder puts the
new text in its places and changes nothing else, provided that no other
placeholder, with what follows it, is taken for the one that is replaced.
-/

namespace YcAgent.Go

inductive Piece (τ : Type) where
  | lit (c : Char)
  | token (t : τ)
  deriving DecidableEq

section Render

variable {τ : Type}

def render (shown : τ → List Char) : List (Piece τ) → List Char
  | [] => []
  | .lit c :: pieces => c :: render shown pieces
  | .token t :: pieces => shown t ++ render shown pieces

theorem count_le_length_render [DecidableEq τ] {shown : τ → List Char} {tok : τ}
    (hshown : shown tok ≠ []) (pieces : List (Piece τ)) :
    pieces.count (.token tok) ≤ (render shown pieces).length := by
  induction pieces with
  | nil => exact Nat.le_refl 0
  | cons piece pieces ih =>
    cases piece with
    | lit c =>
      rw [List.count_cons_of_ne (by simp), render, List.length_cons]
      omega
    | token t =>
      rw [render, List.length_append, List.count_cons]
      split
      · next heq =>
          obtain rfl : t = tok := by simpa using heq
          have hpos := List.length_pos_of_ne_nil hshown
          omega
      · omega

/-- A word that is made of other characters than the tokens start with stands
in literal text, whatever the tokens are shown as. -/
theorem prefix_render_of_prefix {shown other : τ → List Char} {word : List Char}
    (hshown : ∀ t, ∃ c s, shown t = c :: s ∧ c ∉ word) {pieces : List (Piece τ)}
    (h : word <+: render shown pieces) : word <+: render other pieces := by
  induction pieces generalizing word with
  | nil => exact h
  | cons piece pieces ih =>
    cases word with
    | nil => exact List.nil_prefix
    | cons a word =>
      cases piece with
      | lit c =>
        obtain ⟨rfl, htail⟩ := List.cons_prefix_cons.mp h
        refine List.cons_prefix_cons.mpr ⟨rfl, ih (fun t => ?_) htail⟩
        obtain ⟨c, s, heq, hc⟩ := hshown t
        exact ⟨c, s, heq, fun hmem => hc (List.mem_cons_of_mem _ hmem)⟩
      | token t =>
        obtain ⟨c, s, heq, hc⟩ := hshown t
        rw [render, heq, List.cons_append] at h
        exact absurd (List.cons_prefix_cons.mp h).1 fun hac => hc (hac ▸ List.mem_cons_self)

end Render

section Replace

variable {mark : Char} {word new : List Char}

private theorem replaceFrom_drop (old rest : List Char) (limit : Nat) (skipped : List Char) :
    replaceFrom old new skipped.length limit (skipped ++ rest) =
      replaceFrom old new 0 limit rest := by
  induction skipped with
  | nil => rfl
  | cons c skipped ih => exact ih

private theorem replaceFrom_of_not_prefix {old s : List Char} {c : Char} {limit : Nat}
    (h : ¬old <+: c :: s) :
    replaceFrom old new 0 limit (c :: s) = c :: replaceFrom old new 0 limit s := by
  have hfalse : ¬(0 < limit ∧ old.isPrefixOf (c :: s) = true) := by
    rw [List.isPrefixOf_iff_prefix]
    exact fun hboth => h hboth.2
  rw [replaceFrom, if_neg hfalse]

private theorem replaceFrom_of_free {front : List Char} (hfront : mark ∉ front) (limit : Nat)
    (rest : List Char) :
    replaceFrom (mark :: word) new 0 limit (front ++ rest) =
      front ++ replaceFrom (mark :: word) new 0 limit rest := by
  induction front with
  | nil => rfl
  | cons c front ih =>
    have hnot : ¬(mark :: word) <+: c :: (front ++ rest) := fun h =>
      hfront (List.mem_cons.mpr (.inl (List.cons_prefix_cons.mp h).1))
    rw [List.cons_append, replaceFrom_of_not_prefix hnot,
      ih fun hmem => hfront (List.mem_cons_of_mem _ hmem), List.cons_append]

theorem toList_replaceFirst (s old new : String) :
    (replaceFirst s old new).toList = replaceFrom old.toList new.toList 0 1 s.toList :=
  String.toList_ofList

theorem toList_replaceAll (s old new : String) :
    (replaceAll s old new).toList =
      replaceFrom old.toList new.toList 0 s.toList.length s.toList := by
  rw [replaceAll, String.toList_ofList, String.length_toList]

variable {τ : Type} [DecidableEq τ] {shown : τ → List Char} {tok : τ}

/-- The mark and the word stand in the text as the token `tok` and nowhere
else. -/
def Distinct (mark : Char) (word : List Char) (shown : τ → List Char) (tok : τ) :
    List (Piece τ) → Prop
  | [] => True
  | .lit c :: pieces => c ≠ mark ∧ Distinct mark word shown tok pieces
  | .token t :: pieces =>
    (if t = tok then shown t = mark :: word
      else mark ∉ (shown t).tail ∧ ¬mark :: word <+: shown t ++ render shown pieces) ∧
    Distinct mark word shown tok pieces

theorem replaceFrom_render {pieces : List (Piece τ)} {limit : Nat}
    (hdistinct : Distinct mark word shown tok pieces) (hlimit : pieces.count (.token tok) ≤ limit) :
    replaceFrom (mark :: word) new 0 limit (render shown pieces) =
      render (Function.update shown tok new) pieces := by
  induction pieces generalizing limit with
  | nil => rfl
  | cons piece pieces ih =>
    cases piece with
    | lit c =>
      obtain ⟨hc, hmore⟩ := hdistinct
      have hcount : pieces.count (.token tok) ≤ limit := by simpa using hlimit
      have hnot : ¬(mark :: word) <+: c :: render shown pieces := fun h =>
        hc (List.cons_prefix_cons.mp h).1.symm
      rw [render, replaceFrom_of_not_prefix hnot, ih hmore hcount, render]
    | token t =>
      obtain ⟨hhere, hmore⟩ := hdistinct
      rw [render, render]
      split at hhere
      · next heq =>
          subst heq
          have hcount : pieces.count (.token t) ≤ limit - 1 := by
            rw [List.count_cons_self] at hlimit
            omega
          have hpos : 0 < limit := by
            rw [List.count_cons_self] at hlimit
            omega
          have hold : (mark :: word).isPrefixOf (mark :: (word ++ render shown pieces)) = true :=
            List.isPrefixOf_iff_prefix.mpr (List.prefix_append (mark :: word) _)
          rw [hhere, List.cons_append, replaceFrom, if_pos ⟨hpos, hold⟩, Function.update_self,
            List.length_cons, Nat.add_sub_cancel, replaceFrom_drop, ih hmore hcount]
      · next hne =>
          have hcount : pieces.count (.token tok) ≤ limit := by
            rwa [List.count_cons_of_ne (by simpa using hne)] at hlimit
          rw [Function.update_of_ne hne, ← ih hmore hcount]
          obtain ⟨hfree, hnot⟩ := hhere
          cases hshown : shown t with
          | nil => rfl
          | cons c s =>
            have htail : mark ∉ s := by rwa [hshown] at hfree
            rw [hshown, List.cons_append] at hnot
            rw [List.cons_append, replaceFrom_of_not_prefix hnot, replaceFrom_of_free htail,
              List.cons_append]

end Replace

/-- What is left of a text when a star has taken some of it. -/
def afterStar : List Char → List (List Char)
  | [] => [[]]
  | c :: s => (c :: s) :: if c = '/' then [] else afterStar s

/-- `doublestar.Match` for patterns without classes, alternatives and escapes:
a star stands for characters of one path element, a question mark for one of
them. A path element that consists of stars only matches more than that. -/
def globMatch : List Char → List Char → Bool
  | [], s => s.isEmpty
  | p :: pattern, s =>
    if p = '*' then (afterStar s).any fun rest => globMatch pattern rest
    else
      match s with
      | [] => false
      | c :: s => (if p = '?' then c ≠ '/' else c = p) && globMatch pattern s

section Match

variable {pattern s : List Char}

private theorem mem_afterStar {front : List Char} (hfront : '/' ∉ front) :
    s ∈ afterStar (front ++ s) := by
  induction front with
  | nil =>
    cases s with
    | nil => exact List.mem_singleton_self _
    | cons c s => exact List.mem_cons_self
  | cons c front ih =>
    have hc : c ≠ '/' := fun heq => hfront (heq ▸ List.mem_cons_self)
    rw [List.cons_append, afterStar, if_neg hc]
    exact List.mem_cons_of_mem _ (ih fun hmem => hfront (List.mem_cons_of_mem _ hmem))

theorem globMatch_star {front : List Char} (hfront : '/' ∉ front)
    (h : globMatch pattern s = true) : globMatch ('*' :: pattern) (front ++ s) = true := by
  have hany : ((afterStar (front ++ s)).any fun rest => globMatch pattern rest) = true :=
    List.any_eq_true.mpr ⟨s, mem_afterStar hfront, h⟩
  simp [globMatch, hany]

theorem globMatch_one {c : Char} (hc : c ≠ '/') (h : globMatch pattern s = true) :
    globMatch ('?' :: pattern) (c :: s) = true := by
  simp [globMatch, hc, h]

theorem globMatch_lit {c : Char} (hstar : c ≠ '*') (hone : c ≠ '?')
    (h : globMatch pattern s = true) : globMatch (c :: pattern) (c :: s) = true := by
  simp [globMatch, hstar, hone, h]

theorem globMatch_text {front : List Char} (hstar : '*' ∉ front) (hone : '?' ∉ front)
    (h : globMatch pattern s = true) : globMatch (front ++ pattern) (front ++ s) = true := by
  induction front with
  | nil => exact h
  | cons c front ih =>
    rw [List.mem_cons, not_or] at hstar hone
    exact globMatch_lit (Ne.symm hstar.1) (Ne.symm hone.1) (ih hstar.2 hone.2)

end Match

end YcAgent.Go
