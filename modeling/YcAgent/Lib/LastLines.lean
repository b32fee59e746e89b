import YcAgent.Lib.Lines

/-!
The last lines of a sequence. Here what follows the last terminator is a line
too, unless it is empty, so that a terminator at the very end closes the last
line and does not open another one. The number of lines is read off the number
of terminators and the last element.
-/

namespace YcAgent.Lib.Lines

variable {α : Type*} [DecidableEq α] {nl : α}

def allLines (nl : α) (s : List α) : List (List α) :=
  (splitLines nl s).1.map Line.text ++
    if (splitLines nl s).2 = [] then [] else [(splitLines nl s).2]

def lastLines (nl : α) (n : Nat) (s : List α) : List α :=
  ((allLines nl s).drop ((allLines nl s).length - n)).flatten

theorem allLines_flatten (nl : α) (s : List α) : (allLines nl s).flatten = s := by
  have hsplit := splitLines_join nl s
  rw [allLines, List.flatten_append, ← joinLines]
  split
  · next hnil => rwa [hnil] at hsplit
  · simpa using hsplit

theorem allLines_join_append (lines : List (Line nl)) (rest : List α) :
    allLines nl (joinLines lines ++ rest) = lines.map Line.text ++ allLines nl rest := by
  rw [allLines, splitLines_join_append, List.map_append, List.append_assoc, allLines]

/-- A terminator separates the lines before it from those after it. -/
theorem allLines_append (first rest : List α) :
    allLines nl (first ++ nl :: rest) = allLines nl (first ++ [nl]) ++ allLines nl rest := by
  have hfirst := splitLines_join nl first
  have hfree := splitLines_tail_free nl first
  generalize (splitLines nl first).1 = lines at hfirst
  generalize (splitLines nl first).2 = tail at hfirst hfree
  have hjoin : first ++ [nl] = joinLines (lines ++ [⟨tail, hfree⟩]) := by
    rw [← hfirst, joinLines_append, List.append_assoc]
    simp [Line.text]
  have hwhole := allLines_join_append (lines ++ [⟨tail, hfree⟩]) rest
  have hpart := allLines_join_append (lines ++ [⟨tail, hfree⟩]) []
  rw [List.append_nil] at hpart
  rw [← hjoin] at hwhole hpart
  rw [hpart, ← List.singleton_append, ← List.append_assoc, hwhole]
  simp [allLines, splitLines]

theorem count_joinLines (lines : List (Line nl)) : (joinLines lines).count nl = lines.length := by
  induction lines with
  | nil => rfl
  | cons line lines ih =>
    have hbody : line.body.count nl = 0 := List.count_eq_zero.mpr line.body_free
    rw [joinLines_cons, List.count_append, ih, Line.text, List.count_append, hbody]
    simp
    omega

def Terminated (nl : α) (s : List α) : Prop := s = [] ∨ s.getLast? = some nl

instance (s : List α) : Decidable (Terminated nl s) := inferInstanceAs (Decidable (_ ∨ _))

theorem terminated_iff (s : List α) : Terminated nl s ↔ (splitLines nl s).2 = [] := by
  have hsplit := splitLines_join nl s
  have hfree := splitLines_tail_free nl s
  generalize (splitLines nl s).1 = lines at hsplit
  generalize (splitLines nl s).2 = tail at hsplit hfree ⊢
  constructor
  · rintro (hnil | hlast)
    · rw [hnil, List.append_eq_nil_iff] at hsplit
      exact hsplit.2
    · by_contra hne
      rw [← hsplit, List.getLast?_append_of_ne_nil _ hne] at hlast
      exact hfree (List.mem_of_getLast? hlast)
  · intro hnil
    rw [hnil, List.append_nil] at hsplit
    by_cases hempty : joinLines lines = []
    · exact .inl (hsplit.symm.trans hempty)
    · obtain ⟨body, hbody⟩ := joinLines_getLast hempty
      right
      rw [← hsplit, hbody, List.getLast?_concat]

theorem length_allLines (s : List α) :
    (allLines nl s).length = s.count nl + if Terminated nl s then 0 else 1 := by
  have hsplit := splitLines_join nl s
  have hcount : s.count nl = (splitLines nl s).1.length := by
    have htail : (splitLines nl s).2.count nl = 0 :=
      List.count_eq_zero.mpr (splitLines_tail_free nl s)
    have hparts := congrArg (List.count nl) hsplit
    rw [List.count_append, count_joinLines, htail] at hparts
    exact hparts.symm
  rw [allLines, List.length_append, List.length_map, ← hcount]
  by_cases hend : Terminated nl s
  · rw [if_pos hend, if_pos ((terminated_iff s).mp hend), List.length_nil]
  · rw [if_neg hend, if_neg (fun hnil => hend ((terminated_iff s).mpr hnil)), List.length_singleton]

theorem length_allLines_le (nl : α) (s : List α) : (allLines nl s).length ≤ s.length := by
  rw [length_allLines]
  split
  · exact List.count_le_length
  · next hopen =>
      have hne : s ≠ [] := fun hnil => hopen (.inl hnil)
      have hlast : s.getLast hne ≠ nl := fun heq =>
        hopen (.inr (by rw [List.getLast?_eq_some_getLast hne, heq]))
      have hcount : s.count nl = s.dropLast.count nl := by
        conv_lhs => rw [← List.dropLast_append_getLast hne]
        simp [hlast]
      have hle : s.dropLast.count nl ≤ s.dropLast.length := List.count_le_length
      rw [List.length_dropLast] at hle
      have hpos := List.length_pos_of_ne_nil hne
      omega

theorem lastLines_all {n : Nat} {s : List α} (h : (allLines nl s).length ≤ n) :
    lastLines nl n s = s := by
  have hzero : (allLines nl s).length - n = 0 := by omega
  rw [lastLines, hzero, List.drop_zero, allLines_flatten]

theorem ne_nil_of_mem_allLines {s line : List α} (h : line ∈ allLines nl s) : line ≠ [] := by
  rcases List.mem_append.1 h with hmem | hmem
  · obtain ⟨complete, -, rfl⟩ := List.mem_map.1 hmem
    simp [Line.text]
  · split at hmem
    · cases hmem
    · next hne => rwa [List.mem_singleton.1 hmem]

/-- Nothing is left out just in case there are no more lines than asked for. -/
theorem lastLines_eq_self_iff {n : Nat} {s : List α} :
    lastLines nl n s = s ↔ (allLines nl s).length ≤ n := by
  refine ⟨fun hself => ?_, lastLines_all⟩
  by_contra hmore
  have hsplit : ((allLines nl s).take ((allLines nl s).length - n)).flatten ++
      lastLines nl n s = s := by
    rw [lastLines, ← List.flatten_append, List.take_append_drop, allLines_flatten]
  rw [hself, List.append_left_eq_self, List.flatten_eq_nil_iff] at hsplit
  obtain ⟨first, rest, hlines⟩ : ∃ first rest, allLines nl s = first :: rest := by
    cases hlines : allLines nl s with
    | nil => simp [hlines] at hmore
    | cons first rest => exact ⟨first, rest, rfl⟩
  have htake : first ∈ (allLines nl s).take ((allLines nl s).length - n) := by
    obtain ⟨k, hk⟩ : ∃ k, (allLines nl s).length - n = k + 1 := ⟨_, (Nat.succ_pred (by omega)).symm⟩
    rw [hk, hlines, List.take_succ_cons]
    exact List.mem_cons_self
  exact ne_nil_of_mem_allLines (hlines ▸ List.mem_cons_self) (hsplit first htake)

/-- A text of `n` lines, each with its terminator. -/
def HasLines (nl : α) (n : Nat) (s : List α) : Prop :=
  ∃ lines : List (Line nl), lines.length = n ∧ joinLines lines = s

omit [DecidableEq α] in
theorem HasLines.append {m n : Nat} {s t : List α} (hs : HasLines nl m s) (ht : HasLines nl n t) :
    HasLines nl (m + n) (s ++ t) := by
  obtain ⟨lines, rfl, rfl⟩ := hs
  obtain ⟨more, rfl, rfl⟩ := ht
  exact ⟨lines ++ more, List.length_append, joinLines_append lines more⟩

omit [DecidableEq α] in
theorem hasLines_one {body : List α} (h : nl ∉ body) : HasLines nl 1 (body ++ [nl]) :=
  ⟨[⟨body, h⟩], rfl, by simp [joinLines, Line.text]⟩

omit [DecidableEq α] in
theorem hasLines_flatMap {ι : Type*} {items : List ι} {text : ι → List α}
    (h : ∀ item ∈ items, HasLines nl 1 (text item)) :
    HasLines nl items.length (items.flatMap text) := by
  induction items with
  | nil => exact ⟨[], rfl, rfl⟩
  | cons item items ih =>
    rw [List.length_cons, Nat.add_comm, List.flatMap_cons]
    exact (h item List.mem_cons_self).append
      (ih fun other hmem => h other (List.mem_cons_of_mem _ hmem))

theorem HasLines.length_allLines {n : Nat} {s : List α} (h : HasLines nl n s) :
    (allLines nl s).length = n := by
  obtain ⟨lines, rfl, rfl⟩ := h
  have hlines := allLines_join_append lines []
  rw [List.append_nil] at hlines
  rw [hlines, List.length_append, List.length_map]
  simp [allLines, splitLines]

theorem lastLines_zero (s : List α) : lastLines nl 0 s = [] := by
  simp [lastLines]

omit [DecidableEq α] in
/-- Whether the end of a sequence is terminated shows on what follows one of
its terminators, if that is not empty. -/
theorem terminated_append (first : List α) {rest : List α} (hne : rest ≠ []) :
    Terminated nl rest ↔ (first ++ nl :: rest).getLast? = some nl := by
  have hlast : (first ++ nl :: rest).getLast? = rest.getLast? := by
    rw [← List.singleton_append, ← List.append_assoc, List.getLast?_append_of_ne_nil _ hne]
  rw [hlast, Terminated, or_iff_right hne]

/-- What follows a terminator is the last lines, as many as it has. -/
theorem lastLines_after {n : Nat} (first : List α) {rest : List α}
    (h : (allLines nl rest).length = n) : lastLines nl n (first ++ nl :: rest) = rest := by
  rw [lastLines, allLines_append, List.length_append, h, Nat.add_sub_cancel, List.drop_left,
    allLines_flatten]

end YcAgent.Lib.Lines
