import YcAgent.Go.Strings
import YcAgent.Lib.Delimited

/-!
What Go's `net/url` reads from the query of a URL. `url.Parse` takes the text
between the first `?` and the first `#`, and refuses control bytes in front of
the `#` and bad escapes behind it; of the scheme, the host and the path nothing
is said here, they do not depend on the query. `URL.Query` splits at `&`, drops
the pairs it cannot read and undoes the escapes of the others.
-/

namespace YcAgent.Go

open Lib.Delimited

def ampersand : UInt8 := 38
def equals : UInt8 := 61
def hashSign : UInt8 := 35
def questionMark : UInt8 := 63
def percent : UInt8 := 37
def plusSign : UInt8 := 43
def semicolon : UInt8 := 59

def isControl (b : UInt8) : Bool := b < 32 || b == 127

/-- `before, after, _ := strings.Cut(s, b)`. -/
def cut (b : UInt8) (s : Bytes) : Bytes × Bytes :=
  (s.takeWhile (· ≠ b), (s.dropWhile (· ≠ b)).drop 1)

theorem cut_of_not_mem {b : UInt8} {s : Bytes} (h : b ∉ s) : cut b s = (s, []) := by
  have hall : ∀ x ∈ s, decide (x ≠ b) = true := by
    intro x hx
    simpa using ne_of_mem_of_not_mem hx h
  rw [← List.append_nil s, cut, List.takeWhile_append_of_pos hall,
    List.dropWhile_append_of_pos hall]
  simp

theorem cut_append {b : UInt8} {front : Bytes} (h : b ∉ front) (s : Bytes) :
    cut b (front ++ s) = (front ++ (cut b s).1, (cut b s).2) := by
  have hall : ∀ x ∈ front, decide (x ≠ b) = true := by
    intro x hx
    simpa using ne_of_mem_of_not_mem hx h
  rw [cut, List.takeWhile_append_of_pos hall, List.dropWhile_append_of_pos hall, cut]

@[simp] theorem cut_cons_self (b : UInt8) (s : Bytes) : cut b (b :: s) = ([], s) := by
  simp [cut]

theorem cut_at {b : UInt8} {front : Bytes} (h : b ∉ front) (back : Bytes) :
    cut b (front ++ b :: back) = (front, back) := by
  rw [cut_append h, cut_cons_self, List.append_nil]

theorem cut_of_mem {b : UInt8} {s : Bytes} (h : b ∈ s) : s = (cut b s).1 ++ b :: (cut b s).2 := by
  obtain ⟨front, back, rfl, hfront⟩ := List.eq_append_cons_of_mem h
  rw [cut_at hfront]

def unhex (b : UInt8) : Option UInt8 :=
  if 48 ≤ b ∧ b ≤ 57 then some (b - 48)
  else if 97 ≤ b ∧ b ≤ 102 then some (b - 97 + 10)
  else if 65 ≤ b ∧ b ≤ 70 then some (b - 65 + 10)
  else none

/-- `url.QueryUnescape`, with `none` for an escape that is not complete. -/
def queryUnescape : Bytes → Option Bytes
  | [] => some []
  | b :: rest =>
    if b = percent then
      match rest with
      | hi :: lo :: rest => do
        let hi ← unhex hi
        let lo ← unhex lo
        let rest ← queryUnescape rest
        return (hi * 16 + lo) :: rest
      | _ => none
    else do
      let rest ← queryUnescape rest
      return (if b = plusSign then 32 else b) :: rest

theorem queryUnescape_cons {b : UInt8} (hb : b ≠ percent) (rest : Bytes) :
    queryUnescape (b :: rest) =
      (queryUnescape rest).map fun t => (if b = plusSign then 32 else b) :: t := by
  rw [queryUnescape.eq_def]
  simp only [if_neg hb]
  cases queryUnescape rest <;> rfl

theorem queryUnescape_percent_cons {rest t : Bytes} (h : queryUnescape (percent :: rest) = some t) :
    ∃ hi lo b more rest', rest = hi :: lo :: more ∧ queryUnescape more = some rest' ∧
      t = b :: rest' := by
  rw [queryUnescape.eq_def] at h
  simp only [if_true] at h
  split at h
  · next hi lo more =>
      simp only [Option.bind_eq_bind, Option.bind_eq_some_iff] at h
      obtain ⟨hi', -, lo', -, rest', hrest, heq⟩ := h
      exact ⟨hi, lo, hi' * 16 + lo', more, rest', rfl, hrest, (Option.some.inj heq).symm⟩
  · cases h

theorem queryUnescape_of_no_percent {s : Bytes} (h : percent ∉ s) :
    queryUnescape s = some (s.map fun b => if b = plusSign then 32 else b) := by
  induction s with
  | nil => rfl
  | cons b s ih =>
    rw [List.mem_cons, not_or] at h
    rw [queryUnescape_cons (Ne.symm h.1), ih h.2]
    rfl

theorem queryUnescape_eq_self {s : Bytes} (hpercent : percent ∉ s) (hplus : plusSign ∉ s) :
    queryUnescape s = some s := by
  rw [queryUnescape_of_no_percent hpercent]
  congr 1
  conv_rhs => rw [← List.map_id s]
  apply List.map_congr_left
  intro b hb
  exact if_neg (ne_of_mem_of_not_mem hb hplus)

theorem length_of_queryUnescape {s t : Bytes} (h : queryUnescape s = some t) :
    t.length ≤ s.length ∧ (percent ∈ s → t.length < s.length) := by
  induction hn : s.length using Nat.strongRecOn generalizing s t with
  | ind n ih =>
    cases s with
    | nil =>
      cases h
      simp [← hn]
    | cons b rest =>
      by_cases hb : b = percent
      · subst hb
        obtain ⟨hi, lo, x, more, rest', rfl, hmore, rfl⟩ := queryUnescape_percent_cons h
        simp only [List.length_cons] at hn ⊢
        have hle := (ih more.length (by omega) hmore rfl).1
        omega
      · rw [queryUnescape_cons hb, Option.map_eq_some_iff] at h
        obtain ⟨rest', hrest, rfl⟩ := h
        simp only [List.length_cons] at hn ⊢
        obtain ⟨hle, hlt⟩ := ih rest.length (by omega) hrest rfl
        refine ⟨by omega, ?_⟩
        intro hmem
        have hstrict := hlt ((List.mem_cons.1 hmem).resolve_left (Ne.symm hb))
        omega

def decodePair (piece : Bytes) : Option (Bytes × Bytes) :=
  if semicolon ∈ piece then none
  else if piece = [] then none
  else do
    let key ← queryUnescape (cut equals piece).1
    let value ← queryUnescape (cut equals piece).2
    return (key, value)

/-- `URL.Query`, which drops the pairs it cannot read. -/
def parseQuery (query : Bytes) : List (Bytes × Bytes) :=
  (query.splitOn ampersand).filterMap decodePair

def rawPairs (query : Bytes) : List (Bytes × Bytes) :=
  (query.splitOn ampersand).map (cut equals)

/-- The text of a URL between its first `?` and its fragment. -/
def queryText (url : Bytes) : Bytes := (cut questionMark (cut hashSign url).1).2

/-- The raw query of `url.Parse`, or `none` for an error. -/
def rawQuery (url : Bytes) : Option Bytes :=
  if (cut hashSign url).1.any isControl then none
  else if queryUnescape (cut hashSign url).2 = none then none
  else some (queryText url)

def urlQuery (url : Bytes) : Option (List (Bytes × Bytes)) := (rawQuery url).map parseQuery

def writePair (pair : Bytes × Bytes) : Bytes := pair.1 ++ equals :: pair.2

theorem splitOn_append (s t : Bytes) :
    (s ++ ampersand :: t).splitOn ampersand = s.splitOn ampersand ++ t.splitOn ampersand :=
  List.splitOnP_append_cons s t (by simp)

theorem splitOn_eq_singleton {s : Bytes} (h : ampersand ∉ s) : s.splitOn ampersand = [s] := by
  apply List.splitOnP_eq_singleton
  intro b hb
  simpa using ne_of_mem_of_not_mem hb h

theorem parseQuery_append (s t : Bytes) :
    parseQuery (s ++ ampersand :: t) = parseQuery s ++ parseQuery t := by
  rw [parseQuery, splitOn_append, List.filterMap_append, parseQuery, parseQuery]

theorem parseQuery_eq_toList {s : Bytes} (h : ampersand ∉ s) :
    parseQuery s = (decodePair s).toList := by
  rw [parseQuery, splitOn_eq_singleton h]
  cases hpair : decodePair s <;> simp [hpair]

/-- The bytes that do not come back when they stand in a value as they are. -/
def needsEscape (b : UInt8) : Bool :=
  isControl b || b == ampersand || b == hashSign || b == percent || b == plusSign || b == semicolon

theorem toNat_of_needsEscape {b : UInt8} (h : needsEscape b = true) :
    b.toNat < 44 ∨ b.toNat = 59 ∨ b.toNat = 127 := by
  simp only [needsEscape, isControl, Bool.or_eq_true, decide_eq_true_eq, beq_iff_eq] at h
  rcases h with (((((hlow | rfl) | rfl) | rfl) | rfl) | rfl) | rfl
  · have hnat : b.toNat < 32 := hlow
    omega
  all_goals decide

/-- A text that comes back from a query as it is. -/
def Plain (s : Bytes) : Prop := ∀ b ∈ s, needsEscape b = false

instance (s : Bytes) : Decidable (Plain s) :=
  inferInstanceAs (Decidable (∀ b ∈ s, needsEscape b = false))

theorem Plain.not_mem {s : Bytes} (h : Plain s) {b : UInt8} (hb : needsEscape b = true) :
    b ∉ s := by
  intro hmem
  rw [h b hmem] at hb
  cases hb

/-- No fragment begins in the text, and `url.Parse` does not refuse it. -/
def Unbroken (s : Bytes) : Prop := ∀ b ∈ s, b ≠ hashSign ∧ isControl b = false

theorem Unbroken.append {s t : Bytes} (hs : Unbroken s) (ht : Unbroken t) : Unbroken (s ++ t) :=
  List.forall_mem_append.2 ⟨hs, ht⟩

theorem Unbroken.cons {b : UInt8} {s : Bytes} (hb : b ≠ hashSign ∧ isControl b = false)
    (hs : Unbroken s) : Unbroken (b :: s) :=
  List.forall_mem_cons.2 ⟨hb, hs⟩

theorem Plain.unbroken {s : Bytes} (h : Plain s) : Unbroken s := by
  intro b hb
  have hplain := h b hb
  simp only [needsEscape, Bool.or_eq_false_iff, beq_eq_false_iff_ne] at hplain
  obtain ⟨⟨⟨⟨⟨hcontrol, -⟩, hhash⟩, -⟩, -⟩, -⟩ := hplain
  exact ⟨hhash, hcontrol⟩

theorem plain_of_unbroken {s : Bytes} (hs : Unbroken s) (hampersand : ampersand ∉ s)
    (hpercent : percent ∉ s) (hplus : plusSign ∉ s) (hsemicolon : semicolon ∉ s) : Plain s := by
  intro b hb
  simp only [needsEscape, Bool.or_eq_false_iff, beq_eq_false_iff_ne]
  exact ⟨⟨⟨⟨⟨(hs b hb).2, ne_of_mem_of_not_mem hb hampersand⟩, (hs b hb).1⟩,
    ne_of_mem_of_not_mem hb hpercent⟩, ne_of_mem_of_not_mem hb hplus⟩,
      ne_of_mem_of_not_mem hb hsemicolon⟩

theorem Plain.append {s t : Bytes} (hs : Plain s) (ht : Plain t) : Plain (s ++ t) := by
  intro b hb
  exact (List.mem_append.1 hb).elim (hs b) (ht b)

theorem plain_itoa (n : Int) : Plain (itoa n) := by
  intro b hb
  obtain ⟨hlow, hhigh⟩ := mem_itoa hb
  by_contra hbad
  have hout := toNat_of_needsEscape (Bool.eq_true_of_not_eq_false hbad)
  omega

structure PlainKey (key : Bytes) : Prop where
  plain : Plain key
  no_equals : equals ∉ key
  nonempty : key ≠ []

theorem plainKey_iff {key : Bytes} : PlainKey key ↔ Plain key ∧ equals ∉ key ∧ key ≠ [] :=
  ⟨fun h => ⟨h.plain, h.no_equals, h.nonempty⟩,
    fun ⟨hplain, hequals, hne⟩ => ⟨hplain, hequals, hne⟩⟩

instance (key : Bytes) : Decidable (PlainKey key) := decidable_of_iff' _ plainKey_iff

theorem ampersand_not_mem_writePair {key value : Bytes} (hkey : PlainKey key)
    (hvalue : ampersand ∉ value) : ampersand ∉ writePair (key, value) := by
  rw [writePair, List.mem_append, List.mem_cons, not_or, not_or]
  exact ⟨hkey.plain.not_mem rfl, by decide, hvalue⟩

theorem unbroken_writePair {key value : Bytes} (hkey : Plain key) (hvalue : Unbroken value) :
    Unbroken (writePair (key, value)) :=
  hkey.unbroken.append (hvalue.cons (by decide))

theorem decodePair_writePair {key : Bytes} (hkey : PlainKey key) (value : Bytes) :
    decodePair (writePair (key, value)) =
      if semicolon ∈ value then none else (queryUnescape value).map fun v => (key, v) := by
  have hsemicolon : semicolon ∈ writePair (key, value) ↔ semicolon ∈ value := by
    rw [writePair, List.mem_append, List.mem_cons]
    constructor
    · rintro (hmem | heq | hmem)
      · exact absurd hmem (hkey.plain.not_mem rfl)
      · exact absurd heq (by decide)
      · exact hmem
    · exact fun hmem => .inr (.inr hmem)
  rw [decodePair]
  simp only [hsemicolon]
  split
  · rfl
  · rw [if_neg (by simp [writePair]), writePair, cut_at hkey.no_equals,
      queryUnescape_eq_self (hkey.plain.not_mem rfl) (hkey.plain.not_mem rfl)]
    cases queryUnescape value <;> rfl

theorem parseQuery_writePair_of_plain {key value : Bytes} (hkey : PlainKey key)
    (hvalue : Plain value) :
    parseQuery (writePair (key, value)) = [(key, value)] := by
  rw [parseQuery_eq_toList (ampersand_not_mem_writePair hkey (hvalue.not_mem rfl)),
    decodePair_writePair hkey, if_neg (hvalue.not_mem rfl),
    queryUnescape_eq_self (hvalue.not_mem rfl) (hvalue.not_mem rfl)]
  rfl

def writeQuery (pairs : List (Bytes × Bytes)) : Bytes :=
  [ampersand].intercalate (pairs.map writePair)

theorem forall_mem_writeQuery {P : UInt8 → Prop} (hampersand : P ampersand) (hequals : P equals)
    {pairs : List (Bytes × Bytes)}
    (hpairs : ∀ pair ∈ pairs, (∀ b ∈ pair.1, P b) ∧ (∀ b ∈ pair.2, P b)) :
    ∀ b ∈ writeQuery pairs, P b := by
  apply forall_mem_intercalate
  · simpa using hampersand
  · intro piece hpiece b hb
    obtain ⟨pair, hpair, rfl⟩ := List.mem_map.1 hpiece
    rcases List.mem_append.1 hb with hkey | hvalue
    · exact (hpairs pair hpair).1 b hkey
    · rcases List.mem_cons.1 hvalue with rfl | hvalue
      · exact hequals
      · exact (hpairs pair hpair).2 b hvalue

theorem splitOn_writeQuery {pairs : List (Bytes × Bytes)} (hne : pairs ≠ [])
    (hpairs : ∀ pair ∈ pairs, PlainKey pair.1 ∧ ampersand ∉ pair.2) :
    (writeQuery pairs).splitOn ampersand = pairs.map writePair := by
  apply List.splitOn_intercalate
  · intro piece hpiece
    obtain ⟨⟨key, value⟩, hpair, rfl⟩ := List.mem_map.1 hpiece
    exact ampersand_not_mem_writePair (hpairs _ hpair).1 (hpairs _ hpair).2
  · simpa using hne

theorem rawPairs_writeQuery {pairs : List (Bytes × Bytes)} (hne : pairs ≠ [])
    (hpairs : ∀ pair ∈ pairs, PlainKey pair.1 ∧ ampersand ∉ pair.2) :
    rawPairs (writeQuery pairs) = pairs := by
  rw [rawPairs, splitOn_writeQuery hne hpairs, List.map_map]
  conv_rhs => rw [← List.map_id pairs]
  apply List.map_congr_left
  intro pair hpair
  rw [Function.comp_apply, writePair, cut_at (hpairs pair hpair).1.no_equals]
  rfl

def decodePairs (pairs : List (Bytes × Bytes)) : List (Bytes × Bytes) :=
  pairs.filterMap fun pair => decodePair (writePair pair)

theorem parseQuery_writeQuery {pairs : List (Bytes × Bytes)} (hne : pairs ≠ [])
    (hpairs : ∀ pair ∈ pairs, PlainKey pair.1 ∧ ampersand ∉ pair.2) :
    parseQuery (writeQuery pairs) = decodePairs pairs := by
  rw [parseQuery, splitOn_writeQuery hne hpairs, List.filterMap_map]
  rfl

theorem lookup_decodePairs_of_ne {key other : Bytes} (hother : PlainKey other) (hne : key ≠ other)
    (value : Bytes) (rest : List (Bytes × Bytes)) :
    (decodePairs ((other, value) :: rest)).lookup key = (decodePairs rest).lookup key := by
  have hdecode := decodePair_writePair hother value
  rw [decodePairs, List.filterMap_cons, hdecode]
  split_ifs
  · rfl
  · cases queryUnescape value with
    | none => rfl
    | some v => rw [Option.map_some, List.lookup_cons, beq_false_of_ne hne]; rfl

theorem lookup_decodePairs_self {key value : Bytes} (hkey : PlainKey key) (hvalue : Plain value)
    (rest : List (Bytes × Bytes)) :
    (decodePairs ((key, value) :: rest)).lookup key = some value := by
  rw [decodePairs, List.filterMap_cons, decodePair_writePair hkey, if_neg (hvalue.not_mem rfl),
    queryUnescape_eq_self (hvalue.not_mem rfl) (hvalue.not_mem rfl), Option.map_some]
  exact List.lookup_cons_self

theorem queryText_append {base query : Bytes} (hbase : ∀ b ∈ base, b ≠ questionMark ∧ b ≠ hashSign)
    (hquery : hashSign ∉ query) : queryText (base ++ questionMark :: query) = query := by
  have hfree : hashSign ∉ base ++ questionMark :: query := by
    rw [List.mem_append, List.mem_cons, not_or, not_or]
    exact ⟨fun hmem => (hbase _ hmem).2 rfl, by decide, hquery⟩
  rw [queryText, cut_of_not_mem hfree, cut_at fun hmem => (hbase _ hmem).1 rfl]

theorem rawQuery_append {base query : Bytes}
    (hbase : ∀ b ∈ base, b ≠ questionMark ∧ b ≠ hashSign ∧ isControl b = false)
    (hquery : Unbroken query) :
    rawQuery (base ++ questionMark :: query) = some query := by
  have hhash : hashSign ∉ query := fun hmem => (hquery _ hmem).1 rfl
  have hfree : hashSign ∉ base ++ questionMark :: query := by
    rw [List.mem_append, List.mem_cons, not_or, not_or]
    exact ⟨fun hmem => (hbase _ hmem).2.1 rfl, by decide, hhash⟩
  have hcontrol : ¬ ((base ++ questionMark :: query).any isControl = true) := by
    rw [List.any_eq_true]
    rintro ⟨b, hmem, hbad⟩
    rcases List.mem_append.1 hmem with hmem | hmem
    · rw [(hbase b hmem).2.2] at hbad
      cases hbad
    · rcases List.mem_cons.1 hmem with rfl | hmem
      · exact absurd hbad (by decide)
      · rw [(hquery b hmem).2] at hbad
        cases hbad
  rw [rawQuery, cut_of_not_mem hfree, if_neg hcontrol, if_neg (by simp [queryUnescape]),
    queryText_append (fun b hb => ⟨(hbase b hb).1, (hbase b hb).2.1⟩) hhash]

def pairsLength (pairs : List (Bytes × Bytes)) : Nat :=
  (pairs.map fun pair => pair.1.length + pair.2.length).sum

@[simp] theorem pairsLength_append (s t : List (Bytes × Bytes)) :
    pairsLength (s ++ t) = pairsLength s + pairsLength t := by
  simp [pairsLength]

theorem pairsLength_perm {s t : List (Bytes × Bytes)} (h : s.Perm t) :
    pairsLength s = pairsLength t :=
  (h.map _).sum_nat

theorem length_cut_le (b : UInt8) (s : Bytes) :
    (cut b s).1.length + (cut b s).2.length ≤ s.length := by
  by_cases h : b ∈ s
  · conv_rhs => rw [cut_of_mem h, List.length_append, List.length_cons]
    omega
  · rw [cut_of_not_mem h]
    simp

theorem pairsLength_decodePair_le (piece : Bytes) :
    pairsLength (decodePair piece).toList ≤ piece.length := by
  rw [decodePair]
  split
  · exact Nat.zero_le _
  split
  · exact Nat.zero_le _
  have hcut := length_cut_le equals piece
  cases hkey : queryUnescape (cut equals piece).1 with
  | none => exact Nat.zero_le _
  | some key =>
    cases hvalue : queryUnescape (cut equals piece).2 with
    | none => exact Nat.zero_le _
    | some value =>
      have hk := (length_of_queryUnescape hkey).1
      have hv := (length_of_queryUnescape hvalue).1
      have htotal : key.length + value.length ≤ piece.length := by omega
      simpa [pairsLength] using htotal

theorem pairsLength_parseQuery_le (s : Bytes) : pairsLength (parseQuery s) ≤ s.length := by
  induction hn : s.length using Nat.strongRecOn generalizing s with
  | ind n ih =>
    by_cases h : ampersand ∈ s
    · obtain ⟨front, back, rfl, hfront⟩ := List.eq_append_cons_of_mem h
      rw [List.length_append, List.length_cons] at hn
      have hhead := ih front.length (by omega) front rfl
      have htail := ih back.length (by omega) back rfl
      rw [parseQuery_append, pairsLength_append]
      omega
    · rw [parseQuery_eq_toList h, ← hn]
      exact pairsLength_decodePair_le s

private theorem pairsLength_decodePair_writePair {key : Bytes} (hkey : PlainKey key)
    (value : Bytes) :
    pairsLength (decodePair (writePair (key, value))).toList ≤ key.length + value.length ∧
    (percent ∈ value ∨ semicolon ∈ value →
      pairsLength (decodePair (writePair (key, value))).toList < key.length + value.length) := by
  have hpos : 0 < key.length := List.length_pos_iff.2 hkey.nonempty
  have hnone : pairsLength (none : Option (Bytes × Bytes)).toList = 0 := rfl
  rw [decodePair_writePair hkey]
  split
  · rw [hnone]
    omega
  · next hfree =>
      cases hvalue : queryUnescape value with
      | none =>
        rw [Option.map_none, hnone]
        omega
      | some v =>
        obtain ⟨hle, hlt⟩ := length_of_queryUnescape hvalue
        have hsum : pairsLength (Option.map (fun v => (key, v)) (some v)).toList =
            key.length + v.length := by simp [pairsLength]
        rw [hsum]
        refine ⟨by omega, ?_⟩
        intro hbad
        have hshort := hlt (hbad.resolve_right hfree)
        omega

/-- A value that has an ampersand, a percent sign or a semicolon comes back
shorter. -/
theorem pairsLength_parseQuery_writePair {key : Bytes} (hkey : PlainKey key) (value : Bytes) :
    pairsLength (parseQuery (writePair (key, value))) ≤ key.length + value.length ∧
    (ampersand ∈ value ∨ percent ∈ value ∨ semicolon ∈ value →
      pairsLength (parseQuery (writePair (key, value))) < key.length + value.length) := by
  by_cases h : ampersand ∈ value
  · obtain ⟨front, back, rfl, hfront⟩ := List.eq_append_cons_of_mem h
    have hsplit : writePair (key, front ++ ampersand :: back) =
        writePair (key, front) ++ ampersand :: back := by simp [writePair]
    have hhead := (pairsLength_decodePair_writePair hkey front).1
    have htail := pairsLength_parseQuery_le back
    rw [hsplit, parseQuery_append, pairsLength_append,
      parseQuery_eq_toList (ampersand_not_mem_writePair hkey hfront), List.length_append,
        List.length_cons]
    omega
  · rw [parseQuery_eq_toList (ampersand_not_mem_writePair hkey h)]
    obtain ⟨hle, hlt⟩ := pairsLength_decodePair_writePair hkey value
    exact ⟨hle, fun hbad => hlt (hbad.resolve_left h)⟩

end YcAgent.Go
