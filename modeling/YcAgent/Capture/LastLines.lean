import YcAgent.Go.Stream
import YcAgent.Lib.LastLines
import YcAgent.Lib.Weakest

/-!
`PositionLastLines`: the file is read backwards in blocks, and the newlines are
counted until the one that ends the line before the last `n`. Go's `int` and
`uint` are 64 bits wide here, so that the count to reach wraps around for the
largest `n`; no file has that many lines. The file does not change during a
call, and every operation on it may fail.
-/

namespace YcAgent.Capture.LastLines

open Go Lib.Lines Lib.Program

inductive FileOp where
  /-- `file.Seek(0, io.SeekEnd)` -/
  | seekEnd
  /-- `file.Seek(offset, io.SeekStart)` -/
  | seekStart (offset : Nat)
  /-- `file.ReadAt(buf[:size], offset)` -/
  | readAt (offset size : Nat)
  /-- `io.Copy(dst, src)` -/
  | copy

inductive ReadError where
  | eof
  | failed (message : String)

def ReadError.message : ReadError → String
  | .eof => "EOF"
  | .failed message => message

def unexpected : Option ReadError → Option String
  | some (.failed message) => some message
  | _ => none

def FileOp.Reply : FileOp → Type
  | .seekEnd => Except String Nat
  | .seekStart _ => Option String
  | .readAt _ _ => Bytes × Option ReadError
  | .copy => Option String

abbrev FileProg := Prog FileOp FileOp.Reply

def onFile (op : FileOp) : FileProg op.Reply := .perform op

@[simp] theorem onFile_bind {β : Type} (op : FileOp) (k : op.Reply → FileProg β) :
    (onFile op >>= k) = .act op k := rfl

def bufferSize : Nat := 4096

def targetNewlines (n : UInt64) (endsWithNewline : Bool) : Int64 :=
  if endsWithNewline then n.toInt64 + 1 else n.toInt64

/-- Scans a chunk from its end: the index of the newline that makes the count
reach its target, or the count at the front of the chunk. -/
def scanBack (target : Int64) : Bytes → Nat → Nat ⊕ Nat
  | [], seen => .inr seen
  | b :: before, seen =>
    if b = newline then
      if ((seen + 1 : Nat) : Int) = target.toInt then .inl before.length
      else scanBack target before (seen + 1)
    else scanBack target before seen

def seekTo (what : String) (offset : Nat) : FileProg (Option String) := do
  match ← onFile (.seekStart offset) with
  | some err => return some (s!"seek to {what}: " ++ err)
  | none => return none

/-- The loop over the blocks. `position` is the start of the last block read. -/
def scanBlocks (target : Int64) (position newlinesSeen : Nat) : FileProg (Option String) :=
  if 0 < position ∧ (newlinesSeen : Int) < target.toInt then do
    let blockSize := min bufferSize position
    let (chunk, err) ← onFile (.readAt (position - blockSize) blockSize)
    match unexpected err with
    | some err => return some (s!"read chunk at {position - blockSize}: " ++ err)
    | none =>
      match scanBack target chunk.reverse newlinesSeen with
      | .inl i =>
        let start := position - blockSize + (i + 1)
        seekTo (toString start) start
      | .inr seen => scanBlocks target (position - blockSize) seen
  else seekTo "start" 0
termination_by position
decreasing_by
  simp only [bufferSize]
  omega

/-- `PositionLastLines` from the file's size on. -/
def positionWithin (n : UInt64) (fileSize : Nat) : FileProg (Option String) := do
  if fileSize = 0 then seekTo "start" 0
  else
    match ← onFile (.readAt (fileSize - 1) 1) with
    | (_, some err) => return some ("read last byte: " ++ err.message)
    | (lastByte, none) =>
      scanBlocks (targetNewlines n (lastByte.head? == some newline)) fileSize 0

def positionLastLines (n : UInt64) : FileProg (Option String) := do
  if n = 0 then
    match ← onFile .seekEnd with
    | .error err => return some ("seek to end: " ++ err)
    | .ok _ => return none
  else
    match ← onFile .seekEnd with
    | .error err => return some ("seek to end: " ++ err)
    | .ok fileSize => positionWithin n fileSize

def copyAll : FileProg (Option String) := do
  match ← onFile .copy with
  | some err => return some ("copy file content: " ++ err)
  | none => return none

/-- `AppLog.copyLogContent`. -/
def copyLogContent (lineLimit : Int64) (isCompressed : Bool) : FileProg (Option String) := do
  if !isCompressed && lineLimit != -1 then
    match ← positionLastLines lineLimit.toUInt64 with
    | some err => return some ("position last lines: " ++ err)
    | none => copyAll
  else copyAll

structure LogFile where
  content : Bytes
  size_lt : content.length < 2 ^ 63

/-- The log with its file offset, and what stands in the destination. -/
structure FileState where
  file : LogFile
  offset : Nat
  dst : Bytes

def endError (got : Bytes) (size : Nat) : Option ReadError :=
  if got.length < size then some .eof else none

theorem unexpected_endError (got : Bytes) (size : Nat) : unexpected (endError got size) = none := by
  unfold endError
  split <;> rfl

/-- A failed operation leaves the file as it is. A failed copy has written part
of what there was to copy. -/
def FileOp.Perform : (op : FileOp) → FileState → op.Reply → FileState → Prop
  | .seekEnd, w, r, w' =>
    (r = Except.ok w.file.content.length ∧ w' = { w with offset := w.file.content.length }) ∨
      ∃ err, r = Except.error err ∧ w' = w
  | .seekStart offset, w, r, w' =>
    (r = Option.none ∧ w' = { w with offset := offset }) ∨ ∃ err, r = Option.some err ∧ w' = w
  | .readAt offset size, w, r, w' =>
    let got := Go.readAt w.file.content offset size
    (r = (got, endError got size) ∨ ∃ part err, r = (part, some (ReadError.failed err))) ∧ w' = w
  | .copy, w, r, w' =>
    let rest := w.file.content.drop w.offset
    (r = Option.none ∧
        w' = { w with offset := w.file.content.length, dst := w.dst ++ rest }) ∨
      ∃ err part offset, r = Option.some err ∧ part <+: rest ∧
        w' = { w with offset := offset, dst := w.dst ++ part }

def FileOp.Failed : (op : FileOp) → op.Reply → Prop
  | .seekEnd, r => ∃ err, r = Except.error err
  | .seekStart _, r => ∃ err, r = Option.some err
  | .readAt _ _, r => ∃ part err, r = (part, some (ReadError.failed err))
  | .copy, r => ∃ err, r = Option.some err

abbrev FileTrace := Trace FileOp FileOp.Reply FileState

/-- No operation on the file fails. A read that comes to the end of the file is not a
failure. -/
def Healthy (trace : FileTrace) : Prop := ∀ e ∈ trace, ¬ e.op.Failed e.reply

def healthyHost : (op : FileOp) → FileState → op.Reply × FileState
  | .seekEnd, w => (Except.ok w.file.content.length, { w with offset := w.file.content.length })
  | .seekStart offset, w => (Option.none, { w with offset := offset })
  | .readAt offset size, w =>
    ((readAt w.file.content offset size, endError (readAt w.file.content offset size) size), w)
  | .copy, w =>
    (Option.none, { w with
      offset := w.file.content.length, dst := w.dst ++ w.file.content.drop w.offset })

theorem healthyHost_perform (op : FileOp) (w : FileState) :
    op.Perform w (healthyHost op w).1 (healthyHost op w).2 := by
  cases op with
  | seekEnd => exact .inl ⟨rfl, rfl⟩
  | seekStart offset => exact .inl ⟨rfl, rfl⟩
  | readAt offset size => exact ⟨.inl rfl, rfl⟩
  | copy => exact .inl ⟨rfl, rfl⟩

theorem healthyHost_not_failed (op : FileOp) (w : FileState) :
    ¬ op.Failed (healthyHost op w).1 := by
  cases op with
  | seekEnd => rintro ⟨err, h⟩; cases h
  | seekStart offset => rintro ⟨err, h⟩; cases h
  | readAt offset size =>
    rintro ⟨part, err, h⟩
    have herr := congrArg Prod.snd h
    simp only [healthyHost, endError] at herr
    split at herr <;> cases herr
  | copy => rintro ⟨err, h⟩; cases h

theorem scanBack_found {target : Int64} {chunk : Bytes} {seen i : Nat}
    (h : scanBack target chunk seen = .inl i) :
    ∃ after before, chunk = after ++ newline :: before ∧ before.length = i ∧
      ((seen + after.count newline + 1 : Nat) : Int) = target.toInt := by
  induction chunk generalizing seen with
  | nil => cases h
  | cons b before ih =>
    rw [scanBack] at h
    split at h
    · next hb =>
        split at h
        · next htarget =>
            cases h
            exact ⟨[], before, by rw [hb]; rfl, rfl, htarget⟩
        · obtain ⟨after, rest, rfl, hlen, hcount⟩ := ih h
          refine ⟨b :: after, rest, rfl, hlen, ?_⟩
          rw [hb, List.count_cons_self]
          omega
    · next hb =>
        obtain ⟨after, rest, rfl, hlen, hcount⟩ := ih h
        refine ⟨b :: after, rest, rfl, hlen, ?_⟩
        rwa [List.count_cons_of_ne hb]

theorem scanBack_through {target : Int64} {chunk : Bytes} {seen seen' : Nat}
    (h : scanBack target chunk seen = .inr seen') :
    seen' = seen + chunk.count newline ∧
      ((seen : Int) < target.toInt → (seen' : Int) < target.toInt) := by
  induction chunk generalizing seen with
  | nil =>
    cases h
    exact ⟨rfl, id⟩
  | cons b before ih =>
    rw [scanBack] at h
    split at h
    · next hb =>
        split at h
        · cases h
        · next htarget =>
            obtain ⟨hcount, hlt⟩ := ih h
            rw [hb, List.count_cons_self]
            exact ⟨by omega, fun hseen => hlt (by omega)⟩
    · next hb =>
        rw [List.count_cons_of_ne hb]
        exact ih h

/-- The offsets a count of newlines from the end leads to. -/
inductive Positioned (target : Int64) : Bytes → Nat → Prop
  | after (first rest : Bytes) (h : ((rest.count newline + 1 : Nat) : Int) = target.toInt) :
      Positioned target (first ++ newline :: rest) (first.length + 1)
  | whole (content : Bytes) (h : target.toInt ≤ 0 ∨ (content.count newline : Int) < target.toInt) :
      Positioned target content 0

/-- What a run that moves the file offset has done: `good` are the offsets it
may leave, `bound` is how many operations it performs at most. -/
structure Moves (good : Nat → Prop) (bound : Nat) (w : FileState) (trace : FileTrace)
    (err : Option String) (w' : FileState) : Prop where
  file_eq : w'.file = w.file
  dst_eq : w'.dst = w.dst
  good : err = none → good w'.offset
  healthy : Healthy trace → err = none
  length_le : trace.length ≤ bound

variable {w w' : FileState} {trace : FileTrace} {err : Option String}

theorem Healthy.head {e : Event FileOp FileOp.Reply FileState} {more : FileTrace}
    (h : Healthy (e :: more)) : ¬ e.op.Failed e.reply := h e List.mem_cons_self

theorem Healthy.tail {e : Event FileOp FileOp.Reply FileState} {more : FileTrace}
    (h : Healthy (e :: more)) : Healthy more := fun d hd => h d (List.mem_cons_of_mem _ hd)

theorem Moves.cons {good : Nat → Prop} {bound : Nat} {w₁ : FileState}
    {e : Event FileOp FileOp.Reply FileState} (h : Moves good bound w₁ trace err w')
    (hfile : w₁.file = w.file) (hdst : w₁.dst = w.dst) :
    Moves good (bound + 1) w (e :: trace) err w' where
  file_eq := h.file_eq.trans hfile
  dst_eq := h.dst_eq.trans hdst
  good := h.good
  healthy hhealthy := h.healthy hhealthy.tail
  length_le := Nat.succ_le_succ h.length_le

theorem Moves.failure {good : Nat → Prop} {bound : Nat} {message : String}
    {e : Event FileOp FileOp.Reply FileState} (hfailed : e.op.Failed e.reply) :
    Moves good (bound + 1) w [e] (some message) w where
  file_eq := rfl
  dst_eq := rfl
  good := nofun
  healthy hhealthy := absurd hfailed hhealthy.head
  length_le := Nat.succ_le_succ (Nat.zero_le _)

theorem Moves.mono {good good' : Nat → Prop} {bound bound' : Nat}
    (h : Moves good bound w trace err w') (hgood : ∀ offset, good offset → good' offset)
    (hbound : bound ≤ bound') : Moves good' bound' w trace err w' :=
  { h with
    good := fun herr => hgood _ (h.good herr)
    length_le := h.length_le.trans hbound }

theorem seekTo_moves {what : String} {offset : Nat}
    (h : Runs FileOp.Perform (seekTo what offset) w trace err w') :
    Moves (· = offset) 1 w trace err w' := by
  obtain ⟨r, w₁, more, hperform, rfl, hmore⟩ := h.of_act
  rcases hperform with ⟨rfl, rfl⟩ | ⟨message, rfl, rfl⟩
  · obtain ⟨rfl, rfl, rfl⟩ := hmore.of_done
    exact ⟨rfl, rfl, fun _ => rfl, fun _ => rfl, le_rfl⟩
  · obtain ⟨rfl, rfl, rfl⟩ := hmore.of_done
    exact .failure ⟨message, rfl⟩

def blocks (position : Nat) : Nat := (position + bufferSize - 1) / bufferSize

theorem blocks_step {position : Nat} (h : 0 < position) :
    blocks (position - min bufferSize position) + 1 = blocks position := by
  simp only [blocks, bufferSize]
  omega

theorem block_append (content : Bytes) {position size : Nat} (hsize : size ≤ position) :
    readAt content (position - size) size ++ content.drop position =
      content.drop (position - size) := by
  have hend : position - size + size = position := by omega
  have hdrop : content.drop position = (content.drop (position - size)).drop size := by
    rw [List.drop_drop, hend]
  rw [readAt, hdrop, List.take_append_drop]

/-- The newline found in a block is the one the count from the end leads to. -/
theorem positioned_of_scanBack {target : Int64} {content : Bytes} {position size i : Nat}
    (hsize : size ≤ position) (hpos : position ≤ content.length)
    (h : scanBack target (readAt content (position - size) size).reverse
      ((content.drop position).count newline) = .inl i) :
    Positioned target content (position - size + (i + 1)) := by
  obtain ⟨after, before, hchunk, hlen, hcount⟩ := scanBack_found h
  have hforward : readAt content (position - size) size =
      before.reverse ++ newline :: after.reverse := by
    rw [← List.reverse_reverse (readAt _ _ _), hchunk]
    simp
  have hcontent : content = content.take (position - size) ++ before.reverse ++
      newline :: (after.reverse ++ content.drop position) := by
    conv_lhs => rw [← List.take_append_drop (position - size) content,
      ← block_append content hsize, hforward]
    simp
  have hfirst : (content.take (position - size) ++ before.reverse).length =
      position - size + i := by
    rw [List.length_append, List.length_take, List.length_reverse, hlen]
    omega
  have hafter : ((after.reverse ++ content.drop position).count newline + 1 : Nat) =
      target.toInt := by
    rw [List.count_append, List.count_reverse]
    omega
  have hpositioned := Positioned.after (content.take (position - size) ++ before.reverse)
    (after.reverse ++ content.drop position) hafter
  rwa [hfirst, ← hcontent] at hpositioned

theorem scanBlocks_moves {target : Int64} {position seen : Nat}
    (h : Runs FileOp.Perform (scanBlocks target position seen) w trace err w')
    (hpos : position ≤ w.file.content.length)
    (hseen : seen = (w.file.content.drop position).count newline)
    (hlt : seen = 0 ∨ (seen : Int) < target.toInt) :
    Moves (Positioned target w.file.content) (blocks position + 1) w trace err w' := by
  -- on the position; what the loop knows is the count behind it
  induction position using Nat.strong_induction_on generalizing seen w trace with
  | _ position ih =>
  rw [scanBlocks] at h
  split at h
  · next hguard =>
      have hblocks := blocks_step hguard.1
      have hsize : min bufferSize position ≤ position := min_le_right _ _
      have hless : position - min bufferSize position < position := by
        simp only [bufferSize]
        omega
      rw [onFile_bind] at h
      obtain ⟨r, w₁, more, hperform, rfl, hmore⟩ := h.of_act
      obtain ⟨hread, rfl⟩ := hperform
      rcases hread with rfl | ⟨part, message, rfl⟩
      · rw [← hblocks]
        simp only [unexpected_endError] at hmore
        split at hmore
        · next i hfound =>
            rw [hseen] at hfound
            have hgood := positioned_of_scanBack hsize hpos hfound
            apply Moves.cons _ rfl rfl
            apply (seekTo_moves hmore).mono _ (by omega)
            rintro offset rfl
            exact hgood
        · next seen' hthrough =>
            obtain ⟨hcount, hkeep⟩ := scanBack_through hthrough
            apply Moves.cons _ rfl rfl
            apply ih _ hless hmore (by omega)
            · rw [hcount, hseen, List.count_reverse, Nat.add_comm, ← List.count_append]
              rw [block_append _ hsize]
            · exact .inr (hkeep hguard.2)
      · obtain ⟨rfl, rfl, rfl⟩ := hmore.of_done
        exact .failure ⟨part, message, rfl⟩
  · next hguard =>
      apply (seekTo_moves h).mono _ (by omega)
      rintro offset rfl
      apply Positioned.whole
      by_cases hzero : position = 0
      · rw [hzero, List.drop_zero] at hseen
        omega
      · omega

theorem toInt_toInt64 (n : UInt64) : n.toInt64.toInt = (n.toNat : Int).bmod (2 ^ 64) :=
  BitVec.toInt_eq_toNat_bmod n.toBitVec

def wanted (n : UInt64) (endsWithNewline : Bool) : Nat := n.toNat + endsWithNewline.toNat

theorem targetNewlines_toInt (n : UInt64) (endsWithNewline : Bool) :
    (targetNewlines n endsWithNewline).toInt =
      (wanted n endsWithNewline : Int).bmod (2 ^ 64) := by
  cases endsWithNewline with
  | false => exact toInt_toInt64 n
  | true =>
    have hone : (1 : Int64).toInt = 1 := by decide
    rw [targetNewlines, if_pos rfl, Int64.toInt_add, toInt_toInt64, hone, Int.bmod_add_bmod]
    rfl

theorem targetNewlines_cases (n : UInt64) (endsWithNewline : Bool) :
    (targetNewlines n endsWithNewline).toInt = wanted n endsWithNewline ∨
      2 ^ 63 ≤ wanted n endsWithNewline ∧ (targetNewlines n endsWithNewline).toInt ≤ 0 := by
  have hn : n.toNat < 2 ^ 64 := n.toNat_lt
  have hbool : endsWithNewline.toNat ≤ 1 := Bool.toNat_le _
  have hle : wanted n endsWithNewline ≤ 2 ^ 64 := by
    unfold wanted
    omega
  rw [targetNewlines_toInt]
  generalize wanted n endsWithNewline = k at hle
  rw [Int.bmod_def]
  split <;> omega

theorem readAt_last (content : Bytes) :
    (readAt content (content.length - 1) 1).head? = content.getLast? := by
  rw [readAt, List.head?_take, if_neg Nat.one_ne_zero, List.head?_drop, List.getLast?_eq_getElem?]

theorem Positioned.drop_eq {content : Bytes} {offset : Nat} {n : UInt64}
    (h : Positioned (targetNewlines n (content.getLast? == some newline)) content offset)
    (hn : n ≠ 0) (hne : content ≠ []) (hsize : content.length < 2 ^ 63) :
    content.drop offset = lastLines newline n.toNat content := by
  have hpos : 0 < n.toNat := Nat.pos_of_ne_zero fun hzero => hn (UInt64.toNat_inj.mp hzero)
  have htarget := targetNewlines_cases n (content.getLast? == some newline)
  generalize targetNewlines n (content.getLast? == some newline) = target at h htarget
  rw [wanted] at htarget
  cases h with
  | after first rest hcount =>
    have hdrop : (first ++ newline :: rest).drop (first.length + 1) = rest := by simp
    rw [hdrop]
    refine (lastLines_after first ?_).symm
    rw [length_allLines]
    by_cases hend : (first ++ newline :: rest).getLast? = some newline
    · rw [beq_iff_eq.mpr hend, Bool.toNat_true] at htarget
      have hrest : rest ≠ [] := by
        rintro rfl
        rw [List.count_nil] at hcount
        omega
      rw [if_pos ((terminated_append first hrest).mpr hend)]
      omega
    · rw [beq_eq_false_iff_ne.mpr hend, Bool.toNat_false] at htarget
      have hrest : rest ≠ [] := by
        rintro rfl
        exact hend List.getLast?_concat
      rw [if_neg (mt (terminated_append first hrest).mp hend)]
      omega
  | whole _ hcount =>
    rw [List.drop_zero]
    refine (lastLines_all ?_).symm
    have hle := length_allLines_le newline content
    rw [length_allLines] at hle ⊢
    by_cases hend : content.getLast? = some newline
    · rw [beq_iff_eq.mpr hend, Bool.toNat_true] at htarget
      rw [if_pos (.inr hend)] at hle ⊢
      omega
    · rw [beq_eq_false_iff_ne.mpr hend, Bool.toNat_false] at htarget
      have hopen : ¬ Terminated newline content := by
        rintro (hnil | hlast)
        · exact hne hnil
        · exact hend hlast
      rw [if_neg hopen] at hle ⊢
      omega

def StartsLast (n : Nat) (content : Bytes) (offset : Nat) : Prop :=
  content.drop offset = lastLines newline n content

theorem endError_last {content : Bytes} (hne : content ≠ []) :
    endError (readAt content (content.length - 1) 1) 1 = none := by
  have hpos := List.length_pos_of_ne_nil hne
  have hlen : (readAt content (content.length - 1) 1).length = 1 := by
    rw [readAt, List.length_take, List.length_drop]
    omega
  rw [endError, hlen, if_neg (lt_irrefl 1)]

theorem positionWithin_moves {n : UInt64} {fileSize : Nat} (hn : n ≠ 0)
    (h : Runs FileOp.Perform (positionWithin n fileSize) w trace err w')
    (hfile : fileSize = w.file.content.length) :
    Moves (StartsLast n.toNat w.file.content) (blocks w.file.content.length + 2) w trace err
      w' := by
  rw [hfile, positionWithin] at h
  split at h
  · next hempty =>
      apply (seekTo_moves h).mono _ (by omega)
      intro offset _
      rw [StartsLast, List.length_eq_zero_iff.mp hempty, List.drop_nil]
      exact (lastLines_all (Nat.zero_le _)).symm
  · next hsize =>
      have hne : w.file.content ≠ [] := fun hnil => hsize (List.length_eq_zero_iff.mpr hnil)
      rw [onFile_bind] at h
      obtain ⟨r, w₁, more, hperform, htrace, hmore⟩ := h.of_act
      obtain ⟨hread, rfl⟩ := hperform
      rw [htrace]
      rcases hread with rfl | ⟨part, message, rfl⟩
      · simp only [endError_last hne, readAt_last] at hmore
        have hcount : 0 = (w₁.file.content.drop w₁.file.content.length).count newline := by
          rw [List.drop_length, List.count_nil]
        have hmoves := scanBlocks_moves hmore le_rfl hcount (.inl rfl)
        apply (hmoves.mono _ le_rfl).cons rfl rfl
        intro offset hpositioned
        exact hpositioned.drop_eq hn hne w₁.file.size_lt
      · obtain ⟨rfl, rfl, rfl⟩ := hmore.of_done
        apply Moves.failure
        exact ⟨part, message, rfl⟩

theorem positionLastLines_moves {n : UInt64}
    (h : Runs FileOp.Perform (positionLastLines n) w trace err w') :
    Moves (StartsLast n.toNat w.file.content) (blocks w.file.content.length + 3) w trace err
      w' := by
  rw [positionLastLines] at h
  split at h
  · next hzero =>
      obtain ⟨r, w₁, more, hperform, htrace, hmore⟩ := h.of_act
      rw [htrace]
      rcases hperform with ⟨rfl, rfl⟩ | ⟨message, rfl, rfl⟩
      · obtain ⟨rfl, rfl, rfl⟩ := hmore.of_done
        constructor
        · rfl
        · rfl
        · intro _
          rw [StartsLast, List.drop_length, hzero]
          exact (lastLines_zero _).symm
        · intro _
          rfl
        · exact Nat.succ_le_succ (Nat.zero_le _)
      · obtain ⟨rfl, rfl, rfl⟩ := hmore.of_done
        apply Moves.failure
        exact ⟨message, rfl⟩
  · next hn =>
      obtain ⟨r, w₁, more, hperform, htrace, hmore⟩ := h.of_act
      rw [htrace]
      rcases hperform with ⟨rfl, rfl⟩ | ⟨message, rfl, rfl⟩
      · have hsize : Runs FileOp.Perform (positionWithin n w.file.content.length)
            { w with offset := w.file.content.length } more err w' := hmore
        exact (positionWithin_moves hn hsize rfl).cons rfl rfl
      · obtain ⟨rfl, rfl, rfl⟩ := hmore.of_done
        apply Moves.failure
        exact ⟨message, rfl⟩

theorem copyAll_runs (h : Runs FileOp.Perform copyAll w trace err w') :
    w'.file = w.file ∧
      (err = none → w'.dst = w.dst ++ w.file.content.drop w.offset) ∧
      (Healthy trace → err = none) := by
  obtain ⟨r, w₁, more, hperform, htrace, hmore⟩ := h.of_act
  rw [htrace]
  rcases hperform with ⟨rfl, rfl⟩ | ⟨message, part, offset, rfl, _, rfl⟩
  · obtain ⟨rfl, rfl, rfl⟩ := hmore.of_done
    exact ⟨rfl, fun _ => rfl, fun _ => rfl⟩
  · obtain ⟨rfl, rfl, rfl⟩ := hmore.of_done
    refine ⟨rfl, nofun, fun hhealthy => ?_⟩
    exact absurd ⟨message, rfl⟩ hhealthy.head

theorem toNat_toUInt64 {limit : Int64} (h : 0 ≤ limit.toInt) :
    limit.toUInt64.toNat = limit.toInt.toNat := by
  have hint : limit.toInt = (limit.toUInt64.toNat : Int).bmod (2 ^ 64) :=
    BitVec.toInt_eq_toNat_bmod limit.toUInt64.toBitVec
  have hlt : limit.toUInt64.toNat < 2 ^ 64 := UInt64.toNat_lt _
  rw [Int.bmod_def] at hint
  split at hint <;> omega

theorem copyLogContent_runs {limit : Int64} (hlimit : 0 ≤ limit.toInt)
    (h : Runs FileOp.Perform (copyLogContent limit false) w trace err w') :
    w'.file = w.file ∧
      (err = none → w'.dst = w.dst ++ lastLines newline limit.toInt.toNat w.file.content) ∧
      (Healthy trace → err = none) := by
  have hguard : (!false && limit != -1) = true := by
    have hne : limit ≠ -1 := by
      intro hminus
      rw [hminus] at hlimit
      exact absurd hlimit (by decide)
    rw [Bool.not_false, Bool.true_and, bne_iff_ne]
    exact hne
  rw [copyLogContent, if_pos hguard] at h
  obtain ⟨first, result, w₁, second, rfl, hfirst, hsecond⟩ := h.of_bind
  have hmoves := positionLastLines_moves hfirst
  cases result with
  | some message =>
    obtain ⟨rfl, rfl, rfl⟩ := hsecond.of_done
    refine ⟨hmoves.file_eq, nofun, fun hhealthy => ?_⟩
    rw [List.append_nil] at hhealthy
    cases hmoves.healthy hhealthy
  | none =>
    obtain ⟨hfile, hcopied, hok⟩ := copyAll_runs hsecond
    have hstart := hmoves.good rfl
    rw [StartsLast, toNat_toUInt64 hlimit] at hstart
    refine ⟨hfile.trans hmoves.file_eq, fun herr => ?_, fun hhealthy => ?_⟩
    · rw [hcopied herr, hmoves.dst_eq, hmoves.file_eq, hstart]
    · exact hok fun e he => hhealthy e (List.mem_append_right _ he)

theorem exists_healthy (p : FileProg (Option String)) (w : FileState) :
    ∃ trace err w', Runs FileOp.Perform p w trace err w' ∧ Healthy trace :=
  ⟨_, _, _, play_runs healthyHost_perform p w, play_forall healthyHost_not_failed p w⟩

/-- Every call is over after at most one read per block and three more
operations, and one on which no operation fails returns nil; a call that
returns nil leaves the offset where the last `n` lines of the file start. So
`copyLogContent` appends exactly the last `LineLimit` lines to its
destination. -/
theorem positionLastLines_copies_last_lines (w : FileState) :
    (∀ n : UInt64,
      (∀ trace err w', Runs FileOp.Perform (positionLastLines n) w trace err w' →
        trace.length ≤ blocks w.file.content.length + 3 ∧ w'.file = w.file ∧
          (err = none →
            w'.file.content.drop w'.offset = lastLines newline n.toNat w.file.content) ∧
          (Healthy trace → err = none)) ∧
      ∃ trace w', Runs FileOp.Perform (positionLastLines n) w trace none w') ∧
    ∀ lineLimit : Int64, 0 ≤ lineLimit.toInt →
      (∀ trace err w', Runs FileOp.Perform (copyLogContent lineLimit false) w trace err w' →
        w'.file = w.file ∧
          (err = none →
            w'.dst = w.dst ++ lastLines newline lineLimit.toInt.toNat w.file.content) ∧
          (Healthy trace → err = none)) ∧
      ∃ trace w', Runs FileOp.Perform (copyLogContent lineLimit false) w trace none w' := by
  constructor
  · intro n
    constructor
    · intro trace err w' h
      have hmoves := positionLastLines_moves h
      refine ⟨hmoves.length_le, hmoves.file_eq, fun herr => ?_, hmoves.healthy⟩
      rw [hmoves.file_eq]
      exact hmoves.good herr
    · obtain ⟨trace, err, w', h, hhealthy⟩ := exists_healthy (positionLastLines n) w
      have herr := (positionLastLines_moves h).healthy hhealthy
      rw [herr] at h
      exact ⟨trace, w', h⟩
  · intro lineLimit hlimit
    constructor
    · intro trace err w' h
      exact copyLogContent_runs hlimit h
    · obtain ⟨trace, err, w', h, hhealthy⟩ := exists_healthy (copyLogContent lineLimit false) w
      have herr := (copyLogContent_runs hlimit h).2.2 hhealthy
      rw [herr] at h
      exact ⟨trace, w', h⟩

/-- Of `a`, `b` and an unterminated `c`, the last two lines are copied. -/
theorem two_lines_copied :
    ∃ trace w', Runs FileOp.Perform (copyLogContent 2 false)
        ⟨⟨utf8 "a\nb\nc", by decide⟩, 0, []⟩ trace none w' ∧ w'.dst = utf8 "b\nc" := by
  have hcopy := (positionLastLines_copies_last_lines ⟨⟨utf8 "a\nb\nc", by decide⟩, 0, []⟩).2 2
    (by decide)
  obtain ⟨trace, w', h⟩ := hcopy.2
  refine ⟨trace, w', h, ?_⟩
  rw [(hcopy.1 trace none w' h).2.1 rfl]
  decide

end YcAgent.Capture.LastLines
