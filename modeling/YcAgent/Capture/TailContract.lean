import YcAgent.Capture.TailM3

/-!
What one call of an M3 tailer has done at any moment of it, whatever fails and
whatever the environment does to the log in between: the size its `Stat` saw,
where its copy started and what it moved, and which read position it leaves.
-/

namespace YcAgent.Capture.Tail

open Go Lib.Program

abbrev TailTrace := Trace Op Op.Reply World

/-- The tailers of an agent among other processes, which change the world by
`interfere` steps. -/
def semantics (agent : Agent) (interfere : World → World → Prop) :
    Semantics Op Op.Reply World where
  perform := Perform agent
  interfere := interfere

def IsStore : Event Op Op.Reply World → Prop
  | ⟨_, .store _ _, _⟩ => True
  | _ => False

/-- Operations on files that fail. An upload that is refused is not one of them: it has
a result and no error. -/
def failed : Event Op Op.Reply World → Bool
  | ⟨_, .stat _, .error _⟩ => true
  | ⟨_, .openFile _, .error _⟩ => true
  | ⟨_, .seek _ _, .error _⟩ => true
  | ⟨_, .create _, .error _⟩ => true
  | ⟨_, .writeString _ _, .error _⟩ => true
  | ⟨_, .copy _ _, .error _⟩ => true
  | ⟨_, .sync _, .error _⟩ => true
  | _ => false

abbrev Failed (e : Event Op Op.Reply World) : Prop := failed e = true

/-- The flush or the upload of the copied bytes fails. Both come after the read position
is stored. -/
def deliveryFailed : Event Op Op.Reply World → Bool
  | ⟨_, .sync _, .error _⟩ => true
  | ⟨_, .post _ _, (_, ok)⟩ => !ok
  | _ => false

abbrev DeliveryFailed (e : Event Op Op.Reply World) : Prop := deliveryFailed e = true

def statSizes (trace : TailTrace) : List Nat :=
  trace.filterMap fun
    | ⟨_, .stat _, .ok size⟩ => some size
    | _ => none

/-- A copy that succeeded: the world it found, where it started and what it
moved. -/
structure Copy where
  before : World
  src : Handle
  bytes : Bytes

def copies (trace : TailTrace) : List Copy :=
  trace.filterMap fun
    | ⟨w, .copy src _, .ok bytes⟩ => some ⟨w, src, bytes⟩
    | _ => none

def copiedBytes (trace : TailTrace) : Bytes := (copies trace).flatMap Copy.bytes

/-- No event of the trace is one of those a contract speaks about. -/
structure Quiet (trace : TailTrace) : Prop where
  sizes : statSizes trace = []
  copies : copies trace = []
  delivered : ∀ e ∈ trace, ¬ DeliveryFailed e
  unstored : ∀ e ∈ trace, ¬ IsStore e

theorem Quiet.nil : Quiet [] := ⟨rfl, rfl, by simp, by simp⟩

theorem statSizes_append (first second : TailTrace) :
    statSizes (first ++ second) = statSizes first ++ statSizes second :=
  List.filterMap_append

theorem copies_append (first second : TailTrace) :
    copies (first ++ second) = copies first ++ copies second :=
  List.filterMap_append

theorem Quiet.append {first second : TailTrace} (hfirst : Quiet first)
    (hsecond : Quiet second) : Quiet (first ++ second) where
  sizes := by rw [statSizes_append, hfirst.sizes, hsecond.sizes, List.append_nil]
  copies := by rw [copies_append, hfirst.copies, hsecond.copies, List.append_nil]
  delivered e he := (List.mem_append.mp he).elim (hfirst.delivered e) (hsecond.delivered e)
  unstored e he := (List.mem_append.mp he).elim (hfirst.unstored e) (hsecond.unstored e)

/-- The operations whose replies no contract speaks about. -/
def Op.Silent : Op → Prop
  | .stat _ | .store _ _ | .copy _ _ | .sync _ | .post _ _ => False
  | _ => True

theorem Quiet.single {w : World} {op : Op} (r : op.Reply) (hop : op.Silent) :
    Quiet [⟨w, op, r⟩] := by
  cases op <;> first
    | exact hop.elim
    | constructor <;> simp [statSizes, Tail.copies, deliveryFailed, IsStore]

theorem Quiet.cons {w : World} {op : Op} (r : op.Reply) (hop : op.Silent) {rest : TailTrace}
    (hrest : Quiet rest) : Quiet (⟨w, op, r⟩ :: rest) :=
  (Quiet.single r hop).append hrest

theorem Quiet.copyError (w : World) (src : Handle) (name : String) (err : IOError) :
    Quiet [⟨w, .copy src name, .error err⟩] := by
  constructor <;> simp [statSizes, Tail.copies, deliveryFailed, IsStore]

section

variable {agent : Agent} {interfere : World → World → Prop} {path : Path}

/-- The environment leaves the read position of the log alone. -/
def KeepsStat (path : Path) (interfere : World → World → Prop) : Prop :=
  ∀ w w', interfere w w' → w'.readStats path = w.readStats path

/-- No operation touches a log, and only `store` a read position. -/
theorem perform_frame {op : Op} {w w' : World} {r : op.Reply} (h : Perform agent op w r w') :
    w'.files = w.files ∧ w'.content = w.content ∧
      (w'.readStats = w.readStats ∨ ∃ path stat, op = .store path stat) := by
  cases op with
  | stat path =>
    cases r with
    | ok size => rw [h.1]; simp
    | error err => rw [h]; simp
  | openFile path =>
    cases r with
    | ok src => rw [h.1]; simp
    | error err => rw [h]; simp
  | lookup path => rw [h.1]; simp
  | store path stat => rw [h]; simp
  | seek src position =>
    cases r with
    | ok src' => rw [h.1]; simp
    | error err => rw [h]; simp
  | uniquePath marker base => rw [h.1]; simp
  | create name =>
    cases r with
    | ok _ => rw [h]; simp
    | error err => rw [h]; simp
  | writeString name text =>
    cases r with
    | ok _ => rw [h]; simp [World.append]
    | error err =>
      obtain ⟨n, rfl⟩ := h
      simp [World.append]
  | copy src name =>
    cases r with
    | ok copied => rw [h.2]; simp [World.append]
    | error err =>
      obtain ⟨n, rfl⟩ := h
      simp [World.append]
  | sync name => rw [h]; simp
  | post dt name => rw [h.1]; simp

theorem perform_readStats {e : Event Op Op.Reply World} {w' : World} (hstore : ¬ IsStore e)
    (h : Perform agent e.op e.before e.reply w') : w'.readStats = e.before.readStats := by
  rcases (perform_frame h).2.2 with hsame | ⟨path, stat, hop⟩
  · exact hsame
  · obtain ⟨w, op, r⟩ := e
    cases hop
    exact absurd trivial hstore

theorem readStats_of_unstored {α : Type} {p p' : TailProg α} {w w' : World}
    {trace : TailTrace} (hstore : ∀ e ∈ trace, ¬ IsStore e) (hkeep : KeepsStat path interfere)
    (hsteps : Steps (semantics agent interfere) p w trace p' w') :
    w'.readStats path = w.readStats path :=
  hsteps.unchanged (f := fun w : World => w.readStats path) hkeep
    fun e he _ h => congrFun (perform_readStats (hstore e he) h) path

structure Saw (sem : Semantics Op Op.Reply World) (path : Path) (start : World)
    (trace : TailTrace) (seen : World) (size : Nat) : Prop where
  reached : sem.Evolves start seen
  sizes : statSizes trace = [size]
  file : ∃ i, seen.files path = some i ∧ size = (seen.content i).length

structure Reading (sem : Semantics Op Op.Reply World) (path : Path) (start : World)
    (trace : TailTrace) (now seen : World) (size : Nat) : Prop where
  saw : Saw sem path start trace seen size
  later : sem.Evolves seen now
  copies : copies trace = []
  delivered : ∀ e ∈ trace, ¬ DeliveryFailed e
  unchanged : now.readStats path = start.readStats path

theorem Reading.steps {α : Type} {start now now' seen : World} {size : Nat}
    {trace more : TailTrace} {p p' : TailProg α}
    (hread : Reading (semantics agent interfere) path start trace now seen size)
    (hkeep : KeepsStat path interfere)
    (hsteps : Steps (semantics agent interfere) p now more p' now') (hquiet : Quiet more) :
    Reading (semantics agent interfere) path start (trace ++ more) now' seen size where
  saw := ⟨hread.saw.reached,
    by rw [statSizes_append, hread.saw.sizes, hquiet.sizes, List.append_nil], hread.saw.file⟩
  later := hread.later.trans hsteps.evolves
  copies := by rw [copies_append, hread.copies, hquiet.copies, List.append_nil]
  delivered e he := (List.mem_append.mp he).elim (hread.delivered e) (hquiet.delivered e)
  unchanged := (readStats_of_unstored hquiet.unstored hkeep hsteps).trans hread.unchanged

theorem Reading.performed {start now now₁ now₂ seen : World} {size : Nat} {trace : TailTrace}
    {op : Op} {r : op.Reply}
    (hread : Reading (semantics agent interfere) path start trace now seen size)
    (hkeep : KeepsStat path interfere)
    (hstar : (semantics agent interfere).Interferes now now₁)
    (hperform : (semantics agent interfere).perform op now₁ r now₂) (hop : op.Silent) :
    Reading (semantics agent interfere) path start (trace ++ [⟨now₁, op, r⟩]) now₂ seen size := by
  have hsteps : Steps (semantics agent interfere) (.act op Prog.done) now [⟨now₁, op, r⟩]
      (.done r) now₂ := .single hstar hperform
  exact hread.steps hkeep hsteps (Quiet.single r hop)

theorem writeHeaders_quiet {name : String} {headers : List Bytes} {w w' : World}
    {trace : TailTrace} {p' : TailProg Unit}
    (hsteps : Steps (semantics agent interfere) (writeHeaders name headers) w trace p' w') :
    Quiet trace := by
  induction headers generalizing w trace with
  | nil =>
    obtain ⟨rfl, _, _⟩ := hsteps.of_done
    exact Quiet.nil
  | cons header rest ih =>
    simp only [writeHeaders, ask_bind] at hsteps
    rcases hsteps.of_act with ⟨rfl, _, _⟩ | ⟨w₁, r, w₂, more, _, _, rfl, hmore⟩
    · exact Quiet.nil
    · exact Quiet.cons r trivial (ih hmore)

/-- Where the read of a log with stored statistics `readStat` starts, when
`Stat` saw `size` bytes. -/
inductive StartOffset (readStat : ReadStat) (size : Nat) (trace : TailTrace) : Nat → Prop
  | truncated : size < readStat.fileSize → StartOffset readStat size trace 0
  | resumed : readStat.fileSize ≤ size →
      StartOffset readStat size trace readStat.readPosition
  | unseekable : readStat.fileSize ≤ size → (∃ e ∈ trace, Failed e) →
      StartOffset readStat size trace 0

theorem StartOffset.eq_zero {readStat : ReadStat} {size offset : Nat} {trace : TailTrace}
    (h : StartOffset readStat size trace offset) (hlt : size < readStat.fileSize) :
    offset = 0 := by
  cases h with
  | truncated _ => rfl
  | resumed hle => omega
  | unseekable hle _ => rfl

theorem StartOffset.eq_readPosition {readStat : ReadStat} {size offset : Nat}
    {trace : TailTrace} (h : StartOffset readStat size trace offset)
    (hle : readStat.fileSize ≤ size) (hfaultless : ∀ e ∈ trace, ¬ Failed e) :
    offset = readStat.readPosition := by
  cases h with
  | truncated hlt => omega
  | resumed _ => rfl
  | unseekable _ hfailed =>
    obtain ⟨e, he, hfail⟩ := hfailed
    exact absurd hfail (hfaultless e he)

/-- The seek changes nothing, and ends at one of the start offsets or with a
failed operation. -/
theorem seekStart_spec {kind : LogKind} {filePath : Path} {size : Nat} {readStat : ReadStat}
    {src : Handle} (hsrc : src.offset = 0) {w w' : World} {trace : TailTrace}
    {p' : TailProg (Except CaptureError Handle)}
    (hsteps : Steps (semantics agent interfere)
      (seekStart kind filePath size readStat src) w trace p' w') :
    Quiet trace ∧
      (∀ src', p' = .done (.ok src') → src'.inode = src.inode ∧
        StartOffset readStat size trace src'.offset) ∧
      (∀ err, p' = .done (.error err) → ∃ e ∈ trace, Failed e) := by
  unfold seekStart at hsteps
  split at hsteps
  · next hlt =>
      obtain ⟨rfl, rfl, _⟩ := hsteps.of_done
      refine ⟨Quiet.nil, ?_, ?_⟩
      · rintro src' ⟨⟩
        exact ⟨rfl, hsrc ▸ .truncated hlt⟩
      · rintro err ⟨⟩
  · next hge =>
      have hle : readStat.fileSize ≤ size := Nat.not_lt.mp hge
      rw [ask_bind] at hsteps
      rcases hsteps.of_act with ⟨rfl, rfl, _⟩ | ⟨w₁, r, w₂, more, _, hseek, rfl, hmore⟩
      · exact ⟨Quiet.nil, by rintro src' ⟨⟩, by rintro err ⟨⟩⟩
      cases r with
      | ok src₁ =>
        obtain ⟨rfl, rfl, _⟩ := hmore.of_done
        obtain ⟨_, rfl⟩ := hseek
        refine ⟨Quiet.single _ trivial, ?_, ?_⟩
        · rintro src' ⟨⟩
          exact ⟨rfl, .resumed hle⟩
        · rintro err ⟨⟩
      | error err =>
        simp only [ask_bind] at hmore
        have hfailed {rest : TailTrace} : ∃ e ∈ (⟨w₁, .seek src readStat.readPosition,
            .error err⟩ : Event Op Op.Reply World) :: rest, Failed e :=
          ⟨_, List.mem_cons_self, rfl⟩
        rcases hmore.of_act with ⟨rfl, rfl, _⟩ | ⟨w₃, r, w₄, last, _, hseek, rfl, hlast⟩
        · exact ⟨Quiet.single _ trivial, by rintro src' ⟨⟩, by rintro err ⟨⟩⟩
        cases r with
        | ok src₁ =>
          obtain ⟨rfl, rfl, _⟩ := hlast.of_done
          obtain ⟨_, rfl⟩ := hseek
          refine ⟨?_, ?_, ?_⟩
          · apply Quiet.cons
            · trivial
            · exact Quiet.single _ trivial
          · rintro src' ⟨⟩
            exact ⟨rfl, .unseekable hle hfailed⟩
          · rintro err ⟨⟩
        | error err' =>
          obtain ⟨rfl, rfl, _⟩ := hlast.of_done
          refine ⟨?_, ?_, ?_⟩
          · apply Quiet.cons
            · trivial
            · exact Quiet.single _ trivial
          · rintro src' ⟨⟩
          · intro _ _
            exact hfailed

theorem flushAndPost_spec {kind : LogKind} {filePath : Path} {pid : Int} {dstPath : String}
    {w w' : World} {trace : TailTrace} {p' : TailProg (Except CaptureError Result)}
    (hsteps : Steps (semantics agent interfere) (flushAndPost kind filePath pid dstPath)
      w trace p' w') :
    statSizes trace = [] ∧ copies trace = [] ∧ (∀ e ∈ trace, ¬ IsStore e) ∧
      ∀ a, p' = .done a →
        (∃ err, a = .error err ∧ ∃ e ∈ trace, DeliveryFailed e) ∨
        ∃ msg ok, a = .ok ⟨msg, ok⟩ ∧ (ok = false → ∃ e ∈ trace, DeliveryFailed e) := by
  simp only [flushAndPost, ask_bind] at hsteps
  rcases hsteps.of_act with ⟨rfl, rfl, _⟩ | ⟨w₁, r, w₂, more, _, _, rfl, hmore⟩
  · exact ⟨rfl, rfl, by simp, by rintro a ⟨⟩⟩
  cases r with
  | error err =>
    obtain ⟨rfl, rfl, _⟩ := hmore.of_done
    refine ⟨rfl, rfl, by simp [IsStore], ?_⟩
    rintro a ⟨⟩
    exact .inl ⟨_, rfl, _, List.mem_cons_self, rfl⟩
  | ok _ =>
    rcases hmore.of_act with ⟨rfl, rfl, _⟩ | ⟨w₃, r, w₄, last, _, _, rfl, hlast⟩
    · exact ⟨rfl, rfl, by simp [IsStore], by rintro a ⟨⟩⟩
    · obtain ⟨msg, ok⟩ := r
      obtain ⟨rfl, rfl, _⟩ := hlast.of_done
      refine ⟨rfl, rfl, by simp [IsStore], ?_⟩
      rintro a ⟨⟩
      refine .inr ⟨msg, ok, rfl, ?_⟩
      rintro rfl
      exact ⟨_, List.mem_cons_of_mem _ List.mem_cons_self, rfl⟩

theorem StartOffset.mono {readStat : ReadStat} {size offset : Nat} {trace trace' : TailTrace}
    (h : StartOffset readStat size trace offset) (hsub : trace ⊆ trace') :
    StartOffset readStat size trace' offset := by
  cases h with
  | truncated hlt => exact .truncated hlt
  | resumed hle => exact .resumed hle
  | unseekable hle hfailed =>
    obtain ⟨e, he, hfail⟩ := hfailed
    exact .unseekable hle ⟨e, hsub he, hfail⟩

structure CopyOf (sem : Semantics Op Op.Reply World) (path : Path) (start : World)
    (trace : TailTrace) (now seen : World) (size : Nat) (readStat : ReadStat)
    (copy : Copy) : Prop where
  saw : Saw sem path start trace seen size
  stat : start.readStats path = some readStat
  copies : copies trace = [copy]
  opened : ∃ w, sem.Evolves start w ∧ w.files path = some copy.src.inode
  later : sem.Evolves seen copy.before
  offset : StartOffset readStat size trace copy.src.offset
  bytes : copy.bytes = copy.before.unread copy.src
  onward : sem.Evolves copy.before now

/-- What a call has done so far: nothing that counts, remembered the size of a
new log, or copied the rest of the log and maybe stored the new position. -/
inductive Contract (sem : Semantics Op Op.Reply World) (path : Path) (start : World)
    (trace : TailTrace) (p' : TailProg (Except CaptureError Result)) (now : World) : Prop
  | unread (copies : copies trace = []) (delivered : ∀ e ∈ trace, ¬ DeliveryFailed e)
      (unchanged : now.readStats path = start.readStats path)
      (result : ∀ a, p' = .done a → (∃ err, a = .error err) ∧ ∃ e ∈ trace, Failed e)
  | initialised (seen : World) (size : Nat) (saw : Saw sem path start trace seen size)
      (onward : sem.Evolves seen now)
      (copies : copies trace = []) (delivered : ∀ e ∈ trace, ¬ DeliveryFailed e)
      (new : start.readStats path = none)
      (stored : now.readStats path = some ⟨path, size, size⟩)
      (result : ∀ a, p' = .done a → ∃ msg, a = .ok ⟨msg, true⟩)
  | copied (seen : World) (size : Nat) (readStat : ReadStat) (copy : Copy)
      (done : CopyOf sem path start trace now seen size readStat copy)
      (unchanged : now.readStats path = some readStat) (running : ∀ a, p' ≠ .done a)
  | stored (seen : World) (size : Nat) (readStat : ReadStat) (copy : Copy)
      (done : CopyOf sem path start trace now seen size readStat copy)
      (stored : now.readStats path =
        some ⟨path, size, copy.src.offset + copy.bytes.length⟩)
      (result : ∀ a, p' = .done a →
        (∃ err, a = .error err ∧ ∃ e ∈ trace, DeliveryFailed e) ∨
        ∃ msg ok, a = .ok ⟨msg, ok⟩ ∧ (ok = false → ∃ e ∈ trace, DeliveryFailed e))

theorem Reading.unread {start now seen : World} {size : Nat} {trace : TailTrace}
    {p' : TailProg (Except CaptureError Result)}
    (hread : Reading (semantics agent interfere) path start trace now seen size)
    (hresult : ∀ a, p' = .done a → (∃ err, a = .error err) ∧ ∃ e ∈ trace, Failed e) :
    Contract (semantics agent interfere) path start trace p' now :=
  .unread hread.copies hread.delivered hread.unchanged hresult

theorem CopyOf.extend {start now now' seen : World} {size : Nat} {readStat : ReadStat}
    {copy : Copy} {trace more : TailTrace}
    (hcopy : CopyOf (semantics agent interfere) path start trace now seen size readStat copy)
    (hsizes : statSizes more = []) (hcopies : Tail.copies more = [])
    (hnow : (semantics agent interfere).Evolves now now') :
    CopyOf (semantics agent interfere) path start (trace ++ more) now' seen size readStat
      copy where
  saw := ⟨hcopy.saw.reached,
    by rw [statSizes_append, hcopy.saw.sizes, hsizes, List.append_nil], hcopy.saw.file⟩
  stat := hcopy.stat
  copies := by rw [copies_append, hcopy.copies, hcopies, List.append_nil]
  opened := hcopy.opened
  later := hcopy.later
  offset := hcopy.offset.mono (List.subset_append_left _ _)
  bytes := hcopy.bytes
  onward := hcopy.onward.trans hnow

theorem store_contract {kind : LogKind} {filePath : Path} {pid : Int} {dstPath : String}
    (hkeep : KeepsStat filePath interfere) {start now now' seen : World} {size : Nat}
    {readStat : ReadStat} {copy : Copy} {trace more : TailTrace}
    {p' : TailProg (Except CaptureError Result)}
    (hcopy : CopyOf (semantics agent interfere) filePath start trace now seen size readStat copy)
    (hnow : now.readStats filePath = some readStat)
    (hsteps : Steps (semantics agent interfere)
      (.act (.store filePath ⟨filePath, size, copy.src.offset + copy.bytes.length⟩)
        fun _ => flushAndPost kind filePath pid dstPath) now more p' now') :
    Contract (semantics agent interfere) filePath start (trace ++ more) p' now' := by
  have hlater := hsteps.evolves
  rcases hsteps.of_act with ⟨rfl, rfl, _⟩ | ⟨w₁, r, w₂, rest, _, hstore, rfl, hrest⟩
  · have hsame := readStats_of_unstored (by simp) hkeep hsteps
    refine .copied seen size readStat copy (hcopy.extend rfl rfl hlater) ?_ ?_
    · rw [hsame, hnow]
    · rintro a ⟨⟩
  · obtain ⟨hsizes, hcopies, hunstored, hresult⟩ := flushAndPost_spec hrest
    have hsame := readStats_of_unstored hunstored hkeep hrest
    refine .stored seen size readStat copy (hcopy.extend ?_ ?_ hlater) ?_ ?_
    · simpa [statSizes] using hsizes
    · simpa [Tail.copies] using hcopies
    · rw [hsame, hstore]
      exact Function.update_self _ _ _
    · intro a ha
      have hmem (e : Event Op Op.Reply World) (he : e ∈ rest) :
          e ∈ trace ++ ⟨w₁, .store filePath _, r⟩ :: rest := by simp [he]
      rcases hresult a ha with ⟨err, rfl, e, he, hfail⟩ | ⟨msg, ok, rfl, hfail⟩
      · exact .inl ⟨err, rfl, e, hmem e he, hfail⟩
      · refine .inr ⟨msg, ok, rfl, fun hok => ?_⟩
        obtain ⟨e, he, hfail⟩ := hfail hok
        exact ⟨e, hmem e he, hfail⟩

theorem copyAndPost_contract {kind : LogKind} {filePath : Path} {pid : Int} {dstPath : String}
    (hkeep : KeepsStat filePath interfere) {start now now' seen : World} {size : Nat}
    {readStat : ReadStat} {src : Handle} {trace more : TailTrace}
    {p' : TailProg (Except CaptureError Result)}
    (hread : Reading (semantics agent interfere) filePath start trace now seen size)
    (hstat : start.readStats filePath = some readStat)
    (hopened : ∃ w, (semantics agent interfere).Evolves start w ∧
      w.files filePath = some src.inode)
    (hoffset : StartOffset readStat size trace src.offset)
    (hsteps : Steps (semantics agent interfere)
      (copyAndPost kind filePath pid size src dstPath) now more p' now') :
    Contract (semantics agent interfere) filePath start (trace ++ more) p' now' := by
  rcases hsteps.of_bind with
    ⟨op, next, hheaders, rfl⟩ | ⟨headers, _, w₁, rest, rfl, hheaders, hrest⟩
  · exact (hread.steps hkeep hheaders (writeHeaders_quiet hheaders)).unread (by rintro a ⟨⟩)
  have hread₁ := hread.steps hkeep hheaders (writeHeaders_quiet hheaders)
  rw [← List.append_assoc]
  simp only [ask_bind] at hrest
  rcases hrest.of_act with ⟨rfl, rfl, _⟩ | ⟨w₂, r, w₃, last, hstar, hcopy, rfl, hlast⟩
  · exact (hread₁.steps hkeep hrest Quiet.nil).unread (by rintro a ⟨⟩)
  cases r with
  | error err =>
    obtain ⟨rfl, rfl, _⟩ := hlast.of_done
    refine (hread₁.steps hkeep hrest (Quiet.copyError _ _ _ _)).unread ?_
    rintro a ⟨⟩
    exact ⟨⟨_, rfl⟩, _, List.mem_append_right _ List.mem_cons_self, rfl⟩
  | ok bytes =>
    have hbefore : (semantics agent interfere).Evolves w₁ w₂ := hstar.evolves
    have hafter : (semantics agent interfere).Evolves w₂ w₃ :=
      Semantics.Evolves.perform .refl hcopy
    have hcopied : CopyOf (semantics agent interfere) filePath start
        ((trace ++ headers) ++ [⟨w₂, .copy src dstPath, .ok bytes⟩]) w₃ seen size readStat
        ⟨w₂, src, bytes⟩ := {
      saw := ⟨hread₁.saw.reached, by rw [statSizes_append, hread₁.saw.sizes]; rfl,
        hread₁.saw.file⟩
      stat := hstat
      copies := by rw [copies_append, hread₁.copies]; rfl
      opened := hopened
      later := hread₁.later.trans hbefore
      offset := hoffset.mono (by intro e he; simp [he])
      bytes := hcopy.1
      onward := hafter }
    have hnow : w₃.readStats filePath = some readStat := by
      have hperform : Perform agent (.copy src dstPath) w₂ (.ok bytes) w₃ := hcopy
      rw [perform_readStats (e := ⟨w₂, .copy src dstPath, .ok bytes⟩) (fun h => h) hperform]
      have hwait : Steps (semantics agent interfere) (pure () : TailProg Unit) w₁ []
          (pure ()) w₂ := .rest hstar
      exact (hread₁.steps hkeep hwait Quiet.nil).unchanged.trans hstat
    have hdone := store_contract hkeep hcopied hnow hlast
    rwa [List.append_assoc] at hdone

theorem captureNew_contract {kind : LogKind} {filePath : Path} {pid : Int}
    (hkeep : KeepsStat filePath interfere) {start now now' seen : World} {size : Nat}
    {readStat : ReadStat} {src : Handle} {trace more : TailTrace}
    {p' : TailProg (Except CaptureError Result)}
    (hread : Reading (semantics agent interfere) filePath start trace now seen size)
    (hstat : start.readStats filePath = some readStat)
    (hopened : ∃ w, (semantics agent interfere).Evolves start w ∧
      w.files filePath = some src.inode)
    (hsrc : src.offset = 0)
    (hsteps : Steps (semantics agent interfere)
      (captureNew kind filePath pid size readStat src) now more p' now') :
    Contract (semantics agent interfere) filePath start (trace ++ more) p' now' := by
  rcases hsteps.of_bind with
    ⟨op, next, hseek, rfl⟩ | ⟨seeks, sought, w₁, rest, rfl, hseek, hrest⟩
  · exact (hread.steps hkeep hseek (seekStart_spec hsrc hseek).1).unread (by rintro a ⟨⟩)
  obtain ⟨hquiet, hok, herror⟩ := seekStart_spec hsrc hseek
  have hread₁ := hread.steps hkeep hseek hquiet
  rw [← List.append_assoc]
  cases sought with
  | error err =>
    obtain ⟨rfl, rfl, hstar⟩ := hrest.of_done
    refine (hread₁.steps hkeep hrest Quiet.nil).unread ?_
    rintro a ⟨⟩
    obtain ⟨e, he, hfail⟩ := herror err rfl
    exact ⟨⟨_, rfl⟩, e, by simp [he], hfail⟩
  | ok src' =>
    obtain ⟨hinode, hoffset⟩ := hok src' rfl
    simp only [ask_bind] at hrest
    rcases hrest.of_act with ⟨rfl, rfl, _⟩ | ⟨w₂, dstPath, w₃, rest, hstar, hunique, rfl, hrest'⟩
    · exact (hread₁.steps hkeep hrest Quiet.nil).unread (by rintro a ⟨⟩)
    have hread₂ := hread₁.performed hkeep hstar hunique trivial
    rw [List.append_cons]
    rcases hrest'.of_act with ⟨rfl, rfl, _⟩ | ⟨w₄, r, w₅, last, hstar, hcreate, rfl, hlast⟩
    · exact (hread₂.steps hkeep hrest' Quiet.nil).unread (by rintro a ⟨⟩)
    have hread₃ := hread₂.performed hkeep hstar hcreate trivial
    rw [List.append_cons]
    cases r with
    | error err =>
      obtain ⟨rfl, rfl, _⟩ := hlast.of_done
      refine (hread₃.steps hkeep hlast Quiet.nil).unread ?_
      rintro a ⟨⟩
      exact ⟨⟨_, rfl⟩, ⟨w₄, .create dstPath, .error err⟩, by simp, rfl⟩
    | ok _ =>
      refine copyAndPost_contract hkeep hread₃ hstat ?_ ?_ hlast
      · rw [hinode]
        exact hopened
      · exact hoffset.mono (by intro e he; simp [he])

theorem initReadStat_contract {filePath : Path} (hkeep : KeepsStat filePath interfere)
    {start now now' seen : World} {size : Nat} {trace more : TailTrace}
    {p' : TailProg (Except CaptureError Result)}
    (hread : Reading (semantics agent interfere) filePath start trace now seen size)
    (hnew : start.readStats filePath = none)
    (hsteps : Steps (semantics agent interfere) (initReadStat filePath size) now more p' now') :
    Contract (semantics agent interfere) filePath start (trace ++ more) p' now' := by
  have hlater := hsteps.evolves
  simp only [initReadStat] at hsteps
  rcases hsteps.of_act with ⟨rfl, rfl, _⟩ | ⟨w₁, r, w₂, last, _, hstore, rfl, hlast⟩
  · exact (hread.steps hkeep hsteps Quiet.nil).unread (by rintro a ⟨⟩)
  · obtain ⟨rfl, rfl, _⟩ := hlast.of_done
    have hsame := readStats_of_unstored (by simp) hkeep hlast
    refine .initialised seen size ⟨hread.saw.reached, ?_, hread.saw.file⟩
      (hread.later.trans hlater) ?_ ?_ hnew ?_ ?_
    · rw [statSizes_append, hread.saw.sizes]
      rfl
    · rw [copies_append, hread.copies]
      rfl
    · intro e he
      rcases List.mem_append.mp he with he | he
      · exact hread.delivered e he
      · rw [List.mem_singleton.mp he]
        exact Bool.false_ne_true
    · rw [hsame, hstore]
      exact Function.update_self _ _ _
    · rintro a ⟨⟩
      exact ⟨_, rfl⟩

/-- The first step of either tailer, with what follows a successful `Stat` as
a hypothesis. -/
theorem stat_contract {filePath : Path} (hkeep : KeepsStat filePath interfere)
    {start now : World} {trace : TailTrace} {p' : TailProg (Except CaptureError Result)}
    {next : Except IOError Nat → TailProg (Except CaptureError Result)}
    (herror : ∀ err, ∃ err', next (.error err) = .done (.error err'))
    (hok : ∀ seen size w first more,
      Reading (semantics agent interfere) filePath start first w seen size →
      Steps (semantics agent interfere) (next (.ok size)) w more p' now →
      Contract (semantics agent interfere) filePath start (first ++ more) p' now)
    (hsteps : Steps (semantics agent interfere) (.act (.stat filePath) next) start trace p' now) :
    Contract (semantics agent interfere) filePath start trace p' now := by
  rcases hsteps.of_act with ⟨rfl, rfl, _⟩ | ⟨w₁, r, w₂, more, hstar, hstat, rfl, hmore⟩
  · have hsame := readStats_of_unstored (by simp) hkeep hsteps
    exact .unread rfl (by simp) hsame (by rintro a ⟨⟩)
  cases r with
  | error err =>
    obtain ⟨err', hdone⟩ := herror err
    rw [hdone] at hmore
    obtain ⟨rfl, rfl, _⟩ := hmore.of_done
    have hsame := readStats_of_unstored (by simp [IsStore]) hkeep hsteps
    refine .unread rfl (by simp [deliveryFailed]) hsame ?_
    rintro a ⟨⟩
    exact ⟨⟨_, rfl⟩, _, List.mem_cons_self, rfl⟩
  | ok size =>
    obtain ⟨rfl, hfile⟩ := hstat
    have hwait : Steps (semantics agent interfere) (pure () : TailProg Unit) start []
        (pure ()) w₂ := .rest hstar
    exact hok w₂ size w₂ [_] more
      { saw := ⟨hstar.evolves, rfl, hfile⟩
        later := .refl
        copies := rfl
        delivered := by simp [deliveryFailed]
        unchanged := readStats_of_unstored (by simp) hkeep hwait } hmore

theorem captureSingleAppLog_contract {filePath : Path} {pid : Int}
    (hkeep : KeepsStat filePath interfere) {start now : World} {trace : TailTrace}
    {p' : TailProg (Except CaptureError Result)}
    (hsteps : Steps (semantics agent interfere) (captureSingleAppLog filePath pid)
      start trace p' now) :
    Contract (semantics agent interfere) filePath start trace p' now := by
  simp only [captureSingleAppLog, ask_bind] at hsteps
  refine stat_contract hkeep (fun err => ⟨_, rfl⟩) ?_ hsteps
  intro seen size w first more hread hmore
  rcases hmore.of_act with ⟨rfl, rfl, _⟩ | ⟨w₁, r, w₂, rest, hstar, hopen, rfl, hrest⟩
  · exact (hread.steps hkeep hmore Quiet.nil).unread (by rintro a ⟨⟩)
  have hread₁ := hread.performed hkeep hstar hopen trivial
  rw [List.append_cons]
  cases r with
  | error err =>
    obtain ⟨rfl, rfl, _⟩ := hrest.of_done
    refine (hread₁.steps hkeep hrest Quiet.nil).unread ?_
    rintro a ⟨⟩
    exact ⟨⟨_, rfl⟩, ⟨w₁, .openFile filePath, .error err⟩, by simp, rfl⟩
  | ok src =>
    obtain ⟨rfl, hinode, hoffset⟩ := hopen
    have hopened : (semantics agent interfere).Evolves start w₂ :=
      hread.saw.reached.trans (hread.later.trans hstar.evolves)
    rcases hrest.of_act with ⟨rfl, rfl, _⟩ | ⟨w₃, r, w₄, last, hstar, hlookup, rfl, hlast⟩
    · exact (hread₁.steps hkeep hrest Quiet.nil).unread (by rintro a ⟨⟩)
    have hread₂ := hread₁.performed hkeep hstar hlookup trivial
    rw [List.append_cons]
    have hfound : start.readStats filePath = r := by
      rw [← hread₂.unchanged, hlookup.1]
      exact hlookup.2.symm
    cases r with
    | none => exact initReadStat_contract hkeep hread₂ hfound hlast
    | some readStat =>
      exact captureNew_contract hkeep hread₂ hfound ⟨w₂, hopened, hinode⟩ hoffset hlast

theorem captureSingleAccessLog_contract {filePath : Path} {pid : Int} {format source : String}
    (hkeep : KeepsStat filePath interfere) {start now : World} {trace : TailTrace}
    {p' : TailProg (Except CaptureError Result)}
    (hsteps : Steps (semantics agent interfere)
      (captureSingleAccessLog filePath pid format source) start trace p' now) :
    Contract (semantics agent interfere) filePath start trace p' now := by
  simp only [captureSingleAccessLog, ask_bind] at hsteps
  refine stat_contract hkeep (fun err => ⟨_, rfl⟩) ?_ hsteps
  intro seen size w first more hread hmore
  rcases hmore.of_act with ⟨rfl, rfl, _⟩ | ⟨w₁, r, w₂, rest, hstar, hlookup, rfl, hrest⟩
  · exact (hread.steps hkeep hmore Quiet.nil).unread (by rintro a ⟨⟩)
  have hread₁ := hread.performed hkeep hstar hlookup trivial
  rw [List.append_cons]
  have hfound : start.readStats filePath = r := by
    rw [← hread₁.unchanged, hlookup.1]
    exact hlookup.2.symm
  cases r with
  | none => exact initReadStat_contract hkeep hread₁ hfound hrest
  | some readStat =>
    rcases hrest.of_act with ⟨rfl, rfl, _⟩ | ⟨w₃, r, w₄, last, hstar, hopen, rfl, hlast⟩
    · exact (hread₁.steps hkeep hrest Quiet.nil).unread (by rintro a ⟨⟩)
    have hread₂ := hread₁.performed hkeep hstar hopen trivial
    rw [List.append_cons]
    cases r with
    | error err =>
      obtain ⟨rfl, rfl, _⟩ := hlast.of_done
      refine (hread₂.steps hkeep hlast Quiet.nil).unread ?_
      rintro a ⟨⟩
      exact ⟨⟨_, rfl⟩, ⟨w₃, .openFile filePath, .error err⟩, by simp, rfl⟩
    | ok src =>
      obtain ⟨rfl, hinode, hoffset⟩ := hopen
      have hopened : (semantics agent interfere).Evolves start w₄ :=
        hread₂.saw.reached.trans hread₂.later
      exact captureNew_contract hkeep hread₂ hfound ⟨w₄, hopened, hinode⟩ hoffset hlast

/-- At every moment of a call of either tailer its contract holds. -/
theorem Call.contract (c : Call) (hkeep : KeepsStat c.filePath interfere) {start now : World}
    {trace : TailTrace} {p' : TailProg (Except CaptureError Result)}
    (hsteps : Steps (semantics agent interfere) c.body start trace p' now) :
    Contract (semantics agent interfere) c.filePath start trace p' now := by
  cases c with
  | app filePath pid => exact captureSingleAppLog_contract hkeep hsteps
  | access filePath pid format source => exact captureSingleAccessLog_contract hkeep hsteps

end

abbrev CallOn (path : Path) := { c : Call // c.filePath = path }

def appLogCall : CallOn "app.log" := ⟨.app "app.log" 1, rfl⟩

abbrev CompletedCall (path : Path) :=
  Completed (CallOn path) Op Op.Reply World (Except CaptureError Result)

def freshLog : World where
  files _ := some 0
  content _ := [97]
  readStats _ := none
  dir _ := none

def uploader : Agent := ⟨⟨false, ""⟩, "http://server/endpoint?"⟩

def accepted : PostReplies := ⟨.ok (), .ok (), .ok (), .ok (), .ok 200, .ok ""⟩

def refused : PostReplies := { accepted with send := .ok 500 }

theorem refused_not_ok (cfg : PostConfig) (endpoint dt : String) (file : Option Upload) :
    (postData cfg endpoint dt file refused).2 = false := by
  rw [Bool.eq_false_iff]
  intro hok
  obtain ⟨_, _, _, _, _, _, hsend, _⟩ := (postCustomData_ok_iff _ _ _ _ _).mp hok
  exact absurd hsend (by decide)

abbrev TailMove := Move Op Op.Reply World

def succeed (net : PostReplies) (n : Nat) : List TailMove :=
  List.replicate n (.answer (faultless uploader net))

theorem succeed_sound (net : PostReplies) (n : Nat) (interfere : World → World → Prop) :
    ∀ m ∈ succeed net n, m.Sound (semantics uploader interfere) := by
  intro m hm
  rw [List.eq_of_mem_replicate hm]
  intro op w r w' h
  exact faultless_perform h

def grow (bytes : Bytes) : TailMove :=
  .env fun w => { w with content := fun i => w.content i ++ bytes }

def newDirectory : TailMove := .env fun w => { w with dir := fun _ => none }

def rewrite (bytes : Bytes) : TailMove := .env fun w => { w with content := fun _ => bytes }

end YcAgent.Capture.Tail
