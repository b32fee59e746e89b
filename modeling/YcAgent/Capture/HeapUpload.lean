import YcAgent.Capture.HeapStream

/-!
The runs of a heap dump's upload. The ghost states of its programs describe the
world together, whatever the order of their turns. From that view: the upload
returns, its goroutine has ended by then, and a reader comes to a clean end of
the stream only after it has received a complete encoding of the dump.
-/

namespace YcAgent.Capture.HeapStream

open Go Lib.Program

variable {n : Nat}

structure View (encodes : Bytes → Bytes → Prop) (dump : Bytes) (w : HeapWorld) (call : CallStage)
    (stage : EncoderStage) : Prop where
  file : w.content = dump
  spawned : w.spawned = call.spawned
  begun : stage.waits = false → call.spawned = true
  rewound : call ≠ .fresh → stage.coded.reads = none → w.offset = 0
  unread : call = .closed ∨ call = .joined → w.pipe.rerr ≠ none
  joined : call = .joined → w.done = true
  done : w.done = stage.finishes
  rerr : w.pipe.rerr ≠ some .eof
  source : ∀ reads, stage.coded.reads = some reads → reads.err = none → reads.content = dump
  idle : stage.offers = false → w.pipe.offered = none
  werr : w.pipe.werr = stage.werr
  carried : stage.coded.written.failed = false →
    w.pipe.received ++ w.pipe.offered.getD [] = stage.sent
  closed : stage.Closed encodes

variable {encodes : Bytes → Bytes → Prop} {dump : Bytes} {w w' : HeapWorld} {call : CallStage}
  {stage : EncoderStage}

theorem View.of_call (hview : View encodes dump w call stage) {op : HeapOp} {r : op.Reply}
    (hallowed : call.Allowed op) (hperform : Perform op w r w') :
    View encodes dump w' (call.after op r) stage := by
  cases hallowed with
  | stat =>
    obtain ⟨-, rfl⟩ := hperform
    exact hview
  | seek =>
    rcases hperform with ⟨⟨err, rfl⟩, rfl⟩ | ⟨rfl, rfl⟩
    · exact hview
    · exact { hview with
        rewound := fun _ _ => rfl
        unread := fun h => by rcases h with h | h <;> cases h
        joined := nofun }
  | go =>
    cases hperform
    exact { hview with
      spawned := rfl
      rewound := fun _ => hview.rewound nofun
      begun := fun _ => rfl
      unread := fun h => by rcases h with h | h <;> cases h
      joined := nofun }
  | post =>
    cases hperform
    exact hview
  | closeRead =>
    cases hperform
    exact { hview with
      rewound := fun _ => hview.rewound nofun
      unread := fun _ => Pipe.closeRead_rerr _ _
      joined := nofun
      rerr := Pipe.closeRead_rerr_ne_eof hview.rerr (.inr rfl) }
  | waitDone =>
    obtain ⟨hdone, rfl⟩ := hperform
    exact { hview with
      rewound := fun _ => hview.rewound nofun
      unread := fun _ => hview.unread (.inl rfl)
      joined := fun _ => hdone }

theorem View.of_http (hview : View encodes dump w call stage) {op : HeapOp} {r : op.Reply}
    (hallowed : BodyAllowed op) (hperform : Perform op w r w') :
    View encodes dump w' call stage := by
  cases hallowed with
  | read =>
    obtain ⟨p, hread, rfl⟩ := hperform
    cases hread with
    | @data b hoffered =>
      exact { hview with
        idle := fun hidle => by rw [hview.idle hidle] at hoffered; cases hoffered
        carried := fun hfailed => (Pipe.take_received hoffered).trans (hview.carried hfailed) }
    | closed _ => exact hview
  | close =>
    cases hperform
    exact { hview with
      unread := fun _ => Pipe.closeRead_rerr _ _
      rerr := Pipe.closeRead_rerr_ne_eof hview.rerr (.inl rfl) }

theorem View.offset_eq (hview : View encodes dump w call stage) (hspawned : call.spawned = true)
    (hunread : stage.coded.reads = none) : w.offset = 0 := by
  apply hview.rewound _ hunread
  rintro rfl
  cases hspawned

theorem View.of_readFile {g : Written} (hview : View encodes dump w call (.encoding ⟨none, g⟩))
    {reads : FileReads} (hread : ReadFile w reads) {offset : Nat} :
    reads.err ≠ some .eof ∧
      View encodes dump { w with offset := offset } call (.encoding ⟨some reads, g⟩) := by
  cases hread with
  | whole herr hcontent =>
    refine ⟨fun heq => ?_, { hview with rewound := nofun, source := ?_ }⟩
    · rw [herr] at heq
      cases heq
    · rintro _ ⟨⟩ _
      rw [hcontent, hview.offset_eq (hview.begun rfl) rfl, List.drop_zero]
      exact hview.file
  | @failed err herr hne _ =>
    refine ⟨fun heq => ?_, { hview with rewound := nofun, source := ?_ }⟩
    · exact hne (Option.some.inj (herr.symm.trans heq))
    · rintro _ ⟨⟩ hnone
      rw [herr] at hnone
      cases hnone

theorem View.of_offer {g : Coded} (hview : View encodes dump w call (.encoding g)) {b : Bytes}
    {r : Option StreamError} {p : Pipe} (hoffer : w.pipe.Offer b r p) :
    r ≠ some .eof ∧
      View encodes dump { w with pipe := p } call
        (EncoderStage.after (.encoding g) (.offer b) r) := by
  cases hoffer with
  | offered _ =>
    refine ⟨nofun, { hview with idle := nofun, carried := fun hfailed => ?_ }⟩
    have hcarried := hview.carried hfailed
    rw [hview.idle rfl] at hcarried
    exact congrArg (· ++ b) ((List.append_nil _).symm.trans hcarried)
  | closed _ =>
    exact ⟨fun heq => Pipe.writeCloseError_ne_eof hview.rerr (Option.some.inj heq),
      { hview with carried := nofun }⟩

theorem View.of_await {g : Coded} {b : Bytes} (hview : View encodes dump w call (.offering g b))
    {r : Option StreamError} {p : Pipe} (hawait : w.pipe.Await r p) :
    r ≠ some .eof ∧
      View encodes dump { w with pipe := p } call
        (.encoding { g with written := g.written.after b r }) := by
  cases hawait with
  | taken hoffered => exact ⟨nofun, { hview with idle := fun _ => hoffered }⟩
  | closed _ _ =>
    exact ⟨fun heq => Pipe.writeCloseError_ne_eof hview.rerr (Option.some.inj heq),
      { hview with idle := fun _ => rfl, carried := nofun }⟩

theorem View.of_encoder (hview : View encodes dump w call stage) {op : HeapOp} {r : op.Reply}
    (hallowed : stage.Allowed encodes op) (hperform : Perform op w r w') :
    EncoderStage.possible stage op r ∧ View encodes dump w' call (stage.after op r) := by
  cases hallowed with
  | started =>
    obtain ⟨hspawned, rfl⟩ := hperform
    rw [hview.spawned] at hspawned
    exact ⟨trivial, { hview with begun := fun _ => hspawned }⟩
  | readFile =>
    obtain ⟨hread, rfl⟩ := hperform
    exact hview.of_readFile hread
  | offer =>
    obtain ⟨p, hoffer, rfl⟩ := hperform
    exact hview.of_offer hoffer
  | await =>
    obtain ⟨p, hawait, rfl⟩ := hperform
    exact hview.of_await hawait
  | @closeWrite g err hcloses =>
    cases hperform
    refine ⟨trivial, { hview with werr := ?_, closed := hcloses }⟩
    have hopen : w.pipe.werr = none := hview.werr
    simp [Pipe.closeWrite, hopen, EncoderStage.werr, EncoderStage.after]
  | closeDone =>
    cases hperform
    exact ⟨trivial, { hview with joined := fun _ => rfl, done := rfl }⟩

/-- A pipe that was closed without an error has carried the whole dump. -/
theorem View.clean (hview : View encodes dump w call stage) (hwerr : w.pipe.werr = some .eof) :
    encodes dump w.pipe.received := by
  have hclosed (g : Coded) (err : Option StreamError) (herr : some (err.getD .eof) = some .eof)
      (hcloses : EncoderStage.Closes encodes g err)
      (hsource : ∀ reads, g.reads = some reads → reads.err = none → reads.content = dump)
      (hcarried : g.written.failed = false →
        w.pipe.received ++ w.pipe.offered.getD [] = g.written.bytes)
      (hidle : w.pipe.offered = none) : encodes dump w.pipe.received := by
    have hnone : err = none := by
      cases err with
      | none => rfl
      | some err => exact absurd herr hcloses.1
    obtain ⟨reads, hreads, hread, hunfailed, hencodes⟩ := hcloses.2 hnone
    have hall := hcarried hunfailed
    rw [hidle, Option.getD_none, List.append_nil] at hall
    rw [hall, ← hsource reads hreads hread]
    exact hencodes
  have hstage := hview.werr
  rw [hwerr] at hstage
  cases stage with
  | waiting => cases hstage
  | encoding g => cases hstage
  | offering g b => cases hstage
  | ended g err =>
    exact hclosed g err hstage.symm hview.closed hview.source hview.carried (hview.idle rfl)
  | finished g err =>
    exact hclosed g err hstage.symm hview.closed hview.source hview.carried (hview.idle rfl)

theorem View.settled (hview : View encodes dump w call stage) (hfinishes : stage.finishes = true) :
    w.pipe.offered = none ∧ w.pipe.closed = true := by
  cases stage with
  | finished g err =>
    refine ⟨hview.idle rfl, ?_⟩
    rw [Pipe.closed, hview.werr]
    exact Bool.or_true _
  | _ => cases hfinishes

def RoleState : Role n → Type
  | .call => CallStage
  | .encoder => EncoderStage
  | .http _ => Unit

def ghosts (encodes : Bytes → Bytes → Prop) : (i : Role n) → Ghost HeapOp HeapOp.Reply (RoleState i)
  | .call => CallStage.ghost
  | .encoder => EncoderStage.ghost encodes
  | .http _ => bodyGhost

def Seen (encodes : Bytes → Bytes → Prop) (dump : Bytes) (w : HeapWorld)
    (g : (i : Role n) → RoleState i) : Prop :=
  View encodes dump w (g .call) (g .encoder)

theorem seen_jointly : Jointly Perform (ghosts (n := n) encodes) (Seen encodes dump) := by
  intro i op w r w' g hallowed hseen hperform
  cases i with
  | call => exact ⟨trivial, View.of_call hseen hallowed hperform⟩
  | encoder => exact View.of_encoder hseen hallowed hperform
  | http k => exact ⟨trivial, View.of_http hseen hallowed hperform⟩

/-- What the programs return, and how far they have come then. -/
def Ending : (i : Role n) → Option Result → RoleState i → Prop
  | .call, result, stage => (∃ answer, result = some answer) ∧ CallStage.Returned stage
  | .encoder, result, stage => result = none ∧ EncoderStage.finishes stage = true
  | .http _, _, _ => True

def ghostStart : (i : Role n) → RoleState i
  | .call => CallStage.fresh
  | .encoder => EncoderStage.waiting
  | .http _ => ()

theorem upload_follows (enc : Encoder) (cfg : PostConfig) (endpoint : String) (hasFile : Bool)
    (http : Fin n → Prog BodyOp BodyOp.Reply Unit) (i : Role n) :
    (upload enc cfg endpoint hasFile http i).Follows (ghosts enc.encodes i) (ghostStart i)
      (Ending i) := by
  cases i with
  | call =>
    apply (Prog.follows_bind _ _ _ _).2
    apply (uploadCapturedFile_follows cfg endpoint hasFile).mono
    intro result stage hreturned
    exact ⟨⟨result, rfl⟩, hreturned⟩
  | encoder =>
    apply (Prog.follows_bind _ _ _ _).2
    apply (encoderGoroutine_follows enc).mono
    intro _ stage hfinishes
    exact ⟨rfl, hfinishes⟩
  | http k =>
    have hbody : ((http k).interpret ofBody).Confined BodyAllowed :=
      Prog.Confined.interpret (fun op _ => ofBody_confined op)
        (Prog.confined_of_forall (P := fun _ => True) (fun _ => trivial) (http k))
    exact (hbody.bind (k := fun _ => .done (none : Option Result)) fun _ => trivial).follows
      (fun _ _ => id) ()

theorem seen_start (name : String) (offset : Nat) :
    Seen (n := n) encodes dump (.start name dump offset) ghostStart where
  file := rfl
  spawned := rfl
  begun := nofun
  rewound := fun h => absurd rfl h
  unread := fun h => by rcases h with h | h <;> cases h
  joined := nofun
  done := rfl
  rerr := nofun
  source := nofun
  idle := fun _ => rfl
  werr := rfl
  carried := fun _ => rfl
  closed := trivial

theorem exists_perform_call {op : HeapOp} (hallowed : call.Allowed op)
    (hdone : call = .closed → w.done = true) : ∃ r w', Perform op w r w' := by
  cases hallowed with
  | stat => exact ⟨.ok ⟨w.name, w.content.length⟩, w, .inr rfl, rfl⟩
  | seek => exact ⟨none, _, .inr ⟨rfl, rfl⟩⟩
  | go => exact ⟨(), _, rfl⟩
  | post => exact ⟨⟨.ok (), .ok (), .ok 200, .ok ""⟩, w, rfl⟩
  | closeRead => exact ⟨(), _, rfl⟩
  | waitDone => exact ⟨(), w, hdone rfl, rfl⟩

theorem exists_perform_encoder {op : HeapOp} (hallowed : stage.Allowed encodes op)
    (hspawned : w.spawned = true) (hclosed : w.pipe.closed = true) : ∃ r w', Perform op w r w' := by
  cases hallowed with
  | started => exact ⟨(), w, hspawned, rfl⟩
  | readFile =>
    refine ⟨⟨[w.content.drop w.offset], none⟩, _, .whole rfl ?_, rfl⟩
    exact List.append_nil _
  | offer =>
    obtain ⟨r, p, hoffer⟩ := w.pipe.exists_offer _
    exact ⟨r, _, p, hoffer, rfl⟩
  | await =>
    obtain ⟨r, p, hawait⟩ := Pipe.exists_await_of_closed hclosed
    exact ⟨r, _, p, hawait, rfl⟩
  | closeWrite _ => exact ⟨(), _, rfl⟩
  | closeDone => exact ⟨(), _, rfl⟩

/-- What is claimed of the runs of an upload from `w` on. -/
structure StreamsSafely (enc : Encoder) (ps : HeapProgs n) (w : HeapWorld) : Prop where
  /-- No run goes on for ever. -/
  finite : Acc (fun after before => Turn Perform before after) (ps, w)
  /-- A run that cannot go on has returned. -/
  returns : ∀ ps' w', Turns Perform (ps, w) (ps', w') → (∀ after, ¬ Turn Perform (ps', w') after) →
    ∃ result, ps' .call = .done (some result)
  /-- When the call has returned, so has the goroutine, if there is one. -/
  joined : ∀ ps' w' result, Turns Perform (ps, w) (ps', w') → ps' .call = .done result →
    w'.spawned = true → ps' .encoder = .done none
  /-- After the goroutine has ended every read returns, and with an error. -/
  settled : ∀ ps' w' result, Turns Perform (ps, w) (ps', w') → ps' .encoder = .done result →
    ∀ size, (∃ r w₁, Perform (.readBody size) w' r w₁) ∧
      ∀ r w₁, Perform (.readBody size) w' r w₁ → ∃ err, r = .error err
  /-- A read ends in `io.EOF` only after a complete encoding of the file. -/
  clean : ∀ ps' w', Turns Perform (ps, w) (ps', w') →
    ∀ size w₁, Perform (.readBody size) w' (.error .eof) w₁ → enc.encodes w.content w'.pipe.received

section Run

variable {ps : HeapProgs n} {g : (i : Role n) → RoleState i}

theorem EncoderStage.done_of_finishes {p : HeapProg (Option Result)}
    {Q : Option Result → EncoderStage → Prop} (hp : p.Follows (EncoderStage.ghost encodes) stage Q)
    (hfinishes : stage.finishes = true) : ∃ result, p = .done result ∧ Q result stage := by
  cases p with
  | done result => exact ⟨result, rfl, hp⟩
  | act op next =>
    cases stage with
    | finished g err => cases hp.1
    | _ => cases hfinishes

/-- As long as the call has not returned, it or its goroutine can go on. -/
theorem Seen.progress (hseen : Seen encodes dump w g)
    (hps : ∀ i, (ps i).Follows (ghosts encodes i) (g i) (Ending i))
    (hstuck : ∀ after, ¬ Turn Perform (ps, w) after) :
    ∃ result, ps .call = .done (some result) := by
  have hcall := hps .call
  cases hact : ps .call with
  | done result =>
    rw [hact] at hcall
    obtain ⟨⟨answer, rfl⟩, -⟩ := hcall
    exact ⟨answer, rfl⟩
  | act op next =>
    rw [hact] at hcall
    exfalso
    have hwaits : ¬ (g .call = CallStage.closed → w.done = true) := by
      intro hdone
      obtain ⟨after, hturn⟩ := turn_of_act hact (exists_perform_call hcall.1 hdone)
      exact hstuck after hturn
    obtain ⟨hclosed, hdone⟩ := Classical.not_imp.1 hwaits
    have hencoder := hps .encoder
    cases hact' : ps .encoder with
    | done result =>
      rw [hact'] at hencoder
      exact hdone (hseen.done.trans hencoder.2)
    | act op next =>
      rw [hact'] at hencoder
      have hspawned : w.spawned = true := by
        rw [hseen.spawned, hclosed]
        rfl
      have hshut : w.pipe.closed = true := by
        have hrerr := Option.isSome_iff_ne_none.2 (hseen.unread (.inl hclosed))
        rw [Pipe.closed, hrerr, Bool.true_or]
      obtain ⟨after, hturn⟩ := turn_of_act hact' (exists_perform_encoder hencoder.1 hspawned hshut)
      exact hstuck after hturn

end Run

instance : Finite (Role n) := by
  apply Finite.of_injective (β := Option (Option (Fin n))) fun
    | .call => none
    | .encoder => some none
    | .http k => some (some k)
  intro i j heq
  cases i <;> cases j <;> simp_all

/-- An upload streams safely whatever its client does with the body, in any number of
goroutines, and whatever the reads and writes answer. -/
theorem upload_streams_safely (enc : Encoder) (cfg : PostConfig) (endpoint : String)
    (hasFile : Bool)
    (http : Fin n → Prog BodyOp BodyOp.Reply Unit) (name : String) (dump : Bytes) (offset : Nat) :
    StreamsSafely enc (upload enc cfg endpoint hasFile http) (.start name dump offset) := by
  have hrun ps' w' (hturns : Turns Perform (upload enc cfg endpoint hasFile http,
      HeapWorld.start name dump offset) (ps', w')) :
      ∃ g, (∀ i, (ps' i).Follows (ghosts enc.encodes i) (g i) (Ending i)) ∧
        Seen enc.encodes dump w' g :=
    hturns.follows seen_jointly (upload_follows enc cfg endpoint hasFile http)
      (seen_start name offset)
  refine ⟨turn_wellFounded.apply _, ?_, ?_, ?_, ?_⟩
  · intro ps' w' hturns hstuck
    obtain ⟨g, hps, hseen⟩ := hrun ps' w' hturns
    exact hseen.progress hps hstuck
  · intro ps' w' result hturns hdone hspawned
    obtain ⟨g, hps, hseen⟩ := hrun ps' w' hturns
    have hcall := hps .call
    rw [hdone] at hcall
    rcases hcall.2 with hfresh | hjoined
    · rw [hseen.spawned, hfresh] at hspawned
      cases hspawned
    · have hfinishes := hseen.done.symm.trans (hseen.joined hjoined)
      obtain ⟨result, hresult, rfl, -⟩ := EncoderStage.done_of_finishes (hps .encoder) hfinishes
      exact hresult
  · intro ps' w' result hturns hdone size
    obtain ⟨g, hps, hseen⟩ := hrun ps' w' hturns
    have hencoder := hps .encoder
    rw [hdone] at hencoder
    obtain ⟨hidle, hclosed⟩ := hseen.settled hencoder.2
    refine ⟨⟨_, _, _, .closed hclosed, rfl⟩, ?_⟩
    intro r w₁ hperform
    obtain ⟨p, hread, -⟩ := hperform
    exact hread.error_of_idle hidle
  · intro ps' w' hturns size w₁ hread
    obtain ⟨g, hps, hseen⟩ := hrun ps' w' hturns
    obtain ⟨p, hread, -⟩ := hread
    exact hseen.clean hread.eof_werr

/-- Writes the chunks of a source as they are. -/
def storeChunks (err : Option StreamError) : List Bytes → WriterProg (Option StreamError × Unit)
  | [] => .done (err, ())
  | chunk :: chunks => .act chunk fun
    | some failed => .done (some failed, ())
    | none => storeChunks err chunks

def trailer : Bytes := [255]

theorem storeChunks_follows {err : Option StreamError} (herr : err ≠ some .eof)
    (chunks : List Bytes) (bytes : Bytes) :
    (storeChunks err chunks).Follows writer ⟨bytes, false⟩ fun copied g =>
      copied.1 ≠ some .eof ∧
        (copied.1 = none → err = none ∧ g = ⟨bytes ++ chunks.flatten, false⟩) := by
  induction chunks generalizing bytes with
  | nil =>
    refine ⟨herr, fun hnone => ⟨hnone, ?_⟩⟩
    rw [List.flatten_nil, List.append_nil]
  | cons chunk chunks ih =>
    refine ⟨trivial, fun r hr => ?_⟩
    cases r with
    | some failed => exact ⟨hr, nofun⟩
    | none =>
      apply (ih (bytes ++ chunk)).mono
      intro copied g hcopied
      rw [List.flatten_cons, ← List.append_assoc]
      exact hcopied

def stored : Encoder where
  State := Unit
  newZstdEncoder := .ok ()
  readFrom := fun _ reads => storeChunks reads.err reads.chunks
  close := fun _ => .act trailer .done
  encodes := fun content out => out = content ++ trailer
  new_error := nofun
  contract := by
    intro _ reads _ herr
    apply (storeChunks_follows herr reads.chunks []).mono
    intro copied g hcopied
    refine ⟨hcopied.1, trivial, fun r hr => ⟨hr, fun hnone hclose => ?_⟩⟩
    obtain ⟨hread, rfl⟩ := hcopied.2 hnone
    cases hclose
    exact ⟨hread, rfl, rfl⟩

def smoothHost : (op : HeapOp) → HeapWorld → Option (op.Reply × HeapWorld)
  | .stat, w => some (.ok ⟨w.name, w.content.length⟩, w)
  | .seek, w => some (none, { w with offset := 0 })
  | .go, w => some ((), { w with spawned := true })
  | .post, w => some (⟨.ok (), .ok (), .ok 200, .ok "received"⟩, w)
  | .waitDone, w => if w.done then some ((), w) else none
  | .started, w => if w.spawned then some ((), w) else none
  | .readFile, w =>
    some (⟨[w.content.drop w.offset], none⟩,
      { w with offset := w.offset + (w.content.drop w.offset ++ []).length })
  | .offer b, w =>
    if w.pipe.closed then none
    else some (none, { w with pipe := { w.pipe with offered := some b } })
  | .await, w => if w.pipe.offered = none then some (none, w) else none
  | .closeWrite err, w => some ((), { w with pipe := w.pipe.closeWrite err })
  | .closeDone, w => some ((), { w with done := true })
  | .readBody n, w =>
    match w.pipe.offered with
    | some b => some (.ok (b.take n), { w with pipe := w.pipe.take n b })
    | none => if w.pipe.closed then some (.error w.pipe.readCloseError, w) else none
  | .closeRead err, w => some ((), { w with pipe := w.pipe.closeRead err })

theorem smoothHost_performs (op : HeapOp) (w : HeapWorld) (r : op.Reply) (w' : HeapWorld)
    (hhost : smoothHost op w = some (r, w')) : Perform op w r w' := by
  cases op with
  | stat =>
    cases hhost
    exact ⟨.inr rfl, rfl⟩
  | seek =>
    cases hhost
    exact .inr ⟨rfl, rfl⟩
  | waitDone =>
    obtain ⟨hdone, heq⟩ := Option.ite_none_right_eq_some.1 hhost
    cases heq
    exact ⟨hdone, rfl⟩
  | started =>
    obtain ⟨hspawned, heq⟩ := Option.ite_none_right_eq_some.1 hhost
    cases heq
    exact ⟨hspawned, rfl⟩
  | readFile =>
    cases hhost
    exact ⟨.whole rfl (List.append_nil _), rfl⟩
  | offer b =>
    obtain ⟨hopen, heq⟩ := Option.ite_none_left_eq_some.1 hhost
    cases heq
    exact ⟨_, .offered (Bool.eq_false_iff.2 hopen), rfl⟩
  | await =>
    obtain ⟨hidle, heq⟩ := Option.ite_none_right_eq_some.1 hhost
    cases heq
    exact ⟨_, .taken hidle, rfl⟩
  | readBody n =>
    simp only [smoothHost] at hhost
    split at hhost
    · next b hoffered =>
        cases hhost
        exact ⟨_, .data hoffered, rfl⟩
    · obtain ⟨hclosed, heq⟩ := Option.ite_none_right_eq_some.1 hhost
      cases heq
      exact ⟨_, .closed hclosed, rfl⟩
  | _ =>
    cases hhost
    rfl

def threeReads : Fin 1 → Prog BodyOp BodyOp.Reply Unit :=
  fun _ => .act (.read 8) fun _ => .act (.read 8) fun _ => .act (.read 8) fun _ => .done ()

def smoothTurns : List (Role 1) :=
  [.call, .call, .call, .encoder, .encoder, .encoder, .http 0, .encoder, .encoder, .http 0,
    .encoder, .encoder]

/-- An upload of three bytes: the client has read what was written, and its
next read comes to a clean end. -/
theorem stored_dump_streamed :
    let ps := upload stored ⟨false, ""⟩ "http://yc" true threeReads
    let w := HeapWorld.start "hd.out" [1, 2, 3] 3
    StreamsSafely stored ps w ∧
      ∃ ps' w', Turns Perform (ps, w) (ps', w') ∧ w'.pipe.received = [1, 2, 3, 255] ∧
        Perform (.readBody 8) w' (.error .eof) w' := by
  intro ps w
  refine ⟨upload_streams_safely _ _ _ _ _ _ _ _, ?_⟩
  have hplay : ∃ trace ps' w', playPool smoothHost smoothTurns ps w = some (trace, ps', w') ∧
      w'.pipe = ⟨none, none, some .eof, [1, 2, 3, 255]⟩ := ⟨_, _, _, rfl, rfl⟩
  obtain ⟨trace, ps', w', hplay, hpipe⟩ := hplay
  refine ⟨ps', w', (playPool_pool smoothHost_performs hplay).turns, by rw [hpipe], ?_⟩
  apply smoothHost_performs
  simp [smoothHost, hpipe, Pipe.closed, Pipe.readCloseError]

end YcAgent.Capture.HeapStream
