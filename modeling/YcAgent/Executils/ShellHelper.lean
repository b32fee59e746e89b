import YcAgent.Executils.Shell

/-!
What becomes of the goroutine of `CommandCombinedOutputToWriter` when the caller
has returned. The channel is unbuffered, so the goroutine is past its send only
when the caller has received from the channel; a goroutine with nothing left to
do but its send is blocked until then.
-/

namespace YcAgent.Executils

open Capture Go Lib.Program

def Received (trace : ShellTrace) : Prop :=
  ∃ w, (Side.right, (⟨w, .select, .channelDone⟩ : ShellEvent)) ∈ trace

def HelperEnded (left : ShellProg Unit) (trace : ShellTrace) : Prop :=
  left = .done () ∧ Received trace

/-- From the moment the caller returns `err` on, the goroutine writes nothing,
and it can come to its end whenever the command has exited. -/
structure NoStrayExecution (cmd : CmdManager) (trace : ShellTrace) (left : ShellProg Unit)
    (err : Option ShellError) (w : ShellState) : Prop where
  silent : ∀ more left' caller w',
    Pair (Perform cmd) left (.done err) w more left' caller w' → w'.written = w.written
  ends : ∀ more left' caller w',
    Pair (Perform cmd) left (.done err) w more left' caller w' → w'.exit ≠ none →
      ∃ further left'' caller' w'', Pair (Perform cmd) left' caller w' further left'' caller' w'' ∧
        HelperEnded left'' (trace ++ more ++ further)

section Stays

variable {cmd : CmdManager} {w w' : ShellState} {op : ShellOp} {r : op.Reply}

theorem exit_stays (hw : w.exit ≠ none) (h : Perform cmd op w r w') : w'.exit ≠ none := by
  rcases eq_or_ne op .combinedOutput with rfl | hop
  · rw [show w' = _ from h]
    exact Option.some_ne_none _
  · rwa [(perform_framed h).exit hop]

theorem spawned_stays (hw : w.spawned = true) (h : Perform cmd op w r w') : w'.spawned = true := by
  rcases eq_or_ne op .spawn with rfl | hop
  · rw [show w' = _ from h]
  · rw [(perform_framed h).spawned hop, hw]

end Stays

theorem exists_perform (cmd : CmdManager) (op : ShellOp) {w : ShellState} (hw : w.spawned = true) :
    ∃ r w', Perform cmd op w r w' := by
  cases op with
  | create => exact ⟨.ok (), w, rfl⟩
  | spawn => exact ⟨(), _, rfl⟩
  | begin => exact ⟨(), w, hw, rfl⟩
  | combinedOutput => exact ⟨⟨[], none⟩, _, rfl⟩
  | getErr => exact ⟨w.err, w, rfl, rfl⟩
  | because output => exact ⟨(), _, rfl⟩
  | write output => exact ⟨none, _, output, List.prefix_refl _, fun _ => rfl, rfl⟩
  | andAlso text => exact ⟨(), _, rfl⟩
  | writeResult output => exact ⟨none, _, output, List.prefix_refl _, fun _ => rfl, rfl⟩
  | send => exact ⟨(), _, rfl⟩
  | select => exact ⟨.timer, w, nofun, rfl⟩
  | kill => exact ⟨none, _, fun _ => rfl, rfl⟩

theorem exists_done {α β : Type} (cmd : CmdManager) (p : ShellProg α) (b : β) {w : ShellState}
    (hw : w.spawned = true) :
    ∃ more a w', Pair (Perform cmd) p (.done b) w more (.done a) (.done b : ShellProg β) w' := by
  induction p generalizing w with
  | done a => exact ⟨[], a, w, .rest⟩
  | act op next ih =>
    obtain ⟨r, w₁, hperform⟩ := exists_perform cmd op hw
    obtain ⟨more, a, w', hmore⟩ := ih r (spawned_stays hw hperform)
    exact ⟨_, a, w', .left hperform hmore⟩

def sendLast : Ghost ShellOp ShellOp.Reply Bool where
  allowed sent _ := sent = false
  possible _ _ _ := True
  after sent op _ :=
    match op with
    | .send => true
    | _ => sent

theorem follows_writeFailed (output : Bytes) :
    (writeFailed output).Follows sendLast false fun _ _ => True := by
  refine ⟨rfl, fun r _ => ?_⟩
  cases r with
  | none => exact ⟨rfl, fun _ _ => trivial⟩
  | some e => exact ⟨rfl, fun _ _ => ⟨rfl, fun _ _ => trivial⟩⟩

theorem follows_execution : execution.Follows sendLast false fun _ _ => True := by
  refine ⟨rfl, fun _ _ => ⟨rfl, fun exit _ => ⟨rfl, fun err _ => ?_⟩⟩⟩
  match err with
  | none => exact ⟨rfl, fun _ _ => ⟨rfl, fun _ _ => trivial⟩⟩
  | some _ =>
    change Prog.Follows sendLast (if exit.output.length > 1 then _ else _) _ _
    split
    · exact ⟨rfl, fun _ _ => follows_writeFailed exit.output⟩
    · exact follows_writeFailed exit.output

section Moments

variable {cmd : CmdManager} {caller caller' : ShellProg (Option ShellError)} {left : ShellProg Unit}
  {trace : ShellTrace} {w : ShellState}

theorem done_of_channelDone
    (hpair : Pair (Perform cmd) execution caller notStarted trace left caller' w)
    (hops : ∀ e, (Side.right, e) ∈ trace → e.op ≠ .send) (hdone : w.channelDone = true) :
    left = .done () := by
  have hsteps := hpair.left_steps (fun _ => True) (fun w w' => w'.channelDone = w.channelDone)
    (fun _ _ => trivial) fun e w₁ he h => (perform_framed h).channelDone (hops e he)
  have hview : sendLast.Describes
      ⟨fun op w r w' => Perform cmd op w r w' ∧ True, fun w w' => w'.channelDone = w.channelDone⟩
      (fun w sent => w.channelDone = sent) := by
    refine ⟨fun op w r w' sent _ hw hperform => ⟨trivial, ?_⟩, fun w w' sent hw hw' => hw'.trans hw⟩
    by_cases hsend : op = .send
    · subst hsend
      rw [show w' = _ from hperform.1]
      rfl
    · rw [(perform_framed hperform.1).channelDone hsend, hw]
      cases op <;> first | rfl | exact absurd rfl hsend
  have hrest := hsteps.follows_rest hview follows_execution rfl
  have hend := (hsteps.of_follows hview follows_execution rfl).2.1
  cases left with
  | done _ => rfl
  | act op next =>
    have hallowed := hrest.1
    rw [← hend, hdone] at hallowed
    cases hallowed

theorem exit_of_done
    (hpair : Pair (Perform cmd) execution caller notStarted trace (.done ()) caller' w) :
    w.exit ≠ none := by
  have hsteps := hpair.left_steps (fun _ => True) (fun _ _ => True) (fun _ _ => trivial)
    fun _ _ _ _ => trivial
  obtain ⟨w₀, _, _, more, _, _, hevents, hmore⟩ := hsteps.of_act_done
  obtain ⟨w₁, exit, _, rest, _, _, rfl, _⟩ := Steps.of_act_done hmore
  have hexit : (Side.left, (⟨w₁, .combinedOutput, exit⟩ : ShellEvent)) ∈ trace := by
    rw [← mem_ofSide, hevents]
    simp
  apply hpair.brought_about (P := fun w => w.exit ≠ none) (fun _ _ _ _ => exit_stays) hexit
  intro w₂ hperform
  rw [show w₂ = _ from hperform]
  exact Option.some_ne_none _

end Moments

section Return

variable {cmd : CmdManager} {left : ShellProg Unit} {err : Option ShellError} {trace : ShellTrace}
  {w : ShellState}

theorem idle_of_not_spawned {more : ShellTrace} {left' : ShellProg Unit}
    {caller : ShellProg (Option ShellError)} {w' : ShellState} (hw : w.spawned = false)
    (hpair : Pair (Perform cmd) execution (.done err) w more left' caller w') :
    more = [] ∧ left' = execution ∧ w' = w := by
  cases hpair with
  | rest => exact ⟨rfl, rfl, rfl⟩
  | left hperform _ =>
    have hspawned := hperform.1
    rw [hw] at hspawned
    cases hspawned

theorem noStrayExecution_of_idle (hw : w.spawned = false) (hexit : w.exit = none) :
    NoStrayExecution cmd trace execution err w := by
  constructor
  · intro more left' caller w' hmore
    rw [(idle_of_not_spawned hw hmore).2.2]
  · intro more left' caller w' hmore hexit'
    rw [(idle_of_not_spawned hw hmore).2.2] at hexit'
    exact absurd hexit hexit'

theorem noStrayExecution_of_ended (hended : HelperEnded left trace) :
    NoStrayExecution cmd trace left err w := by
  obtain ⟨rfl, hreceived⟩ := hended
  constructor
  · intro more left' caller w' hmore
    rw [hmore.of_done.2.2]
  · intro more left' caller w' hmore _
    obtain ⟨rfl, rfl, rfl⟩ := hmore.of_done
    refine ⟨[], _, _, _, .rest, rfl, ?_⟩
    rwa [List.append_nil, List.append_nil]

/-- Nobody receives what is sent after the caller has returned. -/
theorem received_of_append {more : ShellTrace} {left' : ShellProg Unit}
    {caller : ShellProg (Option ShellError)} {w' : ShellState}
    (hmore : Pair (Perform cmd) left (.done err) w more left' caller w')
    (h : Received (trace ++ more)) : Received trace := by
  obtain ⟨w₁, hselect⟩ := h
  rcases List.mem_append.1 hselect with hselect | hselect
  · exact ⟨w₁, hselect⟩
  · cases hmore.of_done_right.2 _ hselect

theorem not_noStrayExecution_of_not_received
    (hpair : Pair (Perform cmd) execution (combinedOutputToWriter cmd) notStarted trace left
      (.done err) w)
    (hspawned : w.spawned = true) (hreceived : ¬Received trace) :
    ¬NoStrayExecution cmd trace left err w := by
  intro hstray
  -- the goroutine goes on to its send, where it stays
  obtain ⟨more, _, w₁, hmore⟩ := exists_done cmd left err hspawned
  have hexit := exit_of_done (hpair.append hmore)
  obtain ⟨further, left', caller, w₂, hfurther, -, hend⟩ := hstray.ends more _ _ w₁ hmore hexit
  have hmore₂ := hmore.append hfurther
  rw [List.append_assoc] at hend
  exact hreceived (received_of_append hmore₂ hend)

/-- What the caller of a command that is not skipped has done when it returns. -/
theorem Waited.stray_iff
    (hpair : Pair (Perform cmd) execution (combinedOutputToWriter cmd) notStarted trace left
      (.done err) w)
    (hwaited : Waited err (ofSide .right trace)) :
    NoStrayExecution cmd trace left err w ↔ ¬TimedOut trace := by
  generalize hevents : ofSide .right trace = events at hwaited
  have hmem (e : ShellEvent) : (Side.right, e) ∈ trace ↔ e ∈ events := by
    rw [← mem_ofSide, hevents]
  cases hwaited with
  | @finished w₀ w₁ w₂ u hdone =>
    have hselect : (Side.right, (⟨w₁, .select, .channelDone⟩ : ShellEvent)) ∈ trace := by
      rw [hmem]
      simp
    have hchannel : w.channelDone = true :=
      hpair.stable (P := fun w => w.channelDone = true)
        (fun _ _ _ _ => channelDone_stays) (.inr ⟨_, hselect, hdone⟩)
    have hops : ∀ e, (Side.right, e) ∈ trace → e.op ≠ .send := by
      intro e he
      rw [hmem] at he
      simp only [List.mem_cons, List.not_mem_nil, or_false] at he
      intro hsend
      rcases he with rfl | rfl | rfl <;> cases hsend
    have hnot : ¬TimedOut trace := by
      rintro ⟨w', htimer⟩
      rw [hmem] at htimer
      simp only [List.mem_cons, List.not_mem_nil, or_false] at htimer
      rcases htimer with htimer | htimer | htimer <;> cases htimer
    have hended := done_of_channelDone hpair hops hchannel
    exact ⟨fun _ => hnot, fun _ => noStrayExecution_of_ended ⟨hended, w₁, hselect⟩⟩
  | @timedOut w₀ w₁ w₂ w₃ u r =>
    have htimer : TimedOut trace := ⟨w₁, by rw [hmem]; simp⟩
    have hspawn : (Side.right, (⟨w₀, .spawn, u⟩ : ShellEvent)) ∈ trace := by
      rw [hmem]
      simp
    have hspawned : w.spawned = true := by
      apply hpair.brought_about (P := fun w => w.spawned = true)
        (fun _ _ _ _ => spawned_stays) hspawn
      intro w' hperform
      rw [show w' = _ from hperform]
    have hreceived : ¬Received trace := by
      rintro ⟨w', hselect⟩
      rw [hmem] at hselect
      simp only [List.mem_cons, List.not_mem_nil, or_false] at hselect
      rcases hselect with hselect | hselect | hselect | hselect <;> cases hselect
    have hstray := not_noStrayExecution_of_not_received hpair hspawned hreceived
    exact ⟨fun h => absurd h hstray, fun h => absurd htimer h⟩

/-- Nothing is left of a command's execution exactly if the select did not take
the timer's case. -/
theorem noStrayExecution_iff (cmd : CmdManager) (trace : ShellTrace) (left : ShellProg Unit)
    (err : Option ShellError) (w : ShellState)
    (hpair : Pair (Perform cmd) execution (combinedOutputToWriter cmd) notStarted trace left
      (.done err) w) :
    NoStrayExecution cmd trace left err w ↔ ¬TimedOut trace := by
  cases hskipped : cmd.skipped with
  | false => exact (combinedOutputToWriter_waited hskipped hpair.right_steps).stray_iff hpair
  | true =>
    rw [combinedOutputToWriter, hskipped] at hpair
    obtain ⟨rfl, rfl, rfl⟩ := idle_of_not_spawned rfl hpair
    have hnot : ¬TimedOut [] := by
      rintro ⟨w', htimer⟩
      cases htimer
    exact ⟨fun _ => hnot, fun _ => noStrayExecution_of_idle rfl rfl⟩

end Return

section Samples

/-- The command exits before the timer fires. -/
theorem finished_command_ended : ∃ trace left w,
    Pair (Perform jattach) execution (combinedOutputToWriter jattach) notStarted trace left
      (.done none) w ∧ w.written = [68, 10] ∧ NoStrayExecution jattach trace left none w := by
  have hrun : ∃ out, playPair (sampleHost .channelDone none)
      [.right, .left, .left, .left, .left, .left, .right, .right] execution
      (combinedOutputToWriter jattach) notStarted = some out ∧ out.2.2.1 = .done none ∧
      out.2.2.2.written = [68, 10] ∧ ¬TimedOut out.1 := by
    refine ⟨_, rfl, rfl, rfl, ?_⟩
    rintro ⟨w, htimer⟩
    simp only [List.mem_cons, List.not_mem_nil, or_false] at htimer
    rcases htimer with h | h | h | h | h | h | h | h <;> cases h
  obtain ⟨⟨trace, left, caller, w⟩, hplay, rfl, hwritten, hnot⟩ := hrun
  have hkilled : jattach.isWaitCmd = true → (none : Option IOError) = none := fun _ => rfl
  have hpair := playPair_pair (sampleHost_performs .channelDone hkilled) hplay
  exact ⟨trace, left, w, hpair, hwritten, (noStrayExecution_iff jattach _ _ _ _ hpair).2 hnot⟩

def killedHost : (op : ShellOp) → ShellState → Option (op.Reply × ShellState)
  | .combinedOutput, w => some (⟨[68, 10], some "signal: killed"⟩,
      { w with
        exit := some ⟨[68, 10], some "signal: killed"⟩
        err := some (.failed "signal: killed") })
  | op, w => sampleHost .timer none op w

theorem killedHost_performs (op : ShellOp) (w : ShellState) (r : op.Reply) (w' : ShellState)
    (h : killedHost op w = some (r, w')) : Perform jattach op w r w' := by
  cases op with
  | combinedOutput =>
    cases h
    rfl
  | _ => exact sampleHost_performs .timer (fun _ => rfl) _ w r w' h

/-- The caller has returned, and the goroutine then writes the line and offers a
send that nobody will receive. -/
theorem killed_command_stray : ∃ trace left w more w',
    Pair (Perform jattach) execution (combinedOutputToWriter jattach) notStarted trace left
      (.done none) w ∧ w.written = [] ∧
    Pair (Perform jattach) left (.done none : ShellProg (Option ShellError)) w more (.done ())
      (.done none) w' ∧ w'.written = [68, 10] ∧ ¬Received (trace ++ more) ∧
    ¬NoStrayExecution jattach trace left none w := by
  have hrun : ∃ out, playPair killedHost [.right, .left, .right, .right, .right] execution
      (combinedOutputToWriter jattach) notStarted = some out ∧ out.2.2.1 = .done none ∧
      out.2.2.2.written = [] ∧ ¬Received out.1 ∧
      ∃ after, playPair killedHost [.left, .left, .left, .left, .left] out.2.1
        (.done none : ShellProg (Option ShellError)) out.2.2.2 = some after ∧
        after.2.1 = .done () ∧ after.2.2.1 = .done none ∧ after.2.2.2.written = [68, 10] := by
    refine ⟨_, rfl, rfl, rfl, ?_, _, rfl, rfl, rfl, rfl⟩
    rintro ⟨w, hselect⟩
    simp only [List.mem_cons, List.not_mem_nil, or_false] at hselect
    rcases hselect with h | h | h | h | h <;> cases h
  obtain ⟨⟨trace, left, caller, w⟩, hplay, rfl, hempty, hnot, ⟨more, left', caller', w'⟩, hafter,
    rfl, rfl, hwritten⟩ := hrun
  have hpair := playPair_pair killedHost_performs hplay
  have hmore := playPair_pair killedHost_performs hafter
  refine ⟨trace, left, w, more, w', hpair, hempty, hmore, hwritten,
    fun hreceived => hnot (received_of_append hmore hreceived), fun hstray => ?_⟩
  have hsame := hstray.silent more _ _ w' hmore
  rw [hwritten] at hsame
  rw [hempty] at hsame
  cases hsame

end Samples

end YcAgent.Executils
