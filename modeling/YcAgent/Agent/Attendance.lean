import YcAgent.Go.Stream
import YcAgent.Lib.Weakest

/-!
The attendance of the agent. A run starts with one, and in M3 and API mode the
main goroutine then sleeps until the next midnight (UTC), and some minutes more
that depend on the address of the host, before it attends again. Every call takes
some time, a sleep at least the time asked for; the clock is not set back.
-/

namespace YcAgent.Agent.Attendance

open Go Lib.Program

def second : Int := 1000000000
def minute : Int := 60 * second
def hour : Int := 60 * minute
def day : Int := 24 * hour

/-- `Time.Truncate`, for a time in nanoseconds since the zero time. -/
def truncate (t d : Int) : Int := t - t % d

/-- `AddDate(0, 0, n)` of a time in UTC, where every day has 24 hours. -/
def addDays (t n : Int) : Int := t + n * day

def calDuration4Attendance (utc : Int) : Int × Int :=
  let target := addDays (truncate utc day) 1
  (target, target - utc)

/-- The bytes of the address are added up in a byte. -/
def calDuration4Distribution (ip : Bytes) : Int :=
  let sum : UInt8 := ip.foldl (· + ·) 0
  minute * (sum % 10).toNat

structure OutboundIP where
  bytes : Bytes
  text : String

inductive Attended where
  | startup
  | daily
  deriving DecidableEq, Repr

def Attended.typ : Attended → String
  | startup => "startup"
  | daily => "daily"

inductive AttendOp where
  | now
  /-- The local time as it is sent. -/
  | timestamp
  | sleep (d : Int)
  | getOutboundIP
  /-- `GetData` of the endpoint, with the type that is in it. -/
  | getData (typ : Attended) (endpoint : String)
  | logAttendance (utc target sub : Int)
  | logDistribution (d : Int)
  | log (text : String)
  | goAPIMode
  | goM3Mode
  | runOnDemandMode

@[reducible] def AttendOp.Reply : AttendOp → Type
  | .now => Int
  | .timestamp => String
  | .getOutboundIP => OutboundIP
  | .getData _ _ => String × Bool
  | _ => Unit

abbrev AttendProg := Prog AttendOp AttendOp.Reply

def ask (op : AttendOp) : AttendProg op.Reply := .perform op

def sleep (d : Int) : AttendProg Unit := ask (.sleep d)

/-- The options that `Run` and the attendance read. -/
structure RunConfig where
  server : String
  pid : String
  m3 : Bool
  port : Int

def sleep4Attendance : AttendProg Unit := do
  let utc ← ask .now
  let (target, sub) := calDuration4Attendance utc
  ask (.logAttendance utc target sub)
  sleep sub

def sleep4Distribution : AttendProg Unit := do
  let ip : OutboundIP ← ask .getOutboundIP
  let d := calDuration4Distribution ip.bytes
  ask (.logDistribution d)
  if d ≤ 0 then return () else sleep d

def attendWithType (c : RunConfig) (typ : Attended) : AttendProg (String × Bool) := do
  let timestamp : String ← ask .timestamp
  let ip : OutboundIP ← ask .getOutboundIP
  let parameters := s!"de={ip.text}&ts={timestamp}"
  let endpoint := s!"{c.server}/yc-attendance?type={typ.typ}&{parameters}"
  let endpoint := if c.m3 then endpoint ++ "&m3=true" else endpoint
  ask (.getData typ endpoint)

def attend (c : RunConfig) : AttendProg (String × Bool) := do
  sleep4Attendance
  sleep4Distribution
  attendWithType c .daily

def startupAttend (c : RunConfig) : AttendProg (String × Bool) := attendWithType c .startup

def completed (task : String) (ok : Bool) (msg : String) : String :=
  s!"{task}\nIs completed: {ok}\nResp: {msg}\n\n--------------------------------\n"

def startupLogs (c : RunConfig) : AttendProg Unit := do
  ask (.log "yc-360 script starting...")
  let (msg, ok) ← startupAttend c
  ask (.log (completed "startup attendance task" ok msg))

def dailyAttendance (c : RunConfig) : AttendProg Unit := do
  let (msg, ok) ← attend c
  ask (.log (completed "daily attendance task" ok msg))

/-- The first rounds of the loop that keeps the agent running. -/
def dailyAttendances (c : RunConfig) : Nat → AttendProg Unit
  | 0 => return ()
  | n + 1 => do
    dailyAttendance c
    dailyAttendances c n

inductive RunError where
  | nothingCanBeDone
  | conflictingMode
  deriving DecidableEq, Repr

/-- `Run`, up to `rounds` rounds of its loop; `none` if it is still running then. -/
def run (c : RunConfig) (rounds : Nat) : AttendProg (Option (Except RunError Unit)) := do
  startupLogs c
  let onDemandMode := c.pid ≠ ""
  let apiMode := 0 < c.port
  if ¬onDemandMode ∧ ¬apiMode ∧ ¬c.m3 then
    ask (.log ("M3 mode is not enabled. API mode is not enabled. The yc-360 script is about to " ++
      "run OnDemand mode but no PID is specified."))
    return some (.error .nothingCanBeDone)
  else if onDemandMode ∧ c.m3 then
    ask (.log "OnDemand and M3 mode can not run together.")
    return some (.error .conflictingMode)
  else
    if apiMode then ask .goAPIMode else pure ()
    if onDemandMode then
      ask .runOnDemandMode
      return some (.ok ())
    else
      if c.m3 then ask .goM3Mode else pure ()
      dailyAttendances c rounds
      return none

structure Clock where
  now : Int
  attended : List (Attended × Int)

/-- An operation takes the time `d` and a delay of those that `late` allows. -/
def Passed (late : Int → Prop) (w : Clock) (d : Int) (w' : Clock) : Prop :=
  ∃ delay, 0 ≤ delay ∧ late delay ∧ w'.now = w.now + d + delay

/-- What the operations answer, and how long they take. The clock is read when
`time.Now` is called; a request is made when `GetData` is called. -/
def Perform (late : Int → Prop) : (op : AttendOp) → Clock → op.Reply → Clock → Prop
  | .now, w, r, w' => r = w.now ∧ Passed late w 0 w' ∧ w'.attended = w.attended
  | .sleep d, w, _, w' => Passed late w d w' ∧ w'.attended = w.attended
  | .getData typ _, w, _, w' => Passed late w 0 w' ∧ w'.attended = w.attended ++ [(typ, w.now)]
  | _, w, _, w' => Passed late w 0 w' ∧ w'.attended = w.attended

/-- The number of the day a time is in. -/
def dayOf (t : Int) : Int := t / day

/-- The midnight after `t`. -/
def midnightAfter (t : Int) : Int := (dayOf t + 1) * day

theorem target_eq (t : Int) : addDays (truncate t day) 1 = midnightAfter t := by
  simp only [addDays, truncate, midnightAfter, dayOf]
  have hdiv := Int.mul_ediv_add_emod t day
  rw [Int.add_mul, Int.mul_comm (t / day) day]
  omega

theorem distribution_bounds (ip : Bytes) :
    0 ≤ calDuration4Distribution ip ∧ calDuration4Distribution ip ≤ 9 * minute := by
  have hlt : (ip.foldl (· + ·) 0 % 10 : UInt8).toNat < 10 := by
    rw [UInt8.toNat_mod]
    exact Nat.mod_lt _ (by decide)
  simp only [calDuration4Distribution, minute, second]
  omega

def Prompt (late : Int → Prop) (δ : Int) : Prop := 0 ≤ δ ∧ ∀ delay, late delay → delay ≤ δ

/-- Between two times, `k` operations take from `lo` to `hi` and what they are late. -/
structure Passes (late : Int → Prop) (k : Nat) (lo hi t t' : Int) : Prop where
  later : t + lo ≤ t'
  soon : ∀ δ, Prompt late δ → t' ≤ t + hi + k * δ

section Attend

variable {late : Int → Prop} {w : Clock}

theorem Passed.passes {d : Int} {w' : Clock} (h : Passed late w d w') :
    Passes late 1 d d w.now w'.now := by
  obtain ⟨delay, hpos, hlate, hnow⟩ := h
  refine ⟨by omega, fun δ hδ => ?_⟩
  have hle := hδ.2 delay hlate
  omega

theorem Passes.trans {k k' : Nat} {lo hi lo' hi' t t₁ t₂ : Int} (h : Passes late k lo hi t t₁)
    (h' : Passes late k' lo' hi' t₁ t₂) : Passes late (k + k') (lo + lo') (hi + hi') t t₂ := by
  refine ⟨?_, fun δ hδ => ?_⟩
  · have hfirst := h.later
    have hsecond := h'.later
    omega
  · have hfirst := h.soon δ hδ
    have hsecond := h'.soon δ hδ
    rw [Nat.cast_add, Int.add_mul]
    omega

theorem sleep4Attendance_meets :
    sleep4Attendance.Meets (Perform late) w fun _ w' => w'.attended = w.attended ∧
      Passes late 3 (midnightAfter w.now - w.now) (midnightAfter w.now - w.now) w.now w'.now := by
  rintro utc w₁ ⟨rfl, h₁, ha₁⟩
  rintro ⟨⟩ w₂ ⟨h₂, ha₂⟩
  rintro ⟨⟩ w₃ ⟨h₃, ha₃⟩
  refine ⟨by rw [ha₃, ha₂, ha₁], ?_⟩
  have h := (h₁.passes.trans h₂.passes).trans h₃.passes
  simpa [target_eq] using h

theorem sleep_if_meets (d : Int) (hpos : 0 ≤ d) :
    (if d ≤ 0 then pure () else sleep d : AttendProg Unit).Meets (Perform late) w fun _ w' =>
      w'.attended = w.attended ∧ Passes late 1 0 d w.now w'.now := by
  by_cases hzero : d ≤ 0
  · rw [if_pos hzero]
    refine ⟨rfl, by omega, fun δ hδ => ?_⟩
    have hδpos := hδ.1
    omega
  · rw [if_neg hzero]
    rintro ⟨⟩ w₁ ⟨h, ha⟩
    refine ⟨ha, ?_, h.passes.soon⟩
    have hlater := h.passes.later
    omega

theorem sleep4Distribution_meets :
    sleep4Distribution.Meets (Perform late) w fun _ w' => w'.attended = w.attended ∧
      Passes late 3 0 (9 * minute) w.now w'.now := by
  rw [sleep4Distribution, Prog.meets_bind]
  rintro ip w₁ ⟨h₁, ha₁⟩
  obtain ⟨hpos, hle⟩ := distribution_bounds (ip : OutboundIP).bytes
  rw [Prog.meets_done, Prog.meets_bind]
  rintro _ w₂ ⟨h₂, ha₂⟩
  rw [Prog.meets_done]
  apply (sleep_if_meets _ hpos).mono
  rintro _ w₃ ⟨ha₃, h₃⟩
  have h := (h₁.passes.trans h₂.passes).trans h₃
  refine ⟨by rw [ha₃, ha₂, ha₁], h.later, fun δ hδ => ?_⟩
  have hsoon := h.soon δ hδ
  omega

theorem attendWithType_meets (c : RunConfig) (typ : Attended) :
    (attendWithType c typ).Meets (Perform late) w fun _ w' => ∃ t,
      w'.attended = w.attended ++ [(typ, t)] ∧ Passes late 2 0 0 w.now t ∧
        Passes late 1 0 0 t w'.now := by
  rintro timestamp w₁ ⟨h₁, ha₁⟩
  rintro ip w₂ ⟨h₂, ha₂⟩
  rintro reply w₃ ⟨h₃, ha₃⟩
  exact ⟨w₂.now, by rw [ha₃, ha₂, ha₁], h₁.passes.trans h₂.passes, h₃.passes⟩

theorem dailyAttendance_meets (c : RunConfig) :
    (dailyAttendance c).Meets (Perform late) w fun _ w' => ∃ t,
      w'.attended = w.attended ++ [(.daily, t)] ∧ midnightAfter w.now ≤ t ∧ t ≤ w'.now ∧
        ∀ δ, Prompt late δ → w'.now ≤ midnightAfter w.now + 9 * minute + 10 * δ := by
  rw [dailyAttendance, attend, Prog.meets_bind, Prog.meets_bind]
  apply sleep4Attendance_meets.mono
  rintro _ w₁ ⟨ha₁, h₁⟩
  rw [Prog.meets_bind]
  apply sleep4Distribution_meets.mono
  rintro _ w₂ ⟨ha₂, h₂⟩
  apply (attendWithType_meets c .daily).mono
  rintro reply w₃ ⟨t, ha₃, h₃, h₃'⟩
  rintro ⟨⟩ w₄ ⟨h₄, ha₄⟩
  have hto := (h₁.trans h₂).trans h₃
  have hfrom := h₃'.trans h₄.passes
  have hlater := hto.later
  have hafter := hfrom.later
  refine ⟨t, by rw [ha₄, ha₃, ha₂, ha₁], by omega, by omega, fun δ hδ => ?_⟩
  have hsoon := (hto.trans hfrom).soon δ hδ
  push_cast at hsoon
  omega

end Attend

theorem day_pos : 0 < day := by decide

theorem dayOf_lt {t u : Int} (h : midnightAfter t ≤ u) : dayOf t < dayOf u := by
  rw [← Int.add_one_le_iff, dayOf, dayOf, Int.le_ediv_iff_mul_le day_pos]
  exact h

theorem dayOf_mono {t u : Int} (h : t ≤ u) : dayOf t ≤ dayOf u := Int.ediv_le_ediv day_pos h

theorem dayOf_eq {t u : Int} (h : midnightAfter t ≤ u) (hu : u < midnightAfter t + day) :
    dayOf u = dayOf t + 1 := by
  have hlt := dayOf_lt h
  have hle : dayOf u < dayOf t + 2 := by
    rw [dayOf, Int.ediv_lt_iff_lt_mul day_pos]
    simp only [midnightAfter] at hu
    rw [Int.add_mul] at hu ⊢
    omega
  omega

theorem dailyAttendances_meets {late : Int → Prop} (c : RunConfig) (n : Nat) {w : Clock} :
    (dailyAttendances c n).Meets (Perform late) w fun _ w' => ∃ times : List Int,
      w'.attended = w.attended ++ times.map (Prod.mk .daily) ∧ times.length = n ∧
        (dayOf w.now :: times.map dayOf).Pairwise (· < ·) := by
  induction n generalizing w with
  | zero => exact ⟨[], by simp, rfl, by simp⟩
  | succ n ih =>
    rw [dailyAttendances, Prog.meets_bind]
    apply (dailyAttendance_meets c).mono
    rintro _ w₁ ⟨t, ha₁, hafter, hto, -⟩
    apply ih.mono
    rintro _ w₂ ⟨times, ha₂, hlength, hdays⟩
    refine ⟨t :: times, by simp [ha₂, ha₁], by simp [hlength], ?_⟩
    have hfirst := dayOf_lt hafter
    have hnow := dayOf_mono hto
    rw [List.pairwise_cons] at hdays
    simp only [List.map_cons, List.pairwise_cons, List.mem_cons, forall_eq_or_imp]
    refine ⟨⟨hfirst, fun d hd => ?_⟩, fun d hd => ?_, hdays.2⟩
    · have := hdays.1 d hd
      omega
    · have := hdays.1 d hd
      omega

/-- On a prompt host the rounds attend on every day, soon after midnight. -/
theorem dailyAttendances_prompt {late : Int → Prop} {δ : Int} (hprompt : Prompt late δ)
    (hδ : 9 * minute + 10 * δ < day) (c : RunConfig) (n : Nat) {w : Clock} :
    (dailyAttendances c n).Meets (Perform late) w fun _ w' => ∃ times : List Int,
      w'.attended = w.attended ++ times.map (Prod.mk .daily) ∧
        times.map dayOf = (List.range n).map (fun i : Nat => dayOf w.now + 1 + (i : Int)) ∧
        ∀ t ∈ times, t ≤ dayOf t * day + 9 * minute + 10 * δ := by
  induction n generalizing w with
  | zero => exact ⟨[], by simp, rfl, by simp⟩
  | succ n ih =>
    rw [dailyAttendances, Prog.meets_bind]
    apply (dailyAttendance_meets c).mono
    rintro _ w₁ ⟨t, ha₁, hafter, hto, hdelay⟩
    have hsoon := hdelay δ hprompt
    have hday : dayOf t = dayOf w.now + 1 := dayOf_eq hafter (by omega)
    have hnow : dayOf w₁.now = dayOf w.now + 1 := dayOf_eq (by omega) (by omega)
    apply ih.mono
    rintro _ w₂ ⟨times, ha₂, hdays, htimes⟩
    refine ⟨t :: times, by simp [ha₂, ha₁], ?_, ?_⟩
    · rw [List.map_cons, hdays, List.range_succ_eq_map, List.map_cons, List.map_map, hday, hnow]
      congr 1
      · simp
      · apply List.map_congr_left
        intro i _
        simp only [Function.comp_apply]
        push_cast
        omega
    · simp only [List.mem_cons, forall_eq_or_imp]
      refine ⟨?_, htimes⟩
      rw [hday]
      simp only [midnightAfter] at hsoon
      omega

section Run

variable {late : Int → Prop} {w : Clock}

/-- `k` operations after an attendance at `t`. -/
structure Since (late : Int → Prop) (t : Int) (before : List (Attended × Int)) (k : Nat)
    (w : Clock) :
    Prop where
  attended : w.attended = before ++ [(.startup, t)]
  passes : Passes late k 0 0 t w.now

theorem Since.passed {t : Int} {before : List (Attended × Int)} {k : Nat} {w' : Clock}
    (h : Since late t before k w) (hpassed : Passed late w 0 w') (ha : w'.attended = w.attended) :
    Since late t before (k + 1) w' :=
  ⟨ha.trans h.attended, h.passes.trans hpassed.passes⟩

theorem startupLogs_meets (c : RunConfig) :
    (startupLogs c).Meets (Perform late) w fun _ w' => ∃ t, Since late t w.attended 2 w' := by
  rw [startupLogs, Prog.meets_bind]
  rintro ⟨⟩ w₁ ⟨-, ha₁⟩
  rw [Prog.meets_done, startupAttend, Prog.meets_bind]
  apply (attendWithType_meets c .startup).mono
  rintro reply w₂ ⟨t, ha₂, -, h₂⟩
  rintro ⟨⟩ w₃ ⟨h₃, ha₃⟩
  exact ⟨t, by rw [ha₃, ha₂, ha₁], h₂.trans h₃.passes⟩

/-- The run attended and then either returned or entered its loop at `w₁`, with `Q`
of what the loop did. -/
def Ran (late : Int → Prop) (before : List (Attended × Int)) (Q : Clock → Clock → Prop)
    (out : Option (Except RunError Unit)) (w' : Clock) : Prop :=
  ∃ t k w₁, k ≤ 4 ∧ Since late t before k w₁ ∧ (out ≠ none → w'.attended = w₁.attended) ∧
    (out = none → Q w₁ w')

theorem run_meets (c : RunConfig) (rounds : Nat) {Q : Clock → Clock → Prop}
    (hloop : ∀ w, (dailyAttendances c rounds).Meets (Perform late) w fun _ w' => Q w w') :
    (run c rounds).Meets (Perform late) w (Ran late w.attended Q) := by
  unfold run
  rw [Prog.meets_bind]
  apply (startupLogs_meets c).mono
  rintro _ w₁ ⟨t, hsince⟩
  extract_lets onDemandMode apiMode loop afterAPI
  have hreturns (error : RunError) (text : String) :
      (ask (.log text) >>= fun _ => pure (some (.error error)) :
        AttendProg (Option (Except RunError Unit))).Meets (Perform late) w₁
          (Ran late w.attended Q) := by
    rintro ⟨⟩ w₂ ⟨-, ha₂⟩
    exact ⟨t, 2, w₁, by omega, hsince, fun _ => ha₂, nofun⟩
  have hlooping (k : Nat) (w₂ : Clock) (hk : k ≤ 4) (h : Since late t w.attended k w₂) :
      (loop ()).Meets (Perform late) w₂ (Ran late w.attended Q) := by
    dsimp -zeta only [loop]
    rw [Prog.meets_bind]
    apply (hloop w₂).mono
    intro _ w₃ hQ
    exact ⟨t, k, w₂, hk, h, fun hne => absurd rfl hne, fun _ => hQ⟩
  have hafter (k : Nat) (w₂ : Clock) (hk : k ≤ 3) (h : Since late t w.attended k w₂) :
      (afterAPI ()).Meets (Perform late) w₂ (Ran late w.attended Q) := by
    dsimp -zeta only [afterAPI]
    split
    · rintro ⟨⟩ w₃ ⟨-, ha₃⟩
      exact ⟨t, k, w₂, by omega, h, fun _ => ha₃, nofun⟩
    · split
      · rintro ⟨⟩ w₃ ⟨hpassed, ha₃⟩
        exact hlooping (k + 1) w₃ (by omega) (h.passed hpassed ha₃)
      · exact hlooping k w₂ (by omega) h
  split
  · exact hreturns _ _
  · split
    · exact hreturns _ _
    · split
      · rintro ⟨⟩ w₂ ⟨hpassed, ha₂⟩
        exact hafter 3 w₂ (by omega) (hsince.passed hpassed ha₂)
      · exact hafter 2 w₁ (by omega) hsince

/-- A run attends once when it starts and at most once on each later day, however
long its operations take. -/
theorem run_attends_on_different_days (c : RunConfig) (rounds : Nat) (w : Clock) :
    (run c rounds).Meets (Perform fun _ => True) w fun out w' => ∃ (t : Int) (times : List Int),
      w'.attended = w.attended ++ (.startup, t) :: times.map (Prod.mk .daily) ∧
        times.length = (if out = none then rounds else 0) ∧
        ((t :: times).map dayOf).Pairwise (· < ·) := by
  apply (run_meets c rounds fun w => dailyAttendances_meets c rounds).mono
  rintro out w' ⟨t, k, w₁, -, hsince, hreturned, hlooped⟩
  by_cases hout : out = none
  · obtain ⟨times, ha, hlength, hdays⟩ := hlooped hout
    refine ⟨t, times, by simp [ha, hsince.attended], by simp [hlength, hout], ?_⟩
    have hlater : t ≤ w₁.now := by simpa using hsince.passes.later
    have hstart := dayOf_mono hlater
    rw [List.pairwise_cons] at hdays
    rw [List.map_cons, List.pairwise_cons]
    exact ⟨fun d hd => by have := hdays.1 d hd; omega, hdays.2⟩
  · exact ⟨t, [], by simp [hreturned hout, hsince.attended], by simp [hout], by simp⟩

/-- After the attendance at the start there is one on every day, from the next day or
the one after it on, within nine minutes and ten times `δ` of midnight. -/
def AttendsDaily (δ : Int) (rounds : Nat) (w w' : Clock) : Prop :=
  ∃ (t first : Int) (times : List Int),
    w'.attended = w.attended ++ (.startup, t) :: times.map (Prod.mk .daily) ∧
      dayOf t < first ∧ first ≤ dayOf t + 2 ∧
      times.map dayOf = (List.range rounds).map (fun i : Nat => first + (i : Int)) ∧
      ∀ t ∈ times, t ≤ dayOf t * day + 9 * minute + 10 * δ

/-- If no operation is late by more than `δ`, a run that stays in its loop attends
daily. -/
theorem run_attends_every_day {δ : Int} (hpos : 0 ≤ δ) (hδ : 9 * minute + 10 * δ < day)
    (c : RunConfig) (rounds : Nat) (w : Clock) :
    (run c rounds).Meets (Perform (· ≤ δ)) w fun out w' =>
      out = none → AttendsDaily δ rounds w w' := by
  have hprompt : Prompt (· ≤ δ) δ := ⟨hpos, fun _ h => h⟩
  apply (run_meets c rounds fun w => dailyAttendances_prompt hprompt hδ c rounds).mono
  rintro out w' ⟨t, k, w₁, hk, hsince, -, hlooped⟩ hout
  obtain ⟨times, ha, hdays, htimes⟩ := hlooped hout
  have hlater : t ≤ w₁.now := by simpa using hsince.passes.later
  refine ⟨t, dayOf w₁.now + 1, times, by simp [ha, hsince.attended], ?_, ?_, hdays, htimes⟩
  · have := dayOf_mono hlater
    omega
  · have hsoon : w₁.now < t + day := by
      have hbound := hsince.passes.soon δ hprompt
      have hday : (0 : Int) < day := day_pos
      have hminute : (0 : Int) < minute := by decide
      interval_cases k <;> omega
    have hday : dayOf w₁.now < dayOf t + 2 := by
      have hmidnight : t < midnightAfter t := Int.lt_ediv_add_one_mul_self t day_pos
      simp only [midnightAfter] at hmidnight
      rw [dayOf, Int.ediv_lt_iff_lt_mul day_pos]
      rw [Int.add_mul] at hmidnight ⊢
      omega
    omega

theorem run_attends_every_day_m3 : 9 * minute + 10 * minute < day ∧
    (run ⟨"https://yc.example", "", true, 0⟩ 3).Meets (Perform (· ≤ minute)) ⟨0, []⟩ fun out w' =>
      out = none → AttendsDaily minute 3 ⟨0, []⟩ w' :=
  ⟨by decide, run_attends_every_day (by decide) (by decide) _ 3 ⟨0, []⟩⟩

end Run

end YcAgent.Agent.Attendance
