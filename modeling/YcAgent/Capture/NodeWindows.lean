import Mathlib.Data.Rat.Floor
import YcAgent.Capture.Host
import YcAgent.Lib.Float64

/-!
The windows of the Node.js captures. They are derived from durations of the
configuration, which may be anything, and are checked again by the calls of the
hook they are passed to. A duration is an integer of nanoseconds;
`Duration.Seconds` goes through floating point numbers.
-/

namespace YcAgent.Capture

open Go Lib.Float64

def second : Int := 1000000000

def millisecond : Int := 1000000

def truncate (x : ℚ) : Int := if 0 ≤ x then ⌊x⌋ else ⌈x⌉

/-- `int(d.Seconds())`. Whole seconds and nanoseconds are converted exactly; the
quotient and the sum are rounded. -/
def durationSeconds (r : Rounding) (d : Int) : Int :=
  truncate (r.round (d.tdiv second + r.round (d.tmod second / second)))

def nodeMaxDumpGCMs : Int := 60000
def nodeMinWindowSeconds : Int := 1
def nodeMaxWindowSeconds : Int := 300
def nodeMinCPUProfileSeconds : Int := nodeMinWindowSeconds
def nodeMaxCPUProfileSeconds : Int := nodeMaxWindowSeconds
def nodeAsyncMargin : Int := 20 * second

structure NodeDurations where
  nodejsDiagnosticWindow : Int
  nodejsCPUProfileDuration : Int
  nodejsGCCaptureDuration : Int
  deriving DecidableEq, Repr

/-- A window below the least one is replaced by a default, one above the greatest
is cut. -/
def windowWithin (least greatest default window : Int) : Int :=
  let window := if window < least then default else window
  if window > greatest then greatest else window

namespace NodeDurations

variable (r : Rounding) (cfg : NodeDurations)

def nodeCPUProfileWindowSeconds : Int :=
  windowWithin nodeMinCPUProfileSeconds nodeMaxCPUProfileSeconds 30
    (durationSeconds r cfg.nodejsCPUProfileDuration)

def nodeDiagnosticWindowSeconds : Int :=
  windowWithin nodeMinWindowSeconds nodeMaxWindowSeconds 30
    (durationSeconds r cfg.nodejsDiagnosticWindow)

def dumpGCMs : Int :=
  windowWithin 1 nodeMaxDumpGCMs 30000 (cfg.nodejsGCCaptureDuration.tdiv millisecond)

end NodeDurations

def nodeHandleGrowthIntervalSeconds (window : Int) : Int :=
  if 5 ≥ window then max (window.tdiv 2) 1 else 5

/-- A call that has passed the checks: its method, its numbers and how long an
answer is waited for. -/
structure WindowCall where
  method : String
  outPath : Option Path
  params : List (String × Int)
  timeout : Int
  deriving DecidableEq

def validateNodeWindow (rpc : String) (windowSeconds : Int) : Except IOError Unit :=
  if windowSeconds < nodeMinWindowSeconds ∨ windowSeconds > nodeMaxWindowSeconds then
    .error (rpc ++ " windowSeconds must be between " ++ toString nodeMinWindowSeconds ++ " and " ++
      toString nodeMaxWindowSeconds ++ ", got " ++ toString windowSeconds)
  else .ok ()

/-- The calls that have a window and nothing else to check. -/
def windowed (rpc : String) (outPath : Path) (windowSeconds : Int) : Except IOError WindowCall := do
  validateNodeWindow rpc windowSeconds
  return ⟨rpc, some outPath, [("windowSeconds", windowSeconds)],
    windowSeconds * second + nodeAsyncMargin⟩

def dumpEventLoopLag : Path → Int → Except IOError WindowCall := windowed "dumpEventLoopLag"

def dumpUnhandledRejections : Path → Int → Except IOError WindowCall :=
  windowed "dumpUnhandledRejections"

def dumpGCStats : Path → Int → Except IOError WindowCall := windowed "dumpGCStats"

def dumpHandleGrowth (outPath : Path) (windowSeconds intervalSeconds : Int) :
    Except IOError WindowCall := do
  validateNodeWindow "dumpHandleGrowth" windowSeconds
  if intervalSeconds < 1 then
    throw ("dumpHandleGrowth intervalSeconds must be >= 1, got " ++ toString intervalSeconds)
  if intervalSeconds ≥ windowSeconds then
    throw ("dumpHandleGrowth intervalSeconds (" ++ toString intervalSeconds ++
      ") must be smaller than windowSeconds (" ++ toString windowSeconds ++ ")")
  return ⟨"dumpHandleGrowth", some outPath,
    [("windowSeconds", windowSeconds), ("intervalSeconds", intervalSeconds)],
    windowSeconds * second + nodeAsyncMargin⟩

def dumpGC (durationMs : Int) : Except IOError WindowCall :=
  if durationMs ≤ 0 ∨ durationMs > nodeMaxDumpGCMs then
    .error ("dumpGC durationMs must be between 1 and " ++ toString nodeMaxDumpGCMs ++ ", got " ++
      toString durationMs)
  else .ok
    ⟨"dumpGC", none, [("durationMs", durationMs)], durationMs * millisecond + nodeAsyncMargin⟩

/-- The bounds have names of their own, and the text is the same. -/
def dumpCPUProfile (outPath : Path) (windowSeconds : Int) : Except IOError WindowCall :=
  if windowSeconds < nodeMinCPUProfileSeconds ∨ windowSeconds > nodeMaxCPUProfileSeconds then
    .error ("dumpCPUProfile windowSeconds must be between " ++ toString nodeMinCPUProfileSeconds ++
      " and " ++ toString nodeMaxCPUProfileSeconds ++ ", got " ++ toString windowSeconds)
  else .ok ⟨"dumpCPUProfile", some outPath, [("windowSeconds", windowSeconds)],
    windowSeconds * second + nodeAsyncMargin⟩

/-- The calls that the captures make, with what they derive from the
configuration. -/
def NodeDurations.calls (r : Rounding) (cfg : NodeDurations) (outPath : Path) :
    List (Except IOError WindowCall) :=
  let window := cfg.nodeDiagnosticWindowSeconds r
  [dumpEventLoopLag outPath window,
    dumpUnhandledRejections outPath window,
    dumpHandleGrowth outPath window (nodeHandleGrowthIntervalSeconds window),
    dumpGCStats outPath window,
    dumpGC cfg.dumpGCMs,
    dumpCPUProfile outPath (cfg.nodeCPUProfileWindowSeconds r)]

/-- The value passes the check of the call it was passed to, and a request is made. -/
def Accepted (call : Except IOError WindowCall) : Prop := ∃ c, call = .ok c

theorem windowWithin_bounds {least greatest default window : Int} (hdefault : least ≤ default)
    (hle : least ≤ greatest) : least ≤ windowWithin least greatest default window ∧
      windowWithin least greatest default window ≤ greatest := by
  simp only [windowWithin]
  split <;> split <;> omega

theorem windowed_accepted {rpc : String} {outPath : Path} {window : Int} (hleast : 1 ≤ window)
    (hgreatest : window ≤ 300) : Accepted (windowed rpc outPath window) := by
  have hvalid : validateNodeWindow rpc window = .ok () := by
    apply if_neg
    unfold nodeMinWindowSeconds nodeMaxWindowSeconds
    omega
  unfold windowed
  rw [hvalid]
  exact ⟨_, rfl⟩

theorem dumpHandleGrowth_accepted_iff {outPath : Path} {window interval : Int}
    (hleast : 1 ≤ window) (hgreatest : window ≤ 300) :
    Accepted (dumpHandleGrowth outPath window interval) ↔ 1 ≤ interval ∧ interval < window := by
  have hvalid : validateNodeWindow "dumpHandleGrowth" window = .ok () := by
    apply if_neg
    unfold nodeMinWindowSeconds nodeMaxWindowSeconds
    omega
  unfold dumpHandleGrowth
  rw [hvalid]
  constructor
  · rintro ⟨c, hc⟩
    by_contra hbad
    by_cases hone : interval < 1
    · rw [if_pos hone] at hc
      cases hc
    · have hless : interval ≥ window := by omega
      rw [if_neg hone, if_pos hless] at hc
      cases hc
  · rintro ⟨hone, hless⟩
    have hone' : ¬interval < 1 := by omega
    have hless' : ¬interval ≥ window := by omega
    rw [if_neg hone', if_neg hless']
    exact ⟨_, rfl⟩

theorem dumpGC_accepted {durationMs : Int} (hleast : 1 ≤ durationMs)
    (hgreatest : durationMs ≤ 60000) : Accepted (dumpGC durationMs) := by
  apply Exists.intro
  apply if_neg
  unfold nodeMaxDumpGCMs
  omega

theorem dumpCPUProfile_accepted {outPath : Path} {window : Int} (hleast : 1 ≤ window)
    (hgreatest : window ≤ 300) : Accepted (dumpCPUProfile outPath window) := by
  apply Exists.intro
  apply if_neg
  unfold nodeMinCPUProfileSeconds nodeMaxCPUProfileSeconds nodeMinWindowSeconds nodeMaxWindowSeconds
  omega

theorem interval_lt_iff {window : Int} (hleast : 1 ≤ window) :
    1 ≤ nodeHandleGrowthIntervalSeconds window ∧ nodeHandleGrowthIntervalSeconds window < window ↔
      window ≠ 1 := by
  have hhalf : window.tdiv 2 = window / 2 := Int.tdiv_eq_ediv_of_nonneg (by omega)
  unfold nodeHandleGrowthIntervalSeconds
  rw [hhalf]
  split <;> omega

private theorem representable_int {n : Int} (hn : |n| < 2 ^ 53) : Representable n :=
  ⟨n, 0, hn, by norm_num, by norm_num, by simp⟩

private theorem representable_below_two : Representable (2 - 1 / 2 ^ 30) :=
  ⟨2 ^ 31 - 1, -30, by norm_num, by norm_num, by norm_num, by norm_num⟩

private theorem representable_below_one : Representable (1 - 1 / 2 ^ 30) :=
  ⟨2 ^ 30 - 1, -30, by norm_num, by norm_num, by norm_num, by norm_num⟩

theorem truncate_eq_one_iff {x : ℚ} : truncate x = 1 ↔ 1 ≤ x ∧ x < 2 := by
  unfold truncate
  split
  case isTrue hnonneg =>
    rw [Int.floor_eq_iff]
    norm_num
  case isFalse hneg =>
    have hceil : ⌈x⌉ ≤ 0 := Int.ceil_le.2 (by push_cast; linarith)
    constructor
    · intro h
      omega
    · intro h
      linarith

theorem duration_parts_of_nonneg {d : Int} (hd : 0 ≤ d) :
    d.tdiv second = d / second ∧ d.tmod second = d % second :=
  ⟨Int.tdiv_eq_ediv_of_nonneg hd, Int.tmod_eq_emod_of_nonneg hd⟩

theorem duration_parts_of_lt {d : Int} (hd : d < second) :
    d.tdiv second ≤ 0 ∧ d.tmod second ≤ second - 1 := by
  unfold second at *
  by_cases hneg : d < 0
  · obtain ⟨e, rfl⟩ : ∃ e, d = -e := ⟨-d, by omega⟩
    rw [Int.neg_tdiv, Int.neg_tmod, Int.tdiv_eq_ediv_of_nonneg (by omega),
      Int.tmod_eq_emod_of_nonneg (by omega)]
    omega
  · rw [Int.tdiv_eq_ediv_of_nonneg (by omega), Int.tmod_eq_emod_of_nonneg (by omega)]
    omega

/-- The rounding errors are too small to matter for windows as short as that. -/
theorem durationSeconds_eq_one_iff (r : Rounding) (d : Int) :
    durationSeconds r d = 1 ↔ second ≤ d ∧ d < 2 * second := by
  have hsecond : (second : ℚ) = 1000000000 := by norm_num [second]
  have hzero : Representable 0 := representable_zero
  have htwo : Representable 2 := by exact_mod_cast representable_int (n := 2) (by norm_num)
  have hone : Representable 1 := by exact_mod_cast representable_int (n := 1) (by norm_num)
  unfold durationSeconds
  rw [truncate_eq_one_iff, hsecond]
  rcases lt_or_ge d second with hlt | hge
  · obtain ⟨hwhole, hrest⟩ := duration_parts_of_lt hlt
    have hwhole' : (d.tdiv second : ℚ) ≤ 0 := by exact_mod_cast hwhole
    have hrest' : (d.tmod second : ℚ) ≤ 999999999 := by exact_mod_cast hrest
    have hquotient :=
      r.round_le (x := d.tmod second / 1000000000) representable_below_one (by linarith)
    have hsum := r.round_le (x := d.tdiv second + r.round (d.tmod second / 1000000000))
      representable_below_one (by linarith)
    constructor
    · rintro ⟨h, _⟩
      linarith
    · intro h
      omega
  obtain ⟨hwhole, hrest⟩ := duration_parts_of_nonneg (d := d) (by unfold second at hge; omega)
  rw [hwhole, hrest]
  have hrest₀ : 0 ≤ d % second ∧ d % second ≤ 999999999 := by
    unfold second
    omega
  have hnonneg : (0 : ℚ) ≤ (d % second : Int) := by exact_mod_cast hrest₀.1
  have hbelow : ((d % second : Int) : ℚ) ≤ 999999999 := by exact_mod_cast hrest₀.2
  have hquotient := r.le_round (x := (d % second : Int) / 1000000000) hzero (by positivity)
  rcases lt_or_ge d (2 * second) with hlt | hlarge
  · have hone' : d / second = 1 := by
      unfold second at *
      omega
    have hquotient' := r.round_le (x := (d % second : Int) / 1000000000) representable_below_one
      (by linarith)
    rw [hone']
    have hlow := r.le_round (x := (1 : Int) + r.round ((d % second : Int) / 1000000000)) hone
      (by push_cast; linarith)
    have hhigh := r.round_le (x := (1 : Int) + r.round ((d % second : Int) / 1000000000))
      representable_below_two (by push_cast; linarith)
    exact iff_of_true ⟨hlow, by linarith⟩ ⟨hge, hlt⟩
  · have hwhole' : 2 ≤ d / second := by
      unfold second at *
      omega
    have hwhole'' : (2 : ℚ) ≤ (d / second : Int) := by exact_mod_cast hwhole'
    have hlow := r.le_round
      (x := (d / second : Int) + r.round ((d % second : Int) / 1000000000)) htwo (by linarith)
    constructor
    · rintro ⟨_, h⟩
      linarith
    · intro h
      omega

theorem window_eq_one_iff (r : Rounding) (cfg : NodeDurations) :
    cfg.nodeDiagnosticWindowSeconds r = 1 ↔
      second ≤ cfg.nodejsDiagnosticWindow ∧ cfg.nodejsDiagnosticWindow < 2 * second := by
  rw [← durationSeconds_eq_one_iff r]
  simp only [NodeDurations.nodeDiagnosticWindowSeconds, windowWithin, nodeMinWindowSeconds,
    nodeMaxWindowSeconds]
  split_ifs <;> omega

/-- All values that the captures derive from the configured durations pass the
checks of the calls they are passed to, if and only if the diagnostic window is
not at least one second and less than two. -/
theorem calls_accepted_iff (r : Rounding) (cfg : NodeDurations) (outPath : Path) :
    (∀ call ∈ cfg.calls r outPath, Accepted call) ↔
      ¬(second ≤ cfg.nodejsDiagnosticWindow ∧ cfg.nodejsDiagnosticWindow < 2 * second) := by
  obtain ⟨hleast, hgreatest⟩ : 1 ≤ cfg.nodeDiagnosticWindowSeconds r ∧
      cfg.nodeDiagnosticWindowSeconds r ≤ 300 := windowWithin_bounds (by decide) (by decide)
  obtain ⟨hcpu, hcpu'⟩ : 1 ≤ cfg.nodeCPUProfileWindowSeconds r ∧
      cfg.nodeCPUProfileWindowSeconds r ≤ 300 := windowWithin_bounds (by decide) (by decide)
  obtain ⟨hgc, hgc'⟩ : 1 ≤ cfg.dumpGCMs ∧ cfg.dumpGCMs ≤ 60000 :=
    windowWithin_bounds (by decide) (by decide)
  have hgrowth : Accepted (dumpHandleGrowth outPath (cfg.nodeDiagnosticWindowSeconds r)
      (nodeHandleGrowthIntervalSeconds (cfg.nodeDiagnosticWindowSeconds r))) ↔
      cfg.nodeDiagnosticWindowSeconds r ≠ 1 :=
    (dumpHandleGrowth_accepted_iff hleast hgreatest).trans (interval_lt_iff hleast)
  rw [← window_eq_one_iff r]
  constructor
  · intro hall
    apply hgrowth.1
    apply hall
    simp [NodeDurations.calls]
  · intro hne call hcall
    simp only [NodeDurations.calls, List.mem_cons, List.not_mem_nil, or_false] at hcall
    rcases hcall with rfl | rfl | rfl | rfl | rfl | rfl
    · exact windowed_accepted hleast hgreatest
    · exact windowed_accepted hleast hgreatest
    · exact hgrowth.2 hne
    · exact windowed_accepted hleast hgreatest
    · exact dumpGC_accepted hgc hgc'
    · exact dumpCPUProfile_accepted hcpu hcpu'

/-- With a diagnostic window of one second, the interval of the handle growth is
as long as the window. -/
theorem one_second_window_rejected : ∃ r : Rounding,
    let cfg : NodeDurations := ⟨second, 30 * second, 30 * second⟩
    let window := cfg.nodeDiagnosticWindowSeconds r
    window = 1 ∧ nodeHandleGrowthIntervalSeconds window = 1 ∧
      dumpHandleGrowth "handlegrowth.out" window (nodeHandleGrowthIntervalSeconds window) =
        .error "dumpHandleGrowth intervalSeconds (1) must be smaller than windowSeconds (1)" := by
  obtain ⟨r⟩ := nonempty_rounding
  have hwindow := (window_eq_one_iff r ⟨second, 30 * second, 30 * second⟩).2 (by decide)
  refine ⟨r, hwindow, ?_⟩
  rw [hwindow]
  exact ⟨rfl, rfl⟩

end YcAgent.Capture
