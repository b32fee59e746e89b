import Mathlib.Data.List.Induction
import Mathlib.Data.List.Nodup

/-!
The redirection of the log to files. The logger that was active is put on a stack
when a capture starts to write to its file, and the one on top of the stack is
made active again when a capture stops. Both hold a mutex, so that captures which
run at the same time take turns in them in some order.
-/

namespace YcAgent.Logger

/-- Files are told apart by their handles. -/
abbrev File := Nat

/-- A logger writes to the root writer and, unless it is the root logger, to one
file. -/
structure ZeroLogger where
  file : Option File
  deriving DecidableEq

/-- The last element of the source's slice is the head of the stack. -/
structure LogState where
  logger : ZeroLogger
  stack : List (ZeroLogger × File)
  closed : List File
  deriving DecidableEq

def startWritingToFile (created : Except String File) (st : LogState) :
    Except String File × LogState :=
  match created with
  | .error err => (.error err, st)
  | .ok f => (.ok f, { st with stack := (st.logger, f) :: st.stack, logger := ⟨some f⟩ })

/-- Without an element on the stack this is a panic. -/
def stopWritingToFile (closeErr : Option String) (st : LogState) :
    Option (Option String × LogState) :=
  match st.stack with
  | [] => none
  | (l, f) :: rest =>
    let err := if f ∈ st.closed then none else closeErr
    some (err, { logger := l, stack := rest, closed := f :: st.closed })

section Schedules

variable {C : Type}

/-- What a capture calls, with the answers of the file system. -/
inductive LogCall (C : Type) where
  | start (c : C) (created : Except String File)
  | stop (c : C) (closeErr : Option String)
  deriving DecidableEq

def LogState.perform (st : LogState) : LogCall C → Option LogState
  | .start _ created => some (startWritingToFile created st).2
  | .stop _ closeErr => (stopWritingToFile closeErr st).map Prod.snd

def LogState.performAll (st : LogState) (calls : List (LogCall C)) : Option LogState :=
  calls.foldlM LogState.perform st

theorem performAll_concat (st : LogState) (calls : List (LogCall C)) (call : LogCall C) :
    st.performAll (calls ++ [call]) = (st.performAll calls).bind fun st => st.perform call := by
  rw [LogState.performAll, List.foldlM_append]
  simp [LogState.performAll]

variable [DecidableEq C]

/-- The captures that have started to write to a file and have not stopped, with
their files, the last one first. -/
def openCaptures (calls : List (LogCall C)) : List (C × File) :=
  calls.foldl (fun opened call =>
    match call with
    | .start c (.ok f) => (c, f) :: opened
    | .start _ (.error _) => opened
    | .stop c _ => opened.filter fun entry => entry.1 ≠ c) []

/-- Every capture starts once, with a file of its own, and stops after that if its
file was created. -/
inductive Schedule : List (LogCall C) → Prop
  | nil : Schedule []
  | start {calls : List (LogCall C)} {c : C} {created : Except String File} : Schedule calls →
      (∀ other, .start c other ∉ calls) →
        (∀ f, created = .ok f → ∀ other, .start other (.ok f) ∉ calls) →
      Schedule (calls ++ [.start c created])
  | stop {calls : List (LogCall C)} {c : C} {f : File} {closeErr : Option String} : Schedule calls →
      (c, f) ∈ openCaptures calls → Schedule (calls ++ [.stop c closeErr])

def initialState (l : ZeroLogger) : LogState := ⟨l, [], []⟩

/-- Each stop closes the file opened by its own start. -/
def ClosesOwn (l : ZeroLogger) (calls : List (LogCall C)) : Prop :=
  ∀ past c closeErr, past ++ [.stop c closeErr] <+: calls → ∀ f, (c, f) ∈ openCaptures past →
    ∃ st, (initialState l).performAll past = some st ∧ st.stack.head?.map Prod.snd = some f

/-- Messages go to the file of a capture for as long as it has not stopped. -/
def KeepsWriting (l : ZeroLogger) (calls : List (LogCall C)) : Prop :=
  ∀ past, past <+: calls → ∀ c f, (c, f) ∈ openCaptures past →
    ∃ st, (initialState l).performAll past = some st ∧ st.logger.file = some f ∧ f ∉ st.closed

/-- After all stops the active logger is the one from before the first start. -/
def Restores (l : ZeroLogger) (calls : List (LogCall C)) : Prop :=
  ∀ past, past <+: calls → openCaptures past = [] →
    ∃ st, (initialState l).performAll past = some st ∧ st.logger = l

/-- No capture starts while another one has not stopped. -/
def Serial (calls : List (LogCall C)) : Prop :=
  ∀ past c f, past ++ [.start c (.ok f)] <+: calls → openCaptures past = []

/-- A capture stops before those that started earlier. -/
def Nested (calls : List (LogCall C)) : Prop :=
  ∀ past c closeErr, past ++ [.stop c closeErr] <+: calls →
    ∃ f, (openCaptures past).head? = some (c, f)

theorem openCaptures_start (calls : List (LogCall C)) (c : C) (f : File) :
    openCaptures (calls ++ [.start c (.ok f)]) = (c, f) :: openCaptures calls := by
  simp [openCaptures]

theorem openCaptures_failed (calls : List (LogCall C)) (c : C) (err : String) :
    openCaptures (calls ++ [.start c (.error err)]) = openCaptures calls := by
  simp [openCaptures]

theorem openCaptures_stop (calls : List (LogCall C)) (c : C) (closeErr : Option String) :
    openCaptures (calls ++ [.stop c closeErr]) =
      (openCaptures calls).filter fun entry => entry.1 ≠ c := by
  simp [openCaptures]

theorem Schedule.of_concat {calls : List (LogCall C)} {call : LogCall C}
    (h : Schedule (calls ++ [call])) : Schedule calls := by
  generalize hall : calls ++ [call] = all at h
  cases h with
  | nil => simp at hall
  | start hcalls _ _ =>
    obtain ⟨rfl, _⟩ := List.append_inj' hall rfl
    exact hcalls
  | stop hcalls _ =>
    obtain ⟨rfl, _⟩ := List.append_inj' hall rfl
    exact hcalls

/-- A schedule can be followed up to any point. -/
theorem Schedule.of_isPrefix {calls past : List (LogCall C)} (h : Schedule calls)
    (hpast : past <+: calls) : Schedule past := by
  obtain ⟨rest, rfl⟩ := hpast
  induction rest using List.reverseRecOn with
  | nil => rwa [List.append_nil] at h
  | append_singleton rest call ih =>
    rw [← List.append_assoc] at h
    exact ih h.of_concat

/-- What has been opened was started, and captures and files do not repeat. -/
structure OpenSound (calls : List (LogCall C)) : Prop where
  started : ∀ c f, (c, f) ∈ openCaptures calls → .start c (.ok f) ∈ calls
  captures : ((openCaptures calls).map Prod.fst).Nodup
  files : ((openCaptures calls).map Prod.snd).Nodup

theorem Schedule.openSound {calls : List (LogCall C)} (h : Schedule calls) : OpenSound calls := by
  induction h with
  | nil => exact ⟨by simp [openCaptures], by simp [openCaptures], by simp [openCaptures]⟩
  | @start calls c created _ hfresh hfile ih =>
    cases created with
    | error err =>
      refine ⟨?_, ?_, ?_⟩
      · intro c' f hopen
        rw [openCaptures_failed] at hopen
        exact List.mem_append_left _ (ih.started c' f hopen)
      · rw [openCaptures_failed]
        exact ih.captures
      · rw [openCaptures_failed]
        exact ih.files
    | ok f =>
      refine ⟨?_, ?_, ?_⟩
      · intro c' f' hopen
        rw [openCaptures_start, List.mem_cons] at hopen
        rcases hopen with heq | hopen
        · cases heq
          simp
        · exact List.mem_append_left _ (ih.started c' f' hopen)
      · rw [openCaptures_start, List.map_cons, List.nodup_cons]
        refine ⟨fun hmem => ?_, ih.captures⟩
        obtain ⟨⟨c', f'⟩, hopen, rfl⟩ := List.mem_map.1 hmem
        exact hfresh _ (ih.started c' f' hopen)
      · rw [openCaptures_start, List.map_cons, List.nodup_cons]
        refine ⟨fun hmem => ?_, ih.files⟩
        obtain ⟨⟨c', f'⟩, hopen, rfl⟩ := List.mem_map.1 hmem
        exact hfile _ rfl _ (ih.started c' f' hopen)
  | @stop calls c f closeErr _ _ ih =>
    have hsub : (openCaptures (calls ++ [.stop c closeErr])).Sublist (openCaptures calls) := by
      rw [openCaptures_stop]
      exact List.filter_sublist
    refine ⟨?_, ih.captures.sublist (hsub.map _), ih.files.sublist (hsub.map _)⟩
    intro c' f' hopen
    exact List.mem_append_left _ (ih.started c' f' (hsub.subset hopen))

theorem filter_ne_self {opened : List (C × File)} {c : C} (h : c ∉ opened.map Prod.fst) :
    opened.filter (fun entry => entry.1 ≠ c) = opened := by
  rw [List.filter_eq_self]
  intro entry hentry
  have hne : entry.1 ≠ c := fun heq => h (heq ▸ List.mem_map_of_mem hentry)
  simpa using hne

theorem length_filter_ne {opened : List (C × File)} (h : (opened.map Prod.fst).Nodup) {c : C}
    {f : File} (hmem : (c, f) ∈ opened) :
    (opened.filter fun entry => entry.1 ≠ c).length + 1 = opened.length := by
  induction opened with
  | nil => cases hmem
  | cons entry rest ih =>
    rw [List.map_cons, List.nodup_cons] at h
    by_cases hentry : entry.1 = c
    · rw [List.filter_cons_of_neg (by simpa using hentry), filter_ne_self (hentry ▸ h.1),
        List.length_cons]
    · have hrest : (c, f) ∈ rest := by
        rcases List.mem_cons.1 hmem with heq | hrest
        · exact absurd (congrArg Prod.fst heq).symm hentry
        · exact hrest
      rw [List.filter_cons_of_pos (by simpa using hentry), List.length_cons, List.length_cons,
        ih h.2 hrest]

/-- Each logger on the stack, and the active one, writes to the file it was made
for; the one at the bottom was active before the first start. -/
def Chain (l : ZeroLogger) : ZeroLogger → List (ZeroLogger × File) → Prop
  | active, [] => active = l
  | active, (below, f) :: rest => active = ⟨some f⟩ ∧ Chain l below rest

/-- The state of the logger in a schedule. -/
structure LoggerAt (l : ZeroLogger) (calls : List (LogCall C)) (st : LogState) : Prop where
  performed : (initialState l).performAll calls = some st
  chain : Chain l st.logger st.stack
  depth : st.stack.length = (openCaptures calls).length
  closed : ∀ f ∈ st.closed, ∃ c, .start c (.ok f) ∈ calls
  stacked : ∀ entry ∈ st.stack, ∃ c, .start c (.ok entry.2) ∈ calls
  distinct : (st.stack.map Prod.snd ++ st.closed).Nodup

omit [DecidableEq C] in
private theorem created_append {calls : List (LogCall C)} {f : File} (more : List (LogCall C))
    (h : ∃ c, .start c (.ok f) ∈ calls) : ∃ c, .start c (.ok f) ∈ calls ++ more :=
  h.imp fun _ => List.mem_append_left more

theorem LoggerAt.start {l : ZeroLogger} {calls : List (LogCall C)} {st : LogState}
    (h : LoggerAt l calls st) (c : C) {f : File} (hfresh : ∀ other, .start other (.ok f) ∉ calls) :
    LoggerAt l (calls ++ [.start c (.ok f)])
      { st with stack := (st.logger, f) :: st.stack, logger := ⟨some f⟩ } := by
  refine ⟨?_, ⟨rfl, h.chain⟩, ?_, ?_, ?_, ?_⟩
  · rw [performAll_concat, h.performed]
    rfl
  · rw [openCaptures_start, List.length_cons, List.length_cons, h.depth]
  · intro f' hf'
    exact created_append _ (h.closed f' hf')
  · intro entry hentry
    rcases List.mem_cons.1 hentry with rfl | hentry
    · exact ⟨c, by simp⟩
    · exact created_append _ (h.stacked entry hentry)
  · rw [List.map_cons, List.cons_append, List.nodup_cons]
    refine ⟨fun hmem => ?_, h.distinct⟩
    rcases List.mem_append.1 hmem with hmem | hmem
    · obtain ⟨entry, hentry, rfl⟩ := List.mem_map.1 hmem
      obtain ⟨c', hc'⟩ := h.stacked entry hentry
      exact hfresh c' hc'
    · obtain ⟨c', hc'⟩ := h.closed f hmem
      exact hfresh c' hc'

theorem LoggerAt.failed {l : ZeroLogger} {calls : List (LogCall C)} {st : LogState}
    (h : LoggerAt l calls st) (c : C) (err : String) :
    LoggerAt l (calls ++ [.start c (.error err)]) st := by
  refine ⟨?_, h.chain, ?_, ?_, ?_, h.distinct⟩
  · rw [performAll_concat, h.performed]
    rfl
  · rw [openCaptures_failed, h.depth]
  · intro f' hf'
    exact created_append _ (h.closed f' hf')
  · intro entry hentry
    exact created_append _ (h.stacked entry hentry)

/-- A stop finds an element on the stack, whoever put it there. -/
theorem LoggerAt.stop {l : ZeroLogger} {calls : List (LogCall C)} {st : LogState}
    (h : LoggerAt l calls st) (hsound : OpenSound calls) {c : C} {f : File}
    (hopen : (c, f) ∈ openCaptures calls) (closeErr : Option String) :
    ∃ below top rest, st.stack = (below, top) :: rest ∧
      LoggerAt l (calls ++ [.stop c closeErr]) ⟨below, rest, top :: st.closed⟩ := by
  have hlength := length_filter_ne hsound.captures hopen
  cases hstack : st.stack with
  | nil =>
    have hdepth := h.depth
    rw [hstack, List.length_nil] at hdepth
    omega
  | cons entry rest =>
    obtain ⟨below, top⟩ := entry
    have hchain := h.chain
    rw [hstack] at hchain
    have hdepth := h.depth
    rw [hstack, List.length_cons] at hdepth
    refine ⟨below, top, rest, rfl, ?_, hchain.2, ?_, ?_, ?_, ?_⟩
    · rw [performAll_concat, h.performed]
      simp [LogState.perform, stopWritingToFile, hstack]
    · rw [openCaptures_stop]
      change rest.length = _
      omega
    · intro f' hf'
      rcases List.mem_cons.1 hf' with rfl | hf'
      · exact created_append _ (h.stacked (below, f') (by simp [hstack]))
      · exact created_append _ (h.closed f' hf')
    · intro entry hentry
      exact created_append _
        (h.stacked entry (by rw [hstack]; exact List.mem_cons_of_mem _ hentry))
    · have hdistinct := h.distinct
      rw [hstack] at hdistinct
      exact (List.perm_middle.nodup_iff).2 hdistinct

/-- No schedule makes the logger panic. -/
theorem Schedule.loggerAt {calls : List (LogCall C)} (h : Schedule calls) (l : ZeroLogger) :
    ∃ st, LoggerAt l calls st := by
  induction h with
  | nil =>
    exact ⟨initialState l, rfl, rfl, rfl, by simp [initialState], by simp [initialState],
      by simp [initialState]⟩
  | @start calls c created _ _ hfile ih =>
    obtain ⟨st, hst⟩ := ih
    cases created with
    | error err => exact ⟨st, hst.failed c err⟩
    | ok f => exact ⟨_, hst.start c (hfile f rfl)⟩
  | @stop calls c f closeErr hcalls hopen ih =>
    obtain ⟨st, hst⟩ := ih
    obtain ⟨_, _, _, _, hnext⟩ := hst.stop hcalls.openSound hopen closeErr
    exact ⟨_, hnext⟩

/-- Whatever the order of starts and stops, the logger is restored in the end. -/
theorem Schedule.restores {calls : List (LogCall C)} (h : Schedule calls) (l : ZeroLogger) :
    Restores l calls := by
  intro past hpast hopen
  obtain ⟨st, hst⟩ := (h.of_isPrefix hpast).loggerAt l
  refine ⟨st, hst.performed, ?_⟩
  have hdepth := hst.depth
  have hchain := hst.chain
  rw [hopen, List.length_nil, List.length_eq_zero_iff] at hdepth
  rw [hdepth] at hchain
  exact hchain

theorem Nested.of_isPrefix {calls past : List (LogCall C)} (h : Nested calls)
    (hpast : past <+: calls) : Nested past :=
  fun earlier c closeErr hstop => h earlier c closeErr (hstop.trans hpast)

/-- As long as captures are nested, the files on the stack are those of the
captures that are open. -/
theorem Nested.stack_eq {calls : List (LogCall C)} (hnested : Nested calls) (h : Schedule calls)
    {l : ZeroLogger} {st : LogState} (hst : LoggerAt l calls st) :
    st.stack.map Prod.snd = (openCaptures calls).map Prod.snd := by
  induction h generalizing st with
  | nil =>
    have hdepth := hst.depth
    rw [List.length_eq_zero_iff.1 hdepth]
    rfl
  | @start calls c created hcalls hfresh hfile ih =>
    obtain ⟨before, hbefore⟩ := hcalls.loggerAt l
    have hsame := ih (hnested.of_isPrefix (List.prefix_append _ _)) hbefore
    cases created with
    | error err =>
      obtain rfl := Option.some.inj ((hbefore.failed c err).performed.symm.trans hst.performed)
      rw [openCaptures_failed]
      exact hsame
    | ok f =>
      obtain rfl :=
        Option.some.inj ((hbefore.start c (hfile f rfl)).performed.symm.trans hst.performed)
      rw [openCaptures_start, List.map_cons, List.map_cons, hsame]
  | @stop calls c f closeErr hcalls hopen ih =>
    obtain ⟨before, hbefore⟩ := hcalls.loggerAt l
    have hsame := ih (hnested.of_isPrefix (List.prefix_append _ _)) hbefore
    obtain ⟨below, top, rest, hstack, hnext⟩ := hbefore.stop hcalls.openSound hopen closeErr
    obtain rfl := Option.some.inj (hnext.performed.symm.trans hst.performed)
    obtain ⟨f', hhead⟩ := hnested calls c closeErr (List.prefix_refl _)
    obtain ⟨others, hothers⟩ : ∃ others, openCaptures calls = (c, f') :: others := by
      cases hlist : openCaptures calls with
      | nil => simp [hlist] at hhead
      | cons entry others =>
        rw [hlist] at hhead
        exact ⟨others, by rw [Option.some.inj hhead]⟩
    have hfilter : (openCaptures calls).filter (fun entry => entry.1 ≠ c) = others := by
      have hnodup := hcalls.openSound.captures
      rw [hothers, List.map_cons, List.nodup_cons] at hnodup
      rw [hothers, List.filter_cons_of_neg (by simp), filter_ne_self hnodup.1]
    rw [openCaptures_stop, hfilter]
    rw [hstack, hothers, List.map_cons, List.map_cons] at hsame
    exact (List.cons.inj hsame).2

theorem Schedule.state_unique {calls : List (LogCall C)} (h : Schedule calls) {l : ZeroLogger}
    {st : LogState} (hst : (initialState l).performAll calls = some st) : LoggerAt l calls st := by
  obtain ⟨st', hst'⟩ := h.loggerAt l
  obtain rfl := Option.some.inj (hst'.performed.symm.trans hst)
  exact hst'

/-- Each stop closes its own file if and only if captures are nested. -/
theorem closesOwn_iff_nested {calls : List (LogCall C)} (h : Schedule calls) (l : ZeroLogger) :
    ClosesOwn l calls ↔ Nested calls := by
  constructor
  · intro hown
    induction h with
    | nil =>
      intro past c closeErr hstop
      exact absurd (List.prefix_nil.1 hstop) (by simp)
    | @start calls c created hcalls _ _ ih =>
      have hnested := ih fun past c closeErr hstop => hown past c closeErr
        (hstop.trans (List.prefix_append _ _))
      intro past c' closeErr hstop
      rcases List.prefix_concat_iff.1 hstop with heq | hstop
      · exact absurd (List.append_inj_right' heq rfl) (by simp)
      · exact hnested past c' closeErr hstop
    | @stop calls c f closeErr hcalls hopen ih =>
      have hnested := ih fun past c closeErr hstop => hown past c closeErr
        (hstop.trans (List.prefix_append _ _))
      intro past c' closeErr' hstop
      rcases List.prefix_concat_iff.1 hstop with heq | hstop
      · obtain ⟨rfl, hcall⟩ := List.append_inj' heq rfl
        obtain ⟨rfl, rfl⟩ : c' = c ∧ closeErr' = closeErr := by simpa using hcall
        obtain ⟨st, hst, hhead⟩ := hown past c' closeErr' (List.prefix_refl _) f hopen
        have hsame := hnested.stack_eq hcalls (hcalls.state_unique hst)
        -- the file on top is that of the capture that stops
        have htop : ((openCaptures past).map Prod.snd).head? = some f := by
          rw [← hsame, List.head?_map]
          exact hhead
        cases hlist : openCaptures past with
        | nil => simp [hlist] at hopen
        | cons entry others =>
          obtain ⟨first, f'⟩ := entry
          rw [hlist] at htop hopen
          obtain rfl : f' = f := by simpa using htop
          rcases List.mem_cons.1 hopen with heq | hother
          · cases heq
            exact ⟨f', rfl⟩
          · have hfiles := hcalls.openSound.files
            rw [hlist, List.map_cons, List.nodup_cons] at hfiles
            exact absurd (List.mem_map_of_mem hother) hfiles.1
      · exact hnested past c' closeErr' hstop
  · intro hnested past c closeErr hstop f hopen
    have hpast : past <+: calls := (List.prefix_append _ _).trans hstop
    obtain ⟨st, hst⟩ := (h.of_isPrefix hpast).loggerAt l
    refine ⟨st, hst.performed, ?_⟩
    obtain ⟨f', hhead⟩ := hnested past c closeErr hstop
    have hsame := (hnested.of_isPrefix hpast).stack_eq (h.of_isPrefix hpast) hst
    have hf : (c, f') = (c, f) :=
      List.inj_on_of_nodup_map (h.of_isPrefix hpast).openSound.captures
        (List.mem_of_mem_head? hhead) hopen rfl
    rw [← List.head?_map, hsame, List.head?_map, hhead, hf]
    rfl

theorem Serial.of_isPrefix {calls past : List (LogCall C)} (h : Serial calls)
    (hpast : past <+: calls) : Serial past :=
  fun earlier c f hstart => h earlier c f (hstart.trans hpast)

theorem Serial.open_le {calls : List (LogCall C)} (hserial : Serial calls) (h : Schedule calls) :
    (openCaptures calls).length ≤ 1 := by
  induction h with
  | nil => simp [openCaptures]
  | @start calls c created _ _ _ ih =>
    cases created with
    | error err =>
      rw [openCaptures_failed]
      exact ih (hserial.of_isPrefix (List.prefix_append _ _))
    | ok f =>
      rw [openCaptures_start, hserial calls c f (List.prefix_refl _)]
      exact Nat.le_refl 1
  | @stop calls c f closeErr _ _ ih =>
    rw [openCaptures_stop]
    exact Nat.le_trans (List.length_filter_le _ _)
      (ih (hserial.of_isPrefix (List.prefix_append _ _)))

theorem Serial.open_eq {calls : List (LogCall C)} (hserial : Serial calls) (h : Schedule calls)
    {c : C} {f : File} (hopen : (c, f) ∈ openCaptures calls) : openCaptures calls = [(c, f)] := by
  have hle := hserial.open_le h
  cases hlist : openCaptures calls with
  | nil =>
    rw [hlist] at hopen
    cases hopen
  | cons entry others =>
    rw [hlist, List.length_cons] at hle
    have hothers : others = [] := List.length_eq_zero_iff.1 (by omega)
    rw [hlist, hothers, List.mem_singleton] at hopen
    rw [hopen, hothers]

theorem Serial.nested {calls : List (LogCall C)} (hserial : Serial calls) (h : Schedule calls) :
    Nested calls := by
  intro past c closeErr hstop
  have hpast : past <+: calls := (List.prefix_append _ _).trans hstop
  obtain ⟨f, hopen⟩ : ∃ f, (c, f) ∈ openCaptures past := by
    generalize hall : past ++ [.stop c closeErr] = all at hstop
    cases h.of_isPrefix hstop with
    | nil => simp at hall
    | start _ _ _ => exact absurd (List.append_inj_right' hall rfl) (by simp)
    | stop _ hopen =>
      obtain ⟨rfl, hcall⟩ := List.append_inj' hall rfl
      obtain ⟨rfl, _⟩ : c = _ ∧ closeErr = _ := by simpa using hcall
      exact ⟨_, hopen⟩
  exact ⟨f, by rw [(hserial.of_isPrefix hpast).open_eq (h.of_isPrefix hpast) hopen]; rfl⟩

theorem Serial.keepsWriting {calls : List (LogCall C)} (hserial : Serial calls)
    (h : Schedule calls) (l : ZeroLogger) : KeepsWriting l calls := by
  intro past hpast c f hopen
  have hschedule := h.of_isPrefix hpast
  obtain ⟨st, hst⟩ := hschedule.loggerAt l
  refine ⟨st, hst.performed, ?_⟩
  have hsame := ((hserial.nested h).of_isPrefix hpast).stack_eq hschedule hst
  rw [(hserial.of_isPrefix hpast).open_eq hschedule hopen, List.map_singleton] at hsame
  obtain ⟨below, hstack⟩ : ∃ below, st.stack = [(below, f)] := by
    obtain ⟨entry, hentry, hfile⟩ := List.map_eq_singleton_iff.1 hsame
    obtain rfl : entry.2 = f := hfile
    exact ⟨entry.1, hentry⟩
  have hchain := hst.chain
  have hdistinct := hst.distinct
  rw [hstack] at hchain hdistinct
  refine ⟨by rw [hchain.1], ?_⟩
  rw [List.map_singleton, List.singleton_append, List.nodup_cons] at hdistinct
  exact hdistinct.1

/-- Captures that write their messages from start to stop do not overlap: a logger
writes to one file only. -/
theorem serial_of_keepsWriting {calls : List (LogCall C)} (h : Schedule calls) {l : ZeroLogger}
    (hkeeps : KeepsWriting l calls) : Serial calls := by
  intro past c f hstart
  by_contra hne
  obtain ⟨⟨c', f'⟩, others, hopen⟩ := List.exists_cons_of_ne_nil hne
  have hboth : openCaptures (past ++ [.start c (.ok f)]) = (c, f) :: (c', f') :: others := by
    rw [openCaptures_start, hopen]
  obtain ⟨st, hst, hfile, _⟩ := hkeeps _ hstart c f (by simp [hboth])
  obtain ⟨st', hst', hfile', _⟩ := hkeeps _ hstart c' f' (by simp [hboth])
  obtain rfl := Option.some.inj (hst.symm.trans hst')
  have hfiles := (h.of_isPrefix hstart).openSound.files
  rw [hboth, List.map_cons, List.map_cons, List.nodup_cons] at hfiles
  rw [hfile] at hfile'
  exact hfiles.1 (by simp [Option.some.inj hfile'])

/-- In every schedule of captures, stops close the files of their own captures,
messages go to a capture's file for as long as it has not stopped and the logger is
restored in the end, if and only if no two captures overlap. -/
theorem redirection_iff_serial (l : ZeroLogger) (calls : List (LogCall C)) (h : Schedule calls) :
    (ClosesOwn l calls ∧ KeepsWriting l calls ∧ Restores l calls) ↔ Serial calls := by
  constructor
  · rintro ⟨_, hkeeps, _⟩
    exact serial_of_keepsWriting h hkeeps
  · intro hserial
    exact ⟨(closesOwn_iff_nested h l).2 (hserial.nested h), hserial.keepsWriting h l, h.restores l⟩

end Schedules

/-! Two captures, one after the other and overlapping. -/

def serialCalls : List (LogCall Bool) :=
  [.start false (.ok 3), .stop false none, .start true (.ok 4), .stop true none]

def overlappingCalls : List (LogCall Bool) :=
  [.start false (.ok 3), .start true (.ok 4), .stop false none, .stop true none]

theorem schedule_serialCalls : Schedule serialCalls := by
  change Schedule (((([] ++ [_]) ++ [_]) ++ [_]) ++ [_])
  have hfirst : Schedule (([] ++ [.start false (.ok 3)]) ++ [.stop false none]) :=
    .stop (f := 3) (.start .nil (by simp) (by simp)) (by decide)
  exact .stop (f := 4) (.start hfirst (by simp) (by simp)) (by decide)

theorem serial_serialCalls : Serial serialCalls := by
  rintro past c f ⟨rest, hrest⟩
  rcases past with _ | ⟨first, _ | ⟨second, _ | ⟨third, _ | ⟨fourth, past⟩⟩⟩⟩
  · rfl
  · simp [serialCalls] at hrest
  · simp only [serialCalls, List.cons_append, List.cons.injEq] at hrest
    obtain ⟨rfl, rfl, _⟩ := hrest
    rfl
  · simp [serialCalls] at hrest
  · simp [serialCalls] at hrest

theorem serialCalls_redirected :
    ClosesOwn ⟨none⟩ serialCalls ∧ KeepsWriting ⟨none⟩ serialCalls ∧
      Restores ⟨none⟩ serialCalls :=
  (redirection_iff_serial ⟨none⟩ serialCalls schedule_serialCalls).2 serial_serialCalls

theorem schedule_overlappingCalls : Schedule overlappingCalls := by
  change Schedule (((([] ++ [_]) ++ [_]) ++ [_]) ++ [_])
  have hfirst : Schedule (([] ++ [.start false (.ok 3)]) ++ [.start true (.ok 4)]) :=
    .start (.start .nil (by simp) (by simp)) (by simp) (by simp)
  exact .stop (f := 4) (.stop (f := 3) hfirst (by decide)) (by decide)

/-- The capture that stops first closes the file of the other one, whose messages
go to the file of the first from then on. -/
theorem overlapping_captures_swapped :
    Schedule overlappingCalls ∧ ¬ ClosesOwn ⟨none⟩ overlappingCalls ∧
      ¬ KeepsWriting ⟨none⟩ overlappingCalls := by
  refine ⟨schedule_overlappingCalls, fun hown => ?_, fun hkeeps => ?_⟩
  · obtain ⟨st, hst, hhead⟩ := hown [.start false (.ok 3), .start true (.ok 4)] false none
      ⟨[.stop true none], rfl⟩ 3 (by decide)
    obtain rfl := Option.some.inj hst
    exact absurd hhead (by decide)
  · obtain ⟨st, hst, hfile, _⟩ := hkeeps
      [.start false (.ok 3), .start true (.ok 4), .stop false none] ⟨[.stop true none], rfl⟩ true 4
      (by decide)
    obtain rfl := Option.some.inj hst
    exact absurd hfile (by decide)

end YcAgent.Logger
