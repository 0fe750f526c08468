import ClawEngine.Backends.Claude
import ClawEngine.Backends.Watchdog

/-!
# A child and its watchdog

The generator cancels the timer when it leaves its loop, whether the child has exited by then or
not. So a child is watched in every state of a run exactly if the generator leaves its loop over no
living child; and a backend that returns at a line of a child that lives on does that.
-/

set_option autoImplicit false

namespace ClawEngine.Backends

open ClawEngine.Core ClawEngine.Runtime

namespace Spawned

/-- A living child has its timer armed, or was killed. -/
def Watched (s : Spawned) : Prop := s.alive = true → s.timer = .armed ∨ s.killed = true

/-- The consumer is not inside a call of the generator, which has not ended. -/
def Standing (s : Spawned) : Prop := s.lines = .created ∨ s.lines = .suspended

/-- Where the generator reads next it meets the end of the output, or what does not decode. -/
def AtEnd (s : Spawned) : Prop :=
  (s.pipe = [] ∧ s.stdoutOpen = false) ∨ s.pipe.head? = some none

/-- The action takes the generator out of its loop while the child lives and was not killed: the
consumer closes or drops a generator it advanced, or the generator goes on where the child has
closed its output, or has written what does not decode. -/
def LeavesChild (s : Spawned) (a : SpawnAction) : Prop :=
  s.alive = true ∧ s.killed = false ∧
    ((a = .close ∧ s.lines = .suspended) ∨
      (s.AtEnd ∧ ((a = .next ∧ s.Standing) ∨ (a = .resume ∧ s.lines = .reading))))

section Steps

variable {s s' : Spawned}

@[simp] theorem leave_alive (s : Spawned) (left : LoopLeft) : (s.leave left).alive = s.alive := rfl

@[simp] theorem leave_killed (s : Spawned) (left : LoopLeft) :
    (s.leave left).killed = s.killed := rfl

theorem leave_timer (s : Spawned) (left : LoopLeft) : (s.leave left).timer ≠ .armed := by
  unfold leave
  split
  · simp
  next h => exact h

/-- What child, timer and kill are the same of is watched alike. -/
theorem Watched.same (hw : s.Watched) (hexit : s'.exit = s.exit) (htimer : s'.timer = s.timer)
    (hkilled : s'.killed = s.killed) : s'.Watched := by
  intro halive
  rw [htimer, hkilled]
  exact hw (by rwa [alive, ← hexit])

/-- Once the timer is cancelled a living child is watched only if it was killed. -/
theorem leave_watched (left : LoopLeft) :
    (s.leave left).Watched ↔ ¬ (s.alive = true ∧ s.killed = false) := by
  have htimer := leave_timer s left
  simp only [Watched, leave_alive, leave_killed, htimer, false_or, not_and, Bool.not_eq_false]

theorem advance_watched (hw : s.Watched) :
    s.advance.Watched ↔ ¬ (s.alive = true ∧ s.killed = false ∧ s.AtEnd) := by
  unfold advance AtEnd
  cases hpipe : s.pipe with
  | cons line pipe =>
    cases line with
    | some line => exact iff_of_true (hw.same rfl rfl rfl) (by simp)
    | none => simpa using leave_watched (s := s) .undecodable
  | nil =>
    cases hopen : s.stdoutOpen with
    | true => exact iff_of_true (hw.same rfl rfl rfl) (by simp)
    | false => simpa using leave_watched (s := s) .exhausted

/-- **One action**: a watched child stays watched exactly unless the action leaves it. -/
theorem step_watched {a : SpawnAction} (h : step a s = some s') (hw : s.Watched) :
    s'.Watched ↔ ¬ s.LeavesChild a := by
  cases a with
  | write line =>
    simp only [step, Option.ite_none_right_eq_some, Option.some.injEq] at h
    obtain ⟨-, rfl⟩ := h
    exact iff_of_true (hw.same rfl rfl rfl) (by simp [LeavesChild])
  | closeStdout =>
    simp only [step, Option.ite_none_right_eq_some, Option.some.injEq] at h
    obtain ⟨-, rfl⟩ := h
    exact iff_of_true (hw.same rfl rfl rfl) (by simp [LeavesChild])
  | exit code =>
    simp only [step, Option.ite_none_right_eq_some, Option.some.injEq] at h
    obtain ⟨-, rfl⟩ := h
    simp [LeavesChild, Watched, alive]
  | fire =>
    simp only [step, Option.ite_none_right_eq_some, Option.some.injEq] at h
    obtain ⟨-, rfl⟩ := h
    simp [LeavesChild, Watched]
  | next =>
    cases hl : s.lines <;> simp only [step, hl, Option.some.injEq, reduceCtorEq] at h
    case finished =>
      subst h
      simpa [LeavesChild, Standing, hl] using hw
    all_goals
      subst h
      rw [advance_watched hw]
      simp [LeavesChild, Standing, hl]
  | close =>
    cases hl : s.lines <;> simp only [step, hl, Option.some.injEq, reduceCtorEq] at h
    case created =>
      subst h
      exact iff_of_true (hw.same rfl rfl rfl) (by simp [LeavesChild, hl])
    case suspended =>
      subst h
      rw [leave_watched]
      simp [LeavesChild, hl]
    case finished =>
      subst h
      simpa [LeavesChild, hl] using hw
  | resume =>
    cases hl : s.lines <;> cases he : s.exit <;>
      simp only [step, hl, he, Option.ite_none_left_eq_some, Option.some.injEq, reduceCtorEq] at h
    case waiting.some left code =>
      subst h
      simp [Watched, LeavesChild, alive, reap, he]
    all_goals
      obtain ⟨-, rfl⟩ := h
      rw [advance_watched hw]
      simp [LeavesChild, hl]

end Steps

end Spawned

open Spawned

/-- **A child is watched throughout a run exactly if no action of the run leaves it.** -/
theorem watched_iff (actions : List SpawnAction) (s : Spawned) (h : SpawnRun actions s) :
    (∀ pre t, pre <+: actions → SpawnRun pre t → t.Watched) ↔
      ∀ pre a t, pre ++ [a] <+: actions → SpawnRun pre t → ¬ t.LeavesChild a :=
  h.throughout_iff step_watched fun _ => .inl rfl

/-! ## A consumer that exhausts the generator -/

section Exhausted

/-- The line an action writes. -/
def lineOf : SpawnAction → Option (Option String)
  | .write line => some line
  | _ => none

/-- The lines before what does not decode. -/
def decoded (written : List (Option String)) : List String :=
  (written.takeWhile Option.isSome).reduceOption

theorem decoded_append (lines : List String) (rest : List (Option String)) :
    decoded (lines.map some ++ rest) = lines ++ decoded rest := by
  induction lines with
  | nil => rfl
  | cons line lines ih => exact congrArg (line :: ·) ih

/-- What the actions of a run without a close say of the state it reached. -/
structure Told (actions : List SpawnAction) (s : Spawned) : Prop where
  written : s.yielded.map some ++ s.pipe = actions.filterMap lineOf
  fired : s.timedOut = true ↔ .fire ∈ actions
  exited : ∀ code, s.exit = some code → .exit code ∈ actions
  stopped : ∀ left, s.lines = .waiting left ∨ s.lines = .finished → s.timer ≠ .armed
  drained : s.lines = .waiting .exhausted ∨
    (s.lines = .finished ∧ s.raised ≠ some .unicodeDecodeError) →
      s.pipe = [] ∧ s.stdoutOpen = false
  garbled : s.lines = .waiting .undecodable ∨
    (s.lines = .finished ∧ s.raised = some .unicodeDecodeError) → s.pipe.head? = some none
  ended : s.lines = .finished → s.returncode = s.exit ∧ s.exit.isSome ∧
    (s.raised = some .unicodeDecodeError ∨
      s.raised = if s.timedOut then some .timeoutExpired else none)
  notClosed : s.lines ≠ .waiting .closed

variable {actions : List SpawnAction} {s s' : Spawned}

theorem filterMap_snoc {a : SpawnAction} (h : lineOf a = none) :
    (actions ++ [a]).filterMap lineOf = actions.filterMap lineOf := by
  simp [List.filterMap_append, h]

theorem fire_mem_snoc {a : SpawnAction} (h : a ≠ .fire) :
    .fire ∈ actions ++ [a] ↔ .fire ∈ actions := by
  simp [h.symm]

/-- The generator goes on, to its next line or out of its loop. -/
theorem Told.advance {a : SpawnAction} (h : Told actions s) (hline : lineOf a = none)
    (hfire : a ≠ .fire) : Told (actions ++ [a]) s.advance := by
  have hwritten := h.written.trans (filterMap_snoc hline).symm
  have hexited : ∀ code, s.exit = some code → .exit code ∈ actions ++ [a] :=
    fun code hcode => List.mem_append_left _ (h.exited code hcode)
  have hfired : s.timedOut = true ↔ .fire ∈ actions ++ [a] :=
    h.fired.trans (fire_mem_snoc hfire).symm
  unfold Spawned.advance
  split
  next line pipe hpipe =>
    rw [hpipe] at hwritten
    refine ⟨?_, hfired, hexited, by simp, by simp, by simp, by simp, by simp⟩
    rw [← hwritten, List.map_append, List.append_assoc]
    rfl
  next rest hpipe =>
    refine ⟨hwritten, hfired, hexited, fun _ _ => leave_timer s _, by simp [leave], fun _ => ?_,
      by simp [leave], by simp [leave]⟩
    show s.pipe.head? = _
    rw [hpipe]
    rfl
  next hpipe =>
    cases hopen : s.stdoutOpen with
    | true => exact ⟨hwritten, hfired, hexited, by simp, by simp, by simp, by simp, by simp⟩
    | false =>
      exact ⟨hwritten, hfired, hexited, fun _ _ => leave_timer s _, fun _ => ⟨hpipe, hopen⟩,
        by simp [leave], by simp [leave], by simp [leave]⟩

theorem told_step {a : SpawnAction} (h : Told actions s) (hclose : a ≠ .close)
    (hstep : Spawned.step a s = some s') : Told (actions ++ [a]) s' := by
  have hexited : ∀ code, s.exit = some code → .exit code ∈ actions ++ [a] :=
    fun code hcode => List.mem_append_left _ (h.exited code hcode)
  have halive : s.alive = true → s.lines ≠ .finished := by
    intro halive hl
    have hsome := (h.ended hl).2.1
    simp [Spawned.alive, Option.isSome_iff_ne_none.mp hsome] at halive
  cases a with
  | write line =>
    simp only [Spawned.step, Option.ite_none_right_eq_some, Option.some.injEq,
      Bool.and_eq_true] at hstep
    obtain ⟨⟨hliving, hopen⟩, rfl⟩ := hstep
    have hnot := halive hliving
    refine ⟨?_, h.fired.trans (fire_mem_snoc (by simp)).symm, hexited, h.stopped, ?_, ?_,
      fun hl => absurd hl hnot, h.notClosed⟩
    · rw [List.filterMap_append, ← h.written, List.append_assoc]
      rfl
    · rintro (hl | ⟨hl, -⟩)
      · rw [(h.drained (.inl hl)).2] at hopen
        cases hopen
      · exact absurd hl hnot
    · rintro (hl | ⟨hl, -⟩)
      · rw [List.head?_append, h.garbled (.inl hl), Option.some_or]
      · exact absurd hl hnot
  | closeStdout =>
    simp only [Spawned.step, Option.ite_none_right_eq_some, Option.some.injEq] at hstep
    obtain ⟨-, rfl⟩ := hstep
    exact ⟨h.written.trans (filterMap_snoc rfl).symm,
      h.fired.trans (fire_mem_snoc (by simp)).symm, hexited, h.stopped,
      fun hl => ⟨(h.drained hl).1, rfl⟩, h.garbled, h.ended, h.notClosed⟩
  | exit code =>
    simp only [Spawned.step, Option.ite_none_right_eq_some, Option.some.injEq] at hstep
    obtain ⟨hliving, rfl⟩ := hstep
    refine ⟨h.written.trans (filterMap_snoc rfl).symm,
      h.fired.trans (fire_mem_snoc (by simp)).symm, ?_, h.stopped,
      fun hl => ⟨(h.drained hl).1, rfl⟩, h.garbled, fun hl => absurd hl (halive hliving),
      h.notClosed⟩
    intro code' hcode
    simp only [Option.some.injEq] at hcode
    simp [hcode]
  | fire =>
    simp only [Spawned.step, Option.ite_none_right_eq_some, Option.some.injEq] at hstep
    obtain ⟨harmed, rfl⟩ := hstep
    have hnot : ∀ left, ¬ (s.lines = .waiting left ∨ s.lines = .finished) :=
      fun left hl => h.stopped left hl harmed
    exact ⟨h.written.trans (filterMap_snoc rfl).symm, by simp, hexited,
      fun left hl => absurd hl (hnot left), h.drained, h.garbled,
      fun hl => absurd (.inr hl) (hnot .exhausted), h.notClosed⟩
  | next =>
    cases hl : s.lines <;> simp only [Spawned.step, hl, Option.some.injEq, reduceCtorEq] at hstep
    case finished =>
      subst hstep
      exact ⟨h.written.trans (filterMap_snoc rfl).symm,
        h.fired.trans (fire_mem_snoc (by simp)).symm, hexited, h.stopped, h.drained, h.garbled,
        h.ended, h.notClosed⟩
    all_goals
      subst hstep
      exact h.advance rfl (by simp)
  | close => exact absurd rfl hclose
  | resume =>
    cases hl : s.lines <;> cases he : s.exit <;>
      simp only [Spawned.step, hl, he, Option.ite_none_left_eq_some, Option.some.injEq,
        reduceCtorEq] at hstep
    case waiting.some left code =>
      subst hstep
      refine ⟨h.written.trans (filterMap_snoc rfl).symm,
        h.fired.trans (fire_mem_snoc (by simp)).symm, hexited, fun _ _ => h.stopped left (.inl hl),
        ?_, ?_, fun _ => ⟨he.symm, by simp [Spawned.reap, he], ?_⟩, by simp [reap]⟩
      · cases left with
        | closed => exact absurd hl h.notClosed
        | exhausted => exact fun _ => h.drained (.inl hl)
        | undecodable => simp [Spawned.reap]
      · cases left with
        | closed => exact absurd hl h.notClosed
        | exhausted => cases htimed : s.timedOut <;> simp [Spawned.reap, htimed]
        | undecodable => exact fun _ => h.garbled (.inl hl)
      · cases left with
        | closed => exact absurd hl h.notClosed
        | exhausted => exact .inr rfl
        | undecodable => exact .inl rfl
    all_goals
      obtain ⟨-, rfl⟩ := hstep
      exact h.advance rfl (by simp)

/-- **What default_spawn hands to a consumer that exhausts it**: the lines the child wrote, up to what
does not decode; then the `UnicodeDecodeError`, or else a `TimeoutExpired` if the timer fired; and
the exit code of the child. -/
theorem exhausted_outcome (h : SpawnRun actions s) (hclose : .close ∉ actions)
    (hfinished : s.lines = .finished) (text : String) :
    ∃ code, .exit code ∈ actions ∧ s.outcome text =
      .started (decoded (actions.filterMap lineOf))
        (if none ∈ actions.filterMap lineOf then some ⟨.unicodeDecodeError, text⟩
          else if .fire ∈ actions then some ⟨.timeoutExpired, text⟩ else none) code := by
  have htold : Told actions s := by
    clear hfinished
    induction h with
    | nil => exact ⟨rfl, by simp, by simp, by simp, by simp, by simp, by simp, by simp⟩
    | snoc earlier last ih =>
      have hmem := List.mem_append.not.mp hclose
      push Not at hmem
      exact told_step (ih hmem.1) (fun ha => hmem.2 (by simp [ha])) last
  obtain ⟨hcode, hexit, hraised⟩ := htold.ended hfinished
  obtain ⟨code, hexit⟩ := Option.isSome_iff_exists.mp hexit
  refine ⟨code, htold.exited code hexit, ?_⟩
  rw [outcome, exitCode, hcode, hexit, ← htold.written, decoded_append]
  by_cases hgarbled : s.raised = some .unicodeDecodeError
  · obtain ⟨rest, hpipe⟩ := List.head?_eq_some_iff.mp (htold.garbled (.inr ⟨hfinished, hgarbled⟩))
    have hmem : none ∈ s.yielded.map some ++ s.pipe := by simp [hpipe]
    rw [if_pos hmem, hgarbled, hpipe]
    exact congrArg (SpawnOutcome.started · _ _) (List.append_nil _).symm
  · have hpipe := (htold.drained (.inr ⟨hfinished, hgarbled⟩)).1
    have hmem : ¬ none ∈ s.yielded.map some ++ s.pipe := by simp [hpipe]
    rw [if_neg hmem, hpipe, hraised.resolve_left hgarbled]
    have hfired : (if s.timedOut = true then some PyErrorKind.timeoutExpired else none).map
        (PyError.mk · text) = if .fire ∈ actions then some ⟨.timeoutExpired, text⟩ else none := by
      by_cases hfire : .fire ∈ actions
      · rw [if_pos hfire, if_pos (htold.fired.mpr hfire)]
        rfl
      · rw [if_neg hfire, if_neg fun ht => hfire (htold.fired.mp ht)]
        rfl
    rw [hfired]
    exact congrArg (SpawnOutcome.started · _ _) (List.append_nil _).symm

end Exhausted

/-! ## The backends as consumers -/

section Consumers

variable {S : Type}

/-- What `run` asks of its line generator: line after line until the output ends, or until a line
it returns at, which drops the generator. -/
def consumerActions (onLine : S → String → LineResult S) : S → List String → List SpawnAction
  | _, [] => [.next]
  | s, line :: lines =>
    match onLine s line with
    | .next _ s' => .next :: consumerActions onLine s' lines
    | _ => [.next, .close]

/-- The child wrote its lines before they are read. -/
theorem run_writes (lines : List String) {s : Spawned} (halive : s.alive = true)
    (hopen : s.stdoutOpen = true) :
    Run Spawned.step s (lines.map fun line => .write (some line))
      { s with pipe := s.pipe ++ lines.map some } := by
  induction lines generalizing s with
  | nil => simpa using Run.nil
  | cons line lines ih =>
    have hwrite : Spawned.step (.write (some line)) s =
        some { s with pipe := s.pipe ++ [some line] } := by
      simp only [Spawned.step, halive, hopen, Bool.and_self, if_true]
    refine .cons hwrite ?_
    have hrest := ih (s := { s with pipe := s.pipe ++ [some line] }) halive hopen
    simpa using hrest

/-- A consumer that returns at a line of a child that lives on leaves it unwatched. -/
theorem consumer_leaves {onLine : S → String → LineResult S} {lines : List String} {x : S}
    (hreturns : .close ∈ consumerActions onLine x lines) {s : Spawned} (halive : s.alive = true)
    (hkilled : s.killed = false) (hstands : s.Standing) (hpipe : s.pipe = lines.map some) :
    ∃ t, Run Spawned.step s (consumerActions onLine x lines) t ∧ ¬ t.Watched := by
  induction lines generalizing x s with
  | nil => simp [consumerActions] at hreturns
  | cons line lines ih =>
    -- the line is in the pipe, so `next` yields it
    have hnext : Spawned.step .next s = some { s with
        pipe := lines.map some, lines := .suspended, yielded := s.yielded ++ [line] } := by
      obtain hl | hl := hstands <;>
        simp only [Spawned.step, hl, Spawned.advance, hpipe, List.map_cons]
    have hreturn : ∃ t, Run Spawned.step s [.next, .close] t ∧ ¬ t.Watched := by
      refine ⟨_, .cons hnext (.cons rfl .nil), ?_⟩
      rw [leave_watched, not_not]
      exact ⟨halive, hkilled⟩
    simp only [consumerActions] at hreturns ⊢
    cases hline : onLine x line with
    | next events x' =>
      simp only [hline, List.mem_cons, reduceCtorEq, false_or] at hreturns
      obtain ⟨t, hrun, hnot⟩ := ih hreturns
        (s := { s with pipe := lines.map some, lines := .suspended, yielded := s.yielded ++ [line] })
        halive hkilled (.inr rfl) rfl
      exact ⟨t, .cons hnext hrun, hnot⟩
    | done events => exact hreturn
    | raised events e => exact hreturn

/-- **A backend that returns early leaves its child unwatched**: it returns at one of the lines the
child wrote, and the child neither exited nor was killed. -/
theorem early_return_unwatched (onLine : S → String → LineResult S) (x : S) (lines : List String)
    (hreturns : .close ∈ consumerActions onLine x lines) :
    ∃ t, SpawnRun (lines.map (fun line => .write (some line)) ++ consumerActions onLine x lines) t ∧
      ¬ t.Watched := by
  obtain ⟨t, hrun, hnot⟩ :=
    consumer_leaves (s := { pipe := lines.map some }) hreturns rfl rfl (.inl rfl) rfl
  exact ⟨t, (run_writes lines rfl rfl).append hrun, hnot⟩

end Consumers

/-- A decoder to which every line is the result of a turn. -/
def decodeResult : PyLib where
  loads _ := .ok (.obj [("type", .str "result"), ("result", .str "done"),
    ("session_id", .str "s1")])
  intOfStr _ := .error ⟨.valueError, "invalid literal for int()"⟩
  repr _ := ""
  str _ := ""

/-- The actions of a child that writes its result and does not exit, and of
`ClaudeCodeBackend.run`, which returns at the line. -/
def resultLine : List SpawnAction :=
  .write (some "result") :: consumerActions (Claude.onLine decodeResult) ⟨none, .str ""⟩ ["result"]

/-- The child after its result line was read. -/
def afterResult : Spawned := { lines := .suspended, yielded := ["result"] }

theorem resultLine_reads : SpawnRun [.write (some "result"), .next] afterResult :=
  .cons rfl (.cons rfl .nil)

theorem resultLine_runs : SpawnRun resultLine (afterResult.leave .closed) :=
  .cons rfl (.cons rfl (.cons rfl .nil))

/-- The child is left alive, with its timer cancelled and not killed. -/
theorem result_line_unwatched :
    SpawnRun resultLine (afterResult.leave .closed) ∧ (afterResult.leave .closed).alive = true ∧
      (afterResult.leave .closed).timer = .cancelled ∧ (afterResult.leave .closed).killed = false :=
  ⟨resultLine_runs, rfl, rfl, rfl⟩

theorem watched_iff_result :
    ¬ ∀ pre t, pre <+: resultLine → SpawnRun pre t → t.Watched := by
  intro h
  exact (watched_iff resultLine _ resultLine_runs).mp h [.write (some "result"), .next] .close
    afterResult (List.prefix_refl _) resultLine_reads ⟨rfl, rfl, .inl ⟨rfl, rfl⟩⟩

end ClawEngine.Backends
