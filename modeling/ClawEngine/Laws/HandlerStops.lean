import ClawEngine.Laws.FailedRuns

/-!
# However a handler stops

A handler that returns, or raises an `Exception` whose text can be made, leaves its run finished:
`_execute` returns, the record says so, and the run may be run again. An exception that is no
`Exception` is not caught: it leaves `_execute`, and the record is as the handler left it, which is
running after any number of reports.
-/

set_option autoImplicit false

namespace ClawEngine.Workflows

open ClawEngine.Core ClawEngine.Core.Act

variable {V ε A : Type}

/-! ## Handlers that report -/

section Reports

variable {w : WorkflowWorld V ε} {runId : String} {run : WorkflowRun V}

/-- A report of a run that is there raises, or adds its event. -/
theorem reportProgress_found {r : WorkflowRun V} (message : String) (step : Option String)
    (fraction : Option PyFloat) (h : w.store.get? runId = some r) :
    (reportProgress runId message step fraction w).2 = w ∨
      ∃ event now, (reportProgress runId message step fraction w).2.store =
        w.store.save (r.withProgress event now) := by
  unfold reportProgress
  cases fraction.filter (!isFraction ·) with
  | some x => exact .inl rfl
  | none =>
    refine .inr ⟨{ message, step, fraction, ts := w.clock w.tick }, w.clock (w.tick + 1), ?_⟩
    show ((getRun runId >>= _ : Wf V ε Unit) w).2.store = _
    rw [bind_of_ok (getRun_found h)]
    rfl

theorem keeps_reportProgress (id message : String) (step : Option String)
    (fraction : Option PyFloat) :
    Keeps (Stored runId) (reportProgress id message step fraction : Wf V ε Unit) := by
  unfold reportProgress
  cases fraction.filter (!isFraction ·) with
  | some x => exact keeps_raise _
  | none =>
    refine (keeps_readE _).bind fun run => ?_
    refine Keeps.bind (fun _ h => h) fun ts => ?_
    exact Keeps.bind (fun _ h => h) fun now => keeps_saveRun _

/-- A report keeps the outcome of its run, whether it raises or not. -/
theorem performReport_kept (report : ReportCall) (w : WorkflowWorld V ε)
    (h : ∃ r, w.store.get? runId = some r ∧ Kept run r) :
    ∃ r, (performReport runId report w).2.store.get? runId = some r ∧ Kept run r := by
  obtain ⟨r, hr, hkept⟩ := h
  rcases reportProgress_found report.message report.step report.fraction hr with
    hsame | ⟨event, now, hsaved⟩
  · rw [performReport, hsame]
    exact ⟨r, hr, hkept⟩
  · obtain rfl := w.store.keyed hr
    refine ⟨r.withProgress event now, ?_, hkept.trans (withProgress_kept r event now)⟩
    rw [performReport, hsaved, MemoryWorkflowStore.get?_save]
    exact if_pos rfl

/-- What a handler that only reports finds and leaves is the same outcome. -/
theorem reports_kept (p : ReportProg V ε) (h : w.store.get? runId = some run) :
    ∃ r, (p.run (performReport runId) w).2.store.get? runId = some r ∧ Kept run r :=
  Prog.run_keeps _ (fun report w => performReport_kept report w) p ⟨run, h, .refl run⟩

/-- A handler that only reports, and then stops as it likes. -/
def reportingHandler (prog : Dict String V → ReportProg V ε) : StoppingHandler V ε :=
  fun params runId =>
    { perform := (prog params).run (performReport runId)
      keeps := fun _ _ h =>
        Prog.run_keeps _ (fun _ w h => keeps_reportProgress _ _ _ _ w h) (prog params) h }

end Reports

/-! ## How `_execute` ends -/

section Ends

variable {w w' : WorkflowWorld V ε} {runId : String} {run : WorkflowRun V}

/-- The run is finished, and `rerun` runs it again. -/
def Rerunnable (runId : String) (w : WorkflowWorld V ε) : Prop :=
  ∃ run, w.store.get? runId = some run ∧ run.status.isTerminal = true ∧
    ∀ S : SubmittingService V ε, S.rerun runId w =
      S.run run.name (some run.params) (some runId) run.ownerWorkspaceId w

theorem rerunnable_saving (h : run.status.isTerminal = true) :
    Rerunnable run.runId (w.saving run) := by
  have hget : (w.saving run).store.get? run.runId = some run :=
    (get?_saving _ _ _).trans (if_pos rfl)
  exact ⟨run, hget, h, fun S => (rerun_found hget).trans (if_pos h)⟩

/-- **A handler that returns** leaves its run finished, with its result. -/
theorem executeStopping_returned {result : Option V} (h : w.store.get? runId = some run)
    {handler : StoppingHandler V ε} (hstop : (stopAt runId run handler w).1 = .returned result) :
    ∃ left now w', (stopAt runId run handler w).2.store.get? runId = some left ∧
      executeStopping runId handler w = (.ok (), w') ∧
      w'.store.get? runId = some (left.withResult result now) ∧ Rerunnable runId w' := by
  have hstored := stopAt_stored h handler
  rw [executeStopping_stored h]
  rcases hended : stopAt runId run handler w with ⟨stop, w₁⟩
  rw [hended] at hstop hstored
  obtain rfl := hstop
  obtain ⟨left, hleft, -⟩ := getRun_stored hstored
  obtain rfl := w₁.store.keyed hleft
  refine ⟨left, w₁.clock w₁.tick, _, hleft, served_updateRun hleft, ?_, rerunnable_saving rfl⟩
  exact (get?_saving _ _ _).trans (if_pos rfl)

/-- **A handler that raises** an `Exception` whose text can be made leaves its run finished, with
that error. -/
theorem executeStopping_raised {exc : RaisedException V ε} {text : String} {w₂ : WorkflowWorld V ε}
    (h : w.store.get? runId = some run) {handler : StoppingHandler V ε}
    (hstop : (stopAt runId run handler w).1 = .raised exc)
    (htext : exc.str (stopAt runId run handler w).2 = (.ok text, w₂)) :
    ∃ left now w', (stopAt runId run handler w).2.store.get? runId = some left ∧
      executeStopping runId handler w = (.ok (), w') ∧
      w'.store.get? runId = some (left.withError (exc.typeName ++ ": " ++ text) now) ∧
      Rerunnable runId w' := by
  have hstored := stopAt_stored h handler
  rw [executeStopping_stored h]
  rcases hended : stopAt runId run handler w with ⟨stop, w₁⟩
  rw [hended] at hstop hstored htext
  obtain rfl := hstop
  obtain ⟨left, hleft, -⟩ := getRun_stored hstored
  obtain rfl := w₁.store.keyed hleft
  refine ⟨left, w₂.clock w₂.tick, ({ w₂ with tick := w₂.tick + 1 } : WorkflowWorld V ε).saving
    (left.withError (exc.typeName ++ ": " ++ text) (w₂.clock w₂.tick)), hleft, ?_, ?_,
    rerunnable_saving rfl⟩
  · show recordError left.runId exc w₁ = _
    rw [recordError, bind_of_ok (served_ok (getRun_found hleft)), bind_of_ok htext]
    rfl
  · exact (get?_saving _ _ _).trans (if_pos rfl)

/-- **An exception that is no `Exception`** leaves `_execute`, and nothing is saved. -/
theorem executeStopping_baseException {typeName : String} (h : w.store.get? runId = some run)
    {handler : StoppingHandler V ε}
    (hstop : (stopAt runId run handler w).1 = .baseException typeName) :
    executeStopping runId handler w =
      (.error (.baseException typeName), (stopAt runId run handler w).2) := by
  rw [executeStopping_stored h]
  rcases hended : stopAt runId run handler w with ⟨stop, w₁⟩
  rw [hended] at hstop
  obtain rfl := hstop
  rfl

/-- After any reports the run is running still, and `rerun` refuses it. -/
theorem reporting_running (h : w.store.get? runId = some run)
    (prog : Dict String V → ReportProg V ε) :
    let left := (stopAt runId run (reportingHandler prog) w).2
    (∃ r, left.store.get? runId = some r ∧ r.status = .running) ∧
      ∀ S : SubmittingService V ε, S.rerun runId left =
        (.error (.service (.raised (.workflowNotTerminal runId .running))), left) := by
  intro left
  obtain rfl := w.store.keyed h
  have hget : (w.starting run).store.get? run.runId =
      some (run.withStatus .running (w.clock w.tick)) := (get?_saving _ _ _).trans (if_pos rfl)
  obtain ⟨r, hr, hkept⟩ := reports_kept (prog run.params) hget
  have hstatus : r.status = .running := hkept.status
  refine ⟨⟨r, hr, hstatus⟩, fun S => ?_⟩
  have hrerun := rerun_found (S := S) (show left.store.get? run.runId = some r from hr)
  rw [hstatus] at hrerun
  exact hrerun

end Ends

/-! ## Main result -/

/-- **However the handler of a stored run stops.** Where it returns, or raises an `Exception` whose
text can be made, `_execute` returns and the run is finished, with the result or the error, and can
be run again. An exception that is no `Exception` leaves `_execute`, and the record is what the
handler left: running, if all the handler did was report. -/
theorem handler_stops {runId : String} {w : WorkflowWorld V ε} {run : WorkflowRun V}
    (h : w.store.get? runId = some run) (handler : StoppingHandler V ε) :
    (∀ result, (stopAt runId run handler w).1 = .returned result →
      ∃ left now w', (stopAt runId run handler w).2.store.get? runId = some left ∧
        executeStopping runId handler w = (.ok (), w') ∧
        w'.store.get? runId = some (left.withResult result now) ∧ Rerunnable runId w') ∧
    (∀ exc text w₂, (stopAt runId run handler w).1 = .raised exc →
      exc.str (stopAt runId run handler w).2 = (.ok text, w₂) →
      ∃ left now w', (stopAt runId run handler w).2.store.get? runId = some left ∧
        executeStopping runId handler w = (.ok (), w') ∧
        w'.store.get? runId = some (left.withError (exc.typeName ++ ": " ++ text) now) ∧
        Rerunnable runId w') ∧
    (∀ typeName, (stopAt runId run handler w).1 = .baseException typeName →
      executeStopping runId handler w =
        (.error (.baseException typeName), (stopAt runId run handler w).2) ∧
      ∀ prog, handler = reportingHandler prog →
        ∃ left, (stopAt runId run handler w).2.store.get? runId = some left ∧
          left.status = .running) := by
  refine ⟨fun result hstop => executeStopping_returned h hstop,
    fun exc text w₂ hstop htext => executeStopping_raised h hstop htext,
    fun typeName hstop => ⟨executeStopping_baseException h hstop, ?_⟩⟩
  rintro prog rfl
  exact (reporting_running h prog).1

/-- A world in which the run `r1` is pending. -/
def pendingWorld : WorkflowWorld String Unit :=
  quietWorld.saving { runId := "r1", name := "wf", params := ∅ }

/-- A handler that reports once and stops so. -/
def reportsOnce (stop : HandlerStop String Unit) : Dict String String → ReportProg String Unit :=
  fun _ => .vis { message := "start" } fun _ => .ret stop

/-- A handler that reports and raises leaves its run failed. -/
theorem handler_stops_raised :
    ∃ w', executeStopping "r1" (reportingHandler (reportsOnce
        (.raised ⟨"ValueError", pure "bad input", fun _ => keeps_pure _⟩))) pendingWorld =
          (.ok (), w') ∧
      ((w'.store.get? "r1").map (·.error)) = some (some "ValueError: bad input") := by
  have hstored : pendingWorld.store.get? "r1" =
      some { runId := "r1", name := "wf", params := ∅ } := rfl
  obtain ⟨left, now, w', -, hcall, hget, -⟩ := (handler_stops hstored (reportingHandler
    (reportsOnce (.raised ⟨"ValueError", pure "bad input", fun _ => keeps_pure _⟩)))).2.1
      _ "bad input" _ rfl rfl
  exact ⟨w', hcall, congrArg (Option.map (·.error)) hget⟩

/-- A handler that calls `sys.exit` after a report leaves its run running: the exception leaves
`_execute`, and `rerun` refuses the run. -/
theorem system_exit_stays_running :
    let out := executeStopping "r1" (reportingHandler (reportsOnce (.baseException "SystemExit")))
      pendingWorld
    out.1 = .error (.baseException "SystemExit") ∧
      (out.2.store.get? "r1").map (·.status) = some .running ∧
      ∀ S : SubmittingService String Unit, (S.rerun "r1" out.2).1 =
        .error (.service (.raised (.workflowNotTerminal "r1" .running))) :=
  ⟨rfl, rfl, fun _ => rfl⟩

end ClawEngine.Workflows
