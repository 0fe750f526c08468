import ClawEngine.Laws.RunLifecycle
import ClawEngine.Laws.RunVisibility

/-!
# The gates of the tool bridge

`invoke` and `get` check the same permissions in different orders, `invoke` on a name and `get` on a
run. What connects them over time is that a run keeps its name and its owner, so whoever may invoke
a workflow now may read the runs that were invoked before, and no one else.
-/

set_option autoImplicit false

namespace ClawEngine.Workflows

open ClawEngine.Core ClawEngine.Core.Act ClawEngine.Context ClawEngine.Identity

variable {V Q ε : Type}

/-- What may happen between two moments: calls of the service, calls of bridges with any policy, and
the registration of workflows. -/
inductive History (S : WorkflowService V Q ε) (w : WorkflowWorld V ε) :
    WorkflowService V Q ε → WorkflowWorld V ε → Prop
  | refl : History S w S w
  | calls {S' w'} (h : History S w S' w') (fuel : Nat) {A : Type} (p : HandlerProg V Q A) :
    History S w S' (S'.calls fuel p w').2
  | invoke {S' w'} (h : History S w S' w') (bridge : WorkflowToolBridge) (fuel : Nat) (name : String)
      (params : Option (Dict String V)) (principal : Principal) :
    History S w S' (bridge.invoke S' fuel name params principal w').2
  | registerWorkflow {S' w'} (h : History S w S' w') (name : String) (handler : WorkflowHandler V Q) :
    History S w { S' with registry := S'.registry.set name handler } w'

section Invoke

variable {bridge : WorkflowToolBridge} {S S' : WorkflowService V Q ε} {fuel : Nat} {name : String}
  {params : Option (Dict String V)} {principal : Principal} {w w' : WorkflowWorld V ε}

theorem invoke_denied {e : BridgeError} (h : bridge.admit principal name = .error e) :
    bridge.invoke S fuel name params principal w = (.error (.bridge e), w) := by
  rw [WorkflowToolBridge.invoke, h]
  rfl

/-- Past the gates, `invoke` leaves the world as `run` does. -/
theorem invoke_admitted (h : bridge.Gates principal name) :
    (bridge.invoke S fuel name params principal w).2 =
      (S.run fuel name params none (some principal.workspaceId) w).2 ∧
    (bridge.invoke S fuel name params principal w).1 =
      ((S.run fuel name params none (some principal.workspaceId) w).1.mapError .service).map
        fun run => { runId := run.runId, status := run.status } := by
  rw [WorkflowToolBridge.invoke, admit_eq_ok.mpr h]
  show (Act.bind (mapError _ _) _ w).2 = _ ∧ (Act.bind (mapError _ _) _ w).1 = _
  unfold Act.bind mapError
  rcases S.run fuel name params none (some principal.workspaceId) w with ⟨answer, w'⟩
  cases answer with
  | error e => exact ⟨rfl, rfl⟩
  | ok run => exact ⟨rfl, rfl⟩

/-- `run` with an owner, from any valid world. -/
theorem run_serves (h : Valid False w) (owner : Option String) :
    Serves False (S.run fuel name params none owner) w :=
  runWith_serves False.elim (execute_executes False.elim fuel) h name params none owner nofun

theorem History.serves (h : History S w S' w') (hw : Valid False w) :
    Valid False w' ∧ Framed w w' := by
  induction h with
  | refl => exact ⟨hw, .refl w⟩
  | @calls S' w' _ fuel A p ih =>
    have hserves : Serves False (S'.calls fuel p) w' :=
      performProg_serves False.elim (execute_executes False.elim fuel) p False.elim ih.1
    exact ⟨hserves.valid, ih.2.trans hserves.framed⟩
  | @invoke S' w' _ bridge fuel name params principal ih =>
    cases hgates : bridge.admit principal name with
    | error e =>
      rw [invoke_denied hgates]
      exact ih
    | ok u =>
      have hserves : Serves False (S'.run fuel name params none (some principal.workspaceId)) w' :=
        run_serves ih.1 _
      rw [(invoke_admitted (admit_eq_ok.mp hgates)).1]
      exact ⟨hserves.valid, ih.2.trans hserves.framed⟩
  | registerWorkflow _ name handler ih => exact ih

/-- What is registered stays registered. -/
theorem History.registered (h : History S w S' w') (hname : S.registry.get? name ≠ none) :
    S'.registry.get? name ≠ none := by
  induction h with
  | refl => exact hname
  | calls _ _ _ ih => exact ih
  | invoke _ _ _ _ _ _ ih => exact ih
  | registerWorkflow _ name' handler ih =>
    rw [Dict.get?_set]
    split
    next => exact Option.some_ne_none _
    next => exact ih

/-- What `invoke` is through with: it raised and did nothing, at a gate or because the name is not
registered; or it was let through, and then the fuel ran out or it returned a run of the caller's
workspace. -/
theorem invoke_cases (h : Valid False w) (bridge : WorkflowToolBridge) (S : WorkflowService V Q ε)
    (fuel : Nat) (name : String) (params : Option (Dict String V)) (principal : Principal) :
    let out := bridge.invoke S fuel name params principal w
    (¬(bridge.Gates principal name ∧ S.registry.get? name ≠ none) ∧ ∃ e, out = (.error e, w)) ∨
      ((bridge.Gates principal name ∧ S.registry.get? name ≠ none) ∧
        (out.1 = .error (.service .outOfFuel) ∨
          ∃ run, out.1 = .ok { runId := run.runId, status := run.status } ∧
            out.2.store.get? run.runId = some run ∧ run.name = name ∧
              run.ownerWorkspaceId = some principal.workspaceId)) := by
  intro out
  cases hadmit : bridge.admit principal name with
  | error e =>
    refine .inl ⟨fun hgates => ?_, _, invoke_denied hadmit⟩
    rw [admit_eq_ok.mpr hgates.1] at hadmit
    cases hadmit
  | ok u =>
    have hgates : bridge.Gates principal name := admit_eq_ok.mp hadmit
    obtain ⟨hworld, hanswer⟩ : out.2 = (S.run fuel name params none
        (some principal.workspaceId) w).2 ∧ out.1 = _ := invoke_admitted hgates
    rcases runWith_cases (S := S) False.elim (execute_executes False.elim fuel) h name params none
      (some principal.workspaceId) nofun with ⟨hnone, hrun⟩ | ⟨hsome, hfuel | ⟨run, w', hrun, hfound⟩⟩
    · refine .inl ⟨fun hboth => hboth.2 hnone, .service (.raised (.workflowNotRegistered name)), ?_⟩
      rw [WorkflowService.run, hrun] at hworld hanswer
      exact Prod.ext hanswer hworld
    · refine .inr ⟨⟨hgates, hsome⟩, .inl ?_⟩
      rw [WorkflowService.run, hfuel] at hanswer
      exact hanswer
    · refine .inr ⟨⟨hgates, hsome⟩, .inr ⟨run, ?_, ?_⟩⟩
      · rw [WorkflowService.run, hrun] at hanswer
        exact hanswer
      · rw [WorkflowService.run, hrun] at hworld
        rw [show out.2 = w' from hworld]
        exact hfound

end Invoke

/-- **Complete mediation.** At every moment of every history: `invoke` of a caller the gates do not
let through, or of a name that is not registered, raises and does nothing, and whatever it raises
(but for fuel) nothing was changed; `get` returns a run exactly when it is there, owned by the
caller's workspace, and the gates let the caller through to its name; and after an `invoke` that
returned, at every later moment and under the policy of that moment, the run can be read exactly
when the workflow can be invoked. -/
theorem gates_agree {ids : Nat → String} (hids : Function.Injective ids) {clock : Nat → PyFloat}
    {surroundings : ε} {S₀ S : WorkflowService V Q ε} {w : WorkflowWorld V ε}
    (hreach : History S₀ (.start ids clock surroundings) S w) (bridge : WorkflowToolBridge)
    (fuel : Nat) (name : String) (params : Option (Dict String V)) (principal : Principal) :
    let out := bridge.invoke S fuel name params principal w
    (¬(bridge.Gates principal name ∧ S.registry.get? name ≠ none) → ∃ e, out = (.error e, w)) ∧
    (∀ e, out.1 = .error e → e ≠ .service .outOfFuel → out.2 = w) ∧
    (∀ runId run, bridge.get w.store runId principal = .ok run ↔
      w.store.get? runId = some run ∧ run.ownerWorkspaceId = some principal.workspaceId ∧
        bridge.Gates principal run.name) ∧
    (∀ result, out.1 = .ok result → ∀ S' w', History S out.2 S' w' → ∀ later : WorkflowToolBridge,
      (∃ run, later.get w'.store result.runId principal = .ok run) ↔
        later.Gates principal name ∧ S'.registry.get? name ≠ none) := by
  intro out
  have hvalid : Valid False w := (hreach.serves (valid_start hids clock surroundings)).1
  have hcases := invoke_cases hvalid bridge S fuel name params principal
  refine ⟨fun hnot => ?_, fun e he hfuel => ?_, fun runId run => ?_, fun result hresult => ?_⟩
  · rcases hcases with ⟨-, hraised⟩ | ⟨hboth, -⟩
    · exact hraised
    · exact absurd hboth hnot
  · rcases hcases with ⟨-, e', hraised⟩ | ⟨-, hout | ⟨run, hout, -⟩⟩
    · exact congrArg Prod.snd hraised
    · rw [he] at hout
      cases hout
      exact absurd rfl hfuel
    · rw [he] at hout
      cases hout
  · cases hget : w.store.get? runId with
    | none =>
      rw [get_unknown hget]
      exact ⟨nofun, fun h => absurd h.1 (Option.some_ne_none _).symm⟩
    | some found =>
      rw [get_known hget, permit_iff_gates]
      constructor
      · rintro ⟨rfl, howner, hgates⟩
        exact ⟨rfl, howner, hgates⟩
      · rintro ⟨heq, howner, hgates⟩
        cases heq
        exact ⟨rfl, howner, hgates⟩
  · intro S' w' hlater later
    rcases hcases with ⟨-, e', hraised⟩ |
      ⟨⟨hgates, hregistered⟩, hout | ⟨run, hout, hget, hname, howner⟩⟩
    · rw [show out.1 = .error e' from congrArg Prod.fst hraised] at hresult
      cases hresult
    · rw [show out.1 = _ from hout] at hresult
      cases hresult
    · rw [show out.1 = _ from hout] at hresult
      cases hresult
      -- the run is still there, of the same name and owner
      have hserved : Valid False out.2 :=
        ((hreach.invoke bridge fuel name params principal).serves
          (valid_start hids clock surroundings)).1
      obtain ⟨run', hget', hkept⟩ := (hlater.serves hserved).2 run.runId run hget
      have hname' : run'.name = name := hkept.name.trans hname
      have howner' := hkept.owner.trans howner
      rw [get_known hget']
      constructor
      · rintro ⟨read, hread⟩
        obtain ⟨rfl, -, hlaterGates⟩ := permit_iff_gates.mp hread
        rw [hname'] at hlaterGates
        exact ⟨hlaterGates, hlater.registered hregistered⟩
      · rintro ⟨hlaterGates, -⟩
        exact ⟨run', permit_iff_gates.mpr ⟨rfl, howner', by rw [hname']; exact hlaterGates⟩⟩

/-- `wf2` registered over `onlyReturns`. -/
def returnsWf2 : WorkflowService Unit Unit Unit :=
  { onlyReturns with registry := onlyReturns.registry.set "wf2" fun _ _ => .ret (.ok none) }

/-- Invoked through a bridge that is open, and then read through it. -/
theorem gates_agree_open :
    let out := openBridge.invoke returnsWf2 1 "wf2" none reader
      (.start tally (fun _ => .finite 0) ())
    out.1 = .ok { runId := "", status := .success } ∧
      ∃ run, openBridge.get out.2.store "" reader = .ok run := by
  intro out
  have hout : out.1 = .ok { runId := "", status := .success } := by decide +kernel
  have hgates : openBridge.Gates reader "wf2" := ⟨rfl, ⟨_, rfl, by decide⟩, rfl⟩
  have hregistered : returnsWf2.registry.get? "wf2" ≠ none := by
    rw [returnsWf2, Dict.get?_set, if_pos rfl]
    exact Option.some_ne_none _
  exact ⟨hout, ((gates_agree tally_injective .refl openBridge 1 "wf2" none reader).2.2.2 _ hout
    returnsWf2 out.2 .refl openBridge).mpr ⟨hgates, hregistered⟩⟩

end ClawEngine.Workflows
