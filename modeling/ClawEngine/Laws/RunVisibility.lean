import ClawEngine.Workflows.Bridge

/-!
# What reading a run shows

`get` answers from two things: the caller's own run under the id, and otherwise the workflow name
of a run of another workspace under it. Nothing else of a foreign run is seen. The name is: an
unknown id and a foreign run raise different exceptions, and the second carries the name.
-/

set_option autoImplicit false

namespace ClawEngine.Workflows

open ClawEngine.Core ClawEngine.Context ClawEngine.Identity

variable {V : Type}

/-- The run under an id, when it belongs to the workspace. -/
def MemoryWorkflowStore.owned (store : MemoryWorkflowStore V) (workspaceId runId : String) :
    Option (WorkflowRun V) :=
  (store.get? runId).filter fun run => run.ownerWorkspaceId = some workspaceId

/-- The workflow name of the run under an id, when it does not belong to the workspace. -/
def MemoryWorkflowStore.foreignName (store : MemoryWorkflowStore V) (workspaceId runId : String) :
    Option String :=
  ((store.get? runId).filter fun run => run.ownerWorkspaceId ≠ some workspaceId).map (·.name)

/-- What a caller may be told of a store under one id. -/
structure RunView (V : Type) where
  owned : Option (WorkflowRun V)
  foreignName : Option String

def MemoryWorkflowStore.view (store : MemoryWorkflowStore V) (workspaceId runId : String) :
    RunView V :=
  ⟨store.owned workspaceId runId, store.foreignName workspaceId runId⟩

/-- The outcome of reading a view. -/
def WorkflowToolBridge.read (bridge : WorkflowToolBridge) (runId : String)
    (principal : Principal) : RunView V → Except BridgeError (WorkflowRun V)
  | ⟨some run, _⟩ => bridge.permit principal run
  | ⟨none, some name⟩ => .error (.workflowNotAllowed principal.workspaceId name)
  | ⟨none, none⟩ => .error (.workflowRunNotFound runId)

section Views

variable {store : MemoryWorkflowStore V} {workspaceId runId : String} {run : WorkflowRun V}

theorem view_unknown (h : store.get? runId = none) :
    store.view workspaceId runId = ⟨none, none⟩ := by
  simp only [MemoryWorkflowStore.view, MemoryWorkflowStore.owned, MemoryWorkflowStore.foreignName,
    h, Option.filter_none, Option.map_none]

theorem view_owned (h : store.get? runId = some run)
    (howner : run.ownerWorkspaceId = some workspaceId) :
    store.view workspaceId runId = ⟨some run, none⟩ := by
  simp only [MemoryWorkflowStore.view, MemoryWorkflowStore.owned, MemoryWorkflowStore.foreignName,
    h, Option.filter_some, howner, decide_true, if_true, ne_eq, not_true_eq_false, decide_false,
    Bool.false_eq_true, if_false, Option.map_none]

theorem view_foreign (h : store.get? runId = some run)
    (howner : run.ownerWorkspaceId ≠ some workspaceId) :
    store.view workspaceId runId = ⟨none, some run.name⟩ := by
  simp only [MemoryWorkflowStore.view, MemoryWorkflowStore.owned, MemoryWorkflowStore.foreignName,
    h, Option.filter_some, howner, decide_false, Bool.false_eq_true, if_false, ne_eq,
    not_false_eq_true, decide_true, if_true, Option.map_some]

/-- The three views there are. -/
theorem view_cases (store : MemoryWorkflowStore V) (workspaceId runId : String) :
    (store.get? runId = none ∧ store.view workspaceId runId = ⟨none, none⟩) ∨
      (∃ run, store.get? runId = some run ∧ run.ownerWorkspaceId = some workspaceId ∧
        store.view workspaceId runId = ⟨some run, none⟩) ∨
      ∃ run, store.get? runId = some run ∧ run.ownerWorkspaceId ≠ some workspaceId ∧
        store.view workspaceId runId = ⟨none, some run.name⟩ := by
  rcases Option.eq_none_or_eq_some (store.get? runId) with h | ⟨run, h⟩
  · exact .inl ⟨h, view_unknown h⟩
  · by_cases howner : run.ownerWorkspaceId = some workspaceId
    · exact .inr (.inl ⟨run, h, howner, view_owned h howner⟩)
    · exact .inr (.inr ⟨run, h, howner, view_foreign h howner⟩)

/-- **`get` answers from the view alone.** -/
theorem get_eq_read (bridge : WorkflowToolBridge) (store : MemoryWorkflowStore V)
    (runId : String) (principal : Principal) : bridge.get store runId principal =
      bridge.read runId principal (store.view principal.workspaceId runId) := by
  rcases view_cases store principal.workspaceId runId with
    ⟨h, hview⟩ | ⟨run, h, -, hview⟩ | ⟨run, h, howner, hview⟩
  · rw [get_unknown h, hview]
    rfl
  · rw [get_known h, hview]
    rfl
  · rw [get_known h, permit_foreign howner, hview]
    rfl

/-- A run is not both the workspace's own and a foreign one. -/
theorem foreignName_of_owned (h : store.owned workspaceId runId = some run) :
    store.foreignName workspaceId runId = none := by
  rcases view_cases store workspaceId runId with ⟨-, hview⟩ | ⟨_, -, -, hview⟩ | ⟨_, -, -, hview⟩
  · exact congrArg RunView.foreignName hview
  · exact congrArg RunView.foreignName hview
  · have hnone : store.owned workspaceId runId = none := congrArg RunView.owned hview
    rw [h] at hnone
    cases hnone

/-- Where no run is the caller's own, the outcome tells the foreign name, and tells it apart from
no run. -/
theorem read_foreign_inj (bridge : WorkflowToolBridge) (runId : String) (principal : Principal)
    {name name' : Option String}
    (h : bridge.read runId principal (⟨none, name⟩ : RunView V) =
      bridge.read runId principal ⟨none, name'⟩) : name = name' := by
  cases name with
  | none =>
    cases name' with
    | none => rfl
    | some n' => cases h
  | some n =>
    cases name' with
    | none => cases h
    | some n' =>
      cases h
      rfl

end Views

/-- **What reading a run by id tells of other workspaces.** Of two stores with the same runs of the
caller's workspace, reading an id has the same outcome in both exactly when the id names no foreign
run in both, or foreign runs of one workflow name in both. A run that is returned is one of the
caller's workspace; a foreign run is denied under its workflow name; an unknown id is not found. -/
theorem get_tells_names_only (bridge : WorkflowToolBridge)
    (store₁ store₂ : MemoryWorkflowStore V) (principal : Principal)
    (hsame : ∀ runId, store₁.owned principal.workspaceId runId =
      store₂.owned principal.workspaceId runId) (runId : String) :
    let foreign₁ := store₁.foreignName principal.workspaceId runId
    let foreign₂ := store₂.foreignName principal.workspaceId runId
    (bridge.get store₁ runId principal = bridge.get store₂ runId principal ↔
        foreign₁ = foreign₂) ∧
      (∀ run, bridge.get store₁ runId principal = .ok run →
        store₁.owned principal.workspaceId runId = some run) ∧
      (∀ name, foreign₁ = some name → bridge.get store₁ runId principal =
        .error (.workflowNotAllowed principal.workspaceId name)) ∧
      (store₁.get? runId = none →
        bridge.get store₁ runId principal = .error (.workflowRunNotFound runId)) := by
  intro foreign₁ foreign₂
  have hread₁ : bridge.get store₁ runId principal = bridge.read runId principal
      ⟨store₁.owned principal.workspaceId runId, foreign₁⟩ := get_eq_read bridge store₁ _ _
  have hread₂ : bridge.get store₂ runId principal = bridge.read runId principal
      ⟨store₁.owned principal.workspaceId runId, foreign₂⟩ := by
    rw [hsame runId]
    exact get_eq_read bridge store₂ _ _
  refine ⟨⟨fun h => ?_, fun h => ?_⟩, fun run h => ?_, fun name h => ?_, fun h => get_unknown h⟩
  · rw [hread₁, hread₂] at h
    rcases Option.eq_none_or_eq_some (store₁.owned principal.workspaceId runId) with
      howned | ⟨run, howned⟩
    · rw [howned] at h
      exact read_foreign_inj bridge runId principal h
    · have howned₂ := howned
      rw [hsame runId] at howned₂
      exact (foreignName_of_owned howned).trans (foreignName_of_owned howned₂).symm
  · rw [hread₁, hread₂, h]
  · rw [hread₁] at h
    rcases Option.eq_none_or_eq_some (store₁.owned principal.workspaceId runId) with
      howned | ⟨own, howned⟩
    · rw [howned] at h
      cases hforeign : foreign₁ with
      | none => rw [hforeign] at h; cases h
      | some name => rw [hforeign] at h; cases h
    · rw [howned] at h ⊢
      rw [(permit_eq_ok.mp h).1]
  · have howned : store₁.owned principal.workspaceId runId = none := by
      by_contra hne
      obtain ⟨run, howned⟩ := Option.ne_none_iff_exists'.mp hne
      rw [show foreign₁ = none from foreignName_of_owned howned] at h
      cases h
    rw [hread₁, howned, h]
    rfl

/-- A run of a workspace. -/
def runOf (runId workspaceId : String) : WorkflowRun String :=
  { runId, name := "wf2", params := ∅, ownerWorkspaceId := some workspaceId }

/-- A bridge that lets everybody run `wf2` in `ws1`. -/
def openBridge : WorkflowToolBridge where
  identity := ⟨fun _ _ => true, fun _ _ _ => true, fun _ _ _ => true⟩
  resolver :=
    { config := layeredConfigProvider ∅ ∅, secrets := inMemorySecretProvider ∅, root := "/srv/ws"
      specs := (∅ : Dict String WorkspaceSpec).set "ws1" { allowedWorkflows := ["wf2"] } }

/-- A user of `ws1`. -/
def reader : Principal := ⟨{ userId := "u", displayName := "A" }, "ws1"⟩

/-- A store with one run of `ws1`, without and with a run of `ws2` beside it. -/
def ownOnly : MemoryWorkflowStore String := MemoryWorkflowStore.empty.save (runOf "r1" "ws1")

def withForeign : MemoryWorkflowStore String := ownOnly.save (runOf "r2" "ws2")

theorem ownOnly_withForeign (runId : String) :
    ownOnly.owned "ws1" runId = withForeign.owned "ws1" runId := by
  by_cases hid : runId = "r2"
  · subst hid
    rfl
  · simp only [MemoryWorkflowStore.owned, withForeign, MemoryWorkflowStore.get?_save]
    rw [if_neg (show ¬ runId = (runOf "r2" "ws2").runId from hid)]

/-- The caller's own run is read alike beside a foreign one. -/
theorem get_tells_names_only_own :
    openBridge.get ownOnly "r1" reader = openBridge.get withForeign "r1" reader ∧
      openBridge.get ownOnly "r1" reader = .ok (runOf "r1" "ws1") :=
  ⟨(get_tells_names_only openBridge ownOnly withForeign reader ownOnly_withForeign "r1").1.mpr
    (by decide), by rfl⟩

/-- A foreign run's existence and its workflow name can be told from an unknown id. -/
theorem foreign_run_told :
    (∀ runId, ownOnly.owned reader.workspaceId runId = withForeign.owned reader.workspaceId runId) ∧
      openBridge.get ownOnly "r2" reader = .error (.workflowRunNotFound "r2") ∧
      openBridge.get withForeign "r2" reader = .error (.workflowNotAllowed "ws1" "wf2") :=
  ⟨ownOnly_withForeign, rfl, rfl⟩

end ClawEngine.Workflows
