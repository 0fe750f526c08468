import ClawEngine.Core.Transition
import ClawEngine.Laws.RunLifecycle
import ClawEngine.Workflows.Shared

/-!
# Reruns repeat what the handlers left

The parameters recorded for a run are an object that its handler may change, and `rerun` copies what
that object holds by then. So the parameters of all runs stay what they were when the runs were
created, and every rerun repeats the first request of its chain, exactly if every handler leaves its
mapping as it found it.
-/

set_option autoImplicit false

namespace ClawEngine.Workflows

open ClawEngine.Core

variable {V : Type}

/-- Equal as mappings, in whatever order the keys were set. -/
def SameParams (d d' : Dict String V) : Prop := ∀ key, d.get? key = d'.get? key

theorem SameParams.refl (d : Dict String V) : SameParams d d := fun _ => rfl

theorem SameParams.symm {d d' : Dict String V} (h : SameParams d d') : SameParams d' d :=
  fun key => (h key).symm

theorem SameParams.trans {d d' d'' : Dict String V} (h : SameParams d d')
    (h' : SameParams d' d'') : SameParams d d'' := fun key => (h key).trans (h' key)

/-- The recorded parameters are those each run was created with, and each handler found those of the
first run of the chain. -/
structure Repeats (w : SharedWorld V) : Prop where
  recorded : ∀ runId run, w.runs.get? runId = some run →
    ∃ given, w.created.get? runId = some given ∧ SameParams (w.contents run.params) given
  repeated : ∀ runId found, (runId, found) ∈ w.executed →
    ∃ first, w.first.get? runId = some first ∧ SameParams found first

/-- A task that is performed leaves its mapping as it finds it. -/
def LeavesParams (w : SharedWorld V) : SharedAction V → Prop
  | .work i => ∀ runId handler run, w.pending[i]? = some (runId, handler) →
    w.runs.get? runId = some run →
    SameParams (handler (w.contents run.params)).2 (w.contents run.params)
  | _ => True

/-- What holds besides, in every state: each run has an object of its own, and the log knows it. -/
structure Owned (w : SharedWorld V) : Prop where
  keyed : ∀ runId run, w.runs.get? runId = some run → run.runId = runId
  valid : ∀ runId run, w.runs.get? runId = some run → run.params < w.objects.length
  apart : ∀ runId runId' run run', w.runs.get? runId = some run →
    w.runs.get? runId' = some run' → run.params = run'.params → runId = runId'
  tasks : ∀ runId handler, (runId, handler) ∈ w.pending → (w.runs.get? runId).isSome
  logged : ∀ runId run, w.runs.get? runId = some run →
    ∃ given first, w.created.get? runId = some given ∧ w.first.get? runId = some first ∧
      SameParams given first
  handled : ∀ runId found, (runId, found) ∈ w.executed → (w.runs.get? runId).isSome

section Steps

variable {w w' : SharedWorld V}

/-- What a run that is created leaves. -/
def SharedWorld.creating (w : SharedWorld V) (run : SharedRun V) (handler : SharedHandler V)
    (chain : Option String) (params : Dict String V) : SharedWorld V :=
  { w with
    objects := w.objects ++ [params]
    runs := w.runs.set run.runId run
    pending := w.pending ++ [(run.runId, handler)]
    created := w.created.set run.runId params
    first := w.first.set run.runId ((chain.bind w.first.get?).getD params) }

theorem getShared_found {runId : String} {run : SharedRun V} (h : w.runs.get? runId = some run) :
    getShared runId w = (.ok run, w) :=
  Act.readE_eq_ok.mpr ⟨by simp only [h], rfl⟩

/-- A run is created with an object of its own, or the name is not registered. -/
theorem runShared_eq (newId : String) (chain : Option String) (name : String)
    (params : Option (Dict String V)) (rerunOf ownerWorkspaceId : Option String)
    (w : SharedWorld V) :
    runShared newId chain name params rerunOf ownerWorkspaceId w =
      match w.registry.get? name with
      | none => (.error (.workflowNotRegistered name), w)
      | some handler =>
        let run : SharedRun V :=
          { runId := newId, name, params := w.objects.length, rerunOf, ownerWorkspaceId }
        (.ok run, w.creating run handler chain (params.getD ∅)) := by
  unfold runShared
  cases w.registry.get? name with
  | none => rfl
  | some handler =>
    exact getShared_found (Dict.get?_set_self _ _ _)

/-- `rerun` raises, or copies what the object of the old run holds into a run of its chain. -/
theorem rerunShared_cases (newId runId : String) (w : SharedWorld V) :
    (rerunShared newId runId w).2 = w ∨ ∃ old, w.runs.get? runId = some old ∧
      (rerunShared newId runId w).2 = (runShared newId (some runId) old.name
        (some (w.contents old.params)) (some runId) old.ownerWorkspaceId w).2 := by
  cases hold : w.runs.get? runId with
  | none =>
    have hget : getShared runId w = (.error (.workflowRunNotFound runId), w) := by
      simp only [getShared, Act.readE, hold]
    rw [rerunShared, Act.bind_of_error hget]
    exact .inl rfl
  | some old =>
    rw [rerunShared, Act.bind_of_ok (getShared_found hold)]
    split
    · exact .inl rfl
    · exact .inr ⟨old, rfl, rfl⟩

@[simp] theorem SharedRun.ended_runId (run : SharedRun V) (outcome) :
    (run.ended outcome).runId = run.runId := by
  cases outcome <;> rfl

@[simp] theorem SharedRun.ended_params (run : SharedRun V) (outcome) :
    (run.ended outcome).params = run.params := by
  cases outcome <;> rfl

/-- What a task that was performed leaves. -/
structure Handled (w : SharedWorld V) (runId : String) (handler : SharedHandler V)
    (run : SharedRun V) (w' : SharedWorld V) : Prop where
  objects : w'.objects = w.objects.set run.params (handler (w.contents run.params)).2
  executed : w'.executed = w.executed ++ [(runId, w.contents run.params)]
  runs : ∀ id, w'.runs.get? id =
    if id = runId then some (run.ended (handler (w.contents run.params)).1) else w.runs.get? id
  pending : w'.pending = w.pending
  registry : w'.registry = w.registry
  created : w'.created = w.created
  first : w'.first = w.first

/-- **A task that is performed** changes the object of its run and the record. -/
theorem executeShared_handled {runId : String} {run : SharedRun V} (handler : SharedHandler V)
    (h : w.runs.get? runId = some run) (hkey : run.runId = runId) :
    Handled w runId handler run (executeShared runId handler w).2 := by
  subst hkey
  let running : SharedRun V := { run with status := .running }
  have hget : ∀ w₁ : SharedWorld V, w₁.runs = w.runs.set run.runId running →
      getShared run.runId w₁ = (.ok running, w₁) := by
    intro w₁ hw₁
    apply getShared_found
    rw [hw₁, Dict.get?_set_self]
  let started : SharedWorld V := { w with runs := w.runs.set run.runId running }
  let ended : SharedWorld V := { started with
    objects := w.objects.set run.params (handler (w.contents run.params)).2
    executed := w.executed ++ [(run.runId, w.contents run.params)] }
  have hsave : saveShared running w = (.ok (), started) := rfl
  have hcall : callHandler handler run.runId running.params started =
      (.ok (handler (w.contents run.params)).1, ended) := rfl
  have hended : ∀ outcome, running.ended outcome = run.ended outcome := by
    intro outcome
    cases outcome <;> rfl
  have hexecute : executeShared run.runId handler w =
      saveShared (run.ended (handler (w.contents run.params)).1) ended := by
    rw [executeShared, Act.bind_of_ok (getShared_found h), Act.bind_of_ok hsave,
      Act.bind_of_ok (hget started rfl), Act.bind_of_ok hcall, Act.bind_of_ok (hget ended rfl),
      hended]
  rw [hexecute]
  refine ⟨rfl, rfl, fun id => ?_, rfl, rfl, rfl, rfl⟩
  show ((w.runs.set run.runId running).set _ _).get? id = _
  rw [SharedRun.ended_runId, Dict.get?_set, Dict.get?_set]
  split <;> rfl

end Steps

/-! ## What each action keeps -/

/-- The invariant of runs whose handlers leave their mappings. -/
structure Faithful (w : SharedWorld V) : Prop extends Owned w, Repeats w

section Keeps

variable {w w' : SharedWorld V} {runId : String} {run : SharedRun V} {handler : SharedHandler V}
  {chain : Option String} {params : Dict String V}

theorem contents_creating {object : Nat} (h : object < w.objects.length) :
    (w.creating run handler chain params).contents object = w.contents object := by
  show (w.objects ++ [params])[object]?.getD ∅ = _
  rw [List.getElem?_append_left h, SharedWorld.contents]

theorem contents_creating_self :
    (w.creating run handler chain params).contents w.objects.length = params := by
  show (w.objects ++ [params])[w.objects.length]?.getD ∅ = _
  rw [List.getElem?_concat_length, Option.getD_some]

theorem get?_creating (runId : String) :
    (w.creating run handler chain params).runs.get? runId =
      if runId = run.runId then some run else w.runs.get? runId := Dict.get?_set _ _ _ _

/-- What was stored before a run is created has another id. -/
theorem ne_of_stored {id : String} {r : SharedRun V} (hnew : w.runs.get? run.runId = none)
    (hr : w.runs.get? id = some r) : id ≠ run.runId := by
  rintro rfl
  rw [hnew] at hr
  cases hr

/-- **Creating a run** with the parameters of its chain. -/
theorem Faithful.creating (h : Faithful w) (hnew : w.runs.get? run.runId = none)
    (hobject : run.params = w.objects.length)
    (hchain : SameParams params ((chain.bind w.first.get?).getD params)) :
    Faithful (w.creating run handler chain params) where
  keyed id r hr := by
    rw [get?_creating] at hr
    split at hr
    next hid =>
      cases hr
      exact hid.symm
    · exact h.keyed id r hr
  valid id r hr := by
    show r.params < (w.objects ++ [params]).length
    rw [List.length_append, List.length_singleton]
    rw [get?_creating] at hr
    split at hr
    · cases hr
      omega
    · exact Nat.lt_succ_of_lt (h.valid id r hr)
  apart id id' r r' hr hr' hsame := by
    rw [get?_creating] at hr hr'
    split at hr <;> split at hr'
    next hid hid' => exact hid.trans hid'.symm
    · cases hr
      have hlt := h.valid id' r' hr'
      omega
    · cases hr'
      have hlt := h.valid id r hr
      omega
    · exact h.apart id id' r r' hr hr' hsame
  tasks id task htask := by
    rw [get?_creating]
    split
    · rfl
    next hid =>
      rcases List.mem_append.mp htask with htask | htask
      · exact h.tasks id task htask
      · cases List.mem_singleton.mp htask
        exact absurd rfl hid
  logged id r hr := by
    show ∃ given first, (w.created.set run.runId params).get? id = some given ∧
      (w.first.set run.runId _).get? id = some first ∧ SameParams given first
    rw [get?_creating] at hr
    rw [Dict.get?_set, Dict.get?_set]
    split at hr
    next hid =>
      rw [if_pos hid, if_pos hid]
      exact ⟨_, _, rfl, rfl, hchain⟩
    next hid =>
      rw [if_neg hid, if_neg hid]
      exact h.logged id r hr
  handled id found hfound := by
    rw [get?_creating]
    split
    · rfl
    · exact h.handled id found hfound
  recorded id r hr := by
    show ∃ given, (w.created.set run.runId params).get? id = some given ∧ _
    rw [get?_creating] at hr
    rw [Dict.get?_set]
    split at hr
    next hid =>
      cases hr
      rw [if_pos hid, hobject, contents_creating_self]
      exact ⟨params, rfl, .refl params⟩
    next hid =>
      rw [if_neg hid, contents_creating (h.valid id r hr)]
      exact h.recorded id r hr
  repeated id found hfound := by
    show ∃ first, (w.first.set run.runId _).get? id = some first ∧ _
    obtain ⟨r, hr⟩ := Option.isSome_iff_exists.mp (h.handled id found hfound)
    rw [Dict.get?_set, if_neg (ne_of_stored hnew hr)]
    exact h.repeated id found hfound

/-- What a task changes of the objects: that of its run. -/
theorem Handled.contents (h : Handled w runId handler run w') (hlt : run.params < w.objects.length)
    (object : Nat) : w'.contents object =
      if object = run.params then (handler (w.contents run.params)).2 else w.contents object := by
  rw [SharedWorld.contents, h.objects]
  split
  next heq => rw [heq, List.getElem?_set_self hlt, Option.getD_some]
  next hne => rw [List.getElem?_set_ne (Ne.symm hne), SharedWorld.contents]

/-- **A task that is performed** leaves each run its object. -/
theorem Handled.owned (h : Handled w runId handler run w') (hw : Owned w)
    (hrun : w.runs.get? runId = some run) : Owned w' := by
  have hkey := hw.keyed runId run hrun
  have hsome : ∀ id, (w.runs.get? id).isSome → (w'.runs.get? id).isSome := by
    intro id hstored
    rw [h.runs]
    split
    · rfl
    · exact hstored
  -- a record is that of before, or that of the task, with the same object
  have hback : ∀ id r, w'.runs.get? id = some r →
      ∃ r₀, w.runs.get? id = some r₀ ∧ r.params = r₀.params ∧ r.runId = id := by
    intro id r hr
    rw [h.runs] at hr
    split at hr
    next hid =>
      cases hr
      exact ⟨run, hid ▸ hrun, run.ended_params _, (run.ended_runId _).trans (hkey.trans hid.symm)⟩
    · exact ⟨r, hr, rfl, hw.keyed id r hr⟩
  refine ⟨fun id r hr => ?_, fun id r hr => ?_, fun id id' r r' hr hr' hsame => ?_,
    fun id task htask => ?_, fun id r hr => ?_, fun id found hfound => ?_⟩
  · obtain ⟨-, -, -, hkey⟩ := hback id r hr
    exact hkey
  · obtain ⟨r₀, hr₀, hparams, -⟩ := hback id r hr
    rw [h.objects, List.length_set, hparams]
    exact hw.valid id r₀ hr₀
  · obtain ⟨r₀, hr₀, hparams, -⟩ := hback id r hr
    obtain ⟨r₀', hr₀', hparams', -⟩ := hback id' r' hr'
    exact hw.apart id id' r₀ r₀' hr₀ hr₀' (by rw [← hparams, ← hparams', hsame])
  · rw [h.pending] at htask
    exact hsome id (hw.tasks id task htask)
  · obtain ⟨r₀, hr₀, -⟩ := hback id r hr
    rw [h.created, h.first]
    exact hw.logged id r₀ hr₀
  · rw [h.executed] at hfound
    rcases List.mem_append.mp hfound with hfound | hfound
    · exact hsome id (hw.handled id found hfound)
    · cases List.mem_singleton.mp hfound
      exact hsome runId (by rw [hrun]; rfl)

/-- **The parameters repeat exactly if the handler leaves them.** -/
theorem Handled.repeats (h : Handled w runId handler run w') (hw : Faithful w)
    (hrun : w.runs.get? runId = some run) :
    Repeats w' ↔ SameParams (handler (w.contents run.params)).2 (w.contents run.params) := by
  have hlt := hw.valid runId run hrun
  obtain ⟨given, hgiven, hsame⟩ := hw.recorded runId run hrun
  constructor
  · intro hrepeats
    obtain ⟨given', hgiven', hsame'⟩ :=
      hrepeats.recorded runId _ ((h.runs runId).trans (if_pos rfl))
    rw [h.created, hgiven] at hgiven'
    cases hgiven'
    rw [run.ended_params, h.contents hlt, if_pos rfl] at hsame'
    exact hsame'.trans hsame.symm
  · intro hleaves
    refine ⟨fun id r hr => ?_, fun id found hfound => ?_⟩
    · rw [h.runs] at hr
      rw [h.created, h.contents hlt]
      split at hr
      next hid =>
        cases hr
        rw [hid, if_pos (run.ended_params _)]
        exact ⟨given, hgiven, hleaves.trans hsame⟩
      next hid =>
        rw [if_neg fun hobject => hid (hw.apart id runId r run hr hrun hobject)]
        exact hw.recorded id r hr
    · rw [h.first]
      rw [h.executed] at hfound
      rcases List.mem_append.mp hfound with hfound | hfound
      · exact hw.repeated id found hfound
      · cases List.mem_singleton.mp hfound
        obtain ⟨given', first, hgiven', hfirst, hsame'⟩ := hw.logged runId run hrun
        rw [hgiven] at hgiven'
        cases hgiven'
        exact ⟨first, hfirst, hsame.trans hsame'⟩

/-- A run that is created, or a call that raises. -/
theorem Faithful.afterRun (h : Faithful w) {newId name : String} {given : Option (Dict String V)}
    {rerunOf owner : Option String} (hnew : w.runs.get? newId = none)
    (hchain : SameParams (given.getD ∅) ((chain.bind w.first.get?).getD (given.getD ∅))) :
    Faithful (runShared newId chain name given rerunOf owner w).2 := by
  rw [runShared_eq]
  cases w.registry.get? name with
  | none => exact h
  | some handler => exact h.creating hnew rfl hchain

/-- `rerun` copies what the object holds, which is what the chain began with. -/
theorem Faithful.afterRerun (h : Faithful w) {newId : String} (hnew : w.runs.get? newId = none)
    (runId : String) : Faithful (rerunShared newId runId w).2 := by
  rcases rerunShared_cases newId runId w with heq | ⟨old, hold, heq⟩
  · rw [heq]
    exact h
  · obtain ⟨given, hgiven, hsame⟩ := h.recorded runId old hold
    obtain ⟨given', first, hgiven', hfirst, hsame'⟩ := h.logged runId old hold
    rw [hgiven] at hgiven'
    cases hgiven'
    rw [heq]
    apply h.afterRun hnew
    rw [Option.bind_some, hfirst]
    exact hsame.trans hsame'

theorem Faithful.same (h : Faithful w) (registry : Dict String (SharedHandler V))
    {pending : List (String × SharedHandler V)} (hpending : pending ⊆ w.pending) :
    Faithful { w with registry, pending } where
  keyed := h.keyed
  valid := h.valid
  apart := h.apart
  tasks id task htask := h.tasks id task (hpending htask)
  logged := h.logged
  handled := h.handled
  recorded := h.recorded
  repeated := h.repeated

/-- The executor performs a task of a stored run. -/
theorem stepShared_work {i : Nat} (hstep : stepShared (.work i) w = some w') (h : Owned w) :
    ∃ runId handler run, w.pending[i]? = some (runId, handler) ∧
      Handled { w with pending := w.pending.eraseIdx i } runId handler run w' ∧
      w.runs.get? runId = some run := by
  rw [stepShared] at hstep
  cases htask : w.pending[i]? with
  | none =>
    rw [htask] at hstep
    cases hstep
  | some task =>
    obtain ⟨runId, handler⟩ := task
    rw [htask] at hstep
    cases hstep
    obtain ⟨run, hrun⟩ := Option.isSome_iff_exists.mp
      (h.tasks runId handler (List.mem_of_getElem? htask))
    exact ⟨runId, handler, run, rfl, executeShared_handled handler hrun (h.keyed runId run hrun),
      hrun⟩

/-- **One action**: the parameters go on repeating exactly if the handler leaves its mapping. -/
theorem stepShared_faithful {a : SharedAction V} (hstep : stepShared a w = some w')
    (h : Faithful w) : (Repeats w' ↔ LeavesParams w a) ∧ (Repeats w' → Faithful w') := by
  cases a with
  | register name handler =>
    cases hstep
    have hkept := h.same (w.registry.set name handler) (List.Subset.refl w.pending)
    exact ⟨iff_of_true hkept.toRepeats trivial, fun _ => hkept⟩
  | run newId name params rerunOf owner =>
    rw [stepShared] at hstep
    split at hstep
    · cases hstep
    next hnew =>
      cases hstep
      have hkept : Faithful (runShared newId none name params rerunOf owner w).2 :=
        h.afterRun (Option.not_isSome_iff_eq_none.mp hnew) (.refl (params.getD ∅))
      exact ⟨iff_of_true hkept.toRepeats trivial, fun _ => hkept⟩
  | rerun newId runId =>
    rw [stepShared] at hstep
    split at hstep
    · cases hstep
    next hnew =>
      cases hstep
      have hkept := h.afterRerun (Option.not_isSome_iff_eq_none.mp hnew) runId
      exact ⟨iff_of_true hkept.toRepeats trivial, fun _ => hkept⟩
  | work i =>
    obtain ⟨runId, handler, run, htask, hhandled, hrun⟩ := stepShared_work hstep h.toOwned
    have htaken := h.same w.registry (List.eraseIdx_subset (l := w.pending) (k := i))
    refine ⟨(hhandled.repeats htaken hrun).trans
      ⟨fun hleaves runId' handler' run' htask' hrun' => ?_,
        fun hleaves => hleaves runId handler run htask hrun⟩,
      fun hkept => ⟨hhandled.owned htaken.toOwned hrun, hkept⟩⟩
    rw [htask] at htask'
    cases htask'
    rw [hrun] at hrun'
    cases hrun'
    exact hleaves

end Keeps

/-! ## By value -/

/-- A record and what its object holds, as a record of `Service.lean`. -/
structure ByValue (w : SharedWorld V) (run : SharedRun V) (r : WorkflowRun V) : Prop where
  runId : r.runId = run.runId
  name : r.name = run.name
  params : r.params = w.contents run.params
  status : r.status = run.status
  result : r.result = run.result
  error : r.error = run.error
  rerunOf : r.rerunOf = run.rerunOf
  owner : r.ownerWorkspaceId = run.ownerWorkspaceId

/-- **A handler that leaves its mapping** is run, at once, as `Service.lean` runs it. -/
theorem inline_by_value {Q ε : Type} {S : WorkflowService V Q ε}
    {f : Dict String V → Except HandlerError (Option V)} {name : String}
    (hS : S.registry.get? name = some fun params _ => .ret (f params)) {w : SharedWorld V}
    (hw : w.registry.get? name = some fun params => (f params, params)) (hidle : w.pending = [])
    {W : WorkflowWorld V ε} (hnew : w.runs.get? (W.ids W.drawn) = none) (fuel : Nat)
    (params : Option (Dict String V)) (rerunOf owner : Option String) :
    ∃ w₁ w₂ run r, stepShared (.run (W.ids W.drawn) name params rerunOf owner) w = some w₁ ∧
      stepShared (.work 0) w₁ = some w₂ ∧ w₂.runs.get? (W.ids W.drawn) = some run ∧
      (S.run (fuel + 1) name params rerunOf owner W).1 = .ok r ∧ ByValue w₂ run r := by
  let handler : SharedHandler V := fun params => (f params, params)
  let run : SharedRun V :=
    { runId := W.ids W.drawn, name, params := w.objects.length, rerunOf
      ownerWorkspaceId := owner }
  let w₁ := w.creating run handler none (params.getD ∅)
  have hrun : w₁.runs.get? run.runId = some run := (get?_creating _).trans (if_pos rfl)
  have hpending : w₁.pending = [(run.runId, handler)] := by
    show w.pending ++ [(run.runId, handler)] = _
    rw [hidle, List.nil_append]
  have hcontents : w₁.contents run.params = params.getD ∅ := contents_creating_self
  have hcreate : stepShared (.run (W.ids W.drawn) name params rerunOf owner) w = some w₁ := by
    rw [stepShared, if_neg (by rw [hnew]; exact Bool.false_ne_true), runShared_eq, hw]
  let taken : SharedWorld V := { w₁ with pending := w₁.pending.eraseIdx 0 }
  let w₂ := (executeShared run.runId handler taken).2
  have hwork : stepShared (.work 0) w₁ = some w₂ := by
    simp only [stepShared, hpending, List.getElem?_cons_zero, w₂, taken]
  have hhandled : Handled taken run.runId handler run w₂ := executeShared_handled handler hrun rfl
  -- the same handler in the world of `Service.lean`
  let r := W.newRun name params rerunOf owner
  have hstarted : (W.creating r).store.get? r.runId = some r :=
    (get?_saving _ _ _).trans (if_pos rfl)
  let r₁ := r.withStatus .running (W.clock W.tick)
  let W₁ := ({ W.creating r with tick := W.tick + 1 } : WorkflowWorld V ε).saving r₁
  have hstart : updateRun r.runId (fun r now => r.withStatus .running now) (W.creating r) =
      (.ok (), W₁) := updateRun_found hstarted
  have hrunning : W₁.store.get? r.runId = some r₁ := (get?_saving _ _ _).trans (if_pos rfl)
  have hexecute : S.execute (fuel + 1) r.runId (fun params _ => .ret (f params)) (W.creating r) =
      recordAnswer r.runId (f r.params) W₁ :=
    (Act.bind_of_ok hstart).trans
      ((Act.bind_of_ok (getRun_eq_ok.mpr ⟨hrunning, rfl⟩)).trans (Act.bind_of_ok rfl))
  have hends : ∀ change : WorkflowRun V → PyFloat → WorkflowRun V,
      (∀ now, (change r₁ now).runId = r.runId) →
      (recordAnswer r.runId (f r.params) : Wf V ε Unit) = updateRun r.runId change →
      (S.run (fuel + 1) name params rerunOf owner W).1 = .ok (change r₁ (W₁.clock W₁.tick)) := by
    intro change hid hrecord
    have hdone := hexecute.trans ((congrFun hrecord W₁).trans (updateRun_found hrunning))
    rw [WorkflowService.run, runWith_created hS]
    have hget : (getRun r.runId (({ W₁ with tick := W₁.tick + 1 } : WorkflowWorld V ε).saving
        (change r₁ (W₁.clock W₁.tick)))).1 = .ok (change r₁ (W₁.clock W₁.tick)) := by
      rw [getRun_eq_ok.mpr ⟨(get?_saving _ _ _).trans (if_pos (hid _).symm), rfl⟩]
    exact (congrArg Prod.fst (Act.bind_of_ok hdone)).trans hget
  have hstored : w₂.runs.get? run.runId = some (run.ended (f (params.getD ∅))) := by
    rw [← hcontents]
    exact (hhandled.runs run.runId).trans (if_pos rfl)
  have hlt : run.params < w₁.objects.length := by
    show w.objects.length < (w.objects ++ [params.getD ∅]).length
    rw [List.length_append, List.length_singleton]
    exact Nat.lt_succ_self _
  have hleft := hhandled.contents hlt run.params
  rw [if_pos rfl] at hleft
  have hparams : r.params = params.getD ∅ := rfl
  rw [hparams] at hends
  cases houtcome : f (params.getD ∅) with
  | error exc =>
    rw [houtcome] at hstored
    rw [houtcome] at hends
    refine ⟨w₁, w₂, _, _, hcreate, hwork, hstored, hends _ (fun _ => rfl) rfl, rfl, rfl, ?_, rfl,
      rfl, rfl, rfl, rfl⟩
    exact hcontents.symm.trans hleft.symm
  | ok result =>
    rw [houtcome] at hstored
    rw [houtcome] at hends
    refine ⟨w₁, w₂, _, _, hcreate, hwork, hstored, hends _ (fun _ => rfl) rfl, rfl, rfl, ?_, rfl,
      rfl, rfl, rfl, rfl⟩
    exact hcontents.symm.trans hleft.symm

/-! ## The law -/

theorem faithful_start : Faithful ({} : SharedWorld V) where
  keyed _ _ hr := by cases hr
  valid _ _ hr := by cases hr
  apart _ _ _ _ hr := by cases hr
  tasks _ _ htask := by cases htask
  logged _ _ hr := by cases hr
  handled _ _ hfound := by cases hfound
  recorded _ _ hr := by cases hr
  repeated _ _ hfound := by cases hfound

/-- **Reruns repeat the original request exactly if the handlers leave it.** In every run of the
service, the recorded parameters stay what they were at the creation of each run and every handler
finds those of the first run of its chain, throughout, exactly if every task that is performed
leaves its mapping as it finds it. -/
theorem params_repeat_iff {actions : List (SharedAction V)} {w : SharedWorld V}
    (hrun : Run stepShared {} actions w) :
    (∀ before w', before <+: actions → Run stepShared {} before w' → Repeats w') ↔
      ∀ before a w', before ++ [a] <+: actions → Run stepShared {} before w' →
        LeavesParams w' a := by
  rw [Run.throughout_congr (fun w' (h : Faithful w') => h.toRepeats)
    (fun hstep h hrepeats => (stepShared_faithful hstep h).2 hrepeats) faithful_start]
  exact hrun.throughout_iff (fun hstep h =>
    ⟨fun h' => (stepShared_faithful hstep h).1.mp h'.toRepeats,
      fun hleaves => (stepShared_faithful hstep h).2 ((stepShared_faithful hstep h).1.mpr hleaves)⟩)
    faithful_start

/-- A handler that leaves every mapping as it finds it. -/
def SharedHandler.Reads (handler : SharedHandler V) : Prop :=
  ∀ params, SameParams (handler params).2 params

/-- All handlers that may be called only read. -/
structure AllRead (w : SharedWorld V) : Prop where
  registry : ∀ name handler, w.registry.get? name = some handler → SharedHandler.Reads handler
  pending : ∀ runId handler, (runId, handler) ∈ w.pending → SharedHandler.Reads handler

theorem AllRead.leavesParams {w : SharedWorld V} (h : AllRead w) (a : SharedAction V) :
    LeavesParams w a := by
  cases a with
  | work i =>
    intro runId handler run htask _
    exact h.pending runId handler (List.mem_of_getElem? htask) _
  | _ => trivial

theorem AllRead.afterRun {w : SharedWorld V} (h : AllRead w) (newId : String)
    (chain : Option String) (name : String) (params : Option (Dict String V))
    (rerunOf owner : Option String) :
    AllRead (runShared newId chain name params rerunOf owner w).2 := by
  rw [runShared_eq]
  cases hname : w.registry.get? name with
  | none => exact h
  | some handler =>
    refine ⟨h.registry, fun runId handler' htask => ?_⟩
    rcases List.mem_append.mp htask with htask | htask
    · exact h.pending runId handler' htask
    · cases List.mem_singleton.mp htask
      exact h.registry name handler hname

theorem AllRead.step {w w' : SharedWorld V} {a : SharedAction V} (h : AllRead w)
    (hstep : stepShared a w = some w')
    (ha : ∀ name handler, a = .register name handler → SharedHandler.Reads handler)
    (hw : Faithful w) : AllRead w' := by
  cases a with
  | register name handler =>
    cases hstep
    refine ⟨fun name' handler' hname => ?_, h.pending⟩
    change (w.registry.set name handler).get? name' = some handler' at hname
    rw [Dict.get?_set] at hname
    split at hname
    · cases hname
      exact ha name handler rfl
    · exact h.registry name' handler' hname
  | run newId name params rerunOf owner =>
    rw [stepShared] at hstep
    split at hstep
    · cases hstep
    · cases hstep
      exact h.afterRun newId none name params rerunOf owner
  | rerun newId runId =>
    rw [stepShared] at hstep
    split at hstep
    · cases hstep
    · cases hstep
      rcases rerunShared_cases newId runId w with heq | ⟨old, -, heq⟩
      · rw [heq]
        exact h
      · rw [heq]
        exact h.afterRun newId (some runId) old.name _ _ _
  | work i =>
    obtain ⟨runId, handler, run, -, hhandled, -⟩ := stepShared_work hstep hw.toOwned
    refine ⟨fun name handler' hname => ?_, fun runId' handler' htask => ?_⟩
    · rw [hhandled.registry] at hname
      exact h.registry name handler' hname
    · rw [hhandled.pending] at htask
      exact h.pending runId' handler' (List.eraseIdx_subset htask)

/-- **Handlers that only read** leave the parameters, in every run. -/
theorem leavesParams_of_reads {actions : List (SharedAction V)} {w : SharedWorld V}
    (hrun : Run stepShared {} actions w)
    (hreads : ∀ name handler, .register name handler ∈ actions → SharedHandler.Reads handler) :
    Faithful w ∧ AllRead w := by
  induction hrun with
  | nil =>
    refine ⟨faithful_start, fun _ _ hname => ?_, fun _ _ htask => ?_⟩
    · cases hname
    · cases htask
  | snoc earlier last ih =>
    obtain ⟨hfaithful, hall⟩ := ih fun name handler hmem =>
      hreads name handler (List.mem_append_left _ hmem)
    obtain ⟨hiff, hkept⟩ := stepShared_faithful last hfaithful
    refine ⟨hkept (hiff.mpr (hall.leavesParams _)), hall.step last (fun name handler ha => ?_)
      hfaithful⟩
    subst ha
    exact hreads name handler (List.mem_append_right _ List.mem_cons_self)

/-- A handler that reads a parameter. -/
def readingHandler : SharedHandler String := fun params => (.ok (params.get? "k"), params)

/-- A handler that takes it out of the mapping. -/
def poppingHandler : SharedHandler String := fun params =>
  (.ok (params.get? "k"), params.filterKeys (· ≠ "k"))

/-- A program that registers a handler, runs it and reruns that run. -/
def rerunOnce (handler : SharedHandler String) : List (SharedAction String) :=
  [.register "wf" handler, .run "r1" "wf" (some (Dict.empty.set "k" "v")) none none, .work 0,
    .rerun "r2" "r1", .work 0]

/-- A handler that reads leaves the parameters, run after run. -/
theorem params_repeat_iff_reading : ∃ w, Run stepShared {} (rerunOnce readingHandler) w ∧
    ∀ before w', before <+: rerunOnce readingHandler → Run stepShared {} before w' →
      Repeats w' := by
  have hrun : ∃ w, Run stepShared {} (rerunOnce readingHandler) w :=
    ⟨_, .cons rfl (.cons rfl (.cons rfl (.cons rfl (.cons rfl .nil))))⟩
  obtain ⟨w, hrun⟩ := hrun
  refine ⟨w, hrun, (params_repeat_iff hrun).mpr fun before a w' hpre hbefore => ?_⟩
  refine (leavesParams_of_reads hbefore fun name handler hmem => ?_).2.leavesParams a
  have hmem := hpre.subset (List.mem_append_left [a] hmem)
  simp only [rerunOnce, List.mem_cons, SharedAction.register.injEq, reduceCtorEq,
    List.not_mem_nil, or_false] at hmem
  rw [hmem.2]
  exact fun params => .refl params

/-- The recorded parameters are gone, and the rerun asks for none. -/
theorem popped_params_change : ∃ w, Run stepShared {} (rerunOnce poppingHandler) w ∧
    (w.created.get? "r1").map (·.get? "k") = some (some "v") ∧
    (w.runs.get? "r1").map (fun run => (w.contents run.params).get? "k") = some none ∧
    (w.executed.map fun e => (e.1, e.2.get? "k")) = [("r1", some "v"), ("r2", none)] ∧
    ¬ Repeats w := by
  obtain ⟨w, hrun, hcreated, hrecorded, hexecuted⟩ : ∃ w,
      Run stepShared {} (rerunOnce poppingHandler) w ∧
        (w.created.get? "r1").map (·.get? "k") = some (some "v") ∧
        (w.runs.get? "r1").map (fun run => (w.contents run.params).get? "k") = some none ∧
        (w.executed.map fun e => (e.1, e.2.get? "k")) = [("r1", some "v"), ("r2", none)] :=
    ⟨_, .cons rfl (.cons rfl (.cons rfl (.cons rfl (.cons rfl .nil)))), by decide +kernel,
      by decide +kernel, by decide +kernel⟩
  refine ⟨w, hrun, hcreated, hrecorded, hexecuted, fun h => ?_⟩
  obtain ⟨run, hfound, hgone⟩ := Option.map_eq_some_iff.mp hrecorded
  obtain ⟨given, hgiven, hsame⟩ := h.recorded "r1" run hfound
  rw [hgiven, Option.map_some, ← hsame "k", hgone] at hcreated
  cases hcreated

end ClawEngine.Workflows
