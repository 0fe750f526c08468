import ClawEngine.Workflows.Service
import Mathlib.Data.List.Destutter

/-!
# The life of a run

Every record the service saves is a step of its run's life: created pending, then running, then
finished, with progress added in between. A handler may call the service again while its own run is
running; what it does leaves the status of every run that was there before alone (`Framed`), so the
run is still running when the handler ends.
-/

set_option autoImplicit false

namespace ClawEngine.Workflows

open ClawEngine.Core ClawEngine.Core.Act

variable {V Q ε : Type}

/-! ## Steps of a life -/

/-- The status a save may leave after another. -/
inductive StatusStep : WorkflowStatus → WorkflowStatus → Prop
  | same (s : WorkflowStatus) : StatusStep s s
  | start : StatusStep .pending .running
  | finish {s : WorkflowStatus} (h : s.isTerminal = true) : StatusStep .running s

/-- Of the result and the error a record holds what its status says. -/
structure WorkflowRun.Sound (run : WorkflowRun V) : Prop where
  success : run.status = .success → run.error = none
  failed : run.status = .failed → run.result = none
  unfinished : run.status.isTerminal = false → run.result = none ∧ run.error = none

/-- The same run, with its progress so far. -/
structure SameRun (r r' : WorkflowRun V) : Prop where
  runId : r'.runId = r.runId
  name : r'.name = r.name
  rerunOf : r'.rerunOf = r.rerunOf
  owner : r'.ownerWorkspaceId = r.ownerWorkspaceId
  progress : r.progress <+: r'.progress

/-- The same run with the same outcome. -/
structure Kept (r r' : WorkflowRun V) : Prop extends SameRun r r' where
  status : r'.status = r.status
  result : r'.result = r.result
  error : r'.error = r.error

/-- What one save may make of a record. -/
structure Advances (r r' : WorkflowRun V) : Prop extends SameRun r r' where
  step : StatusStep r.status r'.status
  outcome : r.status.isTerminal = true → r'.result = r.result ∧ r'.error = r.error

section Steps

variable {r r' r'' : WorkflowRun V}

theorem StatusStep.of_terminal {s s' : WorkflowStatus} (h : StatusStep s s')
    (hs : s.isTerminal = true) : s' = s := by
  cases h with
  | same => rfl
  | start => cases hs
  | finish _ => cases hs

theorem SameRun.refl (r : WorkflowRun V) : SameRun r r := ⟨rfl, rfl, rfl, rfl, List.prefix_refl _⟩

theorem SameRun.trans (h : SameRun r r') (h' : SameRun r' r'') : SameRun r r'' :=
  ⟨h'.runId.trans h.runId, h'.name.trans h.name, h'.rerunOf.trans h.rerunOf,
    h'.owner.trans h.owner, h.progress.trans h'.progress⟩

theorem Kept.refl (r : WorkflowRun V) : Kept r r := ⟨.refl r, rfl, rfl, rfl⟩

theorem Kept.trans (h : Kept r r') (h' : Kept r' r'') : Kept r r'' :=
  ⟨h.toSameRun.trans h'.toSameRun, h'.status.trans h.status, h'.result.trans h.result,
    h'.error.trans h.error⟩

theorem Kept.advances (h : Kept r r') : Advances r r' :=
  ⟨h.toSameRun, h.status ▸ .same _, fun _ => ⟨h.result, h.error⟩⟩

theorem Kept.sound (h : Kept r r') (hr : r.Sound) : r'.Sound where
  success hs := h.error.trans (hr.success (h.status.symm.trans hs))
  failed hs := h.result.trans (hr.failed (h.status.symm.trans hs))
  unfinished hs := by
    rw [h.result, h.error]
    exact hr.unfinished (h.status ▸ hs)

theorem withProgress_kept (run : WorkflowRun V) (event : ProgressEvent) (now : PyFloat) :
    Kept run (run.withProgress event now) :=
  ⟨⟨rfl, rfl, rfl, rfl, List.prefix_append _ _⟩, rfl, rfl, rfl⟩

theorem withStatus_running (hr : r.Sound) (hs : r.status = .pending) (now : PyFloat) :
    Advances r (r.withStatus .running now) ∧ (r.withStatus .running now).Sound := by
  have hfields := hr.unfinished (by rw [hs]; rfl)
  refine ⟨⟨⟨rfl, rfl, rfl, rfl, List.prefix_refl _⟩, by rw [hs]; exact .start, fun _ => ⟨rfl, rfl⟩⟩,
    nofun, nofun, fun _ => hfields⟩

theorem withError_failed (hs : r.status = .running) (error : String) (now : PyFloat) :
    Advances r (r.withError error now) ∧ (r.withError error now).Sound := by
  refine ⟨⟨⟨rfl, rfl, rfl, rfl, List.prefix_refl _⟩, ?_, fun hterm => ?_⟩, nofun, fun _ => rfl, nofun⟩
  · rw [hs]
    exact .finish rfl
  · rw [hs] at hterm
    cases hterm

theorem withResult_success (hs : r.status = .running) (result : Option V) (now : PyFloat) :
    Advances r (r.withResult result now) ∧ (r.withResult result now).Sound := by
  refine ⟨⟨⟨rfl, rfl, rfl, rfl, List.prefix_refl _⟩, ?_, fun hterm => ?_⟩, fun _ => rfl, nofun, nofun⟩
  · rw [hs]
    exact .finish rfl
  · rw [hs] at hterm
    cases hterm

end Steps

/-! ## Lives -/

/-- The records saved under an id, oldest first. -/
def recordsOf (saved : List (WorkflowRun V)) (runId : String) : List (WorkflowRun V) :=
  saved.filter (·.runId = runId)

/-- A life so far: created pending, and each record a step from the one before. -/
structure Life (records : List (WorkflowRun V)) : Prop where
  created : ∀ r, records.head? = some r → r.status = .pending
  steps : records.IsChain Advances

section Lives

variable {saved : List (WorkflowRun V)} {runId : String} {r r' : WorkflowRun V}

theorem recordsOf_snoc (saved : List (WorkflowRun V)) (r : WorkflowRun V) (runId : String) :
    recordsOf (saved ++ [r]) runId =
      if r.runId = runId then recordsOf saved runId ++ [r] else recordsOf saved runId := by
  simp only [recordsOf, List.filter_append, List.filter_cons, List.filter_nil, decide_eq_true_eq]
  split <;> simp only [List.append_nil]

theorem recordsOf_eq_nil : recordsOf saved runId = [] ↔ ∀ r ∈ saved, r.runId ≠ runId := by
  simp only [recordsOf, List.filter_eq_nil_iff, decide_eq_true_eq, ne_eq]

/-- One more record, a step from the last one. -/
theorem Life.snoc {records : List (WorkflowRun V)} (h : Life records)
    (hlast : records.getLast? = some r) (hstep : Advances r r') : Life (records ++ [r']) where
  created x hx := by
    refine h.created x ?_
    cases records with
    | nil => cases hlast
    | cons y ys => exact hx
  steps := by
    refine List.isChain_append.mpr ⟨h.steps, List.isChain_singleton _, ?_⟩
    intro x hx y hy
    rw [hlast] at hx
    cases hx
    cases hy
    exact hstep

/-- The first record of a life. -/
theorem Life.single (hs : r.status = .pending) : Life [r] :=
  ⟨fun x hx => by cases hx; exact hs, List.isChain_singleton _⟩

theorem destutter_terminal {s : WorkflowStatus} {l : List WorkflowStatus}
    (hs : s.isTerminal = true) (h : (s :: l).IsChain StatusStep) :
    l.destutter' (· ≠ ·) s = [s] := by
  induction l with
  | nil => rfl
  | cons s' l ih =>
    obtain ⟨hstep, hrest⟩ := List.isChain_cons_cons.mp h
    obtain rfl := hstep.of_terminal hs
    rw [List.destutter'_cons_neg _ (not_not.mpr rfl)]
    exact ih hrest

theorem destutter_running {l : List WorkflowStatus}
    (h : (WorkflowStatus.running :: l).IsChain StatusStep) :
    ∃ t : WorkflowStatus, t.isTerminal = true ∧
      l.destutter' (· ≠ ·) .running <+: [.running, t] := by
  induction l with
  | nil => exact ⟨.success, rfl, List.prefix_append [_] [_]⟩
  | cons s l ih =>
    obtain ⟨hstep, hrest⟩ := List.isChain_cons_cons.mp h
    cases hstep with
    | same =>
      rw [List.destutter'_cons_neg _ (not_not.mpr rfl)]
      exact ih hrest
    | finish hs =>
      have hne : WorkflowStatus.running ≠ s := by
        rintro rfl
        cases hs
      rw [List.destutter'_cons_pos _ hne, destutter_terminal hs hrest]
      exact ⟨s, hs, List.prefix_refl _⟩

theorem destutter_pending {l : List WorkflowStatus}
    (h : (WorkflowStatus.pending :: l).IsChain StatusStep) :
    ∃ t : WorkflowStatus, t.isTerminal = true ∧
      l.destutter' (· ≠ ·) .pending <+: [.pending, .running, t] := by
  induction l with
  | nil => exact ⟨.success, rfl, List.prefix_append [_] [_, _]⟩
  | cons s l ih =>
    obtain ⟨hstep, hrest⟩ := List.isChain_cons_cons.mp h
    cases hstep with
    | same =>
      rw [List.destutter'_cons_neg _ (not_not.mpr rfl)]
      exact ih hrest
    | start =>
      rw [List.destutter'_cons_pos _ nofun]
      obtain ⟨t, ht, hpre⟩ := destutter_running hrest
      exact ⟨t, ht, (List.prefix_cons_inj _).mpr hpre⟩

/-- **The distinct statuses of a life** are a prefix of pending, running, and a terminal one. -/
theorem Life.statuses {records : List (WorkflowRun V)} (h : Life records) :
    ∃ t : WorkflowStatus, t.isTerminal = true ∧
      (records.map (·.status)).destutter (· ≠ ·) <+: [.pending, .running, t] := by
  cases records with
  | nil => exact ⟨.success, rfl, List.nil_prefix⟩
  | cons r rest =>
    have hpending := h.created r rfl
    have hchain : (r.status :: rest.map (·.status)).IsChain StatusStep :=
      List.isChain_map_of_isChain (·.status) (fun _ _ hadv => hadv.step) h.steps
    rw [hpending] at hchain
    rw [List.map_cons, List.destutter_cons', hpending]
    exact destutter_pending hchain

/-- Later records of a life are of the same run, with more progress, and keep a terminal outcome. -/
theorem Life.pairs {records : List (WorkflowRun V)} (h : Life records) :
    records.Pairwise fun r r' => SameRun r r' ∧ (r.status.isTerminal = true → Kept r r') := by
  have htrans : ∀ {x y z : WorkflowRun V}, SameRun x y ∧ (x.status.isTerminal = true → Kept x y) →
      SameRun y z ∧ (y.status.isTerminal = true → Kept y z) →
      SameRun x z ∧ (x.status.isTerminal = true → Kept x z) := by
    rintro x y z ⟨hxy, hx⟩ ⟨hyz, hy⟩
    refine ⟨hxy.trans hyz, fun hterm => ?_⟩
    have hkept := hx hterm
    exact hkept.trans (hy (by rw [hkept.status]; exact hterm))
  have hchain : records.IsChain fun r r' =>
      SameRun r r' ∧ (r.status.isTerminal = true → Kept r r') := by
    refine h.steps.imp fun r r' hadv => ⟨hadv.toSameRun, fun hterm => ?_⟩
    exact ⟨hadv.toSameRun, hadv.step.of_terminal hterm, (hadv.outcome hterm).1,
      (hadv.outcome hterm).2⟩
  have : IsTrans (WorkflowRun V) fun r r' =>
      SameRun r r' ∧ (r.status.isTerminal = true → Kept r r') := ⟨fun _ _ _ => htrans⟩
  exact hchain.pairwise

end Lives

/-! ## What the service keeps -/

/-- Every record that reruns another came after a finished record of that run, of the same name and
owner. -/
def RerunsPoint (saved : List (WorkflowRun V)) : Prop :=
  ∀ before r after, saved = before ++ r :: after → ∀ old, r.rerunOf = some old →
    ∃ o ∈ before, o.runId = old ∧ o.status.isTerminal = true ∧ o.name = r.name ∧
      o.ownerWorkspaceId = r.ownerWorkspaceId

/-- The records saved so far are lives, and the store holds the last of each. Where callers leave
`rerun_of` to `rerun` (`plain`), it points back. -/
structure Valid (plain : Prop) (w : WorkflowWorld V ε) : Prop where
  latest : ∀ runId, w.store.get? runId = (recordsOf w.saved runId).getLast?
  lives : ∀ runId, Life (recordsOf w.saved runId)
  sound : ∀ r ∈ w.saved, r.Sound
  fresh : ∀ n, w.drawn ≤ n → ∀ r ∈ w.saved, r.runId ≠ w.ids n
  distinct : Function.Injective w.ids
  reruns : plain → RerunsPoint w.saved

/-- The runs that were there are still there, with more progress and the same outcome. -/
def Framed (w₀ w : WorkflowWorld V ε) : Prop :=
  ∀ runId r, w₀.store.get? runId = some r → ∃ r', w.store.get? runId = some r' ∧ Kept r r'

/-- Every run that was not there is finished, except perhaps one. -/
def NewFinished (except : Option String) (w₀ w : WorkflowWorld V ε) : Prop :=
  ∀ runId r, w.store.get? runId = some r → w₀.store.get? runId = none → except ≠ some runId →
    r.status.isTerminal = true

/-- The world after a save. -/
def WorkflowWorld.saving (w : WorkflowWorld V ε) (run : WorkflowRun V) : WorkflowWorld V ε :=
  { w with store := w.store.save run, saved := w.saved ++ [run] }

section Worlds

variable {plain : Prop} {w₀ w w' : WorkflowWorld V ε} {r r' : WorkflowRun V} {runId : String}

theorem get?_saving (w : WorkflowWorld V ε) (run : WorkflowRun V) (runId : String) :
    (w.saving run).store.get? runId = if runId = run.runId then some run else w.store.get? runId :=
  MemoryWorkflowStore.get?_save _ _ _

theorem Framed.refl (w : WorkflowWorld V ε) : Framed w w := fun _ r h => ⟨r, h, .refl r⟩

theorem Framed.trans {w₁ w₂ : WorkflowWorld V ε} (h : Framed w₀ w₁) (h' : Framed w₁ w₂) :
    Framed w₀ w₂ := by
  intro runId r hr
  obtain ⟨r₁, hr₁, hkept⟩ := h runId r hr
  obtain ⟨r₂, hr₂, hkept'⟩ := h' runId r₁ hr₁
  exact ⟨r₂, hr₂, hkept.trans hkept'⟩

/-- A save of a run that was not there, or with the same outcome. -/
theorem Framed.saving (h : Framed w₀ w) (hr : w.store.get? r'.runId = some r)
    (hnew : w₀.store.get? r'.runId = none ∨ Kept r r') : Framed w₀ (w.saving r') := by
  intro runId x hx
  obtain ⟨y, hy, hkept⟩ := h runId x hx
  rw [get?_saving]
  split
  next hid =>
    subst hid
    rcases hnew with hnone | hkept'
    · rw [hx] at hnone
      cases hnone
    · rw [hr] at hy
      cases hy
      exact ⟨r', rfl, hkept.trans hkept'⟩
  next => exact ⟨y, hy, hkept⟩

/-- Other fields of the world do not count. -/
theorem Valid.of_same (h : Valid plain w) (hstore : w'.store = w.store) (hsaved : w'.saved = w.saved)
    (hids : w'.ids = w.ids) (hdrawn : w.drawn ≤ w'.drawn) : Valid plain w' where
  latest := by rw [hstore, hsaved]; exact h.latest
  lives := by rw [hsaved]; exact h.lives
  sound := by rw [hsaved]; exact h.sound
  fresh n hn := by
    rw [hsaved, hids]
    exact h.fresh n (Nat.le_trans hdrawn hn)
  distinct := by rw [hids]; exact h.distinct
  reruns := by rw [hsaved]; exact h.reruns

/-- The record in the store is the last one saved. -/
theorem Valid.saved_of_get (h : Valid plain w) (hr : w.store.get? runId = some r) :
    r ∈ w.saved ∧ r.runId = runId := by
  rw [h.latest] at hr
  have hmem := List.mem_filter.mp (List.mem_of_getLast? hr)
  exact ⟨hmem.1, of_decide_eq_true hmem.2⟩

theorem RerunsPoint.snoc {saved : List (WorkflowRun V)} (h : RerunsPoint saved)
    (hlast : ∀ old, r.rerunOf = some old → ∃ o ∈ saved, o.runId = old ∧
      o.status.isTerminal = true ∧ o.name = r.name ∧ o.ownerWorkspaceId = r.ownerWorkspaceId) :
    RerunsPoint (saved ++ [r]) := by
  intro before x after hsplit old hold
  rcases List.eq_nil_or_concat after with rfl | ⟨after', y, rfl⟩
  · obtain ⟨rfl, hx⟩ := List.append_inj' hsplit rfl
    cases hx
    exact hlast old hold
  · rw [List.concat_eq_append, ← List.cons_append, ← List.append_assoc] at hsplit
    obtain ⟨rfl, -⟩ := List.append_inj' hsplit rfl
    exact h before x after' rfl old hold

/-- The first record of all reruns nothing. -/
theorem RerunsPoint.head {saved : List (WorkflowRun V)} (h : RerunsPoint saved) :
    saved.head?.bind (·.rerunOf) = none := by
  cases saved with
  | nil => rfl
  | cons r after =>
    refine Option.eq_none_iff_forall_ne_some.mpr fun old hold => ?_
    obtain ⟨o, ho, -⟩ := h [] r after rfl old hold
    cases ho

/-- A record of a run that points back at another does so with its later records too. -/
theorem RerunsPoint.again {saved : List (WorkflowRun V)} (h : RerunsPoint saved) (hr : r ∈ saved)
    (hsame : SameRun r r') : ∀ old, r'.rerunOf = some old → ∃ o ∈ saved, o.runId = old ∧
      o.status.isTerminal = true ∧ o.name = r'.name ∧
        o.ownerWorkspaceId = r'.ownerWorkspaceId := by
  intro old hold
  obtain ⟨before, after, rfl⟩ := List.append_of_mem hr
  obtain ⟨o, ho, hid, hterm, hname, howner⟩ := h before r after rfl old (hsame.rerunOf ▸ hold)
  exact ⟨o, List.mem_append_left _ ho, hid, hterm, hname.trans hsame.name.symm,
    howner.trans hsame.owner.symm⟩

/-- **A save that is a step of its run's life.** -/
theorem Valid.advance (h : Valid plain w) (hr : w.store.get? r'.runId = some r)
    (hadv : Advances r r') (hsound : r'.Sound) : Valid plain (w.saving r') where
  latest id := by
    rw [get?_saving]
    show _ = (recordsOf (w.saved ++ [r']) id).getLast?
    rw [recordsOf_snoc]
    by_cases hid : id = r'.runId
    · rw [if_pos hid, if_pos hid.symm, List.getLast?_concat]
    · rw [if_neg hid, if_neg (Ne.symm hid), h.latest]
  lives id := by
    show Life (recordsOf (w.saved ++ [r']) id)
    rw [recordsOf_snoc]
    split
    next hid =>
      subst hid
      rw [h.latest] at hr
      exact (h.lives _).snoc hr hadv
    next => exact h.lives id
  sound x hx := by
    rcases List.mem_append.mp hx with hx | hx
    · exact h.sound x hx
    · rw [List.mem_singleton.mp hx]
      exact hsound
  fresh n hn x hx := by
    rcases List.mem_append.mp hx with hx | hx
    · exact h.fresh n hn x hx
    · rw [List.mem_singleton.mp hx, hadv.runId]
      exact h.fresh n hn r (h.saved_of_get hr).1
  distinct := h.distinct
  reruns hplain := (h.reruns hplain).snoc ((h.reruns hplain).again (h.saved_of_get hr).1
    hadv.toSameRun)

/-- **The save of a new run.** -/
theorem Valid.create (h : Valid plain w) (hid : r.runId = w.ids w.drawn)
    (hstatus : r.status = .pending) (hsound : r.Sound)
    (hrerun : plain → ∀ old, r.rerunOf = some old → ∃ o ∈ w.saved, o.runId = old ∧
      o.status.isTerminal = true ∧ o.name = r.name ∧ o.ownerWorkspaceId = r.ownerWorkspaceId) :
    Valid plain ({ w with drawn := w.drawn + 1 }.saving r) where
  latest id := by
    rw [get?_saving]
    show _ = (recordsOf (w.saved ++ [r]) id).getLast?
    rw [recordsOf_snoc]
    by_cases hid : id = r.runId
    · rw [if_pos hid, if_pos hid.symm, List.getLast?_concat]
    · rw [if_neg hid, if_neg (Ne.symm hid)]
      exact h.latest id
  lives id := by
    show Life (recordsOf (w.saved ++ [r]) id)
    rw [recordsOf_snoc]
    split
    next heq =>
      have hnil : recordsOf w.saved id = [] := recordsOf_eq_nil.mpr fun x hx => by
        rw [← heq, hid]
        exact h.fresh _ (Nat.le_refl _) x hx
      rw [hnil]
      exact .single hstatus
    next => exact h.lives id
  sound x hx := by
    rcases List.mem_append.mp hx with hx | hx
    · exact h.sound x hx
    · rw [List.mem_singleton.mp hx]
      exact hsound
  fresh n hn x hx := by
    have hn : w.drawn < n := hn
    rcases List.mem_append.mp hx with hx | hx
    · exact h.fresh n (Nat.le_of_lt hn) x hx
    · rw [List.mem_singleton.mp hx, hid]
      exact fun heq => Nat.ne_of_lt hn (h.distinct heq)
  distinct := h.distinct
  reruns hplain := (h.reruns hplain).snoc (hrerun hplain)

/-- The next id names no run. -/
theorem Valid.next_missing (h : Valid plain w) : w.store.get? (w.ids w.drawn) = none := by
  cases hr : w.store.get? (w.ids w.drawn) with
  | none => rfl
  | some r =>
    obtain ⟨hmem, hid⟩ := h.saved_of_get hr
    exact absurd hid (h.fresh _ (Nat.le_refl _) r hmem)

end Worlds

/-! ## What one statement keeps -/

/-- The call is of `run` without `rerun_of`, or of something else. -/
def HandlerOp.Plain : HandlerOp V Q → Prop
  | .run _ _ rerunOf _ => rerunOf = none
  | _ => True

/-- A handler that leaves `rerun_of` to `rerun`. -/
def WorkflowHandler.Plain (handler : WorkflowHandler V Q) : Prop :=
  ∀ params runId, (handler params runId).Only HandlerOp.Plain

/-- All handlers of the service do. -/
def WorkflowService.Plain (S : WorkflowService V Q ε) : Prop :=
  ∀ name handler, S.registry.get? name = some handler → handler.Plain

/-- The code keeps what is valid, leaves the outcomes of earlier runs alone, and has finished every
run it created when it is through. -/
structure Serves (plain : Prop) {A : Type} (x : Wf V ε A) (w : WorkflowWorld V ε) : Prop where
  valid : Valid plain (x w).2
  framed : Framed w (x w).2
  finished : (x w).1 ≠ .error .outOfFuel → NewFinished none w (x w).2

section Statements

variable {A B : Type} {plain : Prop} {w : WorkflowWorld V ε} {r : WorkflowRun V} {runId : String}

theorem NewFinished.trans {w₀ w w' : WorkflowWorld V ε} (h : NewFinished none w₀ w)
    (hframed : Framed w w') (h' : NewFinished none w w') : NewFinished none w₀ w' := by
  intro runId r hr hnone hne
  cases hget : w.store.get? runId with
  | none => exact h' runId r hr hget hne
  | some x =>
    obtain ⟨y, hy, hkept⟩ := hframed runId x hget
    rw [hr] at hy
    cases hy
    rw [hkept.status]
    exact h runId x hget hnone hne

/-- A statement that leaves the store and the ids alone. -/
theorem Serves.of_same {x : Wf V ε A} (h : Valid plain w) (hstore : (x w).2.store = w.store)
    (hsaved : (x w).2.saved = w.saved) (hids : (x w).2.ids = w.ids)
    (hdrawn : (x w).2.drawn = w.drawn) : Serves plain x w where
  valid := h.of_same hstore hsaved hids (Nat.le_of_eq hdrawn.symm)
  framed runId r hr := ⟨r, by rw [hstore]; exact hr, .refl r⟩
  finished _ runId r hr hnone := by
    rw [hstore, hnone] at hr
    cases hr

theorem Serves.congr {x y : Wf V ε A} (h : Serves plain y w) (hxy : x w = y w) :
    Serves plain x w where
  valid := by rw [hxy]; exact h.valid
  framed := by rw [hxy]; exact h.framed
  finished := by rw [hxy]; exact h.finished

theorem Serves.getRun (h : Valid plain w) (runId : String) : Serves plain (getRun runId) w :=
  .of_same h rfl rfl rfl rfl

theorem Serves.timeNow (h : Valid plain w) : Serves plain timeNow w := .of_same h rfl rfl rfl rfl

theorem Serves.raise (h : Valid plain w) (e : Stop) : Serves plain (Act.raise e : Wf V ε A) w :=
  .of_same h rfl rfl rfl rfl

theorem Serves.bind {x : Wf V ε A} {f : A → Wf V ε B} (hx : Serves plain x w)
    (hf : ∀ a w', x w = (.ok a, w') → Serves plain (f a) w') : Serves plain (x >>= f) w := by
  rcases hout : x w with ⟨answer, w'⟩
  have hvalid := hx.valid
  have hframed := hx.framed
  have hfinished := hx.finished
  rw [hout] at hvalid hframed hfinished
  cases answer with
  | error e =>
    have heq : (x >>= f) w = (.error e, w') := bind_of_error hout
    refine ⟨?_, ?_, ?_⟩ <;> rw [heq]
    · exact hvalid
    · exact hframed
    · exact fun hfuel => hfinished fun he => hfuel (by cases he; rfl)
  | ok a =>
    have heq : (x >>= f) w = f a w' := bind_of_ok hout
    have hrest := hf a w' hout
    refine ⟨?_, ?_, ?_⟩ <;> rw [heq]
    · exact hrest.valid
    · exact hframed.trans hrest.framed
    · exact fun hfuel => (hfinished nofun).trans hrest.framed (hrest.finished hfuel)

/-- Code in a `try` that was not out of fuel. -/
theorem Serves.attempt {x : Wf V ε A} (h : Serves plain x w) (hfuel : (x w).1 ≠ .error .outOfFuel) :
    Serves plain (x.attempt : Wf V ε (Except Stop A)) w :=
  ⟨h.valid, h.framed, fun _ => h.finished hfuel⟩

/-- A save that keeps the outcome of a run. -/
theorem Serves.saveRun {r' : WorkflowRun V} (h : Valid plain w)
    (hr : w.store.get? r'.runId = some r) (hkept : Kept r r') : Serves plain (saveRun r') w where
  valid := h.advance hr hkept.advances (hkept.sound (h.sound r (h.saved_of_get hr).1))
  framed := (Framed.refl w).saving hr (.inr hkept)
  finished _ runId x hx hnone hne := by
    have hget : (w.saving r').store.get? runId = some x := hx
    rw [get?_saving] at hget
    split at hget
    next hid =>
      rw [hid, hr] at hnone
      cases hnone
    next =>
      rw [hnone] at hget
      cases hget

theorem getRun_eq_ok {w' : WorkflowWorld V ε} :
    getRun runId w = (.ok r, w') ↔ w.store.get? runId = some r ∧ w = w' := by
  rw [getRun, readE_eq_ok]
  cases w.store.get? runId <;> simp

/-- **A report keeps the outcome of the run.** -/
theorem Serves.reportProgress (h : Valid plain w) (runId message : String) (step : Option String)
    (fraction : Option PyFloat) : Serves plain (reportProgress runId message step fraction) w := by
  unfold Workflows.reportProgress
  split
  next => exact .raise h _
  next =>
    refine (Serves.getRun h runId).bind fun run w₁ hget => ?_
    obtain ⟨hrun, rfl⟩ := getRun_eq_ok.mp hget
    refine (Serves.timeNow h).bind fun ts w₁ hts => ?_
    cases hts
    have h₁ : Valid plain { w with tick := w.tick + 1 } := h.of_same rfl rfl rfl (Nat.le_refl _)
    refine (Serves.timeNow h₁).bind fun now w₂ hnow => ?_
    cases hnow
    have hid := (h.saved_of_get hrun).2
    subst hid
    exact .saveRun (h₁.of_same rfl rfl rfl (Nat.le_refl _)) hrun (withProgress_kept run _ _)

/-- An update of a run that is there. -/
theorem updateRun_found {change : WorkflowRun V → PyFloat → WorkflowRun V}
    (hr : w.store.get? runId = some r) :
    updateRun runId change w =
      (.ok (), ({ w with tick := w.tick + 1 } : WorkflowWorld V ε).saving
        (change r (w.clock w.tick))) := by
  unfold updateRun
  rw [bind_of_ok (getRun_eq_ok.mpr ⟨hr, rfl⟩)]
  rfl

/-- **An update that is a step of its run's life.** -/
theorem Valid.update (h : Valid plain w) (hr : w.store.get? runId = some r)
    (change : WorkflowRun V → PyFloat → WorkflowRun V)
    (hchange : ∀ now, Advances r (change r now) ∧ (change r now).Sound) :
    ∃ r' w', updateRun runId change w = (.ok (), w') ∧ Valid plain w' ∧
      (∀ id, w'.store.get? id = if id = runId then some r' else w.store.get? id) ∧
        ∃ now, r' = change r now := by
  obtain ⟨hadv, hsound⟩ := hchange (w.clock w.tick)
  have hid := (h.saved_of_get hr).2
  refine ⟨_, _, updateRun_found hr, ?_, fun id => ?_, w.clock w.tick, rfl⟩
  · have hticked : Valid plain { w with tick := w.tick + 1 } :=
      h.of_same rfl rfl rfl (Nat.le_refl _)
    refine hticked.advance ?_ hadv hsound
    rw [hadv.runId, hid]
    exact hr
  · rw [get?_saving, hadv.runId, hid]

end Statements

/-! ## Performing a handler -/

/-- What performing a pending run does: it ends finished, and for the others it is like any code of
the service. -/
structure Executes (plain : Prop) (x : Wf V ε Unit) (runId : String) (r : WorkflowRun V)
    (w : WorkflowWorld V ε) : Prop where
  valid : Valid plain (x w).2
  framed : ∀ id y, id ≠ runId → w.store.get? id = some y →
    ∃ y', (x w).2.store.get? id = some y' ∧ Kept y y'
  finished : (x w).1 ≠ .error .outOfFuel → (x w).1 = .ok () ∧ NewFinished none w (x w).2 ∧
    ∃ r', (x w).2.store.get? runId = some r' ∧ SameRun r r' ∧ r'.status.isTerminal = true

/-- `ex` performs every pending run so. -/
def Performs (plain : Prop) (ex : String → WorkflowHandler V Q → Wf V ε Unit) : Prop :=
  ∀ runId handler w r, (plain → handler.Plain) → Valid plain w → w.store.get? runId = some r →
    r.status = .pending → Executes plain (ex runId handler) runId r w

section Performing

variable {A : Type} {plain : Prop} {w : WorkflowWorld V ε} {r : WorkflowRun V} {runId : String}
  {S : WorkflowService V Q ε} {ex : String → WorkflowHandler V Q → Wf V ε Unit}

/-- The first of `_execute`'s saves. -/
theorem Valid.start (h : Valid plain w) (hr : w.store.get? runId = some r)
    (hs : r.status = .pending) :
    ∃ r' w', updateRun runId (fun run now => run.withStatus .running now) w = (.ok (), w') ∧
      Valid plain w' ∧ (SameRun r r' ∧ r'.status = .running) ∧
      ∀ id, w'.store.get? id = if id = runId then some r' else w.store.get? id := by
  have hsound := h.sound r (h.saved_of_get hr).1
  obtain ⟨r', w', hupdate, hvalid, hget, now, rfl⟩ :=
    h.update hr (fun run now => run.withStatus .running now)
      fun now => withStatus_running hsound hs now
  exact ⟨_, w', hupdate, hvalid, ⟨(withStatus_running hsound hs now).1.toSameRun, rfl⟩, hget⟩

/-- The last of `_execute`'s saves. -/
theorem Valid.finish {change : WorkflowRun V → PyFloat → WorkflowRun V} (h : Valid plain w)
    (hr : w.store.get? runId = some r)
    (hchange : ∀ now, (Advances r (change r now) ∧ (change r now).Sound) ∧
      (change r now).status.isTerminal = true) :
    ∃ r' w', updateRun runId change w = (.ok (), w') ∧ Valid plain w' ∧
      (SameRun r r' ∧ r'.status.isTerminal = true) ∧
      ∀ id, w'.store.get? id = if id = runId then some r' else w.store.get? id := by
  obtain ⟨r', w', hupdate, hvalid, hget, now, rfl⟩ := h.update hr change fun now => (hchange now).1
  exact ⟨_, w', hupdate, hvalid, ⟨(hchange now).1.1.toSameRun, (hchange now).2⟩, hget⟩

/-- The end of `_execute`: what the handler returned or raised is put in its run. -/
def recordAnswer (runId : String) : Except HandlerError (Option V) → Wf V ε Unit
  | .error exc => updateRun runId fun run now => run.withError (exc.typeName ++ ": " ++ exc.text) now
  | .ok result => updateRun runId fun run now => run.withResult result now

/-- **`_execute`, when what performs the handler serves.** -/
theorem executeWith_executes
    {perform : HandlerProg V Q (Except HandlerError (Option V)) →
      Wf V ε (Except HandlerError (Option V))} {handler : WorkflowHandler V Q}
    (hperform : ∀ params w, Valid plain w → Serves plain (perform (handler params runId)) w)
    (hraises : ∀ p w e, (perform p w).1 = .error e → e = .outOfFuel)
    (h : Valid plain w) (hr : w.store.get? runId = some r) (hs : r.status = .pending) :
    Executes plain (executeWith perform runId handler) runId r w := by
  obtain ⟨r₁, w₁, hstart, hvalid₁, ⟨hsame₁, hs₁⟩, hget₁⟩ := h.start hr hs
  have hr₁ : w₁.store.get? runId = some r₁ := by rw [hget₁, if_pos rfl]
  have hserves := hperform r₁.params w₁ hvalid₁
  have hexec : executeWith perform runId handler w =
      (perform (handler r₁.params runId) >>= recordAnswer runId) w₁ := by
    unfold executeWith
    exact (bind_of_ok hstart).trans (bind_of_ok (getRun_eq_ok.mpr ⟨hr₁, rfl⟩))
  -- what the handler left, of this run and of the others
  have hothers : ∀ id y, id ≠ runId → w.store.get? id = some y →
      ∃ y', (perform (handler r₁.params runId) w₁).2.store.get? id = some y' ∧ Kept y y' := by
    intro id y hne hy
    refine hserves.framed id y ?_
    rw [hget₁, if_neg hne]
    exact hy
  rcases hout : perform (handler r₁.params runId) w₁ with ⟨answer, w₂⟩
  have hvalid₂ := hserves.valid
  have hfinished := hserves.finished
  obtain ⟨r₂, hr₂, hkept⟩ := hserves.framed runId r₁ hr₁
  rw [hout] at hvalid₂ hfinished hr₂ hothers
  cases answer with
  | error e =>
    have heq := hexec.trans (bind_of_error hout)
    refine ⟨?_, ?_, ?_⟩ <;> rw [heq]
    · exact hvalid₂
    · exact hothers
    · rw [hraises _ w₁ e (by rw [hout])]
      exact fun hfuel => absurd rfl hfuel
  | ok answer =>
    have hs₂ : r₂.status = .running := hkept.status.trans hs₁
    obtain ⟨r₃, w₃, hfinish, hvalid₃, ⟨hsame₃, hterm⟩, hget₃⟩ :
        ∃ r₃ w₃, executeWith perform runId handler w = (.ok (), w₃) ∧ Valid plain w₃ ∧
          (SameRun r₂ r₃ ∧ r₃.status.isTerminal = true) ∧
          ∀ id, w₃.store.get? id = if id = runId then some r₃ else w₂.store.get? id := by
      rw [hexec, bind_of_ok hout]
      cases answer with
      | error exc => exact hvalid₂.finish hr₂ fun now => ⟨withError_failed hs₂ _ now, rfl⟩
      | ok result => exact hvalid₂.finish hr₂ fun now => ⟨withResult_success hs₂ _ now, rfl⟩
    refine ⟨?_, ?_, fun _ => ⟨?_, ?_, ?_⟩⟩ <;> rw [hfinish]
    · exact hvalid₃
    · intro id y hne hy
      rw [hget₃, if_neg hne]
      exact hothers id y hne hy
    · intro id x hx hnone hne
      rw [hget₃] at hx
      split at hx
      next =>
        cases hx
        exact hterm
      next hid =>
        refine hfinished nofun id x hx ?_ hne
        rw [hget₁, if_neg hid]
        exact hnone
    · exact ⟨r₃, by rw [hget₃, if_pos rfl], (hsame₁.trans hkept.toSameRun).trans hsame₃, hterm⟩

/-- The record `run` saves first. -/
def WorkflowWorld.newRun (w : WorkflowWorld V ε) (name : String) (params : Option (Dict String V))
    (rerunOf ownerWorkspaceId : Option String) : WorkflowRun V :=
  { runId := w.ids w.drawn, name, params := params.getD ∅, rerunOf, ownerWorkspaceId }

/-- The world after `run` saved it. -/
def WorkflowWorld.creating (w : WorkflowWorld V ε) (run : WorkflowRun V) : WorkflowWorld V ε :=
  ({ w with drawn := w.drawn + 1 } : WorkflowWorld V ε).saving run

/-- `run` of a registered name goes on with the record it saved. -/
theorem runWith_created {name : String} {handler : WorkflowHandler V Q}
    (hhandler : S.registry.get? name = some handler) (params : Option (Dict String V))
    (rerunOf owner : Option String) (w : WorkflowWorld V ε) :
    let r := w.newRun name params rerunOf owner
    runWith S ex name params rerunOf owner w =
      (ex r.runId handler >>= fun _ => getRun r.runId) (w.creating r) := by
  simp only [runWith, hhandler]
  rfl

/-- The new run is executed. -/
theorem creating_executes (hS : plain → S.Plain) (hex : Performs plain ex) (h : Valid plain w)
    {name : String} {handler : WorkflowHandler V Q}
    (hhandler : S.registry.get? name = some handler) (params : Option (Dict String V))
    {rerunOf owner : Option String}
    (hrerun : plain → ∀ old, rerunOf = some old → ∃ o ∈ w.saved, o.runId = old ∧
      o.status.isTerminal = true ∧ o.name = name ∧ o.ownerWorkspaceId = owner) :
    let r := w.newRun name params rerunOf owner
    Executes plain (ex r.runId handler) r.runId r (w.creating r) := by
  intro r
  refine hex r.runId handler _ r (fun hplain => hS hplain name handler hhandler) ?_ ?_ rfl
  · exact h.create rfl rfl ⟨nofun, nofun, fun _ => ⟨rfl, rfl⟩⟩ hrerun
  · exact (get?_saving _ _ _).trans (if_pos rfl)

/-- **A new run, when performing it serves.** -/
theorem runWith_serves (hS : plain → S.Plain) (hex : Performs plain ex)
    (h : Valid plain w) (name : String) (params : Option (Dict String V))
    (rerunOf owner : Option String)
    (hrerun : plain → ∀ old, rerunOf = some old → ∃ o ∈ w.saved, o.runId = old ∧
      o.status.isTerminal = true ∧ o.name = name ∧ o.ownerWorkspaceId = owner) :
    Serves plain (runWith S ex name params rerunOf owner) w := by
  cases hhandler : S.registry.get? name with
  | none =>
    unfold runWith
    rw [hhandler]
    exact .raise h _
  | some handler =>
    let r := w.newRun name params rerunOf owner
    have hexec := creating_executes hS hex h hhandler params hrerun
    have hmissing : w.store.get? r.runId = none := h.next_missing
    have hget : ∀ id, id ≠ r.runId → (w.creating r).store.get? id = w.store.get? id := fun id hne =>
      (get?_saving _ _ _).trans (if_neg hne)
    let body : Wf V ε Unit := fun _ => ex r.runId handler (w.creating r)
    have hserved : Serves plain body w := by
      refine ⟨hexec.valid, fun id y hy => ?_, fun hfuel id x hx hnone hne => ?_⟩
      · have hne : id ≠ r.runId := by
          rintro rfl
          rw [hmissing] at hy
          cases hy
        exact hexec.framed id y hne ((hget id hne).trans hy)
      · obtain ⟨-, hnew, r', hr', -, hterm⟩ := hexec.finished hfuel
        by_cases hid : id = r.runId
        · subst hid
          rw [hr'] at hx
          cases hx
          exact hterm
        · exact hnew id x hx ((hget id hid).trans hnone) hne
    exact (hserved.bind fun _ w' hout => .getRun (by simpa only [hout] using hserved.valid) r.runId)
      |>.congr (runWith_created hhandler params rerunOf owner w)

/-- What `run` is through with: it raised before it did anything, the fuel ran out, or it returned
the run it created, of the name and the owner it was given. -/
theorem runWith_cases (hS : plain → S.Plain) (hex : Performs plain ex) (h : Valid plain w)
    (name : String) (params : Option (Dict String V)) (rerunOf owner : Option String)
    (hrerun : plain → ∀ old, rerunOf = some old → ∃ o ∈ w.saved, o.runId = old ∧
      o.status.isTerminal = true ∧ o.name = name ∧ o.ownerWorkspaceId = owner) :
    (S.registry.get? name = none ∧ runWith S ex name params rerunOf owner w =
        (.error (.raised (.workflowNotRegistered name)), w)) ∨
      S.registry.get? name ≠ none ∧
        ((runWith S ex name params rerunOf owner w).1 = .error .outOfFuel ∨
          ∃ run w', runWith S ex name params rerunOf owner w = (.ok run, w') ∧
            w'.store.get? run.runId = some run ∧ run.name = name ∧
              run.ownerWorkspaceId = owner) := by
  cases hhandler : S.registry.get? name with
  | none =>
    refine .inl ⟨rfl, ?_⟩
    unfold runWith
    rw [hhandler]
    rfl
  | some handler =>
    refine .inr ⟨Option.some_ne_none _, ?_⟩
    let r := w.newRun name params rerunOf owner
    have hexec := creating_executes hS hex h hhandler params hrerun
    rw [runWith_created hhandler]
    by_cases hfuel : (ex r.runId handler (w.creating r)).1 = .error .outOfFuel
    · left
      rw [bind_of_error (Prod.ext hfuel rfl)]
    · right
      obtain ⟨hok, -, r', hr', hsame, -⟩ := hexec.finished hfuel
      have hid : r'.runId = r.runId := hsame.runId
      refine ⟨r', _, (bind_of_ok (Prod.ext hok rfl)).trans (getRun_eq_ok.mpr ⟨hr', rfl⟩), ?_,
        hsame.name, hsame.owner⟩
      rw [hid]
      exact hr'

/-- **A run again.** -/
theorem rerunWith_serves (hS : plain → S.Plain)
    (hex : Performs plain ex)
    (h : Valid plain w) (runId : String) : Serves plain (rerunWith S ex runId) w := by
  unfold rerunWith
  refine (Serves.getRun h runId).bind fun old w' hget => ?_
  obtain ⟨hold, rfl⟩ := getRun_eq_ok.mp hget
  obtain ⟨hmem, hid⟩ := h.saved_of_get hold
  cases hterm : old.status.isTerminal with
  | false => exact .raise h _
  | true =>
    refine runWith_serves hS hex h old.name _ _ _ fun _ id heq => ?_
    cases heq
    exact ⟨old, hmem, hid, hterm, rfl, rfl⟩

/-- **One operation.** -/
theorem performOp_serves (hS : plain → S.Plain)
    (hex : Performs plain ex)
    (h : Valid plain w) (op : HandlerOp V Q) (hop : plain → op.Plain) :
    Serves plain (performOp S ex op) w := by
  cases op with
  | reportProgress runId message step fraction => exact .reportProgress h runId message step fraction
  | run name params rerunOf owner =>
    refine runWith_serves hS hex h name params rerunOf owner fun hplain old hold => ?_
    have hnone : rerunOf = none := hop hplain
    rw [hnone] at hold
    cases hold
  | rerun runId => exact rerunWith_serves hS hex h runId
  | get runId => exact .getRun h runId
  | other question => exact .of_same h rfl rfl rfl rfl

/-- A program raises only when the fuel is out: the exceptions of its operations are its answers. -/
theorem performProg_raises (p : HandlerProg V Q A) (w : WorkflowWorld V ε) (e : Stop)
    (h : (performProg S ex p w).1 = .error e) : e = .outOfFuel := by
  induction p generalizing w with
  | ret a => cases h
  | vis op k ih =>
    unfold performProg at h
    rw [bind_of_ok (x := (performOp S ex op).attempt) rfl] at h
    rcases hanswer : (performOp S ex op w).1 with ((e' | _) | a)
    · rw [hanswer] at h
      exact ih _ _ h
    · rw [hanswer] at h
      cases h
      rfl
    · rw [hanswer] at h
      exact ih _ _ h

/-- **A program of operations.** -/
theorem performProg_serves (hS : plain → S.Plain)
    (hex : Performs plain ex)
    (p : HandlerProg V Q A) (hp : plain → p.Only HandlerOp.Plain) (h : Valid plain w) :
    Serves plain (performProg S ex p) w := by
  induction p generalizing w with
  | ret a => exact .of_same h rfl rfl rfl rfl
  | vis op k ih =>
    have hserves := performOp_serves hS hex h op fun hplain => by
      cases hp hplain with
      | vis hop _ => exact hop
    have hrest : ∀ a, plain → (k a).Only HandlerOp.Plain := fun a hplain => by
      cases hp hplain with
      | vis _ hrest => exact hrest a
    by_cases hfuel : (performOp S ex op w).1 = .error .outOfFuel
    · refine (hserves.bind (f := fun _ => Act.raise .outOfFuel) fun a w' hout => ?_).congr ?_
      · rw [hout] at hfuel
        cases hfuel
      · rw [bind_of_error (Prod.ext hfuel rfl)]
        unfold performProg
        rw [bind_of_ok (x := (performOp S ex op).attempt) rfl, hfuel]
        rfl
    · unfold performProg
      refine (hserves.attempt hfuel).bind fun answer w' hout => ?_
      cases hout
      have hprog : ∀ a, Serves plain (performProg S ex (k a)) (performOp S ex op w).2 := fun a =>
        ih a (hrest a) hserves.valid
      rcases hanswer : (performOp S ex op w).1 with ((e | _) | a)
      · exact hprog (.error e)
      · exact absurd hanswer hfuel
      · exact hprog (.ok a)

/-- **`_execute`, however deep runs are inside each other.** -/
theorem execute_executes (hS : plain → S.Plain) (fuel : Nat) : Performs plain (S.execute fuel) := by
  induction fuel with
  | zero =>
    intro runId handler w r hhandler h hr hs
    exact ⟨h, fun id y _ hy => ⟨y, hy, .refl y⟩, fun hfuel => absurd rfl hfuel⟩
  | succ fuel ih =>
    intro runId handler w r hhandler h hr hs
    exact executeWith_executes
      (fun params w hw => performProg_serves hS ih _ (fun hplain => hhandler hplain params runId) hw)
      (fun p w e he => performProg_raises p w e he) h hr hs

end Performing

/-! ## Sequences of calls -/

/-- Before the first call. -/
def WorkflowWorld.start (ids : Nat → String) (clock : Nat → PyFloat) (surroundings : ε) :
    WorkflowWorld V ε :=
  { store := .empty, ids, clock, surroundings }

/-- `new` was stored as a rerun of `old`. -/
def RerunOf (saved : List (WorkflowRun V)) (old new : String) : Prop :=
  ∃ r ∈ saved, r.runId = new ∧ r.rerunOf = some old

section Calls

variable {A : Type} {plain : Prop} {w : WorkflowWorld V ε}

theorem valid_start {ids : Nat → String} (hids : Function.Injective ids) (clock : Nat → PyFloat)
    (surroundings : ε) : Valid (V := V) plain (.start ids clock surroundings) where
  latest _ := rfl
  lives _ := ⟨fun _ hr => (Option.some_ne_none _ hr.symm).elim, List.isChain_nil⟩
  sound _ hr := absurd hr List.not_mem_nil
  fresh _ _ _ hr := absurd hr List.not_mem_nil
  distinct := hids
  reruns _ before _ _ hsplit := 
    (List.append_ne_nil_of_right_ne_nil before (List.cons_ne_nil _ _) hsplit.symm).elim

/-- The records of a run agree on what it reruns. -/
theorem Valid.same_rerunOf (h : Valid plain w) {r r' : WorkflowRun V} (hr : r ∈ w.saved)
    (hr' : r' ∈ w.saved) (hid : r'.runId = r.runId) : r'.rerunOf = r.rerunOf := by
  have hpairs : (recordsOf w.saved r.runId).Pairwise fun x y => y.rerunOf = x.rerunOf :=
    (h.lives r.runId).pairs.imp fun hpair => hpair.1.rerunOf
  have hmem : r ∈ recordsOf w.saved r.runId := List.mem_filter.mpr ⟨hr, decide_eq_true rfl⟩
  have hmem' : r' ∈ recordsOf w.saved r.runId := List.mem_filter.mpr ⟨hr', decide_eq_true hid⟩
  exact List.Pairwise.forall_of_forall_of_flip (R := fun x y : WorkflowRun V => y.rerunOf = x.rerunOf)
    (fun _ _ => rfl) hpairs (hpairs.imp Eq.symm) hmem hmem'

/-- The first record of a run comes after one of the run it reruns. -/
theorem Valid.rerun_later (h : Valid plain w) (hplain : plain) {old new : String}
    (hrerun : RerunOf w.saved old new) :
    w.saved.findIdx (·.runId = old) < w.saved.findIdx (·.runId = new) := by
  obtain ⟨r, hr, rfl, hold⟩ := hrerun
  have hlt : w.saved.findIdx (·.runId = r.runId) < w.saved.length :=
    List.findIdx_lt_length_of_exists ⟨r, hr, decide_eq_true rfl⟩
  have hid := of_decide_eq_true (List.findIdx_getElem (w := hlt))
  have hfirst : (w.saved[w.saved.findIdx (·.runId = r.runId)]).rerunOf = some old :=
    (h.same_rerunOf hr (List.getElem_mem hlt) hid).trans hold
  have hsplit : w.saved = w.saved.take (w.saved.findIdx (·.runId = r.runId)) ++
      w.saved[w.saved.findIdx (·.runId = r.runId)] ::
        w.saved.drop (w.saved.findIdx (·.runId = r.runId) + 1) := by
    rw [List.getElem_cons_drop, List.take_append_drop]
  obtain ⟨o, ho, rfl, -⟩ := h.reruns hplain _ _ _ hsplit old hfirst
  obtain ⟨k, hk, rfl⟩ := List.mem_take_iff_getElem.mp ho
  by_contra hle
  have hk' : k < w.saved.findIdx (·.runId = w.saved[k].runId) := by omega
  exact of_decide_eq_false (List.not_of_lt_findIdx hk') rfl

/-- **Reruns go back in time**: their chains are finite and have no cycle. -/
theorem Valid.reruns_wellFounded (h : Valid plain w) (hplain : plain) :
    WellFounded (RerunOf w.saved) :=
  Subrelation.wf (h.rerun_later hplain)
    (InvImage.wf (fun runId => w.saved.findIdx (·.runId = runId)) Nat.lt_wfRel.wf)

/-- The state of the service after a program of calls. -/
theorem calls_valid (S : WorkflowService V Q ε) (fuel : Nat) (p : HandlerProg V Q A)
    (hplain : plain → S.Plain ∧ p.Only HandlerOp.Plain) (h : Valid plain w) :
    Valid plain (S.calls fuel p w).2 :=
  (performProg_serves (fun hp => (hplain hp).1) (execute_executes (fun hp => (hplain hp).1) fuel) p
    (fun hp => (hplain hp).2) h).valid

/-- **Every run lives one life.** After any calls the statuses stored under an id are pending,
running, finished, in this order; records keep their run and its progress, and an outcome once there
is one; the store holds the last of them; reruns point back where no one else passes `rerun_of`; and
the runs created by a call are finished when it is through. -/
theorem runs_live (S : WorkflowService V Q ε) (fuel : Nat) {ids : Nat → String}
    (hids : Function.Injective ids) (clock : Nat → PyFloat) (surroundings : ε)
    (p : HandlerProg V Q A) (op : HandlerOp V Q) :
    let w := (S.calls fuel p (.start ids clock surroundings)).2
    let out := performOp S (S.execute fuel) op w
    (∀ runId, w.store.get? runId = (recordsOf w.saved runId).getLast? ∧
      (∃ t : WorkflowStatus, t.isTerminal = true ∧
        ((recordsOf w.saved runId).map (·.status)).destutter (· ≠ ·) <+: [.pending, .running, t]) ∧
      (recordsOf w.saved runId).Pairwise fun r r' =>
        SameRun r r' ∧ (r.status.isTerminal = true → Kept r r')) ∧
    (∀ r ∈ w.saved, r.Sound) ∧
    (S.Plain → p.Only HandlerOp.Plain → RerunsPoint w.saved ∧ WellFounded (RerunOf w.saved)) ∧
    (out.1 ≠ .error .outOfFuel → NewFinished none w out.2) := by
  intro w out
  have hvalid : Valid (S.Plain ∧ p.Only HandlerOp.Plain) w :=
    calls_valid S fuel p id (valid_start hids clock surroundings)
  refine ⟨fun runId => ⟨hvalid.latest runId, (hvalid.lives runId).statuses,
    (hvalid.lives runId).pairs⟩, hvalid.sound, fun hS hp => ?_, ?_⟩
  · exact ⟨hvalid.reruns ⟨hS, hp⟩, hvalid.reruns_wellFounded ⟨hS, hp⟩⟩
  · have hany : Valid False w := calls_valid S fuel p False.elim (valid_start hids clock surroundings)
    exact (performOp_serves False.elim (execute_executes False.elim fuel) hany op False.elim).finished

end Calls

/-! ## Two calls -/

/-- One workflow, which returns at once. -/
def onlyReturns : WorkflowService Unit Unit Unit where
  registry := (∅ : Dict String (WorkflowHandler Unit Unit)).set "wf" fun _ _ => .ret (.ok none)
  answer _ env := ((), env)

/-- An id for every number. -/
def tally (n : Nat) : String := String.ofList (List.replicate n 'a')

theorem tally_injective : Function.Injective tally := fun _ _ h =>
  List.replicate_left_injective 'a' (String.ofList_injective h)

/-- A run, and the same again. -/
def runAndRerun : HandlerProg Unit Unit Unit :=
  .vis (.run "wf" none none (some "ws")) fun _ => .vis (.rerun "") fun _ => .ret ()

theorem runs_live_rerun :
    let w := (onlyReturns.calls 1 runAndRerun (.start tally (fun _ => .finite 0) ())).2
    RerunsPoint w.saved ∧ w.saved.map (fun r => (r.runId, r.status, r.rerunOf)) =
      [("", .pending, none), ("", .running, none), ("", .success, none),
        ("a", .pending, some ""), ("a", .running, some ""), ("a", .success, some "")] := by
  have hS : onlyReturns.Plain := by
    intro name handler hget params runId
    rw [onlyReturns, Dict.get?_set] at hget
    split at hget
    next =>
      cases hget
      exact .ret _
    next => cases hget
  have hp : runAndRerun.Only HandlerOp.Plain := .vis rfl fun _ => .vis trivial fun _ => .ret ()
  exact ⟨((runs_live onlyReturns 1 tally_injective (fun _ => .finite 0) () runAndRerun
    (.get "")).2.2.1 hS hp).1, by decide +kernel⟩

/-- `run` stores the `rerun_of` it is given, whether there is such a run or not. -/
theorem rerunOf_dangles :
    ¬ RerunsPoint (onlyReturns.run 1 "wf" none (some "nope") none
      (.start tally (fun _ => .finite 0) ())).2.saved := by
  exact fun h => absurd h.head (by decide +kernel)

end ClawEngine.Workflows
