import ClawEngine.Laws.CommandLine
import ClawEngine.Laws.RefreshStages

/-!
# The ref in force

An override is assigned before the first step of a refresh that can fail, so it stays whether the
refresh returns or raises, and the next refresh fetches it. Nothing else of the source is touched by
a refresh that raises: it goes on answering from the root it had.
-/

set_option autoImplicit false

namespace ClawEngine.Skills

open ClawEngine.Core ClawEngine.Posix ClawEngine.Orchestration

variable {C : Type}

/-- The ref in force after an override, of which an empty one is refused. -/
def refInForce (override : Option String) (ref : String) : String :=
  (override.filter (· ≠ "")).getD ref

/-- The source with the ref in force. -/
def inForce (source : GitSkillSource) (override : Option String) : GitSkillSource :=
  { source with ref := refInForce override source.ref }

section Override

variable {ref : Option String} {s : Refreshing C}

theorem refInForce_some {r : String} (h : r ≠ "") (ref : String) : refInForce (some r) ref = r := by
  rw [refInForce, Option.filter_some, if_pos (decide_eq_true h)]
  rfl

/-- The first step puts the override in force, or raises for an empty one. -/
theorem rebindRef_inForce (ref : Option String) (s : Refreshing C) :
    rebindRef ref s = (.ok (), { s with source := inForce s.source ref }) ∨
      inForce s.source ref = s.source ∧ ∃ e, rebindRef ref s = (.error e, s) := by
  cases ref with
  | none => exact .inl rfl
  | some ref =>
    by_cases hempty : ref = ""
    · subst hempty
      exact .inr ⟨rfl, _, rfl⟩
    · refine .inl ?_
      rw [rebindRef, if_neg hempty, inForce, refInForce_some hempty]
      rfl

/-- The ref in force is the one of before exactly where nothing was overridden. -/
theorem refInForce_eq_iff (override : Option String) (ref : String) :
    refInForce override ref = ref ↔
      override = none ∨ override = some "" ∨ override = some ref := by
  cases override with
  | none => exact ⟨fun _ => .inl rfl, fun _ => rfl⟩
  | some r =>
    by_cases hempty : r = ""
    · subst hempty
      exact ⟨fun _ => .inr (.inl rfl), fun _ => rfl⟩
    · rw [refInForce_some hempty, Option.some.injEq, Option.some.injEq]
      refine ⟨fun heq => .inr (.inr heq), ?_⟩
      rintro (hnone | hr | heq)
      · cases hnone
      · exact absurd hr hempty
      · exact heq

end Override

/-! ## The source after a refresh that raised -/

section Failed

variable {host : GitHost C} {source : GitSkillSource}

/-- The last stage binds the root when nothing can raise any more. -/
theorem buildLocal_raised {s s' : Refreshing C} {e : RefreshError}
    (h : buildLocal host source s = (.error e, s')) : s'.source = s.source := by
  have hmachine : ∀ (s₁ : Refreshing C) (m : Machine C), s₁.source = s.source →
      ({ s₁ with machine := m } : Refreshing C).source = s.source := fun _ _ h => h
  have hbind : ∀ {root : PosixPath} {names : List String} {s₁ s₂ : Refreshing C},
      (bindLocal root >>= fun _ => (pure names : Refresh C (List String))) s₁ ≠ (.error e, s₂) := by
    intro root names s₁ s₂ h
    cases h
  unfold buildLocal at h
  cases hpaths : source.allowedSkillPaths with
  | some paths =>
    rw [hpaths] at h
    dsimp only at h
    split at h
    next =>
      have hmkdir : Act.Keeps (fun s₁ : Refreshing C => s₁.source = s.source)
          (onMachine .fs (mkdirHere (flatDirOf source))) := keeps_onMachine hmachine
      have hlinks : Act.Keeps (fun s₁ : Refreshing C => s₁.source = s.source)
          (linkAll host source.cacheDir (flatDirOf source) paths) := linkAll_keeps hmachine _ _ _
      rcases hmkdir.bind_raised rfl h with h | ⟨_, s₁, hs₁, h⟩
      · exact h
      rcases hlinks.bind_raised hs₁ h with h | ⟨_, s₂, -, h⟩
      · exact h
      · exact absurd h hbind
    next => exact absurd h hbind
  | none =>
    rw [hpaths] at h
    have hdirs : Act.Keeps (fun s₁ : Refreshing C => s₁.source = s.source) (dirNames source) :=
      (keeps_onMachine hmachine).bind fun _ => Act.keeps_read _
    rcases hdirs.bind_raised rfl h with h | ⟨_, s₁, -, h⟩
    · exact h
    · exact absurd h hbind

/-- **A refresh that raises** leaves the source as it was, with the ref in force. -/
theorem refresh_raised {ref : Option String} {s s' : Refreshing C} {e : RefreshError}
    (h : refresh host ref s = (.error e, s')) : s'.source = inForce s.source ref := by
  have hsame : ∀ (s₁ : Refreshing C) m calls, s₁.source = inForce s.source ref →
      ({ s₁ with machine := m, calls := calls } : Refreshing C).source = inForce s.source ref :=
    fun _ _ _ h => h
  rcases rebindRef_inForce ref s with hrebind | ⟨heq, e', hrebind⟩
  · rw [refresh, Act.bind_of_ok hrebind, Act.read_bind] at h
    generalize hstart : ({ s with source := inForce s.source ref } : Refreshing C) = start at h
    have hsource : start.source = inForce s.source ref := by rw [← hstart]
    rw [hsource] at h
    have hcheck : Act.Keeps (fun s₁ : Refreshing C => s₁.source = inForce s.source ref)
        (checkPaths host.py (inForce s.source ref)) := by
      intro s₁ hs₁
      rcases checkPaths_eq host.py (inForce s.source ref) s₁ with ⟨heq, -⟩ | ⟨_, heq⟩
      · rwa [heq]
      · rwa [heq]
    have hensure : Act.Keeps (fun s₁ : Refreshing C => s₁.source = inForce s.source ref)
        (ensureCacheDir host (inForce s.source ref)) := keeps_onMachine fun _ _ h => h
    rcases hcheck.bind_raised hsource h with h | ⟨_, s₁, hs₁, h⟩
    · exact h
    rcases hensure.bind_raised hs₁ h with h | ⟨_, s₂, hs₂, h⟩
    · exact h
    rcases (cloneMissing_keeps hsame _).bind_raised hs₂ h with h | ⟨_, s₃, hs₃, h⟩
    · exact h
    rcases (setSparse_keeps hsame _).bind_raised hs₃ h with h | ⟨_, s₄, hs₄, h⟩
    · exact h
    rcases (checkOut_keeps hsame _).bind_raised hs₄ h with h | ⟨_, s₅, hs₅, h⟩
    · exact h
    rcases Act.bind_eq_error.mp h with h | ⟨_, s₆, -, h⟩
    · exact (buildLocal_raised h).trans hs₅
    · cases h
  · rw [refresh, Act.bind_of_error hrebind] at h
    cases h
    exact heq.symm

end Failed

/-! ## The next refresh -/

/-- The argv of a fetch. -/
def fetchCall (ref : String) : List String := ["git", "fetch", "--depth=1", "origin", ref]

/-- The argv is that of a `git fetch`. -/
def IsFetch (call : List String) : Prop := gitStage call.tail = "fetch"

/-- A refresh as a caller makes it: what it finds, and the override. -/
structure Attempt (C : Type) where
  host : GitHost C
  machine : Machine C
  ref : Option String

/-- The source after refreshes, whether they return or raise. -/
def sourceAfter (source : GitSkillSource) (attempts : List (Attempt C)) : GitSkillSource :=
  attempts.foldl (fun source a =>
    (refresh a.host a.ref { source, machine := a.machine }).2.source) source

/-- The last override that is not empty, and the ref of before where there is none. -/
def refAfter (ref : String) (overrides : List (Option String)) : String :=
  overrides.foldl (fun ref override => refInForce override ref) ref

section Next

variable {host : GitHost C} {source : GitSkillSource} {m : Machine C}

theorem fetch_of_planned {cloned : Bool} {call : List String}
    (hcall : call ∈ plannedCalls source cloned) (hfetch : IsFetch call) :
    call = fetchCall source.ref := by
  have hstage : ∀ {other : List String}, gitStage other.tail ≠ "fetch" → call ≠ other := by
    rintro other hother rfl
    exact hother hfetch
  rcases List.mem_append.mp hcall with hcall | hcall
  · cases cloned with
    | true => cases hcall
    | false =>
      exact absurd (List.mem_singleton.mp hcall) (hstage (show "clone" ≠ "fetch" by decide))
  rcases List.mem_append.mp hcall with hcall | hcall
  · have hsparse : "sparse-checkout" ≠ "fetch" := by decide
    unfold sparseCalls at hcall
    cases hpaths : source.allowedSkillPaths with
    | none =>
      rw [hpaths] at hcall
      exact absurd (List.mem_singleton.mp hcall) (hstage hsparse)
    | some paths =>
      rw [hpaths] at hcall
      rcases List.mem_cons.mp hcall with rfl | hcall
      · exact absurd rfl (hstage hsparse)
      · exact absurd (List.mem_singleton.mp hcall) (hstage hsparse)
  · rcases List.mem_cons.mp hcall with rfl | hcall
    · rfl
    rcases List.mem_cons.mp hcall with rfl | hcall
    · exact absurd rfl (hstage (by decide))
    · exact absurd (List.mem_singleton.mp hcall) (hstage (by decide))

theorem fetchCall_planned (source : GitSkillSource) (cloned : Bool) :
    fetchCall source.ref ∈ plannedCalls source cloned :=
  List.mem_append_right _ (List.mem_append_right _ List.mem_cons_self)

/-- **A refresh without an override** fetches the ref of its source. -/
theorem fetch_of_started {call : List String} (hcall : call ∈ startedCalls host none source m)
    (hfetch : IsFetch call) : call = fetchCall source.ref := by
  obtain ⟨done, hdone, hpre, -⟩ := refresh_starts host none { source, machine := m }
  have hcalls : startedCalls host none source m = done := hdone
  rw [hcalls] at hcall
  exact fetch_of_planned (hpre.subset hcall) hfetch

/-- It does so where it returns. -/
theorem fetchCall_started (h : refreshes host none source m = true) :
    fetchCall source.ref ∈ startedCalls host none source m := by
  obtain ⟨done, hdone, -, hall⟩ := refresh_starts host none { source, machine := m }
  have hcalls : startedCalls host none source m = done := hdone
  unfold refreshes at h
  cases hanswer : (refresh host none { source, machine := m }).1 with
  | error e =>
    rw [hanswer] at h
    cases h
  | ok result =>
    rw [hcalls, hall result hanswer]
    exact fetchCall_planned _ _

/-- A refresh leaves its override in force, whether it returns or raises. -/
theorem refresh_ref (host : GitHost C) (ref : Option String) (s : Refreshing C) :
    (refresh host ref s).2.source.ref = refInForce ref s.source.ref := by
  cases hout : refresh host ref s with
  | mk answer s' =>
    cases answer with
    | error e => rw [refresh_raised hout]; rfl
    | ok result =>
      rw [refresh_source hout]
      rcases rebindRef_inForce ref s with hrebind | ⟨-, e, hrebind⟩
      · rcases rebindRef_eq ref s with heq | ⟨e, heq⟩
        · rw [heq, Prod.mk.injEq] at hrebind
          exact congrArg (·.source.ref) hrebind.2
        · rw [heq] at hrebind
          cases hrebind
      · rw [refresh, Act.bind_of_error hrebind] at hout
        cases hout

/-- **The ref in force after any refreshes** is the last override. -/
theorem sourceAfter_ref (source : GitSkillSource) (attempts : List (Attempt C)) :
    (sourceAfter source attempts).ref = refAfter source.ref (attempts.map Attempt.ref) := by
  induction attempts generalizing source with
  | nil => rfl
  | cons a attempts ih =>
    rw [sourceAfter, List.foldl_cons, ← sourceAfter, ih, refresh_ref]
    rfl

/-- Without an override, the source with the ref in force is refreshed like the one of before with
the override. -/
theorem refresh_inForce (host : GitHost C) (ref : Option String) (source : GitSkillSource)
    (m : Machine C) (calls : List (List String)) :
    refresh host none { source := inForce source ref, machine := m, calls } =
      refresh host (ref.filter (· ≠ "")) { source, machine := m, calls } := by
  have hrebind : rebindRef (ref.filter (· ≠ "")) { source, machine := m, calls } =
      (.ok (), { source := inForce source ref, machine := m, calls }) := by
    rcases rebindRef_inForce (ref.filter (· ≠ "")) { source, machine := m, calls } with
      h | ⟨-, e, h⟩
    · rw [h, inForce, inForce, refInForce, Option.filter_filter]
      simp only [Bool.and_self, refInForce]
    · cases hfilter : ref.filter (· ≠ "") with
      | none =>
        rw [hfilter] at h
        cases h
      | some r =>
        have hne : r ≠ "" := of_decide_eq_true (Option.filter_eq_some_iff.mp hfilter).2
        rw [hfilter, rebindRef, if_neg hne] at h
        cases h
  rw [refresh, refresh, Act.bind_of_ok hrebind]
  rfl

end Next

/-- **A failed refresh puts its override in force**, and does nothing else to the source: the next
refresh is the one with this override on the source of before, so what it fetches is what the source
of before would have fetched only where nothing was overridden. Later overrides replace it. -/
theorem failed_refresh_overrides {host : GitHost C} {ref : Option String} {s s' : Refreshing C}
    {e : RefreshError} (h : refresh host ref s = (.error e, s')) :
    s'.source = inForce s.source ref ∧
      (∀ (host' : GitHost C) (m : Machine C),
        refresh host' none { source := s'.source, machine := m } =
            refresh host' (ref.filter (· ≠ "")) { source := s.source, machine := m } ∧
          ∀ call ∈ startedCalls host' none s'.source m, IsFetch call →
            (call = fetchCall s.source.ref ↔
              ref = none ∨ ref = some "" ∨ ref = some s.source.ref)) ∧
      ∀ (attempts : List (Attempt C)) (host' : GitHost C) (m : Machine C),
        (∀ call ∈ startedCalls host' none (sourceAfter s'.source attempts) m, IsFetch call →
          call = fetchCall (refAfter s.source.ref (ref :: attempts.map Attempt.ref))) ∧
        (refreshes host' none (sourceAfter s'.source attempts) m = true →
          fetchCall (refAfter s.source.ref (ref :: attempts.map Attempt.ref)) ∈
            startedCalls host' none (sourceAfter s'.source attempts) m) := by
  have hsource := refresh_raised h
  refine ⟨hsource, fun host' m => ⟨?_, fun call hcall hfetch => ?_⟩, fun attempts host' m => ?_⟩
  · rw [hsource]
    exact refresh_inForce host' ref s.source m []
  · have hcall' := fetch_of_started hcall hfetch
    rw [hcall', hsource, ← refInForce_eq_iff]
    refine ⟨fun heq => ?_, fun heq => congrArg fetchCall heq⟩
    simpa only [fetchCall, inForce, List.cons.injEq, and_true, true_and] using heq
  · have hafter : (sourceAfter s'.source attempts).ref =
        refAfter s.source.ref (ref :: attempts.map Attempt.ref) := by
      rw [sourceAfter_ref, hsource]
      rfl
    rw [← hafter]
    exact ⟨fun call => fetch_of_started, fetchCall_started⟩

/-- A `git` that knows no other ref than `main`: fetching one exits with 128. -/
def mainOnlyGit : GitHost String where
  py := plainInterpreter
  osText _ _ := ""
  lower := id
  git argv _ m :=
    if gitStage argv.tail = "fetch" ∧ argv ≠ fetchCall "main" then
      (.exited 128 "" "fatal: couldn't find remote ref\n", m)
    else (.exited 0 "" "", m)

/-- The source of `main` in the empty machine, and what is left of a refresh of it. -/
def mainRefreshed (override : Option String) : Refreshing String :=
  (refresh mainOnlyGit override { source := sourceFor "url" "main" none, machine := emptyMachine }).2

/-- A refresh with the override `v1` fails, and then one without. -/
theorem failed_refresh_overrides_missing :
    (mainRefreshed (some "v1")).source = inForce (sourceFor "url" "main" none) (some "v1") := by
  have hfails : (refresh mainOnlyGit (some "v1")
      { source := sourceFor "url" "main" none, machine := emptyMachine }).1.isOk = false := by
    decide +kernel
  cases hout : refresh mainOnlyGit (some "v1")
      { source := sourceFor "url" "main" none, machine := emptyMachine } with
  | mk answer s' =>
    rw [hout] at hfails
    cases answer with
    | ok result => cases hfails
    | error e =>
      have hleft : mainRefreshed (some "v1") = s' := by rw [mainRefreshed, hout]
      rw [hleft]
      exact (failed_refresh_overrides hout).1

/-- **An override that failed stays**: after a refresh with `v1` raised at its fetch, the next one
fetches `v1` and raises, where it would have fetched `main` and returned. -/
theorem failed_override_stays :
    refreshes mainOnlyGit (some "v1") (sourceFor "url" "main" none) emptyMachine = false ∧
      (startedCalls mainOnlyGit (some "v1") (sourceFor "url" "main" none) emptyMachine).getLast? =
        some (fetchCall "v1") ∧
      refreshes mainOnlyGit none (mainRefreshed (some "v1")).source emptyMachine = false ∧
      (startedCalls mainOnlyGit none (mainRefreshed (some "v1")).source emptyMachine).getLast? =
        some (fetchCall "v1") ∧
      refreshes mainOnlyGit none (sourceFor "url" "main" none) emptyMachine = true ∧
      fetchCall "main" ∈ startedCalls mainOnlyGit none (sourceFor "url" "main" none) emptyMachine :=
  by decide +kernel

end ClawEngine.Skills
