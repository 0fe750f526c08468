import ClawEngine.Backends.Cli
import ClawEngine.Core.Argv
import ClawEngine.Laws.Secrets
import ClawEngine.Skills.GitSource

/-!
# Texts on command lines

The prompt and the thread id of a request, and the url, the ref and the paths of a git source, stand
on command lines as they are. A text without a leading dash is never read as an option there; a text
with one is, unless it is the value of `--resume`.

The processes of a refresh follow a plan that the source and the cache directory fix in advance.
-/

set_option autoImplicit false

namespace ClawEngine.Skills

open ClawEngine.Core ClawEngine.Core.Argv ClawEngine.Posix ClawEngine.Runtime ClawEngine.Backends
open ClawEngine.Orchestration

variable {C A B : Type}

/-- The options that take a value. -/
def takesValue (w : String) : Bool := w = "--resume" || w = "--model"

theorem isDashed_of_takesValue (w : String) (h : takesValue w = true) : isDashed w = true := by
  rcases Bool.or_eq_true_iff.mp h with h | h <;> rw [of_decide_eq_true h] <;> decide

theorem plain {w : String} (h : isDashed w = false) : Plain takesValue w :=
  plain_of_undashed isDashed_of_takesValue h

/-! ## The backends -/

/-- The text of an element of a backend's argv; one that is none is no option. -/
def argText : Json → String
  | .str s => s
  | _ => ""

/-- Whether a request resumes a thread. -/
def resumes (tid : Option Json) : Bool :=
  match tid with
  | some tid => tid.truthy
  | none => false

/-- The options on the command line of `ClaudeCodeBackend`. -/
def claudeOptions (command : String) (req : AgentRunRequest Json) : List String :=
  options takesValue ((Claude.buildArgv command req).map argText)

/-- The options on the command line of `CodexCliBackend`. -/
def codexOptions (command : String) (req : AgentRunRequest Json) : List String :=
  options takesValue ((Codex.buildArgv command req).map argText)

/-- The words for the model. -/
def modelArgs (model : Option String) : List String := (modelWords model).map argText

/-- The words for the thread in front of which `word` stands. -/
def threadWords (word : String) (tid : Option Json) : List String :=
  (resumeWords word tid).map argText

/-- The words of Claude's argv up to the thread. -/
def claudeHead (command prompt : String) : List String :=
  [command, "-p", prompt, "--output-format", "stream-json", "--verbose",
    "--dangerously-skip-permissions"]

theorem claude_words (command : String) (req : AgentRunRequest Json) :
    (Claude.buildArgv command req).map argText =
      claudeHead command req.prompt ++
        (threadWords "--resume" req.backendThreadId ++ modelArgs req.model) := by
  unfold Claude.buildArgv threadWords modelArgs resumeWords modelWords
  generalize req.backendThreadId = tid, req.model = model
  cases tid <;> cases model <;> dsimp only <;> (try split_ifs) <;> rfl

theorem codex_words (command : String) (req : AgentRunRequest Json) :
    (Codex.buildArgv command req).map argText =
      [command, "exec"] ++ (threadWords "resume" req.backendThreadId ++
        (["--dangerously-bypass-approvals-and-sandbox", "--json"] ++ modelArgs req.model ++
          [req.prompt])) := by
  unfold Codex.buildArgv threadWords modelArgs resumeWords modelWords
  generalize req.backendThreadId = tid, req.model = model
  cases tid <;> cases model <;> dsimp only <;> (try split_ifs) <;> rfl

/-- Whether Claude's words up to the thread end where a value is awaited: they do not. -/
theorem readingAfter_claudeHead (command prompt : String) :
    readingAfter takesValue .word (claudeHead command prompt) ≠ .value :=
  readingAfter_concat_ne_value (w := "--dangerously-skip-permissions") (by decide) _
    [command, "-p", prompt, "--output-format", "stream-json", "--verbose"]

/-- The thread adds `--resume` to the options, or nothing. -/
theorem optionsFrom_thread {r : Reading} (hr : r ≠ .value) (tid : Option Json)
    (ys : List String) : optionsFrom takesValue r (threadWords "--resume" tid ++ ys) =
      (if resumes tid then r.option "--resume" else []) ++ optionsFrom takesValue r ys := by
  unfold threadWords resumeWords resumes
  split
  · next tid =>
    split
    · exact optionsFrom_valued (by decide) (by decide) _ ys hr
    · rfl
  · rfl

/-- Claude's options: those up to the thread, `--resume` where there is one, and the model's. -/
theorem claudeOptions_eq (command : String) (req : AgentRunRequest Json) :
    claudeOptions command req =
      optionsFrom takesValue .word (claudeHead command req.prompt) ++
        ((if resumes req.backendThreadId then
            (readingAfter takesValue .word (claudeHead command req.prompt)).option "--resume"
          else []) ++
          optionsFrom takesValue (readingAfter takesValue .word (claudeHead command req.prompt))
            (modelArgs req.model)) := by
  rw [claudeOptions, claude_words, options, optionsFrom_append,
    optionsFrom_thread (readingAfter_claudeHead command req.prompt)]

/-- A plain prompt in place of a plain prompt. -/
theorem claudeHead_replace (command : String) {prompt prompt' : String}
    (h : isDashed prompt = false) (h' : isDashed prompt' = false) :
    optionsFrom takesValue .word (claudeHead command prompt) =
        optionsFrom takesValue .word (claudeHead command prompt') ∧
      readingAfter takesValue .word (claudeHead command prompt) =
        readingAfter takesValue .word (claudeHead command prompt') := by
  refine ⟨optionsFrom_replace (plain h) (plain h') .word [command, "-p"] _, ?_⟩
  simp only [claudeHead, readingAfter, (plain h).next_eq (plain h')]

/-- Codex's options are those of any other plain prompt and thread. -/
theorem codexOptions_replace (command : String) (req : AgentRunRequest Json) (prompt : String)
    (tid : Option Json) (hprompt : isDashed req.prompt = false) (hprompt' : isDashed prompt = false)
    (htid : ∀ t ∈ req.backendThreadId, isDashed (argText t) = false)
    (htid' : ∀ t ∈ tid, isDashed (argText t) = false) :
    codexOptions command req =
      codexOptions command { req with prompt, backendThreadId := tid } := by
  have hwords : ∀ t : Option Json, (∀ t' ∈ t, isDashed (argText t') = false) →
      ∀ w ∈ threadWords "resume" t, Plain takesValue w := by
    intro t ht w hw
    cases t with
    | none => cases hw
    | some t =>
      rw [threadWords, resumeWords, apply_ite (List.map argText)] at hw
      split at hw
      · rcases List.mem_cons.mp hw with rfl | hw
        · exact plain (by decide)
        · rw [List.mem_singleton.mp hw]
          exact plain (ht t rfl)
      · cases hw
  have hexec : readingAfter takesValue .word [command, "exec"] ≠ .value :=
    readingAfter_concat_ne_value (by decide) _ [command]
  rw [codexOptions, codexOptions, codex_words, codex_words, options, options, optionsFrom_append,
    optionsFrom_plains (hwords _ htid) _ hexec, optionsFrom_append _ [command, "exec"],
    optionsFrom_plains (hwords _ htid') _ hexec]
  exact congrArg _ (optionsFrom_replace (plain hprompt) (plain hprompt') _ _ [])

/-! ## The processes of a refresh -/

/-- Whether a refresh finds a git repository in its cache directory. -/
def findsRepository (m : Machine C) (source : GitSkillSource) : Bool :=
  exists? (mkdirParents recursionLimit source.cacheDir m).2 (source.cacheDir.child ".git")

/-- The argv of the clone, which is left out where a repository is there. -/
def cloneCalls (source : GitSkillSource) (cloned : Bool) : List (List String) :=
  if cloned then []
  else [["git", "clone", "--depth=1", "--filter=blob:none", "--no-checkout", source.repoUrl,
    source.cacheDir.text]]

/-- The argv of the sparse-checkout. -/
def sparseCalls (source : GitSkillSource) : List (List String) :=
  match source.allowedSkillPaths with
  | some paths =>
    [["git", "sparse-checkout", "init", "--cone"], "git" :: "sparse-checkout" :: "set" :: paths]
  | none => [["git", "sparse-checkout", "disable"]]

/-- The argv of the fetch and the checkout. -/
def checkOutCalls (source : GitSkillSource) : List (List String) :=
  [["git", "fetch", "--depth=1", "origin", source.ref],
    ["git", "checkout", "--detach", "FETCH_HEAD"], ["git", "rev-parse", "HEAD"]]

/-- The argv of the processes of a whole refresh. -/
def plannedCalls (source : GitSkillSource) (cloned : Bool) : List (List String) :=
  cloneCalls source cloned ++ (sparseCalls source ++ checkOutCalls source)

/-- From `s`, the processes a code starts are the first ones of the plan, and all of them where it
returns. -/
def Starts (s : Refreshing C) (x : Refresh C A) (plan : List (List String)) : Prop :=
  ∃ done, (x s).2.calls = s.calls ++ done ∧ done <+: plan ∧
    ∀ a, (x s).1 = .ok a → done = plan

section Starts

variable {s : Refreshing C} {x : Refresh C A} {f : A → Refresh C B} {p q : List (List String)}

theorem starts_nil (h : (x s).2.calls = s.calls) : Starts s x [] :=
  ⟨[], by rw [h, List.append_nil], List.nil_prefix, fun _ _ => rfl⟩

/-- A code that raises is in every plan it is at the beginning of. -/
theorem Starts.raised {e : RefreshError} (h : Starts s x p) (he : (x s).1 = .error e)
    (q : List (List String)) : Starts s x (p ++ q) := by
  obtain ⟨done, hdone, hpre, -⟩ := h
  refine ⟨done, hdone, hpre.trans (List.prefix_append p q), fun a ha => ?_⟩
  rw [he] at ha
  cases ha

theorem Starts.bind (hx : Starts s x p) (hf : ∀ a s', x s = (.ok a, s') → Starts s' (f a) q) :
    Starts s (x >>= f) (p ++ q) := by
  cases hout : x s with
  | mk answer s' =>
    obtain ⟨done, hdone, hpre, hall⟩ := hx
    rw [hout] at hdone hall
    cases answer with
    | error e =>
      have hsame := Act.bind_of_error (f := f) hout
      refine ⟨done, by rw [hsame, hdone], hpre.trans (List.prefix_append p q), fun b hb => ?_⟩
      rw [hsame] at hb
      cases hb
    | ok a =>
      have hsame := Act.bind_of_ok (f := f) hout
      obtain ⟨done', hdone', hpre', hall'⟩ := hf a s' hout
      have hp : done = p := hall a rfl
      subst hp
      refine ⟨done ++ done', ?_, (List.prefix_append_right_inj done).mpr hpre', fun b hb => ?_⟩
      · rw [hsame, hdone', hdone, List.append_assoc]
      · rw [hall' b (by rw [← hsame, hb])]

/-- The same for a code that starts nothing. -/
theorem Starts.bind_quiet (hx : (x s).2.calls = s.calls)
    (hf : ∀ a s', x s = (.ok a, s') → Starts s' (f a) q) : Starts s (x >>= f) q :=
  (starts_nil hx).bind hf

theorem starts_pure (a : A) : Starts s (pure a : Refresh C A) [] := starts_nil rfl

theorem Starts.of_nil (h : Starts s x (p ++ [])) : Starts s x p := by
  rwa [List.append_nil] at h

/-- The last statement starts nothing. -/
theorem Starts.bind_last (hx : Starts s x p)
    (hf : ∀ a s', x s = (.ok a, s') → (f a s').2.calls = s'.calls) : Starts s (x >>= f) p :=
  (hx.bind fun a s' h => starts_nil (hf a s' h)).of_nil

end Starts

section Calls

variable {host : GitHost C} {source : GitSkillSource} {s : Refreshing C}

theorem git_calls (args : List String) (cwd : PosixPath) :
    (git host args cwd s).2.calls = s.calls ++ ["git" :: args] := rfl

theorem git_starts (args : List String) (cwd : PosixPath) :
    Starts s (git host args cwd) ["git" :: args] :=
  ⟨["git" :: args], git_calls args cwd, List.prefix_rfl, fun _ _ => rfl⟩

theorem cloneMissing_starts : Starts s (cloneMissing host source)
    (cloneCalls source (exists? s.machine (source.cacheDir.child ".git"))) := by
  refine Starts.bind_quiet rfl fun found s' hfound => ?_
  cases hfound
  unfold cloneCalls
  dsimp only
  split
  · exact starts_pure ()
  · exact (git_starts _ _).bind_last fun _ _ _ => rfl

theorem setSparse_starts : Starts s (setSparse host source) (sparseCalls source) := by
  unfold setSparse sparseCalls
  cases source.allowedSkillPaths with
  | some paths =>
    refine Starts.bind (p := [_]) (git_starts _ _) fun _ s' _ => ?_
    exact (git_starts _ _).bind_last fun _ _ _ => rfl
  | none =>
    have hdisable : Starts s
        ((git host ["sparse-checkout", "disable"] source.cacheDir).attempt :
          Refresh C (Except RefreshError String))
        [["git", "sparse-checkout", "disable"]] :=
      ⟨_, git_calls _ _, List.prefix_rfl, fun _ _ => rfl⟩
    refine hdisable.bind_last fun answer s' _ => ?_
    cases answer with
    | ok stdout => rfl
    | error e =>
      cases e with
      | git e =>
        dsimp only
        split <;> rfl
      | value message => rfl
      | fs e => rfl

theorem checkOut_starts : Starts s (checkOut host source) (checkOutCalls source) := by
  refine Starts.bind (p := [_]) (git_starts _ _) fun _ s₁ _ => ?_
  refine Starts.bind (p := [_]) (git_starts _ _) fun _ s₂ _ => ?_
  exact (git_starts _ _).bind_last fun _ _ _ => rfl

/-! ### What starts no process -/

theorem buildLocal_keeps {calls : List (List String)} :
    Act.Keeps (fun s : Refreshing C => s.calls = calls) (buildLocal host source) := by
  have hmachine : ∀ (s : Refreshing C) (m : Machine C), s.calls = calls →
      ({ s with machine := m } : Refreshing C).calls = calls := fun _ _ h => h
  have hbind : ∀ (root : PosixPath) (names : List String),
      Act.Keeps (fun s : Refreshing C => s.calls = calls)
        (bindLocal root >>= fun _ => (pure names : Refresh C (List String))) :=
    fun root names => Act.Keeps.bind (fun _ hs => hs) fun _ => Act.keeps_pure names
  unfold buildLocal
  split
  · split
    · refine (keeps_onMachine hmachine).bind fun _ => ?_
      exact (linkAll_keeps hmachine _ _ _).bind fun _ => hbind _ _
    · exact hbind _ _
  · exact ((keeps_onMachine hmachine).bind fun _ => Act.keeps_read _).bind fun _ => hbind _ _

end Calls

/-- **A refresh starts the planned processes**, the first of them or all. -/
theorem refresh_starts (host : GitHost C) (ref : Option String) (s : Refreshing C) :
    Starts s (refresh host ref)
      (plannedCalls { s.source with ref := ref.getD s.source.ref }
        (findsRepository s.machine s.source)) := by
  rcases rebindRef_eq ref s with hrebind | ⟨e, hrebind⟩
  · refine Starts.bind_quiet (by rw [hrebind]; rfl) fun u s₁ h₁ => ?_
    rw [hrebind] at h₁
    cases h₁
    refine Starts.bind_quiet rfl fun source s₂ h₂ => ?_
    cases h₂
    rcases checkPaths_eq host.py (s.withRef ref).source (s.withRef ref) with
      ⟨hcheck, -⟩ | ⟨e, hcheck⟩
    · refine Starts.bind_quiet (by rw [hcheck]) fun _ s₃ h₃ => ?_
      rw [hcheck] at h₃
      cases h₃
      have hdir := ensureCacheDir_snd host (s.withRef ref).source (s.withRef ref)
      refine Starts.bind_quiet (by rw [hdir]) fun _ s₄ h₄ => ?_
      rw [h₄] at hdir
      subst hdir
      refine cloneMissing_starts.bind fun _ s₅ _ => ?_
      refine setSparse_starts.bind fun _ s₆ _ => ?_
      refine checkOut_starts.bind_last fun sha s₇ _ => ?_
      have hbuild : Act.Keeps (fun s' : Refreshing C => s'.calls = s₇.calls)
          (buildLocal host (s.withRef ref).source >>= fun names =>
            (pure { ref := sha, materializedPaths := names } : Refresh C RefreshResult)) :=
        buildLocal_keeps.bind fun _ => Act.keeps_pure _
      exact hbuild s₇ rfl
    · exact (starts_nil (by rw [Act.bind_of_error hcheck])).raised
        (by rw [Act.bind_of_error hcheck]) _
  · exact (starts_nil (by rw [refresh, Act.bind_of_error hrebind])).raised
      (by rw [refresh, Act.bind_of_error hrebind]) _

/-! ## The options of a refresh -/

/-- The texts of a source that stand on command lines start with no dash. -/
structure Undashed (source : GitSkillSource) : Prop where
  repoUrl : isDashed source.repoUrl = false
  ref : isDashed source.ref = false
  paths : ∀ paths, source.allowedSkillPaths = some paths → ∀ p ∈ paths, isDashed p = false

/-- The options of the planned processes: they depend on the cache directory alone, and on whether
there are allowed paths. -/
def plannedOptions (dir : String) (cloned sparse : Bool) : List (List String) :=
  (if cloned then []
    else [["--depth=1", "--filter=blob:none", "--no-checkout"] ++
      optionsFrom takesValue .word [dir]]) ++
  ((if sparse then [["--cone"], []] else [[]]) ++ [["--depth=1"], ["--detach"], []])

theorem options_plannedCalls {source : GitSkillSource} (h : Undashed source) (cloned : Bool) :
    (plannedCalls source cloned).map (options takesValue) =
      plannedOptions source.cacheDir.text cloned source.allowedSkillPaths.isSome := by
  have hclone : (cloneCalls source cloned).map (options takesValue) =
      if cloned then []
      else [["--depth=1", "--filter=blob:none", "--no-checkout"] ++
        optionsFrom takesValue .word [source.cacheDir.text]] := by
    unfold cloneCalls
    split
    · rfl
    · have hurl : optionsFrom takesValue .word ([source.repoUrl] ++ [source.cacheDir.text]) =
          optionsFrom takesValue .word [source.cacheDir.text] :=
        optionsFrom_plains (fun w hw => List.mem_singleton.mp hw ▸ plain h.repoUrl) _ nofun
      exact congrArg (fun words => [["--depth=1", "--filter=blob:none", "--no-checkout"] ++ words])
        hurl
  have hsparse : (sparseCalls source).map (options takesValue) =
      if source.allowedSkillPaths.isSome then [["--cone"], []] else [[]] := by
    unfold sparseCalls
    have hpaths := h.paths
    generalize source.allowedSkillPaths = allowed at hpaths
    cases allowed with
    | none => decide
    | some paths =>
      have hset : optionsFrom takesValue .word (paths ++ []) = optionsFrom takesValue .word [] :=
        optionsFrom_plains (fun p hp => plain (hpaths paths rfl p hp)) _ nofun
      rw [List.append_nil] at hset
      exact congrArg (fun words => [["--cone"], words]) hset
  have hcheckOut : (checkOutCalls source).map (options takesValue) =
      [["--depth=1"], ["--detach"], []] := by
    have hfetch : optionsFrom takesValue .word ([source.ref] ++ []) =
        optionsFrom takesValue .word [] :=
      optionsFrom_plains (fun w hw => List.mem_singleton.mp hw ▸ plain h.ref) _ nofun
    exact congrArg (fun words => ["--depth=1" :: words, ["--detach"], []]) hfetch
  rw [plannedCalls, List.map_append, List.map_append, hclone, hsparse, hcheckOut, plannedOptions]

/-- Apart from `--cone`, the options do not depend on the allowed paths. -/
theorem flatten_plannedOptions (dir : String) (cloned sparse : Bool) :
    (plannedOptions dir cloned sparse).flatten.filter (· ≠ "--cone") =
      (plannedOptions dir cloned false).flatten.filter (· ≠ "--cone") := by
  simp only [plannedOptions, List.flatten_append, List.filter_append]
  cases sparse <;> rfl

/-- The argv of the processes a refresh of a source starts. -/
def startedCalls (host : GitHost C) (ref : Option String) (source : GitSkillSource)
    (m : Machine C) : List (List String) :=
  (refresh host ref { source, machine := m }).2.calls

/-- Whether a refresh of a source returns. -/
def refreshes (host : GitHost C) (ref : Option String) (source : GitSkillSource)
    (m : Machine C) : Bool :=
  (refresh host ref { source, machine := m }).1.isOk

/-- The source with its ref overridden. -/
def overridden (source : GitSkillSource) (ref : Option String) : GitSkillSource :=
  { source with ref := ref.getD source.ref }

/-- **The options of a refresh**: those of the first planned processes, and of all of them where
it returns. -/
theorem options_startedCalls (host : GitHost C) (ref : Option String) {source : GitSkillSource}
    (m : Machine C) (h : Undashed (overridden source ref)) :
    (startedCalls host ref source m).map (options takesValue) <+:
        plannedOptions source.cacheDir.text (findsRepository m source)
          source.allowedSkillPaths.isSome ∧
      (refreshes host ref source m = true →
        (startedCalls host ref source m).map (options takesValue) =
          plannedOptions source.cacheDir.text (findsRepository m source)
            source.allowedSkillPaths.isSome) := by
  obtain ⟨done, hdone, hpre, hall⟩ := refresh_starts host ref { source, machine := m }
  have hcalls : startedCalls host ref source m = done := hdone
  have hoptions := options_plannedCalls h (findsRepository m source)
  rw [hcalls]
  constructor
  · exact hoptions ▸ hpre.map (options takesValue)
  · intro hok
    have hdone : done = plannedCalls (overridden source ref) (findsRepository m source) := by
      unfold refreshes at hok
      cases hanswer : (refresh host ref { source, machine := m }).1 with
      | error e =>
        rw [hanswer] at hok
        cases hok
      | ok result => exact hall result hanswer
    rw [hdone]
    exact hoptions

/-! ## The laws -/

/-- Two lists of argv whose processes, taken one by one, have the same options. -/
def OptionsAgree (calls calls' : List (List String)) : Prop :=
  ∀ (i : Nat) (argv argv' : List String), calls[i]? = some argv → calls'[i]? = some argv' →
    options takesValue argv = options takesValue argv'

/-- The options of all argv but `--cone`. -/
def optionsButCone (calls : List (List String)) : List String :=
  (calls.flatMap (options takesValue)).filter (· ≠ "--cone")

theorem optionsAgree_of_planned {calls calls' : List (List String)} {plan : List (List String)}
    (h : calls.map (options takesValue) <+: plan) (h' : calls'.map (options takesValue) <+: plan) :
    OptionsAgree calls calls' := by
  intro i argv argv' hi hi'
  have hread : ∀ {xs : List (List String)} {ws : List String},
      xs.map (options takesValue) <+: plan → xs[i]? = some ws →
        plan[i]? = some (options takesValue ws) := by
    rintro xs ws ⟨rest, rfl⟩ hws
    have hmap : (xs.map (options takesValue))[i]? = some (options takesValue ws) := by
      rw [List.getElem?_map, hws]
      rfl
    rw [List.getElem?_append_left (List.getElem?_eq_some_iff.mp hmap).1, hmap]
  exact Option.some.inj ((hread h hi).symm.trans (hread h' hi'))

/-- **Texts without a leading dash are no options.** The prompt and the thread id of a request leave
Codex's options as they are, and Claude's apart from `--resume`, which stands for the presence of a
thread whatever its id. The url, the ref and the paths of a source leave the options of its refresh
as they are, apart from `--cone`, which stands for the presence of allowed paths. -/
theorem argv_options :
    (∀ (command : String) (req : AgentRunRequest Json) (prompt : String) (tid : Option Json),
      isDashed req.prompt = false → isDashed prompt = false →
      (claudeOptions command req).filter (· ≠ "--resume") =
          (claudeOptions command { req with prompt, backendThreadId := tid }).filter
            (· ≠ "--resume") ∧
        (resumes req.backendThreadId = resumes tid → claudeOptions command req =
          claudeOptions command { req with prompt, backendThreadId := tid }) ∧
        ((∀ t ∈ req.backendThreadId, isDashed (argText t) = false) →
          (∀ t ∈ tid, isDashed (argText t) = false) → codexOptions command req =
            codexOptions command { req with prompt, backendThreadId := tid })) ∧
    ∀ (host host' : GitHost C) (m : Machine C) (source : GitSkillSource) (repoUrl ref : String)
      (paths : Option (List String)) (ref₁ ref₁' : Option String),
      let source' := { source with repoUrl, ref, allowedSkillPaths := paths }
      Undashed (overridden source ref₁) → Undashed (overridden source' ref₁') →
      (source.allowedSkillPaths.isSome = paths.isSome →
        OptionsAgree (startedCalls host ref₁ source m) (startedCalls host' ref₁' source' m)) ∧
      (refreshes host ref₁ source m = true → refreshes host' ref₁' source' m = true →
        optionsButCone (startedCalls host ref₁ source m) =
          optionsButCone (startedCalls host' ref₁' source' m)) := by
  constructor
  · intro command req prompt tid hprompt hprompt'
    obtain ⟨hoptions, hreading⟩ := claudeHead_replace command hprompt hprompt'
    refine ⟨?_, ?_, codexOptions_replace command req prompt tid hprompt hprompt'⟩
    · have hresume : ∀ (r : Reading) (b : Bool),
          (if b then r.option "--resume" else []).filter (· ≠ "--resume") = [] := by
        intro r b
        cases r <;> cases b <;> decide
      simp only [claudeOptions_eq, List.filter_append, hresume, hoptions, hreading]
    · intro htid
      rw [claudeOptions_eq, claudeOptions_eq, hoptions, hreading, htid]
  · intro host host' m source repoUrl ref paths ref₁ ref₁' source' h h'
    obtain ⟨hpre, hall⟩ := options_startedCalls host ref₁ m h
    obtain ⟨hpre', hall'⟩ := options_startedCalls host' ref₁' m h'
    constructor
    · intro hsparse
      rw [hsparse] at hpre
      exact optionsAgree_of_planned hpre hpre'
    · intro hok hok'
      rw [optionsButCone, optionsButCone, List.flatMap_def, List.flatMap_def, hall hok,
        hall' hok', flatten_plannedOptions, flatten_plannedOptions _ _ paths.isSome]
      rfl

/-- A `git` that exits with 0 and does nothing. -/
def idleGit : GitHost String where
  py := plainInterpreter
  osText _ _ := ""
  lower := id
  git _ _ m := (.exited 0 "" "", m)

def emptyMachine : Machine String := { disk := .empty }

def requestFor (prompt : String) (tid : Option String) : AgentRunRequest Json :=
  { prompt, cwd := "/srv", env := ∅, backendThreadId := tid.map .str }

def sourceFor (repoUrl ref : String) (allowedSkillPaths : Option (List String)) :
    GitSkillSource :=
  { repoUrl, ref, cacheDir := purePath "/cache", allowedSkillPaths }

/-- Plain texts, with and without a thread, with and without paths. -/
theorem argv_options_plain :
    (claudeOptions "claude" (requestFor "hi" (some "-s"))).filter (· ≠ "--resume") =
        (claudeOptions "claude" (requestFor "yo" none)).filter (· ≠ "--resume") ∧
      codexOptions "codex" (requestFor "hi" (some "s")) =
        codexOptions "codex" (requestFor "yo" none) ∧
      OptionsAgree
        (startedCalls idleGit none (sourceFor "url" "main" (some ["a"])) emptyMachine)
        (startedCalls idleGit (some "v1") (sourceFor "url2" "dev" (some ["b", "c/d"]))
          emptyMachine) ∧
      optionsButCone
          (startedCalls idleGit none (sourceFor "url" "main" (some ["a"])) emptyMachine) =
        optionsButCone (startedCalls idleGit none (sourceFor "url" "main" none) emptyMachine) := by
  have hclaude := (argv_options (C := String)).1 "claude" (requestFor "hi" (some "-s")) "yo" none
    (by decide) (by decide)
  have hcodex := (argv_options (C := String)).1 "codex" (requestFor "hi" (some "s")) "yo" none
    (by decide) (by decide)
  have hpaths := argv_options.2 idleGit idleGit emptyMachine (sourceFor "url" "main" (some ["a"]))
    "url2" "dev" (some ["b", "c/d"]) none (some "v1")
    ⟨by decide, by decide, by decide⟩ ⟨by decide, by decide, by decide⟩
  have hnone := argv_options.2 idleGit idleGit emptyMachine (sourceFor "url" "main" (some ["a"]))
    "url" "main" none none none
    ⟨by decide, by decide, by decide⟩ ⟨by decide, by decide, by decide⟩
  exact ⟨hclaude.1, hcodex.2.2 (by decide) (by decide), hpaths.1 rfl,
    hnone.2 (by decide +kernel) (by decide +kernel)⟩

/-- A thread adds `--resume` and paths add `--cone`; a prompt, a thread id, a url, a ref or a path
with a leading dash is an option. -/
theorem dashed_texts_are_options :
    (∀ req ∈ [requestFor "hi" (some "s"), requestFor "--mcp-config=x" none],
      claudeOptions "claude" req ≠ claudeOptions "claude" (requestFor "hi" none)) ∧
    (∀ req ∈ [requestFor "hi" (some "--last"), requestFor "--image=x" none],
      codexOptions "codex" req ≠ codexOptions "codex" (requestFor "hi" none)) ∧
    ∀ source ∈ [sourceFor "--upload-pack=x" "main" (some ["a"]),
        sourceFor "url" "--upload-pack=x" (some ["a"]), sourceFor "url" "main" (some ["--stdin"]),
        sourceFor "url" "main" none],
      refreshes idleGit none source emptyMachine = true ∧
        (startedCalls idleGit none source emptyMachine).flatMap (options takesValue) ≠
          (startedCalls idleGit none (sourceFor "url" "main" (some ["a"])) emptyMachine).flatMap
            (options takesValue) := by
  refine ⟨by decide, by decide, by decide +kernel⟩

end ClawEngine.Skills
