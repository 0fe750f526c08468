import ClawEngine.Identity.Casbin
import ClawEngine.Identity.Memory
import ClawEngine.Laws.Secrets
import Mathlib.Data.Set.Insert

/-!
# Only deny rules decide

The decisions of the Casbin provider depend on the current set of rules, and of that on the deny
rules alone: a request is refused exactly if one of them matches it. More rules refuse more. Over
rules that name one user and one skill or workflow, in every workspace, the provider answers as the
memory provider with the same denials.
-/

set_option autoImplicit false

namespace ClawEngine.Identity

open ClawEngine.Core ClawEngine.Core.Perm ClawEngine.Orchestration

variable {σ φ : Type}

/-! ## Runs -/

inductive PolicyCall (φ : Type)
  | add (rule : Rule)
  | remove (rule : Rule)
  | reload (file : Option φ)

/-- The provider after a call, whether it returned or raised. -/
def PolicyCall.perform (K : Casbin σ φ) (py : Interpreter) (c : CasbinIdentityProvider σ) :
    PolicyCall φ → CasbinIdentityProvider σ
  | .add rule => (CasbinIdentityProvider.addPolicy K py rule c).2
  | .remove rule => (CasbinIdentityProvider.removePolicy K py rule c).2
  | .reload file => (CasbinIdentityProvider.reloadPolicy K file c).2

/-- The provider after a sequence of calls. -/
def CasbinIdentityProvider.after (K : Casbin σ φ) (py : Interpreter)
    (c : CasbinIdentityProvider σ) (calls : List (PolicyCall φ)) : CasbinIdentityProvider σ :=
  calls.foldl (PolicyCall.perform K py) c

/-- What a call makes of the current set of rules. -/
def PolicyCall.revise (fileRules : φ → Option (List Rule)) (S : Set Rule) :
    PolicyCall φ → Set Rule
  | .add rule => if rule.eft ∈ allowedEffects then insert rule S else S
  | .remove rule => if rule.eft ∈ allowedEffects then S \ {rule} else S
  | .reload file =>
    match file.bind fileRules with
    | none => S
    | some rules => {r | r ∈ rules}

theorem PolicyCall.revise_add {fileRules : φ → Option (List Rule)} {S : Set Rule} {rule : Rule}
    (h : rule.eft ∈ allowedEffects) : (PolicyCall.add rule).revise fileRules S = insert rule S :=
  if_pos h

/-- The current set of rules. -/
def currentRules (K : LawfulCasbin σ φ) (c : CasbinIdentityProvider σ) : Set Rule :=
  {r | r ∈ K.rules c.enforcer}

section Runs

variable (K : LawfulCasbin σ φ) (py : Interpreter) (c : CasbinIdentityProvider σ)

theorem checkEffect_eq_ok {eft : String} :
    CasbinIdentityProvider.checkEffect py eft = .ok () ↔ eft ∈ allowedEffects := by
  unfold CasbinIdentityProvider.checkEffect
  split
  next h => exact ⟨nofun, fun h' => absurd h' h⟩
  next h => exact ⟨fun _ => not_not.mp h, fun _ => rfl⟩

/-- A change with a checked effect, or none. -/
theorem checked_change {A : Type} (eft : String) (f : σ → A × σ) :
    ((Act.readE fun _ => CasbinIdentityProvider.checkEffect py eft) >>= fun _ =>
      CasbinIdentityProvider.change f : Act (CasbinIdentityProvider σ) PolicyError A) c =
      if eft ∈ allowedEffects then
        (.ok (f c.enforcer).1, { c with enforcer := (f c.enforcer).2 })
      else (.error (.value ("eft must be one of ('allow', 'deny'), got " ++ reprStr py eft)), c) := by
  split
  next h => exact Act.bind_of_ok (Act.readE_eq_ok.mpr ⟨(checkEffect_eq_ok py).mpr h, rfl⟩)
  next h => exact Act.bind_of_error (congrArg (·, c) (if_pos h))

/-- **One call revises the set.** -/
theorem currentRules_perform (call : PolicyCall φ) :
    currentRules K (call.perform K.toCasbin py c) = call.revise K.fileRules (currentRules K c) := by
  cases call with
  | add rule =>
    rw [PolicyCall.perform, CasbinIdentityProvider.addPolicy, checked_change, PolicyCall.revise]
    split
    · ext r
      exact K.mem_addPolicy rule c.enforcer r
    · rfl
  | remove rule =>
    rw [PolicyCall.perform, CasbinIdentityProvider.removePolicy, checked_change, PolicyCall.revise]
    split
    · ext r
      exact K.mem_removePolicy rule c.enforcer r
    · rfl
  | reload file =>
    cases file with
    | none => rfl
    | some file =>
      show currentRules K (CasbinIdentityProvider.reloadPolicy K.toCasbin (some file) c).2 =
        match K.fileRules file with
        | none => currentRules K c
        | some rules => {r | r ∈ rules}
      cases hfile : K.fileRules file with
      | none =>
        obtain ⟨e, he⟩ := K.loadPolicy_none file c.enforcer hfile
        simp only [CasbinIdentityProvider.reloadPolicy, he]
      | some rules =>
        obtain ⟨s', hload, hrules⟩ := K.loadPolicy_some file c.enforcer rules hfile
        simp only [CasbinIdentityProvider.reloadPolicy, hload]
        ext r
        exact hrules r

/-- **A sequence of calls revises it call by call.** -/
theorem currentRules_after (calls : List (PolicyCall φ)) :
    currentRules K (c.after K.toCasbin py calls) =
      calls.foldl (PolicyCall.revise K.fileRules) (currentRules K c) := by
  induction calls generalizing c with
  | nil => rfl
  | cons call calls ih =>
    rw [CasbinIdentityProvider.after, List.foldl_cons, List.foldl_cons, ← currentRules_perform K py]
    exact ih _

theorem base_after (calls : List (PolicyCall φ)) : (c.after K.toCasbin py calls).base = c.base := by
  induction calls generalizing c with
  | nil => rfl
  | cons call calls ih =>
    refine (ih _).trans ?_
    cases call with
    | add rule =>
      rw [PolicyCall.perform, CasbinIdentityProvider.addPolicy, checked_change]
      split <;> rfl
    | remove rule =>
      rw [PolicyCall.perform, CasbinIdentityProvider.removePolicy, checked_change]
      split <;> rfl
    | reload file =>
      cases file with
      | none => rfl
      | some file =>
        show (CasbinIdentityProvider.reloadPolicy K.toCasbin (some file) c).2.base = c.base
        cases hload : K.loadPolicy file c.enforcer <;>
          simp only [CasbinIdentityProvider.reloadPolicy, hload]

end Runs

/-! ## Decisions -/

/-- A field of a rule that matches a value. -/
def Covered (pattern value : String) : Prop := pattern = value ∨ pattern = "*"

/-- A rule that matches a request in all four fields. -/
structure Rule.Matches (rule : Rule) (sub ws obj act : String) : Prop where
  sub : Covered rule.sub sub
  ws : Covered rule.ws ws
  obj : Covered rule.obj obj
  act : Covered rule.act act

/-- A deny rule of the set matches. -/
def Denied (S : Set Rule) (sub ws obj act : String) : Prop :=
  ∃ rule ∈ S, rule.eft = "deny" ∧ rule.Matches sub ws obj act

theorem eval_orAny {r : RequestField → String} {p : PolicyField → String} {f : RequestField}
    {g : PolicyField} : (orAny f g).eval r p = true ↔ Covered (p g) (r f) := by
  rw [orAny, Matcher.eval, Matcher.eval, Matcher.eval, Bool.or_eq_true, beq_iff_eq, beq_iff_eq,
    eq_comm (a := (Term.request f).eval r p)]
  exact Iff.rfl

/-- **The matcher of `model.conf`.** -/
theorem eval_matcher {rule : Rule} {sub ws obj act : String} :
    modelConf.matcher.eval (requestOf sub ws obj act) rule.field = true ↔
      rule.Matches sub ws obj act := by
  simp only [modelConf, Matcher.eval, Bool.and_eq_true, eval_orAny]
  constructor
  · rintro ⟨⟨⟨hsub, hws⟩, hobj⟩, hact⟩
    exact ⟨hsub, hws, hobj, hact⟩
  · rintro ⟨hsub, hws, hobj, hact⟩
    exact ⟨⟨⟨hsub, hws⟩, hobj⟩, hact⟩

theorem Denied.mono {S T : Set Rule} {sub ws obj act : String} (h : Denied S sub ws obj act)
    (hST : ∀ rule ∈ S, rule.eft = "deny" → rule ∈ T) : Denied T sub ws obj act := by
  obtain ⟨rule, hrule, heft, hmatch⟩ := h
  exact ⟨rule, hST rule hrule heft, heft, hmatch⟩

section Decisions

variable (K : LawfulCasbin σ φ) {c c' : CasbinIdentityProvider σ}

/-- **The enforcer refuses what a deny rule matches.** -/
theorem enforce_eq_false {sub ws obj act : String} :
    K.enforce c.enforcer sub ws obj act = false ↔ Denied (currentRules K c) sub ws obj act := by
  rw [K.enforce_eq, PermModel.decide_unless rfl]
  constructor
  · rintro ⟨rule, hrule, hmatch, heft⟩
    exact ⟨rule, hrule, heft, eval_matcher.mp hmatch⟩
  · rintro ⟨rule, hrule, heft, hmatch⟩
    exact ⟨rule, hrule, eval_matcher.mpr hmatch, heft⟩

/-- What one provider allows, the other does. -/
structure IdentityProvider.AtMost (P Q : IdentityProvider) : Prop where
  access : ∀ user ws, P.canAccessWorkspace user ws = true → Q.canAccessWorkspace user ws = true
  skill : ∀ user ws s, P.canUseSkill user ws s = true → Q.canUseSkill user ws s = true
  workflow : ∀ user ws w, P.canRunWorkflow user ws w = true → Q.canRunWorkflow user ws w = true

theorem IdentityProvider.AtMost.antisymm {P Q : IdentityProvider} (h : P.AtMost Q)
    (h' : Q.AtMost P) : P = Q := by
  obtain ⟨access, skill, workflow⟩ := P
  obtain ⟨access', skill', workflow'⟩ := Q
  congr
  · funext user ws
    exact Bool.eq_iff_iff.mpr ⟨h.access user ws, h'.access user ws⟩
  · funext user ws s
    exact Bool.eq_iff_iff.mpr ⟨h.skill user ws s, h'.skill user ws s⟩
  · funext user ws w
    exact Bool.eq_iff_iff.mpr ⟨h.workflow user ws w, h'.workflow user ws w⟩

/-- Fewer deny rules allow more. -/
theorem answers_atMost (hbase : c.base = c'.base)
    (h : ∀ rule ∈ currentRules K c', rule.eft = "deny" → rule ∈ currentRules K c) :
    (c.answers K.toCasbin).AtMost (c'.answers K.toCasbin) := by
  have henforce : ∀ sub ws obj act, K.enforce c.enforcer sub ws obj act = true →
      K.enforce c'.enforcer sub ws obj act = true := by
    intro sub ws obj act hallowed
    by_contra hrefused
    have hdenied := (enforce_eq_false K).mp (Bool.eq_false_of_not_eq_true hrefused)
    rw [(enforce_eq_false K).mpr (hdenied.mono h)] at hallowed
    cases hallowed
  refine ⟨fun user ws haccess => ?_, fun user ws s => henforce _ _ _ _,
    fun user ws w => henforce _ _ _ _⟩
  show c'.base.canAccessWorkspace user ws = true
  rw [← hbase]
  exact haccess

/-- The same deny rules give the same answers. -/
theorem answers_eq (hbase : c.base = c'.base)
    (h : ∀ rule, rule.eft = "deny" → (rule ∈ currentRules K c ↔ rule ∈ currentRules K c')) :
    c.answers K.toCasbin = c'.answers K.toCasbin :=
  (answers_atMost K hbase fun rule hrule heft => (h rule heft).mpr hrule).antisymm
    (answers_atMost K hbase.symm fun rule hrule heft => (h rule heft).mp hrule)

end Decisions

/-! ## The memory provider -/

/-- Rules that deny one user one skill or workflow in every workspace, and a memory provider with
the same denials. -/
structure Mirrors (I : InMemoryIdentityProvider) (S : Set Rule) : Prop where
  shape : ∀ rule ∈ S, rule.ws = "*" ∧ rule.eft = "deny" ∧ (rule.act = "use" ∨ rule.act = "run") ∧
    rule.sub ≠ "*" ∧ rule.obj ≠ "*"
  skills : ∀ u s, s ∈ (I.deniedSkills.get? u).getD [] ↔ ⟨u, "*", s, "use", "deny"⟩ ∈ S
  workflows : ∀ u w, w ∈ (I.deniedWorkflows.get? u).getD [] ↔ ⟨u, "*", w, "run", "deny"⟩ ∈ S

/-- Such rules match by name. -/
theorem Mirrors.denied {I : InMemoryIdentityProvider} {S : Set Rule} (h : Mirrors I S)
    {sub ws obj act : String} (hact : act = "use" ∨ act = "run") :
    Denied S sub ws obj act ↔ ⟨sub, "*", obj, act, "deny"⟩ ∈ S := by
  constructor
  · rintro ⟨rule, hrule, -, hmatch⟩
    obtain ⟨hws, heft, hacts, hsub, hobj⟩ := h.shape rule hrule
    have hstar : rule.act ≠ "*" := by
      rcases hacts with hact | hact <;> rw [hact] <;> decide
    obtain ⟨sub', ws', obj', act', eft'⟩ := rule
    obtain rfl : sub' = sub := hmatch.sub.resolve_right hsub
    obtain rfl : obj' = obj := hmatch.obj.resolve_right hobj
    obtain rfl : act' = act := hmatch.act.resolve_right hstar
    obtain rfl : ws' = "*" := hws
    obtain rfl : eft' = "deny" := heft
    exact hrule
  · intro hrule
    exact ⟨_, hrule, rfl, .inl rfl, .inr rfl, .inl rfl, .inl rfl⟩

/-- **The provider answers as the memory provider.** -/
theorem Mirrors.answers {K : LawfulCasbin σ φ} {c : CasbinIdentityProvider σ}
    {I : InMemoryIdentityProvider} (h : Mirrors I (currentRules K c)) :
    (c.answers K.toCasbin).canUseSkill = I.answers.canUseSkill ∧
      (c.answers K.toCasbin).canRunWorkflow = I.answers.canRunWorkflow := by
  constructor
  · funext user ws s
    rw [← Bool.not_inj_iff, Bool.eq_iff_iff, Bool.not_eq_true', Bool.not_eq_true']
    exact (enforce_eq_false K).trans ((h.denied (.inl rfl)).trans
      ((h.skills user.userId s).symm.trans (by simp only [InMemoryIdentityProvider.answers,
        decide_eq_false_iff_not, not_not])))
  · funext user ws w
    rw [← Bool.not_inj_iff, Bool.eq_iff_iff, Bool.not_eq_true', Bool.not_eq_true']
    exact (enforce_eq_false K).trans ((h.denied (.inr rfl)).trans
      ((h.workflows user.userId w).symm.trans (by simp only [InMemoryIdentityProvider.answers,
        decide_eq_false_iff_not, not_not])))

/-! ## The law -/

/-- **Only deny rules decide.** After every sequence of calls the current rules are those the calls
leave, and a skill or workflow is refused exactly if a deny rule of them matches. An allow rule
changes no answer, another rule grants nothing, one rule less revokes nothing, and an absent rule
that is added and removed leaves all answers. Rules that deny single skills and workflows in every
workspace answer as the memory provider. -/
theorem denials_decide (K : LawfulCasbin σ φ) (py : Interpreter) (c₀ : CasbinIdentityProvider σ)
    (calls : List (PolicyCall φ)) :
    let c := c₀.after K.toCasbin py calls
    let S := calls.foldl (PolicyCall.revise K.fileRules) (currentRules K c₀)
    let answersAfter more := (c.after K.toCasbin py more).answers K.toCasbin
    currentRules K c = S ∧
    (∀ user ws name,
      ((c.answers K.toCasbin).canUseSkill user ws name = false ↔
          Denied S user.userId ws name "use") ∧
        ((c.answers K.toCasbin).canRunWorkflow user ws name = false ↔
          Denied S user.userId ws name "run")) ∧
    (∀ rule : Rule, rule.eft = "allow" →
      answersAfter [.add rule] = c.answers K.toCasbin ∧
        answersAfter [.remove rule] = c.answers K.toCasbin) ∧
    (∀ rule, (answersAfter [.add rule]).AtMost (c.answers K.toCasbin) ∧
      (c.answers K.toCasbin).AtMost (answersAfter [.remove rule])) ∧
    (∀ rule, rule ∉ S → answersAfter [.add rule, .remove rule] = c.answers K.toCasbin) ∧
    ∀ I, Mirrors I S →
      (c.answers K.toCasbin).canUseSkill = I.answers.canUseSkill ∧
        (c.answers K.toCasbin).canRunWorkflow = I.answers.canRunWorkflow ∧
        (c.base = I.answers → c.answers K.toCasbin = I.answers) := by
  intro c S answersAfter
  have hS : currentRules K c = S := currentRules_after K py c₀ calls
  have hmore : ∀ more, currentRules K (c.after K.toCasbin py more) =
      more.foldl (PolicyCall.revise K.fileRules) S := by
    intro more
    rw [currentRules_after, hS]
  have hbase : ∀ more, (c.after K.toCasbin py more).base = c.base := fun more => base_after K py c more
  refine ⟨hS, fun user ws name => ?_, fun rule hallow => ?_, fun rule => ?_, fun rule habsent => ?_,
    fun I hI => ?_⟩
  · rw [← hS]
    exact ⟨enforce_eq_false K, enforce_eq_false K⟩
  · -- an allow rule is none of the deny rules
    have hother : ∀ r : Rule, r.eft = "deny" → r ≠ rule := by
      rintro r hdeny rfl
      rw [hallow] at hdeny
      exact absurd hdeny (by decide)
    constructor <;> refine answers_eq K (hbase _) fun r hdeny => ?_ <;>
      rw [hmore, hS, List.foldl_cons, List.foldl_nil, PolicyCall.revise] <;> split
    · exact ⟨fun h => h.resolve_left (hother r hdeny), .inr⟩
    · rfl
    · exact ⟨And.left, fun h => ⟨h, hother r hdeny⟩⟩
    · rfl
  · constructor <;> refine answers_atMost K ?_ fun r hr _ => ?_
    · exact hbase _
    · rw [hS] at hr
      rw [hmore, List.foldl_cons, List.foldl_nil, PolicyCall.revise]
      split
      · exact .inr hr
      · exact hr
    · exact (hbase _).symm
    · rw [hmore, List.foldl_cons, List.foldl_nil, PolicyCall.revise] at hr
      rw [hS]
      split at hr
      · exact hr.1
      · exact hr
  · refine answers_eq K (hbase _) fun r _ => ?_
    rw [hmore, hS, List.foldl_cons, List.foldl_cons, List.foldl_nil, PolicyCall.revise,
      PolicyCall.revise]
    split
    · constructor
      · rintro ⟨hr | hr, hne⟩
        · exact absurd hr hne
        · exact hr
      · intro hr
        refine ⟨.inr hr, ?_⟩
        rintro rfl
        exact habsent hr
    · rfl
  · have hmirror : Mirrors I (currentRules K c) := hS ▸ hI
    obtain ⟨hskill, hworkflow⟩ := hmirror.answers
    refine ⟨hskill, hworkflow, fun hI' => ?_⟩
    have haccess : c.base.canAccessWorkspace = I.answers.canAccessWorkspace :=
      congrArg IdentityProvider.canAccessWorkspace hI'
    exact congr (congr (congrArg IdentityProvider.mk haccess) hskill) hworkflow

/-- A Casbin that is a list of rules; a file that it cannot parse is `none`. -/
def tableCasbin : LawfulCasbin (List Rule) (Option (List Rule)) where
  enforce rules sub ws obj act := modelConf.decide Rule.field rules (requestOf sub ws obj act)
  addPolicy rule rules := if rule ∈ rules then (false, rules) else (true, rules ++ [rule])
  removePolicy rule rules := (rules.contains rule, rules.filter (· ≠ rule))
  loadPolicy file _ :=
    match file with
    | none => .error "invalid policy size"
    | some rules => .ok rules
  rules := id
  fileRules := id
  enforce_eq _ _ _ _ _ := rfl
  addPolicy_fst rule rules := by
    by_cases h : rule ∈ rules
    · simp only [id_eq, h, if_true, Bool.false_eq_true, not_true_eq_false]
    · simp only [id_eq, h, if_false, not_false_eq_true]
  mem_addPolicy rule rules r := by
    by_cases h : rule ∈ rules
    · rw [if_pos h]
      exact ⟨.inr, fun hr => hr.elim (fun heq => heq ▸ h) id⟩
    · rw [if_neg h]
      exact List.mem_append.trans (or_comm.trans (or_congr_left List.mem_singleton))
  removePolicy_fst rule rules := List.contains_iff_mem
  mem_removePolicy rule rules r := by
    simp only [id_eq, List.mem_filter, decide_eq_true_eq]
  loadPolicy_none file _ h := by
    cases h
    exact ⟨_, rfl⟩
  loadPolicy_some file _ rules h := by
    cases h
    exact ⟨rules, rfl, fun _ => Iff.rfl⟩

def alice : User := { userId := "alice", displayName := "Alice" }

/-- A memory provider that denies one skill, and one wildcard rule more than it knows. -/
theorem denials_decide_alice :
    let I : InMemoryIdentityProvider := { deniedSkills := Dict.empty.set "alice" ["sql"] }
    let c₀ : CasbinIdentityProvider (List Rule) :=
      { base := I.answers, policyPath := "policy.csv", enforcer := [] }
    let denied : Rule := { sub := "alice", ws := "*", obj := "sql", act := "use" }
    let everyone : Rule := { sub := "*", ws := "prod", obj := "drop", act := "*" }
    let c := c₀.after tableCasbin.toCasbin plainInterpreter [.reload (some none), .add denied]
    let c' := c.after tableCasbin.toCasbin plainInterpreter [.add everyone]
    c.answers tableCasbin.toCasbin = I.answers ∧
      (c'.answers tableCasbin.toCasbin).canRunWorkflow alice "prod" "drop" = false := by
  intro I c₀ denied everyone c c'
  have hlaw := denials_decide tableCasbin plainInterpreter c₀ [.reload (some none), .add denied]
  have hset : [PolicyCall.reload (some none), .add denied].foldl
      (PolicyCall.revise tableCasbin.fileRules) (currentRules tableCasbin c₀) = {denied} := by
    have hempty : currentRules tableCasbin c₀ = ∅ := by
      ext rule
      exact List.mem_nil_iff rule
    rw [hempty, List.foldl_cons, List.foldl_cons, List.foldl_nil, PolicyCall.revise_add (by decide)]
    exact insert_empty_eq denied
  have hlaw' := denials_decide tableCasbin plainInterpreter c [.add everyone]
  refine ⟨(hlaw.2.2.2.2.2 I ?_).2.2 rfl, ?_⟩
  · rw [hset]
    refine ⟨?_, fun u s => ?_, fun u w => ?_⟩
    · rintro rule rfl
      decide
    · rw [Set.mem_singleton_iff, Rule.mk.injEq, Dict.get?_set]
      split
      next hu => simp only [hu, Option.getD_some, List.mem_singleton, true_and, and_true]
      next hu => simp only [hu, false_and, Dict.get?_empty, Option.getD_none, List.not_mem_nil]
    · rw [Set.mem_singleton_iff, Rule.mk.injEq]
      constructor
      · intro hw
        cases hw
      · rintro ⟨-, -, -, hact, -⟩
        exact absurd hact (by decide)
  · refine (hlaw'.2.1 alice "prod" "drop").2.mpr ⟨everyone, ?_, rfl, .inr rfl, .inl rfl, .inl rfl,
      .inr rfl⟩
    rw [List.foldl_cons, List.foldl_nil, PolicyCall.revise_add (by decide)]
    exact Set.mem_insert everyone _

end ClawEngine.Identity
