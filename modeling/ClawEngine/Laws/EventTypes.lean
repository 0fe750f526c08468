import ClawEngine.Laws.ClaudeStream
import ClawEngine.Laws.CodexStream
import ClawEngine.Laws.ResumeHandle

/-!
# The types of events

The contract declares a thread as an optional text, the text of a message, the name of a tool and the
final text as texts, and token counts as numbers. The adapters copy these out of JSON and look at
presence and truth, not at types. So the events carry the declared types exactly if the members that
a run copies have them.
-/

set_option autoImplicit false

namespace ClawEngine.Backends

open ClawEngine.Core ClawEngine.Runtime ClawEngine.Orchestration

/-! ## Types -/

def IsText (v : Json) : Prop := ∃ s, v = .str s

/-- A text that is not empty. -/
def IsName (v : Json) : Prop := ∃ s, v = .str s ∧ s ≠ ""

theorem isName_iff {v : Json} (h : v.truthy = true) : IsName v ↔ IsText v := by
  constructor
  · rintro ⟨s, rfl, -⟩
    exact ⟨s, rfl⟩
  · rintro ⟨s, rfl⟩
    exact ⟨s, rfl, of_decide_eq_true h⟩

/-- `v or ""` is a text exactly if `v` is one where it counts. -/
theorem isText_orElse {v w : Json} (hw : IsText w) :
    IsText (v.orElse w) ↔ (v.truthy = true → IsText v) := by
  unfold Json.orElse
  cases htruthy : v.truthy with
  | true => exact ⟨fun h _ => h, fun h => h rfl⟩
  | false => exact iff_of_true hw fun h => absurd h Bool.false_ne_true

theorem isText_empty : IsText (.str "") := ⟨"", rfl⟩

/-- A thread that is none or a text that is not empty. -/
def IsThread (thread : Option Json) : Prop := ∀ tid, thread = some tid → IsName tid

/-- Counts that are not negative. -/
def IsUsage (usage : TokenUsage) : Prop := 0 ≤ usage.inputTokens ∧ 0 ≤ usage.outputTokens

/-- A result as the contract declares it. -/
structure TypedResult (r : AgentRunResult Json) : Prop where
  thread : IsThread r.backendThreadId
  finalText : IsText r.finalText
  usage : IsUsage r.usage

/-- An event as the contract declares it. -/
structure TypedEvent (event : AgentEvent Json) : Prop where
  thread : IsThread event.backendThreadId
  started : event.kind = .threadStarted → event.backendThreadId ≠ none
  text : ∀ text, event.text = some text → IsText text
  tool : ∀ tool, event.tool = some tool → IsName tool.name
  usage : ∀ usage, event.usage = some usage → IsUsage usage
  result : ∀ r, event.result = some r → TypedResult r

def TypedEvents (events : List (AgentEvent Json)) : Prop := ∀ event ∈ events, TypedEvent event

theorem typedEvents_nil : TypedEvents [] := fun _ h => absurd h List.not_mem_nil

theorem typedEvents_append {first second : List (AgentEvent Json)} :
    TypedEvents (first ++ second) ↔ TypedEvents first ∧ TypedEvents second :=
  List.forall_mem_append

theorem typedEvents_singleton {event : AgentEvent Json} :
    TypedEvents [event] ↔ TypedEvent event :=
  List.forall_mem_singleton

theorem typedEvents_flatMap {A : Type} {as : List A} {tells : A → List (AgentEvent Json)} :
    TypedEvents (as.flatMap tells) ↔ ∀ a ∈ as, TypedEvents (tells a) := by
  constructor
  · intro h a ha event hevent
    exact h event (List.mem_flatMap.mpr ⟨a, ha, hevent⟩)
  · intro h event hevent
    obtain ⟨a, ha, hevent⟩ := List.mem_flatMap.mp hevent
    exact h a ha event hevent

/-! ## The events of the adapters -/

section Events

variable {v : Json} {raw : Option Json}

theorem forall_of_none {A : Type} {P : A → Prop} : ∀ a, none = some a → P a := by
  intro a h
  cases h

theorem isThread_none : IsThread none := forall_of_none

theorem isThread_some : IsThread (some v) ↔ IsName v := by
  constructor
  · intro h
    exact h v rfl
  · rintro h tid heq
    exact Option.some.inj heq ▸ h

theorem typedEvent_err (kind : AgentErrorKind) (message : String) (retriable : Bool) :
    TypedEvent (err kind message retriable raw) where
  thread := isThread_none
  started h := by cases h
  text := forall_of_none
  tool := forall_of_none
  usage := forall_of_none
  result := forall_of_none

theorem typedEvent_started :
    TypedEvent { kind := .threadStarted, backendThreadId := some v, raw } ↔ IsName v := by
  constructor
  · intro h
    exact isThread_some.mp h.thread
  · intro h
    exact ⟨isThread_some.mpr h, fun _ => Option.some_ne_none v, forall_of_none, forall_of_none,
      forall_of_none, forall_of_none⟩

theorem typedEvent_message :
    TypedEvent { kind := .messageCompleted, text := some v, raw } ↔ IsText v := by
  constructor
  · intro h
    exact h.text v rfl
  · intro h
    refine ⟨isThread_none, fun hkind => (by cases hkind), ?_, forall_of_none, forall_of_none,
      forall_of_none⟩
    intro text heq
    exact Option.some.inj heq ▸ h

theorem typedEvent_tool {tool : ToolEvent Json} :
    TypedEvent { kind := .toolCallCompleted, tool := some tool, raw } ↔ IsName tool.name := by
  constructor
  · intro h
    exact h.tool tool rfl
  · intro h
    refine ⟨isThread_none, fun hkind => (by cases hkind), forall_of_none, ?_, forall_of_none,
      forall_of_none⟩
    intro tool heq
    exact Option.some.inj heq ▸ h

theorem typedEvent_completed {thread : Option Json} {usage : TokenUsage} :
    TypedEvent { kind := .turnCompleted, backendThreadId := thread
                 result := some { backendThreadId := thread, finalText := v, usage } } ↔
      IsThread thread ∧ IsText v ∧ IsUsage usage := by
  constructor
  · intro h
    have hresult := h.result _ rfl
    exact ⟨hresult.thread, hresult.finalText, hresult.usage⟩
  · rintro ⟨hthread, htext, husage⟩
    refine ⟨hthread, fun hkind => (by cases hkind), forall_of_none, forall_of_none,
      forall_of_none, ?_⟩
    intro r heq
    exact Option.some.inj heq ▸ ⟨hthread, htext, husage⟩

theorem typedEvents_handleException (cli : String) (timeoutS : Int) (e : PyError) :
    TypedEvents (handleException cli timeoutS e).events := by
  unfold handleException
  split_ifs
  · exact typedEvents_singleton.mpr (typedEvent_err ..)
  · exact typedEvents_singleton.mpr (typedEvent_err ..)
  · exact typedEvents_nil

variable {events : List (AgentEvent Json)}

/-- What typed events announce is a thread. -/
theorem isThread_lastThread (h : TypedEvents events) : IsThread (lastThread events) := by
  intro tid htid
  obtain ⟨event, hmem, hevent⟩ := List.mem_filterMap.mp (List.mem_of_getLast? htid)
  exact (h event hmem).thread tid hevent

theorem isText_lastText (h : TypedEvents events) : IsText (lastText events) := by
  unfold lastText
  cases hlast : (events.filterMap AgentEvent.text).getLast? with
  | none => exact isText_empty
  | some text =>
    obtain ⟨event, hmem, hevent⟩ := List.mem_filterMap.mp (List.mem_of_getLast? hlast)
    exact (h event hmem).text text hevent

end Events

/-! ## codex -/

namespace Codex

/-- The members of an object that the loop copies have the declared types. -/
structure TypedObject (members : List (String × Json)) : Prop where
  thread : (Json.get members "type").isStr "thread.started" = true →
    IsText (Json.get members "thread_id")
  tool : ∀ item, (Json.get members "type").isStr "item.completed" = true →
    (Json.get members "item").members? = some item →
    (Json.get item "type").isStr "tool_call" = true → IsText (Json.get item "name")
  message : ∀ item, (Json.get members "type").isStr "item.completed" = true →
    (Json.get members "item").members? = some item →
    (Json.get item "type").isStr "agent_message" = true → (Json.get item "text").truthy = true →
    IsText (Json.get item "text")

theorem tellsItem_typed {members : List (String × Json)} (h : itemOffends members = false) :
    TypedEvents (tellsItem members) ↔ ∀ item, (Json.get members "item").members? = some item →
      ((Json.get item "type").isStr "tool_call" = true → IsText (Json.get item "name")) ∧
        ((Json.get item "type").isStr "agent_message" = true →
          (Json.get item "text").truthy = true → IsText (Json.get item "text")) := by
  unfold itemOffends at h
  unfold tellsItem
  cases hitem : (Json.get members "item").members? with
  | none =>
    rw [hitem] at h
    cases h
  | some item =>
    rw [hitem] at h
    simp only [Option.some.injEq, forall_eq']
    cases htool : (Json.get item "type").isStr "tool_call" with
    | true =>
      have hmsg := isStr_tool_call htool
      have hname : (Json.get item "name").truthy = true := by
        by_contra hno
        simp only [htool, Bool.eq_false_iff.mpr hno, Bool.not_false, Bool.and_self, Bool.or_true,
          Bool.true_or, Bool.true_eq_false] at h
      rw [if_pos rfl, typedEvents_singleton, typedEvent_tool, isName_iff hname, hmsg]
      exact ⟨fun htyped => ⟨fun _ => htyped, fun hno => absurd hno Bool.false_ne_true⟩,
        fun htyped => htyped.1 rfl⟩
    | false =>
      rw [if_neg Bool.false_ne_true]
      cases hmsg : (Json.get item "type").isStr "agent_message" with
      | true =>
        rw [if_pos rfl, typedEvents_singleton, typedEvent_message, isText_orElse isText_empty]
        exact ⟨fun htyped => ⟨fun hno => absurd hno Bool.false_ne_true, fun _ => htyped⟩,
          fun htyped => htyped.2 rfl⟩
      | false =>
        exact iff_of_true typedEvents_nil ⟨fun hno => absurd hno Bool.false_ne_true,
          fun hno => absurd hno Bool.false_ne_true⟩

theorem tellsObject_typed {members : List (String × Json)} (h : offends members = false) :
    TypedEvents (tellsObject members) ↔ TypedObject members := by
  cases hstarted : (Json.get members "type").isStr "thread.started" with
  | true =>
    have hitem := isStr_other hstarted (by decide : "thread.started" ≠ "item.completed")
    have htid : (Json.get members "thread_id").truthy = true := by
      rw [offends, if_pos hstarted] at h
      simpa only [Bool.not_eq_false'] using h
    rw [tellsObject, if_pos hstarted, typedEvents_singleton, typedEvent_started, isName_iff htid]
    constructor
    · intro htyped
      refine ⟨fun _ => htyped, fun item hno => ?_, fun item hno => ?_⟩
      · rw [hitem] at hno
        cases hno
      · rw [hitem] at hno
        cases hno
    · intro htyped
      exact htyped.thread hstarted
  | false =>
    have hno : ¬ (Json.get members "type").isStr "thread.started" = true := by
      rw [hstarted]
      exact Bool.false_ne_true
    rw [tellsObject, if_neg hno]
    cases hitem : (Json.get members "type").isStr "item.completed" with
    | true =>
      have hoff : itemOffends members = false := by
        rw [offends, if_neg hno, if_pos hitem] at h
        exact h
      rw [if_pos rfl, tellsItem_typed hoff]
      constructor
      · intro htyped
        exact ⟨fun hyes => absurd hyes hno, fun item _ hmem => (htyped item hmem).1,
          fun item _ hmem => (htyped item hmem).2⟩
      · intro htyped item hmem
        exact ⟨htyped.tool item hitem hmem, htyped.message item hitem hmem⟩
    | false =>
      refine iff_of_true typedEvents_nil ⟨fun hyes => absurd hyes hno, fun item hyes => ?_,
        fun item hyes => ?_⟩
      · rw [hitem] at hyes
        cases hyes
      · rw [hitem] at hyes
        cases hyes

theorem tells_typed {py : PyLib} {line : String} (h : offendsLine py line = false) :
    TypedEvents (tells py line) ↔
      ∀ members, object? py line = some members → TypedObject members := by
  rw [tells, if_neg (by rw [h]; exact Bool.false_ne_true)]
  rw [offendsLine, Bool.or_eq_false_iff] at h
  cases hobj : object? py line with
  | none => exact iff_of_true typedEvents_nil fun members hno => by cases hno
  | some members =>
    rw [hobj] at h
    simp only [Option.some.injEq, forall_eq']
    exact tellsObject_typed h.2

/-- The line announces a thread. -/
def startsThread (py : PyLib) (line : String) : Bool :=
  (object? py line).any fun members => (Json.get members "type").isStr "thread.started"

/-- **What a codex run copies has the declared types**: the members of the lines before the first
offending one, and the handle of the request where the turn completes with it. -/
structure TypedInput (py : PyLib) (req : AgentRunRequest Json) (lines : List String)
    (stop : Option PyError) (code : Int) : Prop where
  copied : ∀ line ∈ lines.takeWhile (!offendsLine py ·), ∀ members,
    object? py line = some members → TypedObject members
  handle : lines.find? (offendsLine py) = none → stop = none → code = 0 →
    (∀ line ∈ lines, startsThread py line = false) → IsThread req.backendThreadId

theorem heard_typed {py : PyLib} {lines : List String} :
    TypedEvents (heard py lines) ↔ ∀ line ∈ lines.takeWhile (!offendsLine py ·), ∀ members,
      object? py line = some members → TypedObject members := by
  rw [heard, typedEvents_flatMap]
  refine forall₂_congr fun line hmem => tells_typed ?_
  simpa only [Bool.not_eq_true'] using List.mem_takeWhile_imp hmem

theorem announced_tells {py : PyLib} {line : String} (h : offendsLine py line = false) :
    (tells py line).filterMap AgentEvent.backendThreadId = [] ↔ startsThread py line = false := by
  rw [tells, if_neg (by rw [h]; exact Bool.false_ne_true), startsThread]
  cases object? py line with
  | none => exact iff_of_true rfl rfl
  | some members =>
    rw [Option.any_some]
    dsimp only
    unfold tellsObject tellsItem
    cases (Json.get members "type").isStr "thread.started" with
    | true => exact iff_of_false (List.cons_ne_nil _ _) Bool.true_eq_false.mp
    | false =>
      refine iff_of_true ?_ rfl
      rw [if_neg Bool.false_ne_true]
      split
      · split
        · rfl
        · split_ifs
          · rfl
          · rfl
          · rfl
      · rfl

theorem announced_heard {py : PyLib} {lines : List String} :
    lastThread (heard py lines) = none ↔
      ∀ line ∈ lines.takeWhile (!offendsLine py ·), startsThread py line = false := by
  rw [lastThread, List.getLast?_eq_none_iff, heard, List.filterMap_flatMap,
    List.flatMap_eq_nil_iff]
  refine forall₂_congr fun line hmem => announced_tells ?_
  simpa only [Bool.not_eq_true'] using List.mem_takeWhile_imp hmem

/-- The completed turn, after a typed text. -/
theorem finish_typed {s : State} (htext : IsText s.finalText) (code : Int) :
    TypedEvents (finish s code) ↔ (code = 0 → IsThread s.threadId) := by
  unfold finish
  by_cases hcode : code = 0
  · rw [if_neg (not_not.mpr hcode), typedEvents_singleton]
    have husage : IsUsage {} := ⟨Int.le_refl 0, Int.le_refl 0⟩
    constructor
    · intro h _
      exact (typedEvent_completed.mp h).1
    · intro h
      exact typedEvent_completed.mpr ⟨h hcode, htext, husage⟩
  · rw [if_pos hcode]
    exact iff_of_true (typedEvents_singleton.mpr (typedEvent_err ..)) fun hzero => absurd hzero hcode

/-- **When the events of a codex run have their types.** -/
theorem run_typed_iff {py : PyLib} {command : String} {spawn : SpawnFn}
    {req : AgentRunRequest Json} {lines : List String} {stop : Option PyError} {code : Int}
    (hspawn : spawn (buildArgv command req) req.cwd req.env req.timeoutS =
      .started lines stop code)
    (hlines : ∀ line ∈ lines, Plain py (fun _ => True) line) :
    TypedEvents (run py command spawn req).events ↔ TypedInput py req lines stop code := by
  have hstart : (narrative py req).after [] =
      { threadId := req.backendThreadId, finalText := .str "" } := rfl
  rw [run, hspawn, drive, ← hstart]
  cases hfound : lines.find? (offendsLine py) with
  | some line =>
    obtain ⟨rest, hsplit, hpass, hdecides⟩ := find?_decides (n := narrative py req) hfound
    have hbefore : ∀ line ∈ lines.takeWhile (!offendsLine py ·),
        (narrative py req).Follows (onLine py) line ∧ (narrative py req).decides line = false :=
      fun line hmem =>
        ⟨onLine_follows py req (hlines line (List.takeWhile_subset _ hmem)), hpass line hmem⟩
    have hline := onLine_follows py req (hlines line (List.mem_of_find?_eq_some hfound))
    have hclosing : TypedEvents ((narrative py req).tells line ++ [offence py line]) := by
      refine typedEvents_append.mpr ⟨?_, typedEvents_singleton.mpr ?_⟩
      · have htells : (narrative py req).tells line = [] := if_pos hdecides
        rw [htells]
        exact typedEvents_nil
      · unfold offence
        split <;> exact typedEvent_err ..
    have hsplit' : lines = lines.takeWhile (!offendsLine py ·) ++ line :: rest := hsplit
    conv_lhs => rw [hsplit', driveLines_decided hbefore hline hdecides []]
    refine typedEvents_append.trans ((and_iff_left hclosing).trans (heard_typed.trans ?_))
    refine ⟨fun h => ⟨h, fun hnone => ?_⟩, fun h => h.copied⟩
    rw [hfound] at hnone
    cases hnone
  | none =>
    obtain ⟨hall, hpass⟩ := find?_undecided (n := narrative py req) hfound
    have hall' : lines.takeWhile (!offendsLine py ·) = lines := hall
    rw [driveLines_undecided fun line hmem =>
      ⟨onLine_follows py req (hlines line hmem), hpass line hmem⟩]
    have hheard : lines.flatMap (narrative py req).tells = heard py lines := by
      rw [heard, hall']
      rfl
    rw [hheard, List.nil_append]
    refine typedEvents_append.trans ⟨fun h => ?_, fun h => ?_⟩
    · refine ⟨heard_typed.mp h.1, fun _ hstop hcode hnone => ?_⟩
      subst hstop
      have hthread := (finish_typed (isText_lastText h.1) code).mp h.2 hcode
      have hannounced : lastThread (heard py lines) = none :=
        announced_heard.mpr (by rw [hall']; exact hnone)
      simpa only [narrative, hannounced, Option.none_or] using hthread
    · have hheard' := heard_typed.mpr h.copied
      refine ⟨hheard', ?_⟩
      cases stop with
      | some e => exact typedEvents_handleException "codex" req.timeoutS e
      | none =>
        refine (finish_typed (isText_lastText hheard') code).mpr fun hcode => ?_
        have hannounced := isThread_lastThread hheard'
        show IsThread ((lastThread (heard py lines)).or req.backendThreadId)
        cases hlast : lastThread (heard py lines) with
        | some tid =>
          rw [hlast] at hannounced
          exact hannounced
        | none =>
          have hnone := announced_heard.mp hlast
          rw [hall'] at hnone
          exact h.handle hfound rfl hcode hnone

end Codex

/-! ## claude -/

namespace Claude

/-- The members of a content block that the loop copies have the declared types. -/
structure TypedBlock (block : Json) : Prop where
  message : ∀ members, block.members? = some members →
    (Json.get members "type").isStr "text" = true → (Json.get members "text").truthy = true →
    IsText (Json.get members "text")
  tool : ∀ members, block.members? = some members →
    (Json.get members "type").isStr "tool_use" = true → IsText (Json.get members "name")

/-- The members of an object that the loop copies have the declared types: of an assistant line
those of the blocks before the first one that breaks the schema. -/
structure TypedObject (members : List (String × Json)) : Prop where
  thread : isInit members = true → (Json.get members "session_id").truthy = true →
    IsText (Json.get members "session_id")
  blocks : (Json.get members "type").isStr "assistant" = true →
    ∀ block ∈ ((content? members).getD []).takeWhile (!blockOffends ·), TypedBlock block

/-- The members of a result that completes a turn have the declared types; it completes none where
its usage cannot be counted. -/
def TypedCompletion (py : PyLib) (sid : Option Json) (members : List (String × Json)) : Prop :=
  (Json.get members "type").isStr "result" = true → completes sid members = true →
    ∀ usage, tokenUsage py ((Json.get members "usage").orElse (.obj [])) = .ok usage →
      IsText (Json.get members "session_id") ∧
        ((Json.get members "result").truthy = true → IsText (Json.get members "result")) ∧
          IsUsage usage

/-- The lines that a run reads: up to the first deciding one. -/
def consumed (py : PyLib) (lines : List String) : List String :=
  lines.takeWhile (!decidesLine py ·) ++ (lines.find? (decidesLine py)).toList

/-- **What a claude run copies has the declared types.** -/
structure TypedInput (py : PyLib) (req : AgentRunRequest Json) (lines : List String) : Prop where
  copied : ∀ line ∈ consumed py lines, ∀ members, object? py line = some members →
    TypedObject members
  completion : ∀ line members, lines.find? (decidesLine py) = some line →
    object? py line = some members → TypedCompletion py (inForce py req lines) members

theorem tellsBlock_typed {evt block : Json} (h : blockOffends block = false) :
    TypedEvents (tellsBlock evt block) ↔ TypedBlock block := by
  unfold blockOffends at h
  unfold tellsBlock
  cases hmem : block.members? with
  | none =>
    refine iff_of_true typedEvents_nil ⟨fun members hno => ?_, fun members hno => ?_⟩
    · rw [hmem] at hno
      cases hno
    · rw [hmem] at hno
      cases hno
  | some members =>
    rw [hmem, Bool.or_eq_false_iff] at h
    have honly : TypedBlock block ↔ ((Json.get members "type").isStr "text" = true →
          (Json.get members "text").truthy = true → IsText (Json.get members "text")) ∧
        ((Json.get members "type").isStr "tool_use" = true →
          IsText (Json.get members "name")) := by
      constructor
      · intro htyped
        exact ⟨htyped.message members hmem, htyped.tool members hmem⟩
      · rintro ⟨hmessage, htool⟩
        refine ⟨fun members' hmem' => ?_, fun members' hmem' => ?_⟩
        · cases hmem.symm.trans hmem'
          exact hmessage
        · cases hmem.symm.trans hmem'
          exact htool
    rw [honly]
    dsimp only
    cases htext : (Json.get members "type").isStr "text" with
    | true =>
      have htool := isStr_text htext
      rw [if_pos rfl, typedEvents_singleton, typedEvent_message, isText_orElse isText_empty, htool]
      exact ⟨fun htyped => ⟨fun _ => htyped, fun hno => absurd hno Bool.false_ne_true⟩,
        fun htyped => htyped.1 rfl⟩
    | false =>
      rw [if_neg Bool.false_ne_true]
      cases htool : (Json.get members "type").isStr "tool_use" with
      | true =>
        have hname : (Json.get members "name").truthy = true := by
          simpa only [htool, Bool.true_and, Bool.not_eq_false'] using h.2
        rw [if_pos rfl, typedEvents_singleton, typedEvent_tool, isName_iff hname]
        exact ⟨fun htyped => ⟨fun hno => absurd hno Bool.false_ne_true, fun _ => htyped⟩,
          fun htyped => htyped.2 rfl⟩
      | false =>
        exact iff_of_true typedEvents_nil ⟨fun hno => absurd hno Bool.false_ne_true,
          fun hno => absurd hno Bool.false_ne_true⟩

theorem tellsObject_typed (members : List (String × Json)) :
    TypedEvents (tellsObject members) ↔ TypedObject members := by
  unfold tellsObject
  cases hinit : isInit members with
  | true =>
    have hno : (Json.get members "type").isStr "assistant" = false := by
      rw [isInit, Bool.and_eq_true] at hinit
      exact isStr_other hinit.1 (by decide)
    rw [if_pos rfl]
    cases hsid : (Json.get members "session_id").truthy with
    | true =>
      rw [if_pos rfl, typedEvents_singleton, typedEvent_started, isName_iff hsid]
      refine ⟨fun htyped => ⟨fun _ _ => htyped, fun hyes => ?_⟩,
        fun htyped => htyped.thread hinit hsid⟩
      rw [hno] at hyes
      cases hyes
    | false =>
      refine iff_of_true typedEvents_nil ⟨fun _ hyes => ?_, fun hyes => ?_⟩
      · rw [hsid] at hyes
        cases hyes
      · rw [hno] at hyes
        cases hyes
  | false =>
    rw [if_neg Bool.false_ne_true]
    have hno : ¬ isInit members = true := by
      rw [hinit]
      exact Bool.false_ne_true
    cases hassistant : (Json.get members "type").isStr "assistant" with
    | true =>
      rw [if_pos rfl, tellsBlocks, typedEvents_flatMap]
      have hblocks : (∀ block ∈ ((content? members).getD []).takeWhile (!blockOffends ·),
            TypedEvents (tellsBlock (Json.obj members) block)) ↔
          ∀ block ∈ ((content? members).getD []).takeWhile (!blockOffends ·), TypedBlock block :=
        forall₂_congr fun block hmem => tellsBlock_typed
          (by simpa only [Bool.not_eq_true'] using List.mem_takeWhile_imp hmem)
      rw [hblocks]
      exact ⟨fun htyped => ⟨fun hyes => absurd hyes hno, fun _ => htyped⟩,
        fun htyped => htyped.blocks hassistant⟩
    | false =>
      refine iff_of_true typedEvents_nil ⟨fun hyes => absurd hyes hno, fun hyes => ?_⟩
      rw [hassistant] at hyes
      cases hyes

theorem tells_typed {py : PyLib} {line : String} : TypedEvents (tells py line) ↔
    ∀ members, object? py line = some members → TypedObject members := by
  unfold tells
  cases object? py line with
  | none => exact iff_of_true typedEvents_nil fun members hno => by cases hno
  | some members =>
    simp only [Option.some.injEq, forall_eq']
    exact tellsObject_typed members

theorem heard_typed {py : PyLib} {lines : List String} :
    TypedEvents (heard py lines) ↔ ∀ line ∈ lines.takeWhile (!decidesLine py ·), ∀ members,
      object? py line = some members → TypedObject members := by
  rw [heard, typedEvents_flatMap]
  exact forall₂_congr fun line _ => tells_typed

/-- The events that a line function's answer lets out. -/
def letsOut (timeoutS : Int) : LineResult State → List (AgentEvent Json)
  | .next events _ => events
  | .done events => events
  | .raised events e => events ++ (handleException "claude" timeoutS e).events

theorem onResult_typed {py : PyLib} {s : State} {members : List (String × Json)} (timeoutS : Int)
    (htext : IsText s.finalText) (hresult : (Json.get members "type").isStr "result" = true) :
    TypedEvents (letsOut timeoutS (onResult py s members)) ↔
      TypedCompletion py s.sessionId members := by
  have herr : ∀ (kind : AgentErrorKind) (message : String) (retriable : Bool) (raw : Option Json),
      TypedEvents [err kind message retriable raw] := fun _ _ _ _ =>
    typedEvents_singleton.mpr (typedEvent_err ..)
  have hnot : completes s.sessionId members = false →
      TypedCompletion py s.sessionId members := by
    intro hno _ hyes
    rw [hno] at hyes
    cases hyes
  unfold onResult
  dsimp only
  cases hiserr : (Json.get members "is_error").truthy with
  | true => exact iff_of_true (herr _ _ _ _) (hnot (by rw [completes, hiserr]; rfl))
  | false =>
    cases hres : Json.has members "result" with
    | false => exact iff_of_true (herr _ _ _ _) (hnot (by rw [completes, hiserr, hres]; rfl))
    | true =>
      cases hsid : (Json.get members "session_id").truthy with
      | false => exact iff_of_true (herr _ _ _ _) (hnot (by rw [completes, hiserr, hres, hsid]; rfl))
      | true =>
        cases hmis : mismatch s.sessionId (Json.get members "session_id") with
        | true =>
          exact iff_of_true (herr _ _ _ _) (hnot (by rw [completes, hiserr, hres, hsid, hmis]; rfl))
        | false =>
          have hcompletes : completes s.sessionId members = true := by
            rw [completes, hiserr, hres, hsid, hmis]
            rfl
          unfold TypedCompletion
          cases husage : tokenUsage py ((Json.get members "usage").orElse (.obj [])) with
          | error e =>
            refine iff_of_true (typedEvents_handleException "claude" timeoutS e) ?_
            intro _ _ usage hno
            cases hno
          | ok usage =>
            simp only [Except.ok.injEq, forall_eq', hresult, hcompletes, forall_const]
            refine Iff.trans typedEvents_singleton (typedEvent_completed.trans ?_)
            rw [isThread_some, isName_iff hsid, isText_orElse htext]

theorem object?_eq {py : PyLib} {line : String} {members : List (String × Json)}
    (h : isBlank line = false) (hloads : py.loads line = .ok (.obj members)) :
    object? py line = some members := by
  rw [object?, h, hloads]
  rfl

theorem decidesLine_eq {py : PyLib} {line : String} {members : List (String × Json)}
    (hobj : object? py line = some members) : decidesLine py line = decidesObject members := by
  rw [decidesLine, isNoObject, hobj, Option.isNone_some, Bool.and_false, Bool.false_or]
  rfl

/-- A result is no init line and no assistant line. -/
theorem result_only {members : List (String × Json)}
    (h : (Json.get members "type").isStr "result" = true) :
    isInit members = false ∧ (Json.get members "type").isStr "assistant" = false := by
  refine ⟨?_, isStr_other h (by decide)⟩
  rw [isInit, isStr_other h (by decide)]
  rfl

/-- A line that is no result follows the narrative, whatever its usage. -/
theorem follows_of_no_result {py : PyLib} (req : AgentRunRequest Json) {line : String}
    (h : Plain py (fun _ => True) line) (hno : ∀ members, object? py line = some members →
      (Json.get members "type").isStr "result" = false) :
    (narrative py req).Follows (onLine py) line := by
  refine onLine_follows py req ?_
  cases h with
  | blank h => exact .blank h
  | noJson h e hloads he => exact .noJson h e hloads he
  | object h members hloads _ =>
    refine .object h members hloads fun hresult => ?_
    rw [hno members (object?_eq h hloads)] at hresult
    cases hresult

theorem follows_of_passes {py : PyLib} (req : AgentRunRequest Json) {line : String}
    (h : Plain py (fun _ => True) line) (hpass : decidesLine py line = false) :
    (narrative py req).Follows (onLine py) line := by
  refine follows_of_no_result req h fun members hobj => Bool.eq_false_iff.mpr fun hresult => ?_
  obtain ⟨hinit, hassistant⟩ := result_only hresult
  rw [decidesLine_eq hobj, decidesObject, hinit, hassistant, hresult] at hpass
  cases hpass

/-- A deciding line is a result, or closes the turn as the narrative has it. -/
theorem onLine_decides {py : PyLib} (req : AgentRunRequest Json) {line : String}
    (h : Plain py (fun _ => True) line) (hdecides : decidesLine py line = true)
    (told : List (AgentEvent Json)) :
    let s := (narrative py req).after told
    (∃ members, object? py line = some members ∧
        (Json.get members "type").isStr "result" = true ∧
          onLine py s line = onResult py s members) ∨
      (∀ members, object? py line = some members →
          (Json.get members "type").isStr "result" = false) ∧
        onLine py s line =
          .done (tells py line ++ [decision py s.sessionId s.finalText line]) := by
  by_cases hresult : ∃ members, object? py line = some members ∧
      (Json.get members "type").isStr "result" = true
  · obtain ⟨members, hobj, hresult⟩ := hresult
    refine .inl ⟨members, hobj, hresult, ?_⟩
    obtain ⟨hinit, hassistant⟩ := result_only hresult
    cases h with
    | blank h =>
      rw [object?, h] at hobj
      cases hobj
    | noJson h e hloads he =>
      rw [object?, h, hloads] at hobj
      cases hobj
    | object h members' hloads _ =>
      obtain rfl := Option.some.inj ((object?_eq h hloads).symm.trans hobj)
      rw [onLine, h, hloads]
      simp only [Bool.false_eq_true, if_false, onObject, hassistant, hresult, if_true]
      exact if_neg (by rw [← isInit, hinit]; exact Bool.false_ne_true)
  · have hno : ∀ members, object? py line = some members →
        (Json.get members "type").isStr "result" = false := fun members hobj =>
      Bool.eq_false_iff.mpr fun hyes => hresult ⟨members, hobj, hyes⟩
    exact .inr ⟨hno, (follows_of_no_result req h hno told).trans (if_pos hdecides)⟩

/-- The error that a line other than a result closes the turn with. -/
theorem decision_typed {py : PyLib} {line : String} (hdecides : decidesLine py line = true)
    (hno : ∀ members, object? py line = some members →
      (Json.get members "type").isStr "result" = false) (sid : Option Json) (text : Json) :
    TypedEvent (decision py sid text line) := by
  unfold decision
  cases hobj : object? py line with
  | none => exact typedEvent_err ..
  | some members =>
    rw [decidesLine_eq hobj, decidesObject, hno members hobj] at hdecides
    dsimp only
    split_ifs at hdecides ⊢
    · exact typedEvent_err ..
    · exact typedEvent_err ..

/-- A deciding line, after what was told. -/
theorem onLine_typed {py : PyLib} (req : AgentRunRequest Json) {line : String}
    (h : Plain py (fun _ => True) line) (hdecides : decidesLine py line = true)
    {told : List (AgentEvent Json)} (htold : TypedEvents told) :
    TypedEvents (letsOut req.timeoutS (onLine py ((narrative py req).after told) line)) ↔
      (∀ members, object? py line = some members → TypedObject members) ∧
        ∀ members, object? py line = some members →
          TypedCompletion py ((lastThread told).or req.backendThreadId) members := by
  rcases onLine_decides req h hdecides told with ⟨members, hobj, hresult, hrun⟩ | ⟨hno, hrun⟩
  · obtain ⟨hinit, hassistant⟩ := result_only hresult
    have hcopied : TypedObject members := by
      refine ⟨fun hyes => ?_, fun hyes => ?_⟩
      · rw [hinit] at hyes
        cases hyes
      · rw [hassistant] at hyes
        cases hyes
    rw [hrun, onResult_typed req.timeoutS (isText_lastText htold) hresult, hobj]
    simp only [Option.some.injEq, forall_eq']
    exact (and_iff_right hcopied).symm
  · have hnone : ∀ members, object? py line = some members →
        TypedCompletion py ((lastThread told).or req.backendThreadId) members := by
      intro members hobj hyes
      rw [hno members hobj] at hyes
      cases hyes
    rw [hrun, and_iff_left hnone, ← tells_typed]
    refine typedEvents_append.trans (and_iff_left ?_)
    exact typedEvents_singleton.mpr (decision_typed hdecides hno _ _)

/-- The loop leaves at a deciding line. -/
theorem driveLines_decides {py : PyLib} (req : AgentRunRequest Json) {line : String}
    (h : Plain py (fun _ => True) line) (hdecides : decidesLine py line = true)
    (told : List (AgentEvent Json)) (rest : List String) (stop : Option PyError) (code : Int) :
    (driveLines "claude" req.timeoutS (onLine py) finish stop code ((narrative py req).after told)
      (line :: rest)).events =
        letsOut req.timeoutS (onLine py ((narrative py req).after told) line) := by
  rw [driveLines]
  rcases onLine_decides req h hdecides told with ⟨members, hobj, hresult, hrun⟩ | ⟨hno, hrun⟩
  · have hleaves := onResult_session py ((narrative py req).after told) members
    rw [hrun]
    cases hanswer : onResult py ((narrative py req).after told) members with
    | next events s' =>
      rw [hanswer] at hleaves
      exact hleaves.elim
    | done events => rfl
    | raised events e => rfl
  · rw [hrun]
    rfl

/-- **When the events of a claude run have their types.** -/
theorem run_typed_iff {py : PyLib} {command : String} {spawn : SpawnFn}
    {req : AgentRunRequest Json} {lines : List String} {stop : Option PyError} {code : Int}
    (hspawn : spawn (buildArgv command req) req.cwd req.env req.timeoutS =
      .started lines stop code)
    (hlines : ∀ line ∈ lines, Plain py (fun _ => True) line) :
    TypedEvents (run py command spawn req).events ↔ TypedInput py req lines := by
  have hstart : (narrative py req).after [] =
      { sessionId := req.backendThreadId, finalText := .str "" } := rfl
  rw [run, hspawn, drive, ← hstart]
  cases hfound : lines.find? (decidesLine py) with
  | some line =>
    obtain ⟨rest, hsplit, hpass, hdecides⟩ := find?_decides (n := narrative py req) hfound
    have hbefore : ∀ line ∈ lines.takeWhile (!decidesLine py ·),
        (narrative py req).Follows (onLine py) line ∧ (narrative py req).decides line = false :=
      fun line hmem => ⟨follows_of_passes req (hlines line (List.takeWhile_subset _ hmem))
        (hpass line hmem), hpass line hmem⟩
    have hline := hlines line (List.mem_of_find?_eq_some hfound)
    have hconsumed : consumed py lines = lines.takeWhile (!decidesLine py ·) ++ [line] := by
      rw [consumed, hfound]
      rfl
    have hsplit' : lines = lines.takeWhile (!decidesLine py ·) ++ line :: rest := hsplit
    conv_lhs => rw [hsplit', driveLines_before hbefore []]
    refine typedEvents_append.trans ?_
    rw [List.nil_append, driveLines_decides req hline hdecides]
    constructor
    · rintro ⟨hheard, hlast⟩
      obtain ⟨hcopied, hcompletion⟩ := (onLine_typed req hline hdecides hheard).mp hlast
      refine ⟨?_, ?_⟩
      · rw [hconsumed]
        exact List.forall_mem_append.mpr ⟨heard_typed.mp hheard,
          List.forall_mem_singleton.mpr hcopied⟩
      · intro line' members hfound' hobj
        obtain rfl := Option.some.inj (hfound.symm.trans hfound')
        exact hcompletion members hobj
    · intro h
      have hcopied := h.copied
      rw [hconsumed] at hcopied
      obtain ⟨hbefore, hlast⟩ := List.forall_mem_append.mp hcopied
      have hheard := heard_typed.mpr hbefore
      exact ⟨hheard, (onLine_typed req hline hdecides hheard).mpr
        ⟨List.forall_mem_singleton.mp hlast, fun members hobj => h.completion line members hfound hobj⟩⟩
  | none =>
    obtain ⟨hall, hpass⟩ := find?_undecided (n := narrative py req) hfound
    have hall' : lines.takeWhile (!decidesLine py ·) = lines := hall
    rw [driveLines_undecided fun line hmem =>
      ⟨follows_of_passes req (hlines line hmem) (hpass line hmem), hpass line hmem⟩]
    have hheard : lines.flatMap (narrative py req).tells = heard py lines := by
      rw [heard, hall']
      rfl
    have hlast : ∀ s : State, TypedEvents
        (driveLines "claude" req.timeoutS (onLine py) finish stop code s []).events := by
      intro s
      cases stop with
      | some e => exact typedEvents_handleException "claude" req.timeoutS e
      | none =>
        rw [driveLines, finish]
        split
        · exact typedEvents_singleton.mpr (typedEvent_err ..)
        · exact typedEvents_singleton.mpr (typedEvent_err ..)
    have hconsumed : consumed py lines = lines.takeWhile (!decidesLine py ·) := by
      rw [consumed, hfound]
      exact List.append_nil _
    rw [hheard]
    refine typedEvents_append.trans ((and_iff_left (hlast _)).trans (heard_typed.trans ?_))
    rw [← hconsumed]
    refine ⟨fun h => ⟨h, fun line members hfound' => ?_⟩, fun h => h.copied⟩
    rw [hfound] at hfound'
    cases hfound'

end Claude

/-! ## Both adapters -/

/-- **What a run copies has the declared types.** -/
def Cli.TypedInput (py : PyLib) (req : AgentRunRequest Json) (lines : List String)
    (stop : Option PyError) (code : Int) : Cli → Prop
  | .codex => Codex.TypedInput py req lines stop code
  | .claude => Claude.TypedInput py req lines

/-- What is done with a result has the declared types: the thread that its session is saved with,
the text that is sent on the channel and the words of a command line that resumes it. -/
structure PassedOn (r : AgentRunResult Json) : Prop where
  saved : ∀ (session : Persistence.Session Json) (now : PyFloat),
    IsThread (session.withTurn r.backendThreadId now).backendThreadId
  sent : IsText r.finalText
  resumed : ∀ (cli : Cli) (command : String) (next : AgentRunRequest Json),
    next.backendThreadId = r.backendThreadId → ∀ word ∈ cli.buildArgv command next, IsText word

theorem isText_str (s : String) : IsText (.str s) := ⟨s, rfl⟩

theorem resumeWords_typed {thread : Option Json} (h : IsThread thread) (flag : String) :
    ∀ word ∈ resumeWords flag thread, IsText word := by
  intro word hmem
  cases thread with
  | none => exact absurd hmem List.not_mem_nil
  | some tid =>
    obtain ⟨s, rfl, -⟩ := h tid rfl
    unfold resumeWords at hmem
    dsimp only at hmem
    split at hmem
    · rcases List.mem_cons.mp hmem with rfl | hmem
      · exact isText_str flag
      · exact List.mem_singleton.mp hmem ▸ isText_str s
    · exact absurd hmem List.not_mem_nil

theorem modelWords_typed (model : Option String) : ∀ word ∈ modelWords model, IsText word := by
  intro word hmem
  unfold modelWords at hmem
  split at hmem
  · split at hmem
    · rcases List.mem_cons.mp hmem with rfl | hmem
      · exact isText_str "--model"
      · exact List.mem_singleton.mp hmem ▸ isText_str _
    · exact absurd hmem List.not_mem_nil
  · exact absurd hmem List.not_mem_nil

/-- The words of a command line are texts if the handle of its request is one. -/
theorem buildArgv_typed (cli : Cli) (command : String) {req : AgentRunRequest Json}
    (h : IsThread req.backendThreadId) : ∀ word ∈ cli.buildArgv command req, IsText word := by
  have hresume := resumeWords_typed h
  have hmodel := modelWords_typed req.model
  cases cli with
  | codex =>
    simp only [Cli.buildArgv, Codex.buildArgv, List.forall_mem_append, List.forall_mem_cons]
    exact ⟨⟨⟨⟨⟨isText_str _, isText_str _, by simp⟩, hresume "resume"⟩, isText_str _, isText_str _,
      by simp⟩, hmodel⟩, isText_str _, by simp⟩
  | claude =>
    simp only [Cli.buildArgv, Claude.buildArgv, List.forall_mem_append, List.forall_mem_cons]
    exact ⟨⟨⟨isText_str _, isText_str _, isText_str _, isText_str _, isText_str _, isText_str _,
      isText_str _, by simp⟩, hresume "--resume"⟩, hmodel⟩

theorem TypedResult.passedOn {r : AgentRunResult Json} (h : TypedResult r) : PassedOn r where
  saved _ _ := h.thread
  sent := h.finalText
  resumed cli command _ hnext := buildArgv_typed cli command (hnext ▸ h.thread)

/-- **Events carry the types of the contract exactly if what the run copies has them**, and then so
does what is done with the result. -/
theorem events_typed_iff {py : PyLib} {command : String} {spawn : SpawnFn}
    {req : AgentRunRequest Json} {lines : List String} {stop : Option PyError} {code : Int}
    (cli : Cli) (hspawn : cli.spawned command spawn req = .started lines stop code)
    (hlines : ∀ line ∈ lines, Plain py (fun _ => True) line) :
    (TypedEvents (cli.run py command spawn req).events ↔
        cli.TypedInput py req lines stop code) ∧
      (cli.TypedInput py req lines stop code → ∀ event ∈ (cli.run py command spawn req).events,
        ∀ r, completion event = some r → PassedOn r) := by
  have hiff : TypedEvents (cli.run py command spawn req).events ↔
      cli.TypedInput py req lines stop code := by
    cases cli with
    | codex => exact Codex.run_typed_iff hspawn hlines
    | claude => exact Claude.run_typed_iff hspawn hlines
  refine ⟨hiff, fun hinput event hmem r hr => ?_⟩
  refine ((hiff.mpr hinput event hmem).result r ?_).passedOn
  unfold completion at hr
  split_ifs at hr
  exact hr

/-- A message whose text is a number. -/
def numberLine : String :=
  "\x7b\"type\":\"item.completed\",\"item\":\x7b\"type\":\"agent_message\",\"text\":5\x7d\x7d"

/-- A decoder that knows the line and nothing else. -/
def decodeNumber : PyLib where
  loads text :=
    if text = numberLine then
      .ok (.obj [("type", .str "item.completed"),
        ("item", .obj [("type", .str "agent_message"), ("text", .int 5)])])
    else .error ⟨.jsonDecodeError, "Expecting value"⟩
  intOfStr _ := .error ⟨.valueError, "invalid literal for int()"⟩
  repr _ := ""
  str _ := ""

/-- A process that prints the line. -/
def spawnNumber : SpawnFn := fun _ _ _ _ => .started [numberLine] none 0

theorem events_typed_iff_number :
    TypedEvents (Cli.run decodeNumber "codex" spawnNumber
        { prompt := "hi", cwd := "/tmp", env := ∅ } .codex).events ↔
      Cli.TypedInput decodeNumber { prompt := "hi", cwd := "/tmp", env := ∅ } [numberLine] none 0
        .codex := by
  refine (events_typed_iff .codex rfl fun line hline => ?_).1
  rw [List.mem_singleton.mp hline]
  exact .object (by decide) _ rfl trivial

/-- Not every stream has its types: a message whose text is the number 5 is yielded with the number
as its text and as the final text of the turn. -/
theorem number_as_text :
    ¬ TypedEvents (Codex.run decodeNumber "codex" spawnNumber
      { prompt := "hi", cwd := "/tmp", env := ∅ }).events := by
  intro h
  obtain ⟨s, hs⟩ := (h _ List.mem_cons_self).text (.int 5) rfl
  cases hs

end ClawEngine.Backends
