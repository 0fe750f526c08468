import ClawEngine.Core.Dict
import ClawEngine.Core.Json

/-!
# The runtime contract

`engine/runtime/contracts.py` and the stream check of `engine/runtime/contract_suite.py`. The code
is duck typed: where the contract declares a text, a backend may hand over any value it decoded.
The types are therefore generic in `V`, the values a backend delivers; a conforming backend is the
case `V = String`, the two CLI adapters are the case `V = Json`.
-/

set_option autoImplicit false

namespace ClawEngine.Runtime

open ClawEngine.Core

variable {V : Type}

/-- What the engine hands to a backend for one turn. -/
structure AgentRunRequest (V : Type) where
  prompt : String
  cwd : String
  env : Dict String String
  backendThreadId : Option V := none
  model : Option String := none
  timeoutS : Int := 1800
  attachments : List String := []
  metadata : Dict String (Option String) := ∅

inductive AgentEventKind
  | threadStarted | messageDelta | messageCompleted | toolCallStarted | toolCallCompleted
  | turnCompleted | error
  deriving DecidableEq, Repr

inductive AgentErrorKind
  | auth | timeout | rateLimit | backendCrash | protocol | cancelled
  deriving DecidableEq, Repr

def AgentErrorKind.value : AgentErrorKind → String
  | .auth => "auth"
  | .timeout => "timeout"
  | .rateLimit => "rate_limit"
  | .backendCrash => "backend_crash"
  | .protocol => "protocol"
  | .cancelled => "cancelled"

structure TokenUsage where
  inputTokens : Int := 0
  outputTokens : Int := 0
  deriving DecidableEq, Repr

structure ToolEvent (V : Type) where
  name : V
  input : Option V := none
  output : Option V := none
  skill : Option String := none

structure AgentError (V : Type) where
  kind : AgentErrorKind
  message : String
  retriable : Bool := false
  raw : Option V := none

structure AgentRunResult (V : Type) where
  backendThreadId : Option V
  finalText : V
  usage : TokenUsage
  status : String := "ok"

structure AgentEvent (V : Type) where
  kind : AgentEventKind
  backendThreadId : Option V := none
  text : Option V := none
  tool : Option (ToolEvent V) := none
  usage : Option TokenUsage := none
  result : Option (AgentRunResult V) := none
  error : Option (AgentError V) := none
  raw : Option V := none

structure BackendCapabilities where
  supportsResume : Bool
  supportsStreaming : Bool
  supportsTools : Bool
  supportsMcp : Bool
  authModes : List String

/-- What exhausting an event iterator gives: the events it yielded and the exception it ended
with, if it raised. -/
structure EventStream (V ε : Type) where
  events : List (AgentEvent V)
  raised : Option ε := none

/-! ## The stream check -/

/-- `e.kind in _TERMINAL`. -/
def AgentEvent.isTerminal (e : AgentEvent V) : Bool :=
  e.kind = .turnCompleted || e.kind = .error

/-- `assert_valid_event_stream`; an exception is the text of the failed assertion. -/
def assertValidEventStream (events : List (AgentEvent V)) : Except String Unit :=
  match events.getLast? with
  | none => .error "事件流不能为空"
  | some last =>
    let terminals := events.filter AgentEvent.isTerminal
    if terminals.length ≠ 1 then .error s!"必须恰好一个终态事件，实际 {terminals.length}"
    else if !last.isTerminal then .error "终态事件必须在末尾"
    else if last.kind = .turnCompleted then
      if last.result.isNone then .error "TURN_COMPLETED 必须携带 result"
      else if last.error.isSome then .error "TURN_COMPLETED 不得携带 error"
      else .ok ()
    else
      if last.error.isNone then .error "ERROR 必须携带 error"
      else if last.result.isSome then .error "ERROR 不得携带 result"
      else .ok ()

/-- A terminal event whose fields match its kind. -/
def AgentEvent.Closes (e : AgentEvent V) : Prop :=
  (e.kind = .turnCompleted ∧ e.result.isSome ∧ e.error = none) ∨
    (e.kind = .error ∧ e.error.isSome ∧ e.result = none)

theorem AgentEvent.Closes.isTerminal {e : AgentEvent V} (h : e.Closes) : e.isTerminal = true := by
  rcases h with ⟨hk, _⟩ | ⟨hk, _⟩ <;> simp only [AgentEvent.isTerminal, hk, decide_true,
    Bool.true_or, Bool.or_true]

/-- **What the check accepts**: events that are not terminal, then one that closes the stream. -/
theorem assertValidEventStream_ok {events : List (AgentEvent V)} :
    assertValidEventStream events = .ok () ↔
      ∃ before last, events = before ++ [last] ∧ (∀ e ∈ before, e.isTerminal = false) ∧
        last.Closes := by
  constructor
  · intro h
    unfold assertValidEventStream at h
    cases hl : events.getLast? with
    | none => simp only [hl, reduceCtorEq] at h
    | some last =>
      obtain ⟨before, rfl⟩ := List.getLast?_eq_some_iff.mp hl
      simp only [hl] at h
      split at h
      · cases h
      next hlen =>
      split at h
      · cases h
      next hterm =>
      have hlast : last.isTerminal = true := by simpa using hterm
      have hbefore : ∀ e ∈ before, e.isTerminal = false := by
        have hzero : (before.filter AgentEvent.isTerminal).length = 0 := by
          simp only [List.filter_append, List.filter_cons, hlast, if_true, List.filter_nil,
            List.length_append, List.length_cons, List.length_nil] at hlen
          omega
        intro e he
        have hnil := List.eq_nil_of_length_eq_zero hzero
        simpa using List.filter_eq_nil_iff.mp hnil e he
      refine ⟨before, last, rfl, hbefore, ?_⟩
      split at h
      next hk =>
        split at h
        · cases h
        next hr =>
        split at h
        · cases h
        next he =>
        left
        exact ⟨hk, by simpa [Option.isSome_iff_ne_none] using hr, by simpa using he⟩
      next hk =>
        have hk' : last.kind = .error := by
          simpa only [AgentEvent.isTerminal, hk, decide_false, Bool.false_or, decide_eq_true_eq]
            using hlast
        split at h
        · cases h
        next he =>
        split at h
        · cases h
        next hr =>
        right
        exact ⟨hk', by simpa [Option.isSome_iff_ne_none] using he, by simpa using hr⟩
  · rintro ⟨before, last, rfl, hbefore, hlast⟩
    have hfilter : before.filter AgentEvent.isTerminal = [] :=
      List.filter_eq_nil_iff.mpr fun e he => by simp only [hbefore e he, Bool.false_eq_true,
        not_false_eq_true]
    have hterm := hlast.isTerminal
    unfold assertValidEventStream
    simp only [List.getLast?_append, List.getLast?_singleton, Option.some_or, List.filter_append,
      hfilter, List.filter_cons, hterm, if_true, List.filter_nil, List.nil_append,
      List.length_cons, List.length_nil]
    rcases hlast with ⟨hk, hr, he⟩ | ⟨hk, he, hr⟩
    · simp only [hk, he, Option.isNone_iff_eq_none, Option.isSome_iff_ne_none.mp hr]
      rfl
    · simp only [hk, hr, Option.isNone_iff_eq_none, Option.isSome_iff_ne_none.mp he]
      rfl

end ClawEngine.Runtime
