import ClawEngine.Laws.EventStreams
import Mathlib.Data.List.TakeWhile

/-!
# What a stream tells

A stream can be told from the lines alone, without the loop that reads them: the events of the lines
before the first one that decides the turn, then one closing event. The closing event is that of the
deciding line, or else that of the exception or of the exit code.

A **narrative** says of a line whether it decides, what it tells and how it closes the turn. What the
loop carries from line to line can be read off the events told so far: the thread last announced and
the text last told. `Follows` relates an adapter's line function to a narrative one line at a time,
and `driveLines_told` carries it over the loop.

Lines are taken as the decoder takes them: blank, rejected with a `JSONDecodeError`, or an object.
-/

set_option autoImplicit false

namespace ClawEngine.Backends

open ClawEngine.Core ClawEngine.Runtime

/-! ## Lines -/

/-- The members of the object that a line holds. -/
def object? (py : PyLib) (line : String) : Option (List (String × Json)) :=
  if isBlank line then none
  else
    match py.loads line with
    | .ok (.obj members) => some members
    | _ => none

/-- A line that is not blank and holds no object. -/
def isNoObject (py : PyLib) (line : String) : Bool := !isBlank line && (object? py line).isNone

/-- A line that is blank, that is not JSON, or that is a JSON object with members as `P` has them. -/
inductive Plain (py : PyLib) (P : List (String × Json) → Prop) (line : String) : Prop
  | blank (h : isBlank line = true)
  | noJson (h : isBlank line = false) (e : PyError) (hloads : py.loads line = .error e)
    (he : e.kind = .jsonDecodeError)
  | object (h : isBlank line = false) (members : List (String × Json))
    (hloads : py.loads line = .ok (.obj members)) (hP : P members)

theorem Plain.mono {py : PyLib} {P Q : List (String × Json) → Prop} {line : String}
    (h : Plain py P line) (hPQ : ∀ members, P members → Q members) : Plain py Q line := by
  cases h with
  | blank h => exact .blank h
  | noJson h e hloads he => exact .noJson h e hloads he
  | object h members hloads hP => exact .object h members hloads (hPQ members hP)

/-! ## Events -/

/-- The thread last announced in events. -/
def lastThread (events : List (AgentEvent Json)) : Option Json :=
  (events.filterMap AgentEvent.backendThreadId).getLast?

/-- The text last told in events, empty if there is none. -/
def lastText (events : List (AgentEvent Json)) : Json :=
  (events.filterMap AgentEvent.text).getLast?.getD (.str "")

theorem lastThread_append (told events : List (AgentEvent Json)) :
    lastThread (told ++ events) = (lastThread events).or (lastThread told) := by
  rw [lastThread, List.filterMap_append, List.getLast?_append]
  rfl

theorem lastText_append (told events : List (AgentEvent Json)) :
    lastText (told ++ events) =
      (events.filterMap AgentEvent.text).getLast?.getD (lastText told) := by
  rw [lastText, List.filterMap_append, List.getLast?_append]
  cases (events.filterMap AgentEvent.text).getLast? <;> rfl

/-- The event for an exception that the `except` clauses name. -/
def stopEvent (cli : String) (timeoutS : Int) (e : PyError) : AgentEvent Json :=
  if e.kind = .timeoutExpired then timeoutError s!"{cli} 读取超时 ({timeoutS}s)"
  else crashError s!"{cli} 子进程异常: {e.text}"

theorem handleException_caught {cli : String} {timeoutS : Int} {e : PyError} (h : Caught e) :
    handleException cli timeoutS e = { events := [stopEvent cli timeoutS e] } := by
  unfold handleException stopEvent
  by_cases ht : e.kind = .timeoutExpired
  · rw [if_pos ht, if_pos ht]
  · rw [if_neg ht, if_pos (h.resolve_left ht), if_neg ht]

/-! ## Narratives -/

/-- Which lines decide the turn, what a line tells, the state of the loop after what was told, and
the closing event of a deciding line in a state. -/
structure Narrative (S : Type) where
  decides : String → Bool
  tells : String → List (AgentEvent Json)
  after : List (AgentEvent Json) → S
  closes : S → String → AgentEvent Json

namespace Narrative

variable {S : Type} (n : Narrative S)

/-- What the lines before the first deciding one tell. -/
def heard (lines : List String) : List (AgentEvent Json) :=
  (lines.takeWhile (!n.decides ·)).flatMap n.tells

/-- A line function does with a line what the narrative says of it. -/
def Follows (onLine : S → String → LineResult S) (line : String) : Prop :=
  ∀ told, onLine (n.after told) line =
    if n.decides line then .done (n.tells line ++ [n.closes (n.after told) line])
    else .next (n.tells line) (n.after (told ++ n.tells line))

/-- The end of a stream: what the first deciding line tells and how it closes the turn, or else
the event that follows the lines. -/
def ending (told : List (AgentEvent Json)) (lines : List String) (last : S → AgentEvent Json) :
    List (AgentEvent Json) :=
  let s := n.after (told ++ n.heard lines)
  match lines.find? n.decides with
  | some line => n.tells line ++ [n.closes s line]
  | none => [last s]

end Narrative

/-- The event that follows the lines: for what the iterator raised, or for the exit code. -/
def lastEvent {S : Type} (cli : String) (timeoutS : Int) (stop : Option PyError)
    (finishes : S → AgentEvent Json) (s : S) : AgentEvent Json :=
  match stop with
  | some e => stopEvent cli timeoutS e
  | none => finishes s

section Loop

variable {S : Type} {n : Narrative S} {onLine : S → String → LineResult S} {cli : String}
  {timeoutS : Int} {finish : S → Int → List (AgentEvent Json)} {stop : Option PyError} {code : Int}

/-- Lines that pass are told, and the loop goes on. -/
theorem driveLines_before {before rest : List String}
    (hbefore : ∀ line ∈ before, n.Follows onLine line ∧ n.decides line = false)
    (told : List (AgentEvent Json)) :
    driveLines cli timeoutS onLine finish stop code (n.after told) (before ++ rest) =
      yieldThen (before.flatMap n.tells) (driveLines cli timeoutS onLine finish stop code
        (n.after (told ++ before.flatMap n.tells)) rest) := by
  induction before generalizing told with
  | nil =>
    rw [List.flatMap_nil, List.append_nil]
    rfl
  | cons first before ih =>
    obtain ⟨⟨hfollows, hpasses⟩, hrest⟩ := List.forall_mem_cons.mp hbefore
    rw [List.cons_append, driveLines, hfollows told, hpasses, if_neg Bool.false_ne_true,
      List.flatMap_cons]
    dsimp only
    rw [ih hrest]
    simp only [yieldThen, List.append_assoc]

/-- A deciding line after lines that pass closes the stream, whatever follows it. -/
theorem driveLines_decided {before rest : List String} {line : String}
    (hbefore : ∀ line ∈ before, n.Follows onLine line ∧ n.decides line = false)
    (hline : n.Follows onLine line) (hdecides : n.decides line = true)
    (told : List (AgentEvent Json)) :
    driveLines cli timeoutS onLine finish stop code (n.after told) (before ++ line :: rest) =
      { events := before.flatMap n.tells ++ (n.tells line ++
          [n.closes (n.after (told ++ before.flatMap n.tells)) line]) } := by
  rw [driveLines_before hbefore told, driveLines, hline (told ++ before.flatMap n.tells),
    if_pos hdecides]
  rfl

/-- Lines that all pass are told, and then the loop ends. -/
theorem driveLines_undecided {lines : List String}
    (h : ∀ line ∈ lines, n.Follows onLine line ∧ n.decides line = false)
    (told : List (AgentEvent Json)) :
    driveLines cli timeoutS onLine finish stop code (n.after told) lines =
      yieldThen (lines.flatMap n.tells) (driveLines cli timeoutS onLine finish stop code
        (n.after (told ++ lines.flatMap n.tells)) []) := by
  conv_lhs => rw [← List.append_nil lines]
  exact driveLines_before h told

/-- Where no line decides, all lines are before it. -/
theorem find?_undecided {lines : List String} (h : lines.find? n.decides = none) :
    lines.takeWhile (!n.decides ·) = lines ∧ ∀ line ∈ lines, n.decides line = false := by
  have hpass : ∀ line ∈ lines, n.decides line = false := fun line hmem =>
    Bool.eq_false_iff.mpr (List.find?_eq_none.mp h line hmem)
  refine ⟨List.takeWhile_eq_self_iff.mpr fun line hmem => ?_, hpass⟩
  rw [hpass line hmem]
  rfl

/-- The lines before the first deciding one, and it. -/
theorem find?_decides {lines : List String} {line : String}
    (h : lines.find? n.decides = some line) :
    ∃ rest, lines = lines.takeWhile (!n.decides ·) ++ line :: rest ∧
      (∀ line ∈ lines.takeWhile (!n.decides ·), n.decides line = false) ∧
        n.decides line = true := by
  obtain ⟨hdecides, before, rest, rfl, hbefore⟩ := List.find?_eq_some_iff_append.mp h
  have htake : (before ++ line :: rest).takeWhile (!n.decides ·) = before := by
    rw [List.takeWhile_append_of_pos hbefore, List.takeWhile_cons, hdecides]
    exact List.append_nil before
  refine ⟨rest, by rw [htake], ?_, hdecides⟩
  rw [htake]
  intro line hmem
  simpa only [Bool.not_eq_true'] using hbefore line hmem

/-- **The loop tells its lines.** -/
theorem driveLines_told {finishes : S → AgentEvent Json} {lines : List String}
    (h : ∀ line ∈ lines, n.Follows onLine line) (hstop : ∀ e, stop = some e → Caught e)
    (hfinish : ∀ s, finish s code = [finishes s]) (told : List (AgentEvent Json)) :
    driveLines cli timeoutS onLine finish stop code (n.after told) lines =
      { events := n.heard lines ++
          n.ending told lines (lastEvent cli timeoutS stop finishes) } := by
  unfold Narrative.ending Narrative.heard
  cases hfound : lines.find? n.decides with
  | some line =>
    obtain ⟨rest, hlines, hpass, hdecides⟩ := find?_decides hfound
    have hbefore : ∀ line ∈ lines.takeWhile (!n.decides ·),
        n.Follows onLine line ∧ n.decides line = false := fun line hmem =>
      ⟨h line (List.takeWhile_subset _ hmem), hpass line hmem⟩
    conv_lhs => rw [hlines]
    exact driveLines_decided hbefore (h line (List.mem_of_find?_eq_some hfound)) hdecides told
  | none =>
    obtain ⟨hall, hpass⟩ := find?_undecided hfound
    rw [hall, driveLines_undecided fun line hmem => ⟨h line hmem, hpass line hmem⟩]
    cases stop with
    | none =>
      rw [driveLines, hfinish]
      rfl
    | some e =>
      rw [driveLines, handleException_caught (hstop e rfl)]
      rfl

end Loop

end ClawEngine.Backends
