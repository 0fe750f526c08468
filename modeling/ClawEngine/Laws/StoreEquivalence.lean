import ClawEngine.Persistence.Lawful

/-!
# The stores answer alike

A client of a session store draws sessions with `get_or_create`, saves what it makes of them by
`with_turn`, of any snapshot it was ever given, and checks and marks messages in sessions it was
given. Two lawful stores that both accept what the client asks, and keep its clock values alike,
give it equal answers at every step: their ledgers stay equal. The three stores accept what a client
asks whose fields pass the validation and whose values the columns hold.
-/

set_option autoImplicit false

namespace ClawEngine.Persistence

open ClawEngine.Core ClawEngine.Orchestration

variable {V σ τ : Type}

/-- One step of a client. A session is named by its position among those returned so far, so a
snapshot stays available after newer ones were returned. -/
inductive ClientOp (V : Type)
  | getOrCreate (uuid : String) (a : CreateArgs)
  | save (i : Nat) (turns : List (Option V × PyFloat))
  | isProcessed (i : Nat) (messageId : String)
  | markProcessed (i : Nat) (messageId : String)

/-- A session after a number of `with_turn` steps. -/
def Session.withTurns (s : Session V) (turns : List (Option V × PyFloat)) : Session V :=
  turns.foldl (fun s t => s.withTurn t.1 t.2) s

/-- The operation a step asks for; none when it names no returned session. -/
def ClientOp.op (returned : List (Session V)) : ClientOp V → Option (StoreOp V)
  | .getOrCreate uuid a => some (.getOrCreate uuid a)
  | .save i turns => returned[i]?.map fun s => .save (s.withTurns turns)
  | .isProcessed i mid => returned[i]?.map fun s => .isProcessed s.sessionId mid
  | .markProcessed i mid => returned[i]?.map fun s => .markProcessed s.sessionId mid

/-- The ids a client's steps are supplied with. -/
def suppliedIds (ops : List (ClientOp V)) : List String :=
  ops.filterMap fun
    | .getOrCreate uuid _ => some uuid
    | _ => none

/-- An operation asked with its answer. -/
abbrev Asked (V : Type) : Type :=
  Prog.Answered (StoreOp V) fun op => Except StoreError op.Res

/-- The session an answer returns. -/
def Asked.session : Asked V → List (Session V)
  | ⟨.getOrCreate _ _, .ok s⟩ => [s]
  | _ => []

/-- The operations a client asks of a store, with the answers. -/
def clientRun (S : SessionStore V σ) : List (ClientOp V) → List (Session V) → σ → List (Asked V)
  | [], _, _ => []
  | c :: cs, returned, s =>
    match c.op returned with
    | none => clientRun S cs returned s
    | some op =>
      ⟨op, (S.perform op s).1⟩ ::
        clientRun S cs (returned ++ Asked.session ⟨op, (S.perform op s).1⟩) (S.perform op s).2

/-! ## Two lawful stores -/

theorem Ledger.Obtained.withTurns {L : Ledger V} {s : Session V} (h : L.Obtained s)
    (turns : List (Option V × PyFloat)) : L.Obtained (s.withTurns turns) := by
  induction turns generalizing s with
  | nil => exact h
  | cons t turns ih => exact ih (s := s.withTurn t.1 t.2) h

/-- Two stores accept an operation whatever their ledger, and keep its clock value alike. -/
def Alike (S : LawfulStore V σ) (T : LawfulStore V τ) (op : StoreOp V) : Prop :=
  (∀ L, S.Accepts L op ∧ T.Accepts L op) ∧
    ∀ s, op = .save s → S.clock s.lastActive = T.clock s.lastActive

theorem Alike.perform_eq {S : LawfulStore V σ} {T : LawfulStore V τ} {op : StoreOp V}
    (h : Alike S T op) (L : Ledger V) : L.perform S.clock op = L.perform T.clock op := by
  cases op with
  | save s => simp only [Ledger.perform, Session.kept, h.2 s rfl]
  | getOrCreate uuid a => rfl
  | isProcessed sid mid => rfl
  | markProcessed sid mid => rfl

/-- A client asks within the contract. -/
theorem ClientOp.allows {L : Ledger V} {returned : List (Session V)}
    (hret : ∀ s ∈ returned, L.Obtained s) {c : ClientOp V} {op : StoreOp V}
    (hop : c.op returned = some op)
    (hfresh : ∀ uuid a, c = .getOrCreate uuid a → ¬ L.Knows uuid) : L.Allows op := by
  cases c with
  | getOrCreate uuid a =>
    cases hop
    exact hfresh uuid a rfl
  | save i turns =>
    obtain ⟨s, hs, rfl⟩ := Option.map_eq_some_iff.mp hop
    exact (hret s (List.mem_of_getElem? hs)).withTurns turns
  | isProcessed i mid =>
    obtain ⟨s, hs, rfl⟩ := Option.map_eq_some_iff.mp hop
    exact (hret s (List.mem_of_getElem? hs)).knows
  | markProcessed i mid =>
    obtain ⟨s, hs, rfl⟩ := Option.map_eq_some_iff.mp hop
    exact (hret s (List.mem_of_getElem? hs)).knows

/-- **Two lawful stores with one ledger answer a client alike**, as long as it asks what both
accept. -/
theorem clientRun_eq (S : LawfulStore V σ) (T : LawfulStore V τ) {ops : List (ClientOp V)}
    {returned : List (Session V)} {s : σ} {t : τ} (hs : S.Inv s) (ht : T.Inv t)
    (hview : S.view s = T.view t) (hret : ∀ x ∈ returned, (S.view s).Obtained x)
    (hnodup : (suppliedIds ops).Nodup) (hfresh : ∀ uuid ∈ suppliedIds ops, ¬ (S.view s).Knows uuid)
    (halike : ∀ x ∈ clientRun S.ops ops returned s, Alike S T x.1) :
    clientRun T.ops ops returned t = clientRun S.ops ops returned s := by
  induction ops generalizing returned s t with
  | nil => rfl
  | cons c cs ih =>
    have hids : suppliedIds cs <:+ suppliedIds (c :: cs) := by
      cases c <;> simp [suppliedIds]
    simp only [clientRun] at halike ⊢
    cases hop : c.op returned with
    | none =>
      simp only [hop] at halike
      exact ih hs ht hview hret (hnodup.sublist hids.sublist)
        (fun uuid hu => hfresh uuid (hids.mem hu)) halike
    | some op =>
      simp only [hop, List.forall_mem_cons] at halike
      obtain ⟨hop', halike⟩ := halike
      have hallows : (S.view s).Allows op := by
        refine ClientOp.allows hret hop fun uuid a hc => hfresh uuid ?_
        subst hc
        exact List.mem_cons_self
      obtain ⟨hans, hinv, hview'⟩ := S.accepted hs hallows (hop'.1 _).1
      obtain ⟨tans, tinv, tview⟩ := T.accepted ht (hview ▸ hallows) (hop'.1 _).2
      rw [← hview, ← hop'.perform_eq] at tans tview
      rw [hans] at halike
      dsimp only
      rw [hans]
      rw [tans]
      refine congrArg _ (ih hinv tinv (hview'.trans tview.symm) ?_
        (hnodup.sublist hids.sublist) ?_ halike)
      · intro x hx
        rw [hview']
        rcases List.mem_append.mp hx with hx | hx
        · exact (hret x hx).perform op
        · cases op with
          | getOrCreate uuid a =>
            rw [List.mem_singleton.mp hx]
            exact Ledger.obtained_getOrCreate (S.wf hs) uuid a
          | save x => cases hx
          | isProcessed sid mid => cases hx
          | markProcessed sid mid => cases hx
      · intro uuid hu hknows
        rw [hview'] at hknows
        rcases Ledger.knows_perform hknows with hknows | ⟨a, rfl⟩
        · exact hfresh uuid (hids.mem hu) hknows
        · cases c with
          | getOrCreate uuid' a' =>
            cases hop
            exact (List.nodup_cons.mp hnodup).1 hu
          | save i turns => simp [ClientOp.op] at hop
          | isProcessed i mid => simp [ClientOp.op] at hop
          | markProcessed i mid => simp [ClientOp.op] at hop

/-! ## The three stores -/

/-- Every operation of a client has fields that pass `_validate_field` and values that SQLite and
the database of dialect `D` hold. The operations are those it asks of a memory store. -/
def Fits (D : Dialect) (ops : List (ClientOp String)) : Prop :=
  ∀ x ∈ clientRun memorySessionStore ops [] .empty,
    SqlAlchemyStore.Valid x.1 ∧ Dialect.sqlite.Holds x.1 ∧ D.Holds x.1

/-- **The three stores answer alike.** A client supplied with fresh ids, whose fields pass the
validation and whose values the databases hold, is given equal answers at every step. -/
theorem stores_answer_alike (D : Dialect) (ops : List (ClientOp String))
    (hfresh : (suppliedIds ops).Nodup) (hfits : Fits D ops) :
    clientRun sqliteSessionStore ops [] .empty = clientRun memorySessionStore ops [] .empty ∧
      clientRun (sqlAlchemySessionStore D) ops [] .empty =
        clientRun memorySessionStore ops [] .empty := by
  have hview : (memoryLawful String).view .empty = Db.ledger .empty := rfl
  have hunknown : ∀ uuid ∈ suppliedIds ops, ¬ (MemoryStore.empty : MemoryStore String).ledger.Knows
      uuid := by
    rintro uuid - ⟨k, s, hs, -⟩
    cases hs
  constructor
  · refine clientRun_eq (memoryLawful String) sqliteLawful .empty trivial hview nofun hfresh
      hunknown fun x hx => ⟨fun L => ⟨trivial, (hfits x hx).2.1.takes L⟩, ?_⟩
    intro s hs
    have hholds := (hfits x hx).2.1
    rw [hs] at hholds
    exact hholds.clock.symm
  · refine clientRun_eq (memoryLawful String) (sqlAlchemyLawful D) .empty trivial hview nofun
      hfresh hunknown fun x hx => ⟨fun L => ⟨trivial, (hfits x hx).1, (hfits x hx).2.2.takes L⟩, ?_⟩
    intro s hs
    have hholds := (hfits x hx).2.2
    rw [hs] at hholds
    exact hholds.clock.symm

/-- The ids and operations are those of one conversation turn. -/
private def oneTurn : List (ClientOp String) :=
  [.getOrCreate "s1" ⟨⟨"w", "feishu", "t1"⟩, "codex", 50⟩, .isProcessed 0 "m1",
    .save 0 [(some "thread", .finite 1)], .markProcessed 0 "m1",
    .getOrCreate "s2" ⟨⟨"w", "feishu", "t1"⟩, "claude", 9⟩]

theorem stores_answer_alike_turn :
    clientRun sqliteSessionStore oneTurn [] .empty = clientRun memorySessionStore oneTurn [] .empty ∧
      clientRun (sqlAlchemySessionStore .sqlite) oneTurn [] .empty =
        clientRun memorySessionStore oneTurn [] .empty := by
  refine stores_answer_alike .sqlite oneTurn (by decide) ?_
  intro x hx
  have hrun : x.1 ∈ (clientRun memorySessionStore oneTurn [] .empty).map Sigma.fst :=
    List.mem_map_of_mem hx
  have hops : (clientRun memorySessionStore oneTurn [] .empty).map Sigma.fst =
      [.getOrCreate "s1" ⟨⟨"w", "feishu", "t1"⟩, "codex", 50⟩, .isProcessed "s1" "m1",
        .save { sessionId := "s1", workspaceId := "w", channel := "feishu"
                externalThreadKey := "t1", backendName := "codex", backendThreadId := some "thread"
                roundCount := 1, maxRounds := 50, lastActive := .finite 1 },
        .markProcessed "s1" "m1",
        .getOrCreate "s2" ⟨⟨"w", "feishu", "t1"⟩, "claude", 9⟩] := rfl
  rw [hops] at hrun
  simp only [List.mem_cons, List.not_mem_nil, or_false] at hrun
  rcases hrun with h | h | h | h | h <;> rw [h]
  · exact ⟨rfl, ⟨rfl, rfl⟩, rfl, rfl⟩
  · exact ⟨rfl, rfl, rfl⟩
  · exact ⟨rfl, ⟨rfl, rfl⟩, rfl, rfl⟩
  · exact ⟨rfl, rfl, rfl⟩
  · exact ⟨rfl, ⟨rfl, rfl⟩, rfl, rfl⟩

/-- A round limit of 2⁶³ passes the validation, and only the memory store can keep it. -/
theorem stores_differ_on_wide_integers : ∃ ops : List (ClientOp String),
    (suppliedIds ops).Nodup ∧
      (∀ x ∈ clientRun memorySessionStore ops [] .empty, SqlAlchemyStore.Valid x.1) ∧
      clientRun sqliteSessionStore ops [] .empty ≠ clientRun memorySessionStore ops [] .empty := by
  refine ⟨[.getOrCreate "s1" ⟨⟨"w", "feishu", "t1"⟩, "codex", 2 ^ 63⟩], by decide, ?_, ?_⟩
  · intro x hx
    obtain rfl := List.mem_singleton.mp hx
    rfl
  · intro heq
    have hanswers := congrArg (List.map fun x : Asked String => x.session) heq
    revert hanswers
    decide

end ClawEngine.Persistence
