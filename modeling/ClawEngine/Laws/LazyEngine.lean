import ClawEngine.Core.Transition
import ClawEngine.Persistence.LazyEngine

/-!
# Double-checked locking

Any number of calls of `_engine_and_tables` on one store, their reads, writes and lock operations
interleaved in any order, every attempt free to fail. The engine is assigned last, so who reads one
finds the tables; it is assigned with the lock held and after it was read as missing with the lock
held, so it is assigned once.

The invariant says for each call where it is and what the attributes then are, and who holds the
lock. The attributes change only in the hands of the holder, and what was published stays.
-/

set_option autoImplicit false

namespace ClawEngine.Persistence.LazyEngine

open ClawEngine.Core

variable {κ E T : Type}

/-! ## Where a call is -/

/-- No attribute is set. -/
structure Untouched (s : Attributes E T) : Prop where
  engine : s.engine = none
  sessions : s.sessions = none
  processed : s.processed = none

/-- All attributes are set, by one attempt. -/
structure Published (s : Attributes E T) (x : Initialised E T) : Prop where
  engine : s.engine = some x.engine
  sessions : s.sessions = some x.sessions
  processed : s.processed = some x.processed

/-- The attributes when nobody holds the lock. -/
def Settled (s : Attributes E T) : Prop := Untouched s ∨ ∃ x, Published s x

/-- Who finds an engine finds the tables. -/
def EngineLast (s : Attributes E T) : Prop := s.engine = none ∨ ∃ x, Published s x

/-- Where a call is, whether it holds the lock there, and what the attributes then are. -/
inductive Stage (s : Attributes E T) : Bool → AttrProg E T → Prop
  | start : Stage s false engineAndTables
  | locking : Stage s false locking
  | readEngine {x : Initialised E T} (h : Published s x) : Stage s false readEngine
  | assertSessions {x : Initialised E T} (h : Published s x) :
    Stage s false (assertSessions (some x.engine))
  | assertProcessed {x : Initialised E T} (h : Published s x) :
    Stage s false (assertProcessed (some x.engine))
  | readTables {x : Initialised E T} (h : Published s x) : Stage s false (readTables (some x.engine))
  | lastRead {x : Initialised E T} (h : Published s x) :
    Stage s false (.vis .getProcessed fun processed =>
      .ret (.ok (some x.engine, some x.sessions, processed)))
  | done {x : Initialised E T} (h : Published s x) :
    Stage s false (.ret (.ok (some x.engine, some x.sessions, some x.processed)))
  | failed (e : AttemptError) : Stage s false (.ret (.error e.raised))
  | rechecking (h : Settled s) : Stage s true rechecking
  | readLocked {x : Initialised E T} (h : Published s x) : Stage s true readLocked
  | leaving {x : Initialised E T} (h : Published s x) : Stage s true (leaving (some x.engine))
  | attempting (h : Untouched s) : Stage s true attempting
  | failing (h : Untouched s) (e : AttemptError) : Stage s true (failing e)
  | assignSessions (h : Untouched s) (x : Initialised E T) : Stage s true (assignSessions x)
  | assignProcessed {x : Initialised E T} (hengine : s.engine = none)
    (hsessions : s.sessions = some x.sessions) : Stage s true (assignProcessed x)
  | assignEngine {x : Initialised E T} (hengine : s.engine = none)
    (hsessions : s.sessions = some x.sessions) (hprocessed : s.processed = some x.processed) :
    Stage s true (assignEngine x)
  | ending {x : Initialised E T} (h : Published s x) : Stage s true ending

/-- The engine that an operation publishes. -/
def AttrOp.published? : AttrOp E T → Option E
  | .setEngine engine => some engine
  | _ => none

/-- What the lock does in an operation: nothing, or it is taken, or it is released. -/
inductive LockStep (s s' : Attributes E T) : Bool → Bool → Prop
  | outside (same : s' = s) : LockStep s s' false false
  | inside (locked : s'.locked = s.locked) : LockStep s s' true true
  | taken (free : s.locked = false) (locked : s'.locked = true) : LockStep s s' false true
  | released (locked : s'.locked = false) (settled : Settled s') : LockStep s s' true false

/-- What an operation of a call comes to: where the call is then, what the lock does, and what the
attributes keep. -/
structure Moves (s s' : Attributes E T) (op : AttrOp E T) (held : Bool) (q : AttrProg E T) :
    Prop where
  next : ∃ held', Stage s' held' q ∧ LockStep s s' held held'
  keeps : ∀ x, Published s x → Published s' x
  last : EngineLast s'
  engine : s'.engine.toList = s.engine.toList ++ op.published?.toList

section Steps

variable {s s' : Attributes E T} {held : Bool} {op : AttrOp E T}
  {k : op.Ans → AttrProg E T}

/-- A read. -/
theorem Moves.read {q : AttrProg E T} (hop : op.published? = none) (hlast : EngineLast s)
    (h : Stage s held q) : Moves s s op held q := by
  refine ⟨⟨held, h, ?_⟩, fun _ hx => hx, hlast, ?_⟩
  · cases held with
    | false => exact .outside rfl
    | true => exact .inside rfl
  · rw [hop, Option.toList_none, List.append_nil]

/-- Where the lock is not held, the stage of a call depends on what is published only. -/
theorem Stage.mono {q : AttrProg E T} (h : Stage s false q)
    (hkeeps : ∀ x, Published s x → Published s' x) : Stage s' false q := by
  generalize hheld : false = held at h
  cases h with
  | start => exact .start
  | locking => exact .locking
  | readEngine h => exact .readEngine (hkeeps _ h)
  | assertSessions h => exact .assertSessions (hkeeps _ h)
  | assertProcessed h => exact .assertProcessed (hkeeps _ h)
  | readTables h => exact .readTables (hkeeps _ h)
  | lastRead h => exact .lastRead (hkeeps _ h)
  | done h => exact .done (hkeeps _ h)
  | failed e => exact .failed e
  | _ => cases hheld

/-- An operation of the holder, before the engine is assigned. -/
theorem Moves.write {q : AttrProg E T} (hop : op.published? = none) (hengine : s.engine = none)
    (hsame : s'.engine = s.engine) (hlocked : s'.locked = s.locked) (h : Stage s' true q) :
    Moves s s' op true q := by
  refine ⟨⟨true, h, .inside hlocked⟩, fun x hx => ?_, .inl (hsame.trans hengine), ?_⟩
  · cases hengine.symm.trans hx.engine
  · rw [hop, hsame, Option.toList_none, List.append_nil]

/-- An operation on the lock. -/
theorem Moves.lock {q : AttrProg E T} {held' : Bool} (hop : op.published? = none)
    (hlast : EngineLast s) (hlock : LockStep s { s with locked := held' } held held')
    (h : Stage { s with locked := held' } held' q) :
    Moves s { s with locked := held' } op held q := by
  refine ⟨⟨held', h, hlock⟩, fun x hx => ⟨hx.engine, hx.sessions, hx.processed⟩, ?_, ?_⟩
  · exact hlast.imp_right fun ⟨x, hx⟩ => ⟨x, hx.engine, hx.sessions, hx.processed⟩
  · rw [hop, Option.toList_none, List.append_nil]

/-- **One operation of a call.** -/
theorem Stage.moves (h : Stage s held (.vis op k)) (hlast : EngineLast s)
    (hsettled : s.locked = false → Settled s) (hfree : attrWaits op s = false) :
    Moves s (attrHandler op s).2 op held (k (attrHandler op s).1) := by
  generalize hq : Prog.vis op k = q at h
  cases h with
  | start =>
    cases hq
    show Moves s s .getEngine false _
    rcases hlast with hnone | ⟨x, hx⟩
    · rw [show (attrHandler AttrOp.getEngine s).1 = none from hnone]
      exact .read rfl (.inl hnone) .locking
    · rw [show (attrHandler AttrOp.getEngine s).1 = some x.engine from hx.engine]
      exact .read rfl (.inr ⟨x, hx⟩) (.readEngine hx)
  | locking =>
    cases hq
    have hopen : s.locked = false := hfree
    refine .lock rfl hlast (.taken hopen rfl) (.rechecking ?_)
    refine (hsettled hopen).imp (fun hs => ⟨hs.engine, hs.sessions, hs.processed⟩) ?_
    exact fun ⟨x, hx⟩ => ⟨x, hx.engine, hx.sessions, hx.processed⟩
  | readEngine hx =>
    cases hq
    refine .read rfl hlast ?_
    rw [show (attrHandler AttrOp.getEngine s).1 = _ from hx.engine]
    exact .assertSessions hx
  | assertSessions hx =>
    cases hq
    refine .read rfl hlast ?_
    rw [show (attrHandler AttrOp.getSessions s).1 = _ from hx.sessions]
    exact .assertProcessed hx
  | assertProcessed hx =>
    cases hq
    refine .read rfl hlast ?_
    rw [show (attrHandler AttrOp.getProcessed s).1 = _ from hx.processed]
    exact .readTables hx
  | readTables hx =>
    cases hq
    refine .read rfl hlast ?_
    rw [show (attrHandler AttrOp.getSessions s).1 = _ from hx.sessions]
    exact .lastRead hx
  | lastRead hx =>
    cases hq
    refine .read rfl hlast ?_
    rw [show (attrHandler AttrOp.getProcessed s).1 = _ from hx.processed]
    exact .done hx
  | done hx => cases hq
  | failed e => cases hq
  | rechecking hs =>
    cases hq
    refine .read rfl hlast ?_
    rcases hs with hs | ⟨x, hx⟩
    · rw [show (attrHandler AttrOp.getEngine s).1 = none from hs.engine]
      exact .attempting hs
    · rw [show (attrHandler AttrOp.getEngine s).1 = _ from hx.engine]
      exact .readLocked hx
  | readLocked hx =>
    cases hq
    refine .read rfl hlast ?_
    rw [show (attrHandler AttrOp.getEngine s).1 = _ from hx.engine]
    exact .leaving hx
  | leaving hx =>
    cases hq
    have hx' := (Published.mk hx.engine hx.sessions hx.processed :
      Published { s with locked := false } _)
    exact .lock rfl hlast (.released rfl (.inr ⟨_, hx'⟩)) (.assertSessions hx')
  | attempting hs =>
    cases hq
    refine .write rfl hs.engine rfl rfl ?_
    have hs' : Untouched (attrHandler AttrOp.attempt s).2 := ⟨hs.engine, hs.sessions, hs.processed⟩
    cases (attrHandler AttrOp.attempt s).1 with
    | error e => exact .failing hs' e
    | ok x => exact .assignSessions hs' x
  | failing hs e =>
    cases hq
    have hs' : Settled { s with locked := false } :=
      .inl ⟨hs.engine, hs.sessions, hs.processed⟩
    exact .lock rfl hlast (.released rfl hs') (.failed e)
  | assignSessions hs x =>
    cases hq
    exact .write rfl hs.engine rfl rfl (.assignProcessed hs.engine rfl)
  | assignProcessed hengine hsessions =>
    cases hq
    exact .write rfl hengine rfl rfl (.assignEngine hengine hsessions rfl)
  | assignEngine hengine hsessions hprocessed =>
    cases hq
    have hx : Published (attrHandler (AttrOp.setEngine _) s).2 _ := ⟨rfl, hsessions, hprocessed⟩
    refine ⟨⟨true, .ending hx, .inside rfl⟩, fun y hy => ?_, .inr ⟨_, hx⟩, ?_⟩
    · cases hengine.symm.trans hy.engine
    · rw [hengine]
      rfl
  | ending hx =>
    cases hq
    have hx' := (Published.mk hx.engine hx.sessions hx.processed :
      Published { s with locked := false } _)
    exact .lock rfl hlast (.released rfl (.inr ⟨_, hx'⟩)) (.readEngine hx')

end Steps

/-! ## Every interleaving -/

/-- The calls `κ` on the attributes of one store. -/
abbrev Calls (κ E T : Type) : Type :=
  Pool κ (AttrOp E T) AttrOp.Ans (Except InitError (Read E T)) (Attributes E T)

/-- The engines that were published. -/
def publishedBy (log : List (Event κ (AttrOp E T) AttrOp.Ans)) : List E :=
  log.filterMap (·.op.published?)

section Race

variable [DecidableEq κ] {p p' : Calls κ E T} {i : κ}

/-- One step of the call `i`, unless it waits for the lock. -/
def attrStep (i : κ) (p : Calls κ E T) : Option (Calls κ E T) := p.advance attrWaits attrHandler i

/-- What holds between two operations. -/
structure Guarded (p : Calls κ E T) : Prop where
  last : EngineLast p.shared
  settled : p.shared.locked = false → Settled p.shared
  holder : ∃ holder : Option κ, p.shared.locked = holder.isSome ∧
    ∀ i, Stage p.shared (decide (holder = some i)) (p.threads i)
  log : publishedBy p.log = p.shared.engine.toList

/-- **One operation of one call** keeps the invariant. -/
theorem Guarded.step (h : Guarded p) (hstep : attrStep i p = some p') : Guarded p' := by
  obtain ⟨op, k, hi, hfree, rfl⟩ := Pool.advance_eq_some.mp hstep
  obtain ⟨holder, hlocked, hstages⟩ := h.holder
  have hown := hstages i
  rw [hi] at hown
  obtain ⟨⟨held', hnext, hlock⟩, hkeeps, hlast, hengine⟩ := hown.moves h.last h.settled hfree
  have hlog : publishedBy (p.perform attrHandler i op k).log =
      (attrHandler op p.shared).2.engine.toList := by
    rw [Pool.perform_log, publishedBy, List.filterMap_append, ← publishedBy, h.log, hengine]
    congr 1
  have hself : (p.perform attrHandler i op k).threads i = k (attrHandler op p.shared).1 :=
    Pool.perform_threads_self _ _ _ _ _
  have hothers : ∀ j, j ≠ i → (p.perform attrHandler i op k).threads j = p.threads j :=
    fun j hj => Pool.perform_threads_of_ne _ _ _ _ hj
  -- Who does not hold the lock stays where it is.
  have hquiet : ∀ j, j ≠ i → holder ≠ some j →
      Stage (attrHandler op p.shared).2 false ((p.perform attrHandler i op k).threads j) := by
    intro j hj hne
    have hstage := hstages j
    rw [decide_eq_false hne] at hstage
    rw [hothers j hj]
    exact hstage.mono hkeeps
  generalize hheld : decide (holder = some i) = held at hlock
  generalize hs' : (attrHandler op p.shared).2 = s' at hnext hlock hlast hlog hquiet
  have hshared : (p.perform attrHandler i op k).shared = s' := hs'
  cases hlock with
  | outside same =>
    subst same
    refine ⟨hshared ▸ h.last, fun hopen => ?_, ⟨holder, hshared ▸ hlocked, fun j => ?_⟩,
      hshared ▸ hlog⟩
    · rw [hshared] at hopen ⊢
      exact h.settled hopen
    · rw [hshared]
      by_cases hj : j = i
      · rw [hj, hself, hheld]
        exact hnext
      · rw [hothers j hj]
        exact hstages j
  | inside locked =>
    have hholder : holder = some i := of_decide_eq_true hheld
    have hheldlock : s'.locked = true := by rw [locked, hlocked, hholder, Option.isSome_some]
    refine ⟨hshared ▸ hlast, fun hopen => ?_, ⟨holder, ?_, fun j => ?_⟩, hshared ▸ hlog⟩
    · rw [hshared, hheldlock] at hopen
      cases hopen
    · rw [hshared, hheldlock, hholder, Option.isSome_some]
    · rw [hshared]
      by_cases hj : j = i
      · rw [hj, hself, hheld]
        exact hnext
      · have hne : holder ≠ some j := fun heq => hj (Option.some.inj (heq.symm.trans hholder))
        rw [decide_eq_false hne]
        exact hquiet j hj hne
  | taken free locked =>
    have hnone : holder = none := by
      rw [free] at hlocked
      exact Option.not_isSome_iff_eq_none.mp (hlocked ▸ Bool.false_ne_true)
    refine ⟨hshared ▸ hlast, fun hopen => ?_, ⟨some i, ?_, fun j => ?_⟩, hshared ▸ hlog⟩
    · rw [hshared, locked] at hopen
      cases hopen
    · rw [hshared, locked, Option.isSome_some]
    · rw [hshared]
      by_cases hj : j = i
      · rw [hj, hself, decide_eq_true rfl]
        exact hnext
      · rw [decide_eq_false fun heq => hj (Option.some.inj heq).symm]
        exact hquiet j hj (by rw [hnone]; exact nofun)
  | released locked settled =>
    have hholder : holder = some i := of_decide_eq_true hheld
    refine ⟨hshared ▸ hlast, fun _ => hshared ▸ settled, ⟨none, ?_, fun j => ?_⟩, hshared ▸ hlog⟩
    · rw [hshared, locked, Option.isSome_none]
    · rw [hshared, decide_eq_false nofun]
      by_cases hj : j = i
      · rw [hj, hself]
        exact hnext
      · exact hquiet j hj fun heq => hj (Option.some.inj (heq.symm.trans hholder))

/-- Calls on a store that was just constructed. -/
def constructed (attempts : Nat → Except AttemptError (Initialised E T)) : Calls κ E T :=
  .start { attempts } fun _ => engineAndTables

theorem guarded_constructed (attempts : Nat → Except AttemptError (Initialised E T)) :
    Guarded (constructed attempts : Calls κ E T) where
  last := .inl rfl
  settled _ := .inl ⟨rfl, rfl, rfl⟩
  holder := ⟨none, rfl, fun _ => .start⟩
  log := rfl

/-! ## What a call can rely on -/

/-- A call that leaves the lock with an exception has touched no attribute. -/
theorem Guarded.failing (h : Guarded p) {e : AttemptError} (hi : p.threads i = failing e) :
    Untouched p.shared ∧ p.shared.locked = true := by
  obtain ⟨holder, hlocked, hstages⟩ := h.holder
  have hown := hstages i
  rw [hi] at hown
  generalize hheld : decide (holder = some i) = held at hown
  generalize hq : LazyEngine.failing e = q at hown
  have hleft : ∀ {k : Unit → AttrProg E T}, LazyEngine.failing e = .vis .release k →
      k () = .ret (.error e.raised) := fun hk => by
    cases hk
    rfl
  cases hown with
  | failing hs e' =>
    refine ⟨hs, ?_⟩
    rw [hlocked, of_decide_eq_true hheld, Option.isSome_some]
  | leaving hx => cases hleft hq
  | ending hx => cases hleft hq
  | _ => cases hq

omit [DecidableEq κ] in
/-- The engine can be read off the code that goes on with it. -/
theorem assertSessions_inj {engine engine' : Option E} (t : T)
    (h : (assertSessions engine : AttrProg E T) = assertSessions engine') : engine = engine' := by
  have hprocessed : (assertProcessed engine : AttrProg E T) = assertProcessed engine' := by
    simp only [assertSessions, Prog.vis.injEq, heq_eq_eq, true_and] at h
    exact congrFun h (some t)
  have htables : (readTables engine : AttrProg E T) = readTables engine' := by
    simp only [assertProcessed, Prog.vis.injEq, heq_eq_eq, true_and] at hprocessed
    exact congrFun hprocessed (some t)
  simp only [readTables, Prog.vis.injEq, heq_eq_eq, true_and] at htables
  have hlast := congrFun htables none
  simp only [Prog.vis.injEq, heq_eq_eq, true_and] at hlast
  have hret := congrFun hlast none
  simp only [Prog.ret.injEq, Except.ok.injEq, Prod.mk.injEq, and_true] at hret
  exact hret

/-- What `_ensure_engine` returns is the engine that was published. -/
theorem Guarded.ensured (h : Guarded p) {engine : Option E}
    (hi : p.threads i = assertSessions engine) :
    ∃ x, Published p.shared x ∧ engine = some x.engine := by
  obtain ⟨holder, -, hstages⟩ := h.holder
  have hown := hstages i
  rw [hi] at hown
  generalize decide (holder = some i) = held at hown
  generalize hq : assertSessions engine = q at hown
  cases hown with
  | @assertSessions x hx => exact ⟨x, hx, assertSessions_inj x.sessions hq⟩
  | readTables hx =>
    simp only [LazyEngine.assertSessions, readTables, Prog.vis.injEq, heq_eq_eq, true_and] at hq
    cases congrFun hq none
  | _ => cases hq

/-- What a call ends with. -/
theorem Guarded.finished (h : Guarded p) {out : Except InitError (Read E T)}
    (hi : p.Finished i out) :
    (∃ e : AttemptError, out = .error e.raised) ∨ ∃ x, Published p.shared x ∧
      out = .ok (some x.engine, some x.sessions, some x.processed) := by
  obtain ⟨holder, -, hstages⟩ := h.holder
  have hown := hstages i
  rw [show p.threads i = .ret out from hi] at hown
  generalize decide (holder = some i) = held at hown
  generalize hq : (Prog.ret out : AttrProg E T) = q at hown
  cases hown with
  | done hx =>
    cases hq
    exact .inr ⟨_, hx, rfl⟩
  | failed e =>
    cases hq
    exact .inl ⟨e, rfl⟩
  | _ => cases hq

/-- Wherever the attributes are `s` and the call `i` is at `q`, its next `n` operations, performed
alone, lead to `Q`. -/
def Alone (i : κ) (n : Nat) (s : Attributes E T) (q : AttrProg E T)
    (Q : Attributes E T → AttrProg E T → Prop) : Prop :=
  ∀ p : Calls κ E T, p.shared = s → p.threads i = q →
    ∃ p', Run attrStep p (List.replicate n i) p' ∧ Q p'.shared (p'.threads i)

theorem Alone.step {n : Nat} {s : Attributes E T} {op : AttrOp E T} {k : op.Ans → AttrProg E T}
    {Q : Attributes E T → AttrProg E T → Prop} (hfree : attrWaits op s = false)
    (h : Alone i n (attrHandler op s).2 (k (attrHandler op s).1) Q) :
    Alone i (n + 1) s (.vis op k) Q := by
  rintro p rfl hi
  obtain ⟨p', hrun, hQ⟩ := h (p.perform attrHandler i op k) rfl (Pool.perform_threads_self _ _ _ _ _)
  exact ⟨p', .cons (Pool.advance_eq_some.mpr ⟨op, k, hi, hfree, rfl⟩) hrun, hQ⟩

theorem Alone.done {s : Attributes E T} {q : AttrProg E T}
    {Q : Attributes E T → AttrProg E T → Prop} (h : Q s q) : Alone i 0 s q Q := by
  rintro p rfl rfl
  exact ⟨p, .nil, h⟩

/-- A call that nobody interleaves with initialises a store that was left untouched. -/
theorem initialises {x : Initialised E T} (h : Untouched p.shared) (hopen : p.shared.locked = false)
    (hattempt : p.shared.attempts p.shared.tried = .ok x) (hi : p.threads i = engineAndTables) :
    ∃ p', Run attrStep p (List.replicate 13 i) p' ∧ Published p'.shared x ∧
      p'.Finished i (.ok (some x.engine, some x.sessions, some x.processed)) := by
  obtain ⟨hengine, hsessions, hprocessed⟩ := h
  have halone : ∀ attempts tried, attempts tried = .ok x →
      Alone i 13 { attempts, tried } engineAndTables fun s q => Published s x ∧
        q = .ret (.ok (some x.engine, some x.sessions, some x.processed)) := by
    intro attempts tried hattempt
    have hok : (attrHandler .attempt ({ locked := true, attempts, tried } : Attributes E T)).1 =
        .ok x := hattempt
    -- The attempt succeeds: the attributes are assigned, the lock is released, and all is read back.
    have hattempting : Alone i 10 { locked := true, attempts, tried } attempting fun s q =>
        Published s x ∧ q = .ret (.ok (some x.engine, some x.sessions, some x.processed)) := by
      refine .step rfl ?_
      rw [hok]
      refine .step rfl (.step rfl (.step rfl (.step rfl (.step rfl ?_))))
      exact .step rfl (.step rfl (.step rfl (.step rfl (.done ⟨⟨rfl, rfl, rfl⟩, rfl⟩))))
    exact .step rfl (.step rfl (.step rfl hattempting))
  refine halone _ _ hattempt p ?_ hi
  rcases hs : p.shared with ⟨engine, sessions, processed, locked, attempts, tried⟩
  rw [hs] at hengine hsessions hprocessed hopen
  obtain rfl : engine = none := hengine
  obtain rfl : sessions = none := hsessions
  obtain rfl : processed = none := hprocessed
  obtain rfl : locked = false := hopen
  rfl

/-- **Double-checked locking.** After any interleaving of any number of calls, whose attempts fail
or not: at most one engine was published; a call that is past `_ensure_engine` has that engine; a
call that ends has the engine and the tables of the one attempt, or raises what an attempt raised,
and never an assertion; a failed attempt leaves the attributes as they were before any and the lock
free; and from such a state a later call whose attempt succeeds initialises the store. -/
theorem engine_published_once (attempts : Nat → Except AttemptError (Initialised E T))
    {schedule : List κ} {p : Calls κ E T} (h : Run attrStep (constructed attempts) schedule p) :
    (publishedBy p.log).length ≤ 1 ∧
    (∀ i engine, p.threads i = assertSessions engine →
      ∃ x, Published p.shared x ∧ engine = some x.engine ∧ publishedBy p.log = [x.engine]) ∧
    (∀ i out, p.Finished i out →
      (∃ e : AttemptError, out = .error e.raised ∧ e.raised ≠ .assertionError) ∨
        ∃ x, Published p.shared x ∧ out = .ok (some x.engine, some x.sessions, some x.processed) ∧
          publishedBy p.log = [x.engine]) ∧
    (∀ i e p', p.threads i = attempting → p.shared.attempts p.shared.tried = .error e →
      attrStep i p = some p' → p'.threads i = failing e) ∧
    (∀ i e p', p.threads i = failing e → attrStep i p = some p' →
      Untouched p'.shared ∧ p'.shared.locked = false ∧ p'.Finished i (.error e.raised)) ∧
    (Untouched p.shared → p.shared.locked = false → ∀ i x,
      p.shared.attempts p.shared.tried = .ok x → p.threads i = engineAndTables →
        ∃ p', Run attrStep p (List.replicate 13 i) p' ∧ Published p'.shared x ∧
          p'.Finished i (.ok (some x.engine, some x.sessions, some x.processed))) := by
  have hp : Guarded p := h.invariant (fun hstep hs => Guarded.step hs hstep)
    (guarded_constructed attempts)
  have hone : ∀ x, Published p.shared x → publishedBy p.log = [x.engine] := by
    intro x hx
    rw [hp.log, hx.engine, Option.toList_some]
  refine ⟨?_, fun i engine hi => ?_, fun i out hi => ?_, fun i e p' hi he hstep => ?_,
    fun i e p' hi hstep => ?_, fun hs hopen i x hattempt hi => initialises hs hopen hattempt hi⟩
  · rw [hp.log]
    exact Option.length_toList_le
  · obtain ⟨x, hx, rfl⟩ := hp.ensured hi
    exact ⟨x, hx, rfl, hone x hx⟩
  · rcases hp.finished hi with ⟨e, rfl⟩ | ⟨x, hx, rfl⟩
    · exact .inl ⟨e, rfl, by cases e <;> exact nofun⟩
    · exact .inr ⟨x, hx, rfl, hone x hx⟩
  · obtain ⟨op, k, hop, -, rfl⟩ := Pool.advance_eq_some.mp hstep
    cases hi.symm.trans hop
    rw [Pool.perform_threads_self, show (attrHandler AttrOp.attempt p.shared).1 = _ from he]
  · obtain ⟨hs, -⟩ := hp.failing hi
    obtain ⟨op, k, hop, -, rfl⟩ := Pool.advance_eq_some.mp hstep
    cases hi.symm.trans hop
    exact ⟨⟨hs.engine, hs.sessions, hs.processed⟩, rfl, Pool.perform_threads_self _ _ _ _ _⟩

end Race

/-- The first attempt fails, the others succeed. -/
def failsOnce : Nat → Except AttemptError (Initialised Nat Unit)
  | 0 => .error (.sqlAlchemyError "OperationalError")
  | n + 1 => .ok ⟨n, (), ()⟩

/-- A call fails and raises; a later one initialises the store. -/
theorem engine_published_once_later :
    ∃ p p' : Calls Bool Nat Unit,
      Run attrStep (constructed failsOnce) (List.replicate 5 true) p ∧
      p.Finished true (.error (.sessionStoreError
        "failed to initialize engine or create schema: OperationalError" "init")) ∧
      Run attrStep p (List.replicate 13 false) p' ∧
      p'.Finished false (.ok (some 0, some (), some ())) := by
  have hrun : Run attrStep (constructed failsOnce : Calls Bool Nat Unit) (List.replicate 5 true) _ :=
    .cons rfl (.cons rfl (.cons rfl (.cons rfl (.cons rfl .nil))))
  obtain ⟨-, -, -, -, -, hlater⟩ := engine_published_once failsOnce hrun
  obtain ⟨p', hinit, -, hdone⟩ := hlater ⟨rfl, rfl, rfl⟩ rfl false ⟨0, (), ()⟩ rfl rfl
  exact ⟨_, p', hrun, rfl, hinit, hdone⟩

end ClawEngine.Persistence.LazyEngine
