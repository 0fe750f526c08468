import ClawEngine.Persistence.Contracts
import Mathlib.Data.Set.Insert
import Mathlib.Logic.Function.Basic

/-!
# MemorySessionStore

`engine/persistence/memory_store.py`. Its dictionaries are only looked up, so they are functions;
its set is a predicate.
-/

set_option autoImplicit false

namespace ClawEngine.Persistence

open ClawEngine.Core ClawEngine.Orchestration

variable {V : Type}

/-- The state of a `MemorySessionStore`. -/
structure MemoryStore (V : Type) where
  byId : String → Option (Session V)
  keyToId : Key → Option String
  processed : String × String → Bool

namespace MemoryStore

/-- A new store. -/
def empty : MemoryStore V := ⟨fun _ => none, fun _ => none, fun _ => false⟩

/-- `MemorySessionStore.get_or_create`. The lookup by id of a known key raises `KeyError` when the
id is unknown. -/
def getOrCreate (uuid : String) (a : CreateArgs) (s : MemoryStore V) :
    Except StoreError (Session V) × MemoryStore V :=
  match s.keyToId a.key with
  | some sid =>
    match s.byId sid with
    | some session => (.ok session, s)
    | none => (.error (.failure "KeyError"), s)
  | none =>
    let session := Session.create uuid a
    (.ok session,
      { s with
        byId := Function.update s.byId uuid (some session)
        keyToId := Function.update s.keyToId a.key (some uuid) })

/-- `MemorySessionStore.save`. -/
def save (session : Session V) (s : MemoryStore V) : Except StoreError Unit × MemoryStore V :=
  (.ok (),
    { s with
      byId := Function.update s.byId session.sessionId (some session)
      keyToId := Function.update s.keyToId session.key (some session.sessionId) })

/-- `MemorySessionStore.is_processed`. -/
def isProcessed (sessionId messageId : String) (s : MemoryStore V) :
    Except StoreError Bool × MemoryStore V :=
  (.ok (s.processed (sessionId, messageId)), s)

/-- `MemorySessionStore.mark_processed`. -/
def markProcessed (sessionId messageId : String) (s : MemoryStore V) :
    Except StoreError Unit × MemoryStore V :=
  (.ok (), { s with processed := Function.update s.processed (sessionId, messageId) true })

end MemoryStore

/-- `MemorySessionStore` as a `SessionStore`. -/
def memorySessionStore : SessionStore V (MemoryStore V) where
  getOrCreate := MemoryStore.getOrCreate
  save := MemoryStore.save
  isProcessed := MemoryStore.isProcessed
  markProcessed := MemoryStore.markProcessed

end ClawEngine.Persistence
