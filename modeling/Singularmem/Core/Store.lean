import Singularmem.Core.Schema
import Singularmem.Library.Effects

/-!
# The store and its transactions

A store is a database and whether it may be written. A call reads the clock once and
draws random bytes as often as it mints an identifier; both are inputs of the call. A
write runs in a transaction: it works on pending tables, which replace the database when
the call returns and every foreign key holds, and are dropped otherwise.
-/

namespace Singularmem.Core

open Library Effect

/-- What a call reads from the injected clock and random generator. -/
structure Env where
  now : Timestamp
  /-- The value of each draw of 16 random bytes. -/
  random : Nat → Nat

/-- An open store. -/
structure Store where
  readOnly : Bool
  database : Database

/-- The state of an open transaction: its tables, and the draws made so far. -/
structure Pending where
  tables : Tables
  drawn : Nat

/-- A computation in a transaction. -/
abbrev Tx := Effect Error Pending

/-- A call on a store. -/
abbrev StoreCall := Effect Error Store

/-- Mint a fresh ULID from the clock reading and one draw. -/
def mintRawUlid (env : Env) : Tx Ulid := do
  throwIf (env.now.asMillisecond < 0)
    (.validation "internal:timestamp" "current wall-clock predates 1970-01-01")
  let pending ← get
  set { pending with drawn := pending.drawn + 1 }
  return .fromParts env.now.asMillisecond.toNat (env.random pending.drawn)

/-- Replace the pending tables. -/
def setTables (tables : Tables) : Tx PUnit := modify fun pending => { pending with tables }

/-- Run a computation on the tables and commit what it leaves; an error, also at the
commit, leaves the store as it was. -/
def transaction {α : Type} (committing : String) (body : Tx α) : StoreCall α :=
  ExceptT.mk fun store =>
    match body.exec ⟨store.database.tables, 0⟩ with
    | (.ok value, pending) =>
      if references : pending.tables.References then
        (.ok value, { store with database := ⟨pending.tables, references⟩ })
      else (.error (.sqlite committing .foreignKey), store)
    | (.error error, _) => (.error error, store)

/-- Refuse to write to a read-only store. -/
def assertWritable (operation : String) : StoreCall PUnit := do
  let store ← get
  throwIf store.readOnly (.readOnly operation)

/-- A write in one transaction. -/
def writing {α : Type} (operation committing : String) (body : Tx α) : StoreCall α := do
  assertWritable operation
  transaction committing body

/-- A minted identifier costs one draw, and the clock does not read before 1970. -/
theorem mintRawUlid_returned {env : Env} {pending after : Pending} {ulid : Ulid}
    (minted : exec (mintRawUlid env) pending = (.ok ulid, after)) :
    0 ≤ env.now.asMillisecond ∧ after.tables = pending.tables := by
  obtain ⟨recent, rest⟩ := throwIf_bind_returned minted
  rw [exec_bind_ok (exec_get pending), exec_bind_ok (exec_set _ _)] at rest
  cases rest
  exact ⟨Int.not_lt.mp recent, rfl⟩

section Writing

variable {α : Type} {operation committing : String} {body : Tx α} {store after : Store}

/-- A writable store lets the call go on. -/
theorem exec_assertWritable (store : Store) :
    exec (assertWritable operation) store =
      (if store.readOnly then .error (.readOnly operation) else .ok ⟨⟩, store) := by
  rw [assertWritable, exec_bind_ok (exec_get store), exec_throwIf]

/-- A call that went on runs on a writable store. -/
theorem assertWritable_bind_returned {β : Type} {next : PUnit → StoreCall β} {result : β}
    (returned : exec (assertWritable operation >>= next) store = (.ok result, after)) :
    store.readOnly = false ∧ exec (next ⟨⟩) store = (.ok result, after) := by
  obtain ⟨_, middle, accepted, rest⟩ := exec_bind_returned returned
  rw [exec_assertWritable] at accepted
  split at accepted
  · cases accepted
  case isFalse writable =>
    cases accepted
    exact ⟨by simpa using writable, rest⟩

/-- What a transaction computes. -/
theorem exec_transaction (committing : String) (body : Tx α) (store : Store) :
    exec (transaction committing body) store =
      match exec body ⟨store.database.tables, 0⟩ with
      | (.ok value, pending) =>
        if references : pending.tables.References then
          (.ok value, { store with database := ⟨pending.tables, references⟩ })
        else (.error (.sqlite committing .foreignKey), store)
      | (.error error, _) => (.error error, store) := rfl

/-- A transaction that returned commits the tables its body left. -/
theorem transaction_returned {value : α}
    (returned : exec (transaction committing body) store = (.ok value, after)) :
    after.readOnly = store.readOnly ∧
      ∃ pending, exec body ⟨store.database.tables, 0⟩ = (.ok value, pending) ∧
        after.database.tables = pending.tables := by
  rw [exec_transaction] at returned
  split at returned
  case h_1 result pending ran =>
    split at returned
    · cases returned
      exact ⟨rfl, pending, ran, rfl⟩
    · cases returned
  case h_2 => cases returned

/-- A transaction that failed leaves the store as it was. -/
theorem transaction_threw {error : Error}
    (threw : exec (transaction committing body) store = (.error error, after)) : after = store := by
  rw [exec_transaction] at threw
  split at threw
  · split at threw
    · cases threw
    · cases threw
      rfl
  · cases threw
    rfl

/-- **A failed write leaves the store as it was.** -/
theorem writing_error {error : Error}
    (failed : exec (writing operation committing body) store = (.error error, after)) :
    after = store := by
  rw [writing, exec_bind, exec_assertWritable] at failed
  split at failed
  case h_1 value middle accepted =>
    obtain rfl : middle = store := (congrArg Prod.snd accepted).symm
    exact transaction_threw failed
  case h_2 error middle refused =>
    cases failed
    exact (congrArg Prod.snd refused).symm

/-- **A successful write** ran on a writable store, and commits the tables its body
left. -/
theorem writing_returned {value : α}
    (returned : exec (writing operation committing body) store = (.ok value, after)) :
    store.readOnly = false ∧ after.readOnly = false ∧
      ∃ pending, exec body ⟨store.database.tables, 0⟩ = (.ok value, pending) ∧
        after.database.tables = pending.tables := by
  obtain ⟨writable, ran⟩ := assertWritable_bind_returned returned
  obtain ⟨same, committed⟩ := transaction_returned ran
  exact ⟨writable, same.trans writable, committed⟩

/-- A write that changes no table returns on a writable store, and leaves it as it was. -/
theorem writing_idle {value : α} {drawn : Nat} (writable : store.readOnly = false)
    (ran : exec body ⟨store.database.tables, 0⟩ = (.ok value, ⟨store.database.tables, drawn⟩)) :
    exec (writing operation committing body) store = (.ok value, store) := by
  have accepted : exec (assertWritable operation) store = (.ok ⟨⟩, store) := by
    rw [exec_assertWritable, writable]
    rfl
  rw [writing, exec_bind_ok accepted, exec_transaction, ran]
  exact dif_pos store.database.references

end Writing

end Singularmem.Core
