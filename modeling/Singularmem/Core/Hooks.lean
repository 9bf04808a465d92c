import Singularmem.Core.Ingest

/-!
# Index hooks

A store tells its hook about the items it has persisted; what the hook answers changes
neither the store nor what the call returns. The hook of a store opened with a list fans
each call out to every member of the list. A member here is any deterministic hook: its
answer may depend on all the calls it received before, and on nothing another member did.
-/

namespace Singularmem.Core

open Library
open Effect hiding ofExcept

variable (platform : Platform)

/-- The error of a hook, which wraps the message of the error of its index. -/
structure HookError where
  message : String

/-- The methods of a search index, on the state of the index. -/
structure IndexHook (σ : Type) where
  onIngest : Item → Effect HookError σ PUnit
  onReindex : Item → Effect HookError σ PUnit
  commit : Effect HookError σ PUnit
  onIngestBatch : List Item → Effect HookError σ PUnit

/-- The calls a hook receives. -/
inductive HookCall
  | onIngest (item : Item)
  | onReindex (item : Item)
  | commit
  | onIngestBatch (items : List Item)

/-- A member of a list of hooks, with the calls it received so far. -/
structure Member where
  answer : List HookCall → HookCall → Except HookError PUnit
  received : List HookCall

/-- The member answers a call without an error. -/
def Member.succeeds (call : HookCall) (member : Member) : Bool :=
  (member.answer member.received call).isOk

/-- The member once it has received a call. -/
def Member.after (call : HookCall) (member : Member) : Member :=
  { member with received := member.received ++ [call] }

/-- A member receives a call and answers it. -/
def Member.receive (call : HookCall) : Effect HookError Member PUnit :=
  ExceptT.mk fun member => (member.answer member.received call, member.after call)

/-- The methods of a member. -/
def Member.methods : IndexHook Member where
  onIngest item := receive (.onIngest item)
  onReindex item := receive (.onReindex item)
  commit := receive .commit
  onIngestBatch items := receive (.onIngestBatch items)

/-- Call every hook, and keep the first error. -/
def runAllFrom (call : Effect HookError Member PUnit) :
    Option HookError → List Member → Option HookError × List Member
  | firstErr, [] => (firstErr, [])
  | firstErr, hook :: rest =>
    match exec call hook with
    | (.ok _, hook) =>
      let (firstErr, rest) := runAllFrom call firstErr rest
      (firstErr, hook :: rest)
    | (.error error, hook) =>
      let (firstErr, rest) := runAllFrom call (firstErr <|> some error) rest
      (firstErr, hook :: rest)

/-- Call every hook, and return the first error after all have been tried. -/
def runAll (call : Effect HookError Member PUnit) : Effect HookError (List Member) PUnit :=
  ExceptT.mk fun hooks =>
    let (firstErr, hooks) := runAllFrom call none hooks
    (firstErr.elim (.ok ⟨⟩) .error, hooks)

/-- The composite hook of a list. -/
def multiHook : IndexHook (List Member) where
  onIngest item := runAll (Member.methods.onIngest item)
  onReindex item := runAll (Member.methods.onReindex item)
  commit := runAll Member.methods.commit
  onIngestBatch items := runAll (Member.methods.onIngestBatch items)

/-- A hook with its state. -/
structure HookBox (σ : Type) where
  methods : IndexHook σ
  state : σ

/-- Run `onIngest` and, unless it failed, `commit`. -/
def fireHook {σ : Type} (item : Item) (hook : HookBox σ) : HookBox σ :=
  match exec (hook.methods.onIngest item) hook.state with
  | (.error _, state) => { hook with state }
  | (.ok _, state) => { hook with state := (exec hook.methods.commit state).2 }

/-- Run `onIngestBatch`, then `commit`. -/
def fireBatch {σ : Type} (items : List Item) (hook : HookBox σ) : HookBox σ :=
  let state := (exec (hook.methods.onIngestBatch items) hook.state).2
  { hook with state := (exec hook.methods.commit state).2 }

/-- A store with the hook attached to it. -/
structure HookedStore (σ : Type) where
  store : Store
  hook : Option (HookBox σ)

/-- A store opened with a list of hooks. -/
def openWithHooks (store : Store) (hooks : List Member) : HookedStore (List Member) :=
  ⟨store, some ⟨multiHook, hooks⟩⟩

namespace HookedStore

variable {σ : Type}

/-- Write to the store and tell the hook what was written. -/
def notifying {α : Type} (write : StoreCall α) (tell : α → HookBox σ → HookBox σ) :
    Effect Error (HookedStore σ) α := do
  let value ← zoom HookedStore.store (fun store hooked => { hooked with store }) write
  modify fun hooked => { hooked with hook := hooked.hook.map (tell value) }
  return value

/-- `Store::ingest`. -/
def ingest (env : Env) (item : NewItem) : Effect Error (HookedStore σ) Item :=
  notifying (Core.ingest platform env item) fireHook

/-- `Store::ingest_many`. -/
def ingestMany (env : Env) (items : List NewItem) : Effect Error (HookedStore σ) (List Item) :=
  notifying (Core.ingestMany platform env items) fireBatch

/-- `Store::ingest_replacing`. -/
def ingestReplacing (env : Env) (item : NewItem) (replaces : ItemId) :
    Effect Error (HookedStore σ) Item :=
  notifying (Core.ingestReplacing platform env item replaces) fireHook

end HookedStore

/-- A call that writes items. -/
inductive IngestRequest
  | ingest (item : NewItem)
  | ingestMany (items : List NewItem)
  | ingestReplacing (item : NewItem) (replaces : ItemId)

namespace HookedStore

variable {σ : Type}

/-- The store after a call; the caller goes on whatever the call returned. -/
def step (hooked : HookedStore σ) : Env × IngestRequest → HookedStore σ
  | (env, .ingest item) => (exec (ingest platform env item) hooked).2
  | (env, .ingestMany items) => (exec (ingestMany platform env items) hooked).2
  | (env, .ingestReplacing item replaces) =>
    (exec (ingestReplacing platform env item replaces) hooked).2

/-- The store after a sequence of calls. -/
def run (hooked : HookedStore σ) (calls : List (Env × IngestRequest)) : HookedStore σ :=
  calls.foldl (step platform) hooked

/-- The members of the attached hook. -/
def members (hooked : HookedStore (List Member)) : List Member :=
  hooked.hook.elim [] HookBox.state

/-- The calls the member at a place received. -/
def receivedBy (place : Nat) (hooked : HookedStore (List Member)) : List HookCall :=
  hooked.members[place]?.elim [] Member.received

end HookedStore

/-- The item a call stores and announces alone. -/
def IngestRequest.announced (env : Env) (store : Store) : IngestRequest → Option Item
  | .ingest item => (exec (Core.ingest platform env item) store).1.toOption
  | .ingestMany _ => none
  | .ingestReplacing item replaces =>
    (exec (Core.ingestReplacing platform env item replaces) store).1.toOption

/-- If the member at a place accepts an item the call announces alone, so does every other
member. -/
def Unopposed (place : Nat) (hooked : HookedStore (List Member)) (call : Env × IngestRequest) :
    Prop :=
  ∀ item ∈ call.2.announced platform call.1 hooked.store, ∀ member ∈ hooked.members[place]?,
    member.succeeds (.onIngest item) → hooked.members.all (Member.succeeds (.onIngest item))

/-- No step of the run opposes the member at a place. -/
def UnopposedRun (place : Nat) : HookedStore (List Member) → List (Env × IngestRequest) → Prop
  | _, [] => True
  | hooked, call :: rest =>
    Unopposed platform place hooked call ∧ UnopposedRun place (hooked.step platform call) rest

end Singularmem.Core
