import Singularmem.Core.Hooks

/-!
# What one hook of several receives

Every call of the composite hook reaches every member, whoever fails. A batch is therefore
announced and committed to each member on its own. A single item is not: `fireHook` takes
the error of any member for a reason to commit none. The trace of a member in a run is the
trace it has as the only hook if and only if no other member refuses a single item that it
accepts.
-/

namespace Singularmem.Core

open Library
open Effect hiding ofExcept

variable {platform : Platform}

/-- The loop of `runAll` reaches every member, and ends without an error when it began
without one and every member answered without one. -/
theorem runAllFrom_receive (call : HookCall) (firstErr : Option HookError) (hooks : List Member) :
    (runAllFrom (Member.receive call) firstErr hooks).2 = hooks.map (Member.after call) ∧
      (runAllFrom (Member.receive call) firstErr hooks).1.isNone =
        (firstErr.isNone && hooks.all (Member.succeeds call)) := by
  induction hooks generalizing firstErr with
  | nil => exact ⟨rfl, by simp [runAllFrom]⟩
  | cons hook rest inductionHypothesis =>
    have received : exec (Member.receive call) hook =
      (hook.answer hook.received call, hook.after call) := rfl
    cases answered : hook.answer hook.received call with
    | error error =>
      obtain ⟨reached, first⟩ := inductionHypothesis (firstErr <|> some error)
      rw [answered] at received
      have failed : (firstErr <|> some error).isNone = false := by cases firstErr <;> rfl
      constructor
      · simp only [runAllFrom, received, reached, List.map_cons]
      · simp only [runAllFrom, received, first, failed, List.all_cons, Member.succeeds, answered]
        simp [Except.isOk, Except.toBool]
    | ok value =>
      obtain ⟨reached, first⟩ := inductionHypothesis firstErr
      rw [answered] at received
      constructor
      · simp only [runAllFrom, received, reached, List.map_cons]
      · simp only [runAllFrom, received, first, List.all_cons, Member.succeeds, answered]
        simp [Except.isOk, Except.toBool]

/-- **Fan-out.** A call on the composite hook reaches every member. -/
theorem runAll_reaches (call : HookCall) (hooks : List Member) :
    (exec (runAll (Member.receive call)) hooks).2 = hooks.map (Member.after call) :=
  (runAllFrom_receive call none hooks).1

/-- The composite hook succeeds exactly when every member does. -/
theorem runAll_isOk (call : HookCall) (hooks : List Member) :
    (exec (runAll (Member.receive call)) hooks).1.isOk = hooks.all (Member.succeeds call) := by
  have first := (runAllFrom_receive call none hooks).2
  have outcome : (exec (runAll (Member.receive call)) hooks).1 =
    (runAllFrom (Member.receive call) none hooks).1.elim (.ok ⟨⟩) .error := rfl
  rw [outcome]
  cases ran : (runAllFrom (Member.receive call) none hooks).1 with
  | none => simpa [ran, Except.isOk, Except.toBool] using first
  | some error => simpa [ran, Except.isOk, Except.toBool] using first

/-- Every member is told about a batch and commits. -/
theorem fireBatch_members (items : List Item) (hooks : List Member) :
    fireBatch items ⟨multiHook, hooks⟩ =
      ⟨multiHook, hooks.map fun hook => (hook.after (.onIngestBatch items)).after .commit⟩ := by
  have told := runAll_reaches (.onIngestBatch items) hooks
  have committed : (exec (runAll (Member.receive .commit))
      (exec (runAll (Member.receive (.onIngestBatch items))) hooks).2).2 =
      hooks.map fun hook => (hook.after (.onIngestBatch items)).after .commit := by
    rw [told, runAll_reaches, List.map_map]
    rfl
  exact congrArg (HookBox.mk multiHook) committed

/-- Every member is told about a single item, and commits when all accepted it. -/
theorem fireHook_members (item : Item) (hooks : List Member) :
    fireHook item ⟨multiHook, hooks⟩ =
      ⟨multiHook, if hooks.all (Member.succeeds (.onIngest item)) then
        hooks.map fun hook => (hook.after (.onIngest item)).after .commit
      else hooks.map (Member.after (.onIngest item))⟩ := by
  have told := runAll_reaches (.onIngest item) hooks
  have accepted := runAll_isOk (.onIngest item) hooks
  have committed : (exec (runAll (Member.receive .commit))
      (hooks.map (Member.after (.onIngest item)))).2 =
      hooks.map fun hook => (hook.after (.onIngest item)).after .commit := by
    rw [runAll_reaches, List.map_map]
    rfl
  have same : multiHook.onIngest item = runAll (Member.receive (.onIngest item)) := rfl
  rw [fireHook, same]
  cases ran : exec (runAll (Member.receive (.onIngest item))) hooks with
  | mk outcome state =>
    rw [ran] at told accepted
    obtain rfl : state = hooks.map (Member.after (.onIngest item)) := told
    rw [← accepted, ← committed]
    cases outcome with
    | error error => rfl
    | ok value => rfl

/-- The member once it has received several calls. -/
def Member.afterAll (calls : List HookCall) (member : Member) : Member :=
  { member with received := member.received ++ calls }

/-- Two calls in a row. -/
theorem Member.after_after (first second : HookCall) :
    (fun hook : Member => (hook.after first).after second) = Member.afterAll [first, second] := by
  funext hook
  simp [Member.after, Member.afterAll]

/-- One call. -/
theorem Member.after_eq (call : HookCall) : Member.after call = Member.afterAll [call] := rfl

/-- A write and what it tells the hook. -/
theorem exec_notifying {σ α : Type} (write : StoreCall α) (tell : α → HookBox σ → HookBox σ)
    (hooked : HookedStore σ) :
    exec (HookedStore.notifying write tell) hooked =
      match exec write hooked.store with
      | (.ok value, store) => (.ok value, ⟨store, hooked.hook.map (tell value)⟩)
      | (.error error, store) => (.error error, ⟨store, hooked.hook⟩) := by
  rw [HookedStore.notifying, exec_bind, exec_zoom]
  cases exec write hooked.store with
  | mk outcome store =>
    cases outcome with
    | error error => rfl
    | ok value => rfl

/-- A write announced alone: all members are told, and commit when all accept the item. -/
theorem notifying_alone (write : StoreCall Item) (store : Store) (hooks : List Member) :
    (exec (HookedStore.notifying write fireHook) (openWithHooks store hooks)).2 =
      openWithHooks (exec write store).2 (match (exec write store).1.toOption with
        | none => hooks
        | some item => hooks.map (Member.afterAll
            (if hooks.all (Member.succeeds (.onIngest item)) then [.onIngest item, .commit]
              else [.onIngest item]))) := by
  rw [exec_notifying, openWithHooks]
  cases exec write store with
  | mk outcome after =>
    cases outcome with
    | error error => rfl
    | ok item =>
      simp only [Option.map_some, fireHook_members, Except.toOption, openWithHooks]
      split
      · rw [Member.after_after]
      · rw [Member.after_eq]

/-- A write announced as a batch: all members are told and commit. -/
theorem notifying_batch (write : StoreCall (List Item)) (store : Store) (hooks : List Member) :
    (exec (HookedStore.notifying write fireBatch) (openWithHooks store hooks)).2 =
      openWithHooks (exec write store).2 (match (exec write store).1.toOption with
        | none => hooks
        | some items => hooks.map (Member.afterAll [.onIngestBatch items, .commit])) := by
  rw [exec_notifying, openWithHooks]
  cases exec write store with
  | mk outcome after =>
    cases outcome with
    | error error => rfl
    | ok items =>
      simp only [Option.map_some, fireBatch_members, Except.toOption, openWithHooks]
      rw [Member.after_after]

/-- Receiving nothing. -/
theorem Member.afterAll_nil : Member.afterAll [] = id := by
  funext hook
  simp [Member.afterAll]

/-- How one call of a run is announced: an item announced alone is told to all members and
committed when all accept it; otherwise all receive the same calls, which do not begin with
a commit. -/
inductive Announced (call : Env × IngestRequest) (store after : Store) : Prop
  | alone (item : Item) (announced : call.2.announced platform call.1 store = some item)
      (told : ∀ hooks, (openWithHooks store hooks).step platform call =
        openWithHooks after (hooks.map (Member.afterAll
          (if hooks.all (Member.succeeds (.onIngest item)) then [.onIngest item, .commit]
            else [.onIngest item]))))
  | alike (calls : List HookCall) (announced : call.2.announced platform call.1 store = none)
      (begins : calls.head? ≠ some .commit)
      (told : ∀ hooks, (openWithHooks store hooks).step platform call =
        openWithHooks after (hooks.map (Member.afterAll calls)))

/-- A call whose item is announced alone is announced so. -/
theorem Announced.of_alone {call : Env × IngestRequest} {store : Store} {write : StoreCall Item}
    (announces : call.2.announced platform call.1 store = (exec write store).1.toOption)
    (steps : ∀ hooks, (openWithHooks store hooks).step platform call =
      (exec (HookedStore.notifying write fireHook) (openWithHooks store hooks)).2) :
    @Announced platform call store (exec write store).2 := by
  cases wrote : (exec write store).1.toOption with
  | none =>
    refine .alike [] (announces.trans wrote) (by simp) fun hooks => ?_
    rw [steps, notifying_alone, wrote, Member.afterAll_nil, List.map_id]
  | some item =>
    refine .alone item (announces.trans wrote) fun hooks => ?_
    rw [steps, notifying_alone, wrote]

/-- Every call is announced so, and the store goes the same way whatever its hooks are. -/
theorem announced (call : Env × IngestRequest) (store : Store) :
    ∃ after, @Announced platform call store after := by
  obtain ⟨env, request⟩ := call
  cases request with
  | ingest item => exact ⟨_, .of_alone rfl fun _ => rfl⟩
  | ingestReplacing item replaces => exact ⟨_, .of_alone rfl fun _ => rfl⟩
  | ingestMany items =>
    have steps : ∀ hooks, (openWithHooks store hooks).step platform (env, .ingestMany items) =
        (exec (HookedStore.notifying (ingestMany platform env items) fireBatch)
          (openWithHooks store hooks)).2 := fun _ => rfl
    refine ⟨(exec (ingestMany platform env items) store).2, ?_⟩
    cases wrote : (exec (ingestMany platform env items) store).1.toOption with
    | none =>
      refine .alike [] rfl (by simp) fun hooks => ?_
      rw [steps, notifying_batch, wrote, Member.afterAll_nil, List.map_id]
    | some stored =>
      refine .alike [.onIngestBatch stored, .commit] rfl (by simp) fun hooks => ?_
      rw [steps, notifying_batch, wrote]

/-- Receiving some calls, then others. -/
theorem Member.afterAll_afterAll (first second : List HookCall) (hooks : List Member) :
    (hooks.map (afterAll first)).map (afterAll second) = hooks.map (afterAll (first ++ second)) := by
  simp [afterAll]

/-- A run appends the same calls to what every member received, and they do not begin with
a commit. -/
theorem run_openWithHooks (calls : List (Env × IngestRequest)) (store : Store)
    (hooks : List Member) :
    ∃ after tail, tail.head? ≠ some HookCall.commit ∧
      (openWithHooks store hooks).run platform calls =
        openWithHooks after (hooks.map (Member.afterAll tail)) := by
  induction calls generalizing store hooks with
  | nil => exact ⟨store, [], by simp, by simp [HookedStore.run, Member.afterAll_nil]⟩
  | cons call rest inductionHypothesis =>
    have ran : (openWithHooks store hooks).run platform (call :: rest) =
      ((openWithHooks store hooks).step platform call).run platform rest := rfl
    have appending : ∀ first : List HookCall, ∀ middle : Store, first.head? ≠ some .commit →
        (openWithHooks store hooks).step platform call =
          openWithHooks middle (hooks.map (Member.afterAll first)) →
        ∃ after tail, tail.head? ≠ some HookCall.commit ∧
          (openWithHooks store hooks).run platform (call :: rest) =
            openWithHooks after (hooks.map (Member.afterAll tail)) := by
      intro first middle begins stepped
      obtain ⟨after, tail, follows, finished⟩ :=
        inductionHypothesis middle (hooks.map (Member.afterAll first))
      refine ⟨after, first ++ tail, ?_, ?_⟩
      · cases first with
        | nil => exact follows
        | cons head others => exact begins
      · rw [ran, stepped, finished, Member.afterAll_afterAll]
    obtain ⟨middle, announcement⟩ := @announced platform call store
    cases announcement with
    | alone item announced told =>
      refine appending _ middle ?_ (told hooks)
      split <;> simp
    | alike calls announced begins told => exact appending calls middle begins (told hooks)

/-- What the member at a place of a list has received. -/
theorem receivedBy_openWithHooks {store : Store} {hooks : List Member} {place : Nat}
    {member : Member} (placed : hooks[place]? = some member) :
    (openWithHooks store hooks).receivedBy place = member.received := by
  have members : (openWithHooks store hooks).members = hooks := rfl
  rw [HookedStore.receivedBy, members, placed]
  rfl

/-- A member keeps its place. -/
theorem placed_afterAll {hooks : List Member} {place : Nat} {member : Member}
    (placed : hooks[place]? = some member) (calls : List HookCall) :
    (hooks.map (Member.afterAll calls))[place]? = some (member.afterAll calls) := by
  rw [List.getElem?_map, placed]
  rfl

/-- A member that lacks a commit it would have received alone has another trace ever after. -/
theorem received_differ {store alone : Store} {hooks : List Member} {place : Nat}
    {member : Member} (placed : hooks[place]? = some member) (first : HookCall)
    (calls : List (Env × IngestRequest)) :
    ((openWithHooks store (hooks.map (Member.afterAll [first]))).run platform calls).receivedBy place ≠
      ((openWithHooks alone ([member].map (Member.afterAll [first, .commit]))).run platform
        calls).receivedBy 0 := by
  obtain ⟨_, tail, begins, together⟩ :=
    @run_openWithHooks platform calls store (hooks.map (Member.afterAll [first]))
  obtain ⟨_, others, _, apart⟩ :=
    @run_openWithHooks platform calls alone ([member].map (Member.afterAll [first, .commit]))
  rw [together, apart, receivedBy_openWithHooks (placed_afterAll (placed_afterAll placed _) _),
    receivedBy_openWithHooks (placed_afterAll (placed_afterAll rfl _) _)]
  intro same
  simp only [Member.afterAll, List.append_assoc, List.append_cancel_left_eq, List.cons_append,
    List.nil_append, List.cons.injEq, true_and] at same
  exact begins (by rw [same]; rfl)

/-- A call that announces no item alone opposes nobody. -/
theorem unopposed_of_none {call : Env × IngestRequest} {store : Store} {hooks : List Member}
    {place : Nat} (announced : call.2.announced platform call.1 store = none) :
    Unopposed platform place (openWithHooks store hooks) call := by
  intro item announces
  have same : (openWithHooks store hooks).store = store := rfl
  rw [same, announced] at announces
  cases announces

/-- A call that announces an item opposes a member that accepts it and is not alone in
doing so. -/
theorem unopposed_iff {call : Env × IngestRequest} {store : Store} {hooks : List Member}
    {place : Nat} {member : Member} {item : Item} (placed : hooks[place]? = some member)
    (announced : call.2.announced platform call.1 store = some item) :
    Unopposed platform place (openWithHooks store hooks) call ↔
      (member.succeeds (.onIngest item) → hooks.all (Member.succeeds (.onIngest item))) := by
  have same : (openWithHooks store hooks).store = store := rfl
  have members : (openWithHooks store hooks).members = hooks := rfl
  simp [Unopposed, members, placed, same, announced]

/-- **The trace of one hook.** For any list of hooks and any sequence of writes, a member
receives the calls it receives as the only hook if and only if no other member ever refuses
an item announced alone that this member accepts. -/
theorem received_alone_iff {place : Nat} {hooks : List Member} {member : Member}
    (placed : hooks[place]? = some member) (store : Store) (calls : List (Env × IngestRequest)) :
    ((openWithHooks store hooks).run platform calls).receivedBy place =
        ((openWithHooks store [member]).run platform calls).receivedBy 0 ↔
      UnopposedRun platform place (openWithHooks store hooks) calls := by
  induction calls generalizing store hooks member with
  | nil =>
    have alone : [member][0]? = some member := rfl
    have both := (@receivedBy_openWithHooks store _ _ _ placed).trans
      (@receivedBy_openWithHooks store _ _ _ alone).symm
    exact iff_of_true both trivial
  | cons call rest inductionHypothesis =>
    have alike : ∀ told : List HookCall, ∀ middle : Store,
        Unopposed platform place (openWithHooks store hooks) call →
        (openWithHooks store hooks).step platform call =
          openWithHooks middle (hooks.map (Member.afterAll told)) →
        (openWithHooks store [member]).step platform call =
          openWithHooks middle ([member].map (Member.afterAll told)) →
        (((openWithHooks store hooks).run platform (call :: rest)).receivedBy place =
            ((openWithHooks store [member]).run platform (call :: rest)).receivedBy 0 ↔
          UnopposedRun platform place (openWithHooks store hooks) (call :: rest)) := by
      intro told middle unopposed together apart
      have rests := inductionHypothesis (placed_afterAll placed told) middle
      have follows : openWithHooks middle [member.afterAll told] =
        (openWithHooks store [member]).step platform call := apart.symm
      rw [← together, follows] at rests
      exact rests.trans (and_iff_right unopposed).symm
    obtain ⟨middle, announcement⟩ := @announced platform call store
    cases announcement with
    | alike calls none begins told =>
      exact alike calls middle (unopposed_of_none none) (told hooks) (told [member])
    | alone item announced told =>
      have opposes := unopposed_iff placed announced
      have together := told hooks
      have apart := told [member]
      rw [List.all_cons, List.all_nil, Bool.and_true] at apart
      cases accepted : member.succeeds (.onIngest item) with
      | false =>
        have refused : hooks.all (Member.succeeds (.onIngest item)) = false := by
          rw [List.all_eq_false]
          exact ⟨member, List.mem_of_getElem? placed, by simp [accepted]⟩
        rw [refused] at together
        rw [accepted] at apart opposes
        exact alike _ middle (opposes.mpr nofun) together apart
      | true =>
        rw [accepted] at apart opposes
        cases all : hooks.all (Member.succeeds (.onIngest item)) with
        | true =>
          rw [all] at together
          exact alike _ middle (opposes.mpr fun _ => all) together apart
        | false =>
          rw [all] at together opposes
          have differ := @received_differ platform middle middle hooks place member placed
            (.onIngest item) rest
          refine iff_of_false ?_ fun unopposed => ?_
          · intro same
            refine differ (Eq.trans ?_ (same.trans ?_))
            · exact congrArg (fun hooked => (HookedStore.run platform hooked rest).receivedBy place)
                together.symm
            · exact congrArg (fun hooked => (HookedStore.run platform hooked rest).receivedBy 0) apart
          · exact Bool.false_ne_true (opposes.mp unopposed.1 rfl)

/-- A hook that never fails. -/
def accepting : Member := ⟨fun _ _ => .ok ⟨⟩, []⟩

/-- A hook that fails to index. -/
def refusing : Member :=
  ⟨fun _ call => match call with
    | .onIngest _ => .error ⟨"adding document to Tantivy writer"⟩
    | _ => .ok ⟨⟩, []⟩

/-- One call that stores an item. -/
def oneIngest : List (Env × IngestRequest) :=
  [(⟨.epoch, id⟩, .ingest ⟨"text", none, [], none, .object [], none, none⟩)]

/-- Two hooks that never fail receive what each receives alone. -/
theorem received_alone_accepting :
    ((openWithHooks ⟨false, .fresh⟩ [accepting, accepting]).run .ascii oneIngest).receivedBy 1 =
      ((openWithHooks ⟨false, .fresh⟩ [accepting]).run .ascii oneIngest).receivedBy 0 :=
  (@received_alone_iff .ascii 1 [accepting, accepting] accepting rfl ⟨false, .fresh⟩ oneIngest).mpr
    ⟨fun _ _ _ _ _ => rfl, trivial⟩

/-- Beside a hook that fails to index, a hook that never fails receives no commit for an
item it indexed; as the only hook it does. -/
theorem commit_withheld :
    ((openWithHooks ⟨false, .fresh⟩ [refusing, accepting]).run .ascii oneIngest).receivedBy 1 ≠
      ((openWithHooks ⟨false, .fresh⟩ [accepting]).run .ascii oneIngest).receivedBy 0 := by
  have together : (((openWithHooks ⟨false, .fresh⟩ [refusing, accepting]).run .ascii
      oneIngest).receivedBy 1).length = 1 := by decide +kernel
  have alone : (((openWithHooks ⟨false, .fresh⟩ [accepting]).run .ascii
      oneIngest).receivedBy 0).length = 2 := by decide +kernel
  intro same
  rw [same, alone] at together
  cases together

end Singularmem.Core
