import Singularmem.Core.ItemStore
import Singularmem.Core.Rejections
import Singularmem.Core.ScopeFilters

/-!
# Stored scopes

Every scope in the item table was returned by validation. Each write preserves this, so it
holds after any calls.
-/

namespace Singularmem.Core

open Library
open Effect hiding ofExcept

variable {platform : Platform} {env : Env}

/-- A scope that validation returned, or none. -/
def Scope.Validated (platform : Platform) (scope : Option String) : Prop :=
  ∀ path ∈ scope, ∃ raw, Scope.validate platform raw = .ok path

/-- Every stored scope was returned by validation. -/
def Tables.ScopesValidated (platform : Platform) (tables : Tables) : Prop :=
  ∀ row ∈ tables.items.rows, Scope.Validated platform row.scope

/-- The pending tables hold validated scopes. -/
def Pending.ScopesValidated (platform : Platform) (pending : Pending) : Prop :=
  pending.tables.ScopesValidated platform

/-- A store holds validated scopes. -/
def Store.ScopesValidated (platform : Platform) (store : Store) : Prop :=
  store.database.tables.ScopesValidated platform

/-- A scope that validates is validated. -/
theorem Scope.validated_of_mapM {given scope : Option String}
    (returned : given.mapM (Scope.validate platform) = .ok scope) :
    Scope.Validated platform scope := by
  rcases given with _ | raw
  · cases returned
    rintro _ ⟨⟩
  · obtain ⟨path, accepted, rest⟩ := except_bind_returned returned
    cases rest
    rintro _ ⟨⟩
    exact ⟨raw, accepted⟩

/-- The scope of a validated submission is validated. -/
theorem validate_scope {item : NewItem} {validated : Validated}
    (returned : validate platform item = .ok validated) :
    Scope.Validated platform validated.scope :=
  Scope.validated_of_mapM (validatesAs returned).scope

/-- Changing rows but not to unvalidated scopes. -/
theorem Tables.ScopesValidated.map {tables : Tables} (held : tables.ScopesValidated platform)
    {items : Table itemSchema} {change : ItemRow → ItemRow}
    (rows : items.rows = tables.items.rows.map change)
    (kept : ∀ row, Scope.Validated platform row.scope → Scope.Validated platform (change row).scope) :
    Tables.ScopesValidated platform { tables with items } := by
  intro row member
  rw [rows] at member
  obtain ⟨source, sourceIn, rfl⟩ := List.mem_map.mp member
  exact kept source (held source sourceIn)

/-- Setting tables with validated scopes. -/
theorem setTables_scopesValidated {tables : Tables} (valid : tables.ScopesValidated platform) :
    Preserves (Pending.ScopesValidated platform) (setTables tables) :=
  .modify fun _ _ => valid

/-- Minting an identifier keeps the tables. -/
theorem mintRawUlid_scopesValidated :
    Preserves (Pending.ScopesValidated platform) (mintRawUlid env) :=
  .bind (.throwIf _ _) fun _ => .get_bind fun _ held => held

/-- Tags have no scopes. -/
theorem insertTags_scopesValidated (id : ItemId) (tags : List String) :
    Preserves (Pending.ScopesValidated platform) (insertTags id tags) := by
  induction tags with
  | nil => exact .pure _
  | cons tag rest inductionHypothesis =>
    refine .get_bind fun pending held => ?_
    split
    · exact held
    · refine Preserves.bind (setTables_scopesValidated ?_) (fun _ => inductionHypothesis) pending held
      exact held

/-- An inserted row has the validated scope. -/
theorem insertItemRow_scopesValidated {id : ItemId} {item : NewItem} {validated : Validated}
    (valid : Scope.Validated platform validated.scope) :
    Preserves (Pending.ScopesValidated platform) (insertItemRow platform env id item validated) := by
  refine .get_bind fun pending held => ?_
  split
  · exact held
  case h_2 items inserted =>
    obtain ⟨_, _, rows⟩ := Table.insert_eq_ok.mp inserted
    have grown : Tables.ScopesValidated platform { pending.tables with items } := by
      intro row member
      rw [rows] at member
      rcases List.mem_append.mp member with old | new
      · exact held row old
      · rw [List.mem_singleton.mp new]
        exact valid
    exact Preserves.bind (setTables_scopesValidated grown)
      (fun _ => insertTags_scopesValidated id validated.tags) pending held

/-- Checking a target changes nothing. -/
theorem checkSupersedes_scopesValidated (supersedes : Option ItemId) :
    Preserves (Pending.ScopesValidated platform) (checkSupersedes supersedes) := by
  refine .get_bind fun pending held => ?_
  rcases supersedes with _ | target
  · exact held
  · exact Preserves.throwIf _ _ pending held

/-- The loop of `ingestMany` inserts validated scopes. -/
theorem insertEach_scopesValidated {items : List (NewItem × Validated)}
    (valid : ∀ pair ∈ items, Scope.Validated platform pair.2.scope) :
    Preserves (Pending.ScopesValidated platform) (insertEach platform env items) := by
  induction items with
  | nil => exact .pure _
  | cons pair rest inductionHypothesis =>
    refine .bind (checkSupersedes_scopesValidated _) fun _ => ?_
    refine .bind mintRawUlid_scopesValidated fun ulid => ?_
    refine .bind (insertItemRow_scopesValidated (valid pair List.mem_cons_self)) fun _ => ?_
    refine .bind (inductionHypothesis fun other otherIn => valid other ?_) fun _ => .pure _
    exact List.mem_cons_of_mem pair otherIn

/-- A transaction preserves what its body does. -/
theorem transaction_scopesValidated {α : Type} {committing : String} {body : Tx α}
    (kept : Preserves (Pending.ScopesValidated platform) body) :
    Preserves (Store.ScopesValidated platform)
      (transaction committing body) := by
  intro store held
  rcases ran : exec (transaction committing body) store with ⟨error | value, after⟩
  · rw [transaction_threw ran]
    exact held
  · obtain ⟨_, pending, worked, tables⟩ := transaction_returned ran
    change after.database.tables.ScopesValidated platform
    rw [tables]
    exact kept.after worked held

/-- So does a write. -/
theorem writing_scopesValidated {α : Type} {operation committing : String} {body : Tx α}
    (kept : Preserves (Pending.ScopesValidated platform) body) :
    Preserves (Store.ScopesValidated platform)
      (writing operation committing body) :=
  .bind (.get_bind fun store held => Preserves.throwIf _ _ store held)
    fun _ => transaction_scopesValidated kept

/-- **Every call stores only validated scopes.** -/
theorem perform_scopesValidated (env : Env) (call : ItemCall) :
    Preserves (Store.ScopesValidated platform)
      (call.perform platform env) := by
  cases call with
  | ingest item =>
    refine .map _ (writing_scopesValidated (.ofExcept_bind fun validated accepted => ?_))
    refine .bind mintRawUlid_scopesValidated fun ulid => ?_
    refine .bind (checkSupersedes_scopesValidated _) fun _ => ?_
    exact .bind (insertItemRow_scopesValidated (validate_scope accepted)) fun _ => .pure _
  | ingestMany items =>
    refine .map _ (writing_scopesValidated (.ofExcept_bind fun validated accepted => ?_))
    refine insertEach_scopesValidated ?_
    rintro ⟨item, normalised⟩ member
    obtain ⟨input, _, computed⟩ := exists_of_mem_mapM accepted (List.of_mem_zip member).2
    exact validate_scope computed
  | ingestReplacing item replaces =>
    refine .map _ (writing_scopesValidated (.ofExcept_bind fun validated accepted => ?_))
    refine .bind mintRawUlid_scopesValidated fun ulid => ?_
    refine .get_bind fun pending held => ?_
    refine Preserves.bind (.throwIf _ _) (fun _ => ?_) pending held
    refine .bind (setTables_scopesValidated (held.map rfl ?_)) fun _ => ?_
    · intro row valid
      split <;> exact valid
    · exact .bind (insertItemRow_scopesValidated (validate_scope accepted)) fun _ => .pure _
  | setScope id scope =>
    refine .map _ (.bind ?_ fun _ => .ofExcept_bind fun normalised accepted => ?_)
    · exact .get_bind fun store held => Preserves.throwIf _ _ store held
    · refine .bind (transaction_scopesValidated ?_) fun _ => .get_bind fun store held => ?_
      · refine .get_bind fun pending held => ?_
        refine Preserves.bind (.throwIf _ _) (fun _ => ?_) pending held
        refine setTables_scopesValidated (held.map rfl ?_)
        intro row valid
        split
        · exact Scope.validated_of_mapM accepted
        · exact valid
      · exact Preserves.ofExcept _ store held

/-- **Every stored scope was returned by validation**, after any calls. -/
theorem runItemCalls_scopesValidated (calls : List (Env × ItemCall)) {start : Store}
    (held : start.ScopesValidated platform) :
    (runItemCalls platform calls start).ScopesValidated platform := by
  induction calls generalizing start with
  | nil => exact held
  | cons call rest inductionHypothesis =>
    exact inductionHypothesis (perform_scopesValidated call.1 call.2 start held)

end Singularmem.Core
