import Singularmem.Core.Items
import Singularmem.Library.Effects

/-!
# Rejected submissions

Validation fails only with an error that names a field, and what it returns has its tags
in order and without duplicates.
-/

namespace Singularmem.Core

open Library

variable {platform : Platform}

/-- Where the computation fails, a field did not pass validation. -/
def Rejecting {α : Type} (outcome : Except Error α) : Prop :=
  ∀ error, outcome = .error error → ∃ field reason, error = .validation field reason

theorem Rejecting.ok {α : Type} (value : α) : Rejecting (.ok value) := by
  rintro _ ⟨⟩

theorem Rejecting.error {α : Type} (field reason : String) :
    Rejecting (.error (.validation field reason) : Except Error α) := by
  rintro _ ⟨⟩
  exact ⟨field, reason, rfl⟩

theorem Rejecting.bind {α β : Type} {first : Except Error α} {next : α → Except Error β}
    (rejecting : Rejecting first) (others : ∀ value, Rejecting (next value)) :
    Rejecting (first >>= next) := by
  intro error threw
  rcases except_bind_threw threw with failed | ⟨value, _, failed⟩
  · exact rejecting error failed
  · exact others value error failed

theorem Rejecting.mapM {α β : Type} {compute : α → Except Error β} {inputs : List α}
    (each : ∀ input, Rejecting (compute input)) : Rejecting (inputs.mapM compute) := by
  intro error threw
  obtain ⟨input, _, failed⟩ := mapM_threw threw
  exact each input error failed

theorem Rejecting.ite {α : Type} {condition : Prop} [Decidable condition] {first second : Except Error α}
    (whenTrue : Rejecting first) (whenFalse : Rejecting second) :
    Rejecting (if condition then first else second) := by
  split
  · exact whenTrue
  · exact whenFalse

theorem Rejecting.option {α β : Type} {compute : α → Except Error β} (value : Option α)
    (each : ∀ input, Rejecting (compute input)) : Rejecting (value.mapM compute) := by
  rcases value with _ | input
  · exact .ok _
  · exact .bind (each input) fun _ => .ok _

/-- Scope paths. -/
theorem Scope.validate_rejecting (raw : String) : Rejecting (Scope.validate platform raw) := by
  refine .ite (.error _ _) (.ite (.error _ _) (.bind (.mapM fun segment => ?_) fun segments => ?_))
  · exact .ite (.error _ _) (.ite (.error _ _) (.ite (.error _ _) (.ite (.error _ _) (.ok _))))
  · refine .ite (.bind (.error _ _) fun _ => ?_) ?_
    all_goals exact .ite (.bind (.error _ _) fun _ => .ok _) (.ok _)

/-- External identifiers. -/
theorem validateExternalId_rejecting (externalId : Option String) :
    Rejecting (validateExternalId externalId) := by
  rcases externalId with _ | externalId
  · exact .ok _
  · exact .ite (.error _ _) (.ite (.error _ _) (.ite (.error _ _) (.ok _)))

/-- Source labels. -/
theorem validateSource_rejecting (source : Option String) : Rejecting (validateSource source) := by
  rcases source with _ | source
  · exact .ok _
  · exact .ite (.error _ _) (.ok _)

/-- Tag lists. -/
theorem normaliseTags_rejecting (tags : List String) : Rejecting (normaliseTags tags) := by
  refine .bind (.mapM fun tag => ?_) fun _ => .ok _
  exact .ite (.error _ _) (.ite (.error _ _) (.ite (.error _ _) (.ok _)))

/-- **Validation only fails with an error that names a field.** -/
theorem validate_rejecting (item : NewItem) : Rejecting (validate platform item) := by
  refine .bind ?_ fun _ => .bind (validateSource_rejecting _) fun _ =>
    .bind (validateExternalId_rejecting _) fun _ => .bind ?_ fun _ =>
    .bind (normaliseTags_rejecting _) fun _ =>
    .bind (.option _ Scope.validate_rejecting) fun _ => .ok _
  · exact .ite (.error _ _) (.ite (.error _ _) (.ok _))
  · exact .ite (.ok _) (.error _ _)

/-- What a submission that passed is validated as: its checked fields returned nothing, and its
tags and scope were normalised. -/
structure NewItem.ValidatesAs (platform : Platform) (item : NewItem) (validated : Validated) :
    Prop where
  content : validateContent item.content = .ok ⟨⟩
  source : validateSource item.source = .ok ⟨⟩
  externalId : validateExternalId item.externalId = .ok ⟨⟩
  metadata : validateMetadata item.metadata = .ok ⟨⟩
  tags : normaliseTags item.tags = .ok validated.tags
  scope : item.scope.mapM (Scope.validate platform) = .ok validated.scope

/-- Validation runs through every check. -/
theorem validatesAs {item : NewItem} {validated : Validated}
    (returned : validate platform item = .ok validated) : item.ValidatesAs platform validated := by
  obtain ⟨_, content, returned⟩ := except_bind_returned returned
  obtain ⟨_, source, returned⟩ := except_bind_returned returned
  obtain ⟨_, externalId, returned⟩ := except_bind_returned returned
  obtain ⟨_, metadata, returned⟩ := except_bind_returned returned
  obtain ⟨tags, normalised, returned⟩ := except_bind_returned returned
  obtain ⟨scope, accepted, returned⟩ := except_bind_returned returned
  cases returned
  exact ⟨content, source, externalId, metadata, normalised, accepted⟩

/-- Normalised tags are an ordered list without its repetitions. -/
theorem normaliseTags_returned {tags normalised : List String}
    (returned : normaliseTags tags = .ok normalised) :
    ∃ ordered : List String, ordered.Pairwise (· ≤ ·) ∧
      normalised = ordered.destutter (· ≠ ·) := by
  obtain ⟨checked, _, sorted⟩ := except_bind_returned returned
  cases sorted
  exact ⟨_, List.pairwise_insertionSort (· ≤ ·) checked, rfl⟩

/-- Validated tags are distinct. -/
theorem validate_tags {item : NewItem} {validated : Validated}
    (returned : validate platform item = .ok validated) : validated.tags.Nodup := by
  obtain ⟨tags, ordered, normalised⟩ := normaliseTags_returned (validatesAs returned).tags
  rw [normalised, ordered.destutter_eq_dedup]
  exact List.nodup_dedup _

end Singularmem.Core
