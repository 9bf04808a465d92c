import Singularmem.Hooks.Merging

/-!
# What is not ours

A merge keeps every other key, every other event, and under our events every group that is
not ours, in their order. What stands under one of our events and is no array is lost,
unless it is one of our groups itself.
-/

namespace Singularmem.Hooks

open Library Singularmem.Core

variable {editor : Editor} {existing : Json} {bin : String}

/-- What stands under an event: the groups of an array, or another value. -/
def valuesUnder : Json → List Json
  | .array groups => groups
  | value => [value]

/-- Everything that is not ours is still there, with the same content and in the same
order. -/
structure KeepsForeign (editor : Editor) (existing merged : Json) : Prop where
  /-- The keys other than the hooks. -/
  keys : ((topLevel existing).filter (·.1 ≠ "hooks")).Sublist (topLevel merged)
  /-- The events other than ours. -/
  events : ((hooksObject (topLevel existing)).filter (·.1 ∉ eventKeys editor)).Sublist
    (hooksObject (topLevel merged))
  /-- What stands under our events. -/
  groups : ∀ event ∈ eventKeys editor, ∀ value,
    (hooksObject (topLevel existing)).lookup event = some value →
    ∃ held, (hooksObject (topLevel merged)).lookup event = some held ∧
      ((valuesUnder value).filter fun group => !groupIsOurs editor group).Sublist
        (valuesUnder held)

/-- What a merge may set anew: an array, or a group of ours that stands alone. -/
def Replaceable (editor : Editor) (bin event : String) (value : Json) : Prop :=
  value.asArray.isSome ∨ groupIsOurs editor value ∨ value = ourGroup editor bin event

/-- The keys other than the hooks are kept. -/
theorem merge_keeps_keys (editor : Editor) (existing : Json) (bin : String) :
    ((topLevel existing).filter (·.1 ≠ "hooks")).Sublist
      (topLevel (merge editor existing bin)) := by
  have version : (topLevel existing).Sublist (versioned editor (topLevel existing)) := by
    rw [versioned]
    split
    case isTrue missing =>
      rw [insertMember_absent (lookup_eq_none_iff_notMem.mp missing.2)]
      exact List.sublist_append_left _ _
    case isFalse => exact List.Sublist.refl _
  have others : (topLevel (merge editor existing bin)).filter (·.1 ≠ "hooks") =
      (versioned editor (topLevel existing)).filter (·.1 ≠ "hooks") := by
    rw [topLevel_merge]
    exact filter_insertMember (fun name => decide (name ≠ "hooks")) (by decide)
  have kept := (version.filter (·.1 ≠ "hooks")).trans (others ▸ List.filter_sublist)
  exact kept

/-- The events other than ours are kept. -/
theorem merge_keeps_events (editor : Editor) (existing : Json) (bin : String) :
    ((hooksObject (topLevel existing)).filter (·.1 ∉ eventKeys editor)).Sublist
      (hooksObject (topLevel (merge editor existing bin))) := by
  rw [hooksObject_merge, ← filter_upsertAll]
  exact List.filter_sublist

/-- An array keeps its groups that are not ours. -/
theorem merge_keeps_groups (event : String) (groups : List Json) :
    ((valuesUnder (.array groups)).filter fun group => !groupIsOurs editor group).Sublist
      (valuesUnder (mergedGroups editor bin event (some (.array groups)))) :=
  List.sublist_append_left _ _

/-- A value that is no array is kept where it is one of our groups, and only there. -/
theorem merge_keeps_value (event : String) {value : Json} (bare : value.asArray = none) :
    ((valuesUnder value).filter fun group => !groupIsOurs editor group).Sublist
      (valuesUnder (mergedGroups editor bin event (some value))) ↔
        groupIsOurs editor value ∨ value = ourGroup editor bin event := by
  have alone : valuesUnder value = [value] := by
    cases value <;> first | rfl | cases bare
  have left : valuesUnder (mergedGroups editor bin event (some value)) =
      [ourGroup editor bin event] := by
    rw [mergedGroups, groupsOf, Option.bind_some, bare]
    rfl
  rw [alone, left]
  by_cases ours : groupIsOurs editor value
  · simp [ours]
  · simp [ours]

/-- **A merge keeps everything that is not ours** exactly where each value under our events
is an array, or one of our groups. -/
theorem merge_keepsForeign_iff (editor : Editor) (existing : Json) (bin : String) :
    KeepsForeign editor existing (merge editor existing bin) ↔
      ∀ event ∈ eventKeys editor, ∀ value,
        (hooksObject (topLevel existing)).lookup event = some value →
        Replaceable editor bin event value := by
  have held : ∀ event ∈ eventKeys editor, ∀ value,
      (hooksObject (topLevel existing)).lookup event = some value →
      (hooksObject (topLevel (merge editor existing bin))).lookup event =
        some (mergedGroups editor bin event (some value)) := by
    intro event ours value found
    rw [hooksObject_merge, lookup_upsertAll (eventKeys_nodup editor), if_pos ours, found]
  constructor
  · rintro ⟨-, -, groups⟩ event ours value found
    obtain ⟨after, there, kept⟩ := groups event ours value found
    cases Option.some.inj (there.symm.trans (held event ours value found))
    cases array : value.asArray with
    | some _ => exact .inl (by rw [array]; rfl)
    | none => exact .inr ((merge_keeps_value event array).mp kept)
  · intro replaceable
    refine ⟨merge_keeps_keys editor existing bin, merge_keeps_events editor existing bin,
      fun event ours value found => ⟨_, held event ours value found, ?_⟩⟩
    cases array : value.asArray with
    | some groups =>
      have written : value = .array groups := by
        cases value <;> cases array
        rfl
      rw [written]
      exact merge_keeps_groups event groups
    | none =>
      refine (merge_keeps_value event array).mpr ?_
      refine (replaceable event ours value found).resolve_left ?_
      rw [array]
      exact Bool.false_ne_true

/-- A note that stands under an event in place of an array is gone after the merge. -/
theorem bare_value_lost :
    (hooksObject (topLevel (merge .claudeCode
      (.object [("hooks", .object [("Stop", .string "ask before stopping")])])
      "/opt/singularmem"))).lookup "Stop" =
        some (.array [ourGroup .claudeCode "/opt/singularmem" "Stop"]) ∧
    ¬ KeepsForeign .claudeCode
      (.object [("hooks", .object [("Stop", .string "ask before stopping")])])
      (merge .claudeCode (.object [("hooks", .object [("Stop", .string "ask before stopping")])])
        "/opt/singularmem") := by
  refine ⟨rfl, fun keeps => ?_⟩
  obtain ⟨held, there, kept⟩ := keeps.groups "Stop" (by decide +kernel)
    (.string "ask before stopping") rfl
  cases Option.some.inj there
  have listed := kept.subset (List.mem_singleton_self (Json.string "ask before stopping"))
  cases List.mem_singleton.mp listed

end Singularmem.Hooks
