import Singularmem.Hooks.Config

/-!
# Merging

A merge in closed form: each of our events holds what was there and is not ours, and then
our group. For paths that hold no quote a merge replaces what an earlier one wrote. What a
merge loses is what stands under one of our events and is no array.
-/

namespace Singularmem.Hooks

open Library Singularmem.Core

variable {editor : Editor} {existing : Json} {bin first second : String}

section Entries

/-- The hooks that are installed, by event. -/
def ourHooks (editor : Editor) (bin : String) : List (String × Json) :=
  (((entries editor bin).get "hooks").bind Json.asObject).getD []

/-- The events that hooks are installed for. -/
def eventKeys (editor : Editor) : List String := (ourHooks editor "").map Prod.fst

/-- The group installed under an event. -/
def ourGroup (editor : Editor) (bin event : String) : Json :=
  ((groupsOf ((ourHooks editor bin).lookup event)).head?).getD .null

/-- The entries hold hooks. -/
theorem entries_hooks (editor : Editor) (bin : String) :
    ((entries editor bin).get "hooks").bind Json.asObject = some (ourHooks editor bin) := by
  cases editor <;> rfl

/-- One group is installed under each event. -/
theorem ourHooks_eq (editor : Editor) (bin : String) :
    ourHooks editor bin =
      (eventKeys editor).map fun event => (event, .array [ourGroup editor bin event]) := by
  cases editor <;> rfl

/-- No event comes twice. -/
theorem eventKeys_nodup (editor : Editor) : (eventKeys editor).Nodup := by
  cases editor <;> decide +kernel

/-- The one command of a group of Claude Code or Codex decides. -/
theorem groupIsOurs_commandGroup (listed : editor ≠ .cursor) (matcher : Option String)
    (line : String) (option : String × Json) :
    groupIsOurs editor (commandGroup matcher line option) = isOurs line := by
  cases matcher <;> cases editor <;>
    simp [groupIsOurs, commandGroup, commandHook, hookCommand, Json.get, Json.asArray,
      Json.asStr] at listed ⊢

/-- The command of an entry of Cursor decides. -/
theorem groupIsOurs_entry (line : String) (options : List (String × Json)) :
    groupIsOurs .cursor (.object (("command", .string line) :: options)) = isOurs line := rfl

/-- The group under an event holds one command, for one of the hook events. -/
theorem groupIsOurs_ourGroup_command {event : String} (ours : event ∈ eventKeys editor) :
    ∃ fired, groupIsOurs editor (ourGroup editor bin event) =
      isOurs (command editor fired bin) := by
  cases editor with
  | claudeCode =>
    have listed : event ∈ ["SessionStart", "Stop", "PreCompact", "SessionEnd"] := ours
    simp only [List.mem_cons, List.not_mem_nil, or_false] at listed
    rcases listed with rfl | rfl | rfl | rfl
    · exact ⟨.sessionStart, groupIsOurs_commandGroup (by decide) _ _ _⟩
    · exact ⟨.stop, groupIsOurs_commandGroup (by decide) _ _ _⟩
    · exact ⟨.preCompact, groupIsOurs_commandGroup (by decide) _ _ _⟩
    · exact ⟨.sessionEnd, groupIsOurs_commandGroup (by decide) _ _ _⟩
  | codex =>
    have listed : event ∈ ["SessionStart", "Stop", "PreCompact"] := ours
    simp only [List.mem_cons, List.not_mem_nil, or_false] at listed
    rcases listed with rfl | rfl | rfl
    · exact ⟨.sessionStart, groupIsOurs_commandGroup (by decide) _ _ _⟩
    · exact ⟨.stop, groupIsOurs_commandGroup (by decide) _ _ _⟩
    · exact ⟨.preCompact, groupIsOurs_commandGroup (by decide) _ _ _⟩
  | cursor =>
    have listed : event ∈ ["sessionStart", "stop", "preCompact", "sessionEnd"] := ours
    simp only [List.mem_cons, List.not_mem_nil, or_false] at listed
    rcases listed with rfl | rfl | rfl | rfl
    · exact ⟨.sessionStart, groupIsOurs_entry _ _⟩
    · exact ⟨.stop, groupIsOurs_entry _ _⟩
    · exact ⟨.preCompact, groupIsOurs_entry _ _⟩
    · exact ⟨.sessionEnd, groupIsOurs_entry _ _⟩

/-- **Our groups are recognised** exactly where the path holds no quote. -/
theorem groupIsOurs_ourGroup {event : String} (ours : event ∈ eventKeys editor) :
    groupIsOurs editor (ourGroup editor bin event) ↔ '"' ∉ bin.toList := by
  obtain ⟨fired, same⟩ := @groupIsOurs_ourGroup_command editor bin event ours
  rw [same, isOurs_command]

/-- What is installed repeats no key. -/
theorem ourGroup_keyed {event : String} (ours : event ∈ eventKeys editor) :
    (ourGroup editor bin event).keyed := by
  have whole : (Json.object (ourHooks editor bin)).keyed := by
    cases editor <;> simp [ourHooks, entries, Json.get, Json.asObject, commandGroup,
      commandHook, Json.keyed, Json.keyedElements, Json.keyedMembers]
  have member : (event, Json.array [ourGroup editor bin event]) ∈ ourHooks editor bin :=
    ourHooks_eq editor bin ▸ List.mem_map_of_mem ours
  exact Json.keyed_array.mp ((Json.keyed_object.mp whole).2 _ member) _ List.mem_cons_self

end Entries

section ClosedForm

/-- The top level of a configuration. -/
def topLevel (existing : Json) : List (String × Json) := existing.asObject.getD []

/-- The top level with a version, for Cursor. -/
def versioned (editor : Editor) (members : List (String × Json)) : List (String × Json) :=
  if editor = .cursor ∧ members.lookup "version" = none then
    insertMember "version" (.number "1") members
  else members

/-- What a merge leaves under one of our events. -/
def mergedGroups (editor : Editor) (bin event : String) (old : Option Json) : Json :=
  .array ((groupsOf old).filter (fun group => !groupIsOurs editor group) ++
    [ourGroup editor bin event])

/-- The version does not touch the hooks. -/
theorem hooksObject_versioned (members : List (String × Json)) :
    hooksObject (versioned editor members) = hooksObject members := by
  rw [versioned]
  split
  case isTrue => simp [hooksObject, lookup_insertMember]
  case isFalse => rfl

/-- **A merge** sets each of our events, in the hooks there are. -/
theorem merge_eq (editor : Editor) (existing : Json) (bin : String) :
    merge editor existing bin = .object (insertMember "hooks"
      (.object (upsertAll (mergedGroups editor bin) (eventKeys editor)
        (hooksObject (topLevel existing)))) (versioned editor (topLevel existing))) := by
  have loop : ∀ hooks, (ourHooks editor bin).foldl (mergeEvent editor) hooks =
      upsertAll (mergedGroups editor bin) (eventKeys editor) hooks := by
    intro hooks
    rw [ourHooks_eq, List.foldl_map]
    rfl
  rw [merge, entries_hooks]
  simp only [loop]
  rw [← @hooksObject_versioned editor (topLevel existing)]
  rfl

/-- The top level after a merge. -/
theorem topLevel_merge (editor : Editor) (existing : Json) (bin : String) :
    topLevel (merge editor existing bin) = insertMember "hooks"
      (.object (upsertAll (mergedGroups editor bin) (eventKeys editor)
        (hooksObject (topLevel existing)))) (versioned editor (topLevel existing)) := by
  rw [merge_eq]
  rfl

/-- The hooks after a merge. -/
theorem hooksObject_merge (editor : Editor) (existing : Json) (bin : String) :
    hooksObject (topLevel (merge editor existing bin)) =
      upsertAll (mergedGroups editor bin) (eventKeys editor)
        (hooksObject (topLevel existing)) := by
  rw [topLevel_merge, hooksObject, lookup_insertMember, if_pos rfl]

/-- A version is set once. -/
theorem versioned_merge (editor : Editor) (existing : Json) (bin : String) :
    versioned editor (topLevel (merge editor existing bin)) =
      topLevel (merge editor existing bin) := by
  rw [topLevel_merge, versioned, if_neg]
  rintro ⟨rfl, missing⟩
  rw [lookup_insertMember, if_neg (by decide), versioned] at missing
  split at missing
  case isTrue => simp [lookup_insertMember] at missing
  case isFalse present => exact present ⟨rfl, missing⟩

/-- The groups under an event. -/
def eventGroups (existing : Json) (event : String) : List Json :=
  groupsOf ((hooksObject (topLevel existing)).lookup event)

/-- **The groups under one of our events** after a merge. -/
theorem eventGroups_merge {event : String} (ours : event ∈ eventKeys editor) :
    eventGroups (merge editor existing bin) event =
      (eventGroups existing event).filter (fun group => !groupIsOurs editor group) ++
        [ourGroup editor bin event] := by
  rw [eventGroups, hooksObject_merge, lookup_upsertAll (eventKeys_nodup editor), if_pos ours]
  rfl

/-- The top level of a configuration repeats no key. -/
theorem Config.topLevel_keyed (existing : Config) :
    (Json.object (topLevel existing.value)).keyed := by
  obtain ⟨value, keyed⟩ := existing
  cases value with
  | object members => exact keyed
  | _ => rfl

/-- The hooks of a configuration repeat no key. -/
theorem Config.hooks_keyed (existing : Config) :
    (Json.object (hooksObject (topLevel existing.value))).keyed := by
  rw [hooksObject]
  split
  case h_1 hooks found => exact Json.keyed_of_lookup existing.topLevel_keyed found
  case h_2 => rfl

/-- The events of a configuration are distinct. -/
theorem Config.hooks_distinct (existing : Config) :
    ((hooksObject (topLevel existing.value)).map Prod.fst).Nodup :=
  (Json.keyed_object.mp existing.hooks_keyed).1

/-- What a merge leaves under an event repeats no key. -/
theorem mergedGroups_keyed {event : String} (ours : event ∈ eventKeys editor)
    {old : Option Json} (keyed : ∀ value, old = some value → value.keyed) :
    (mergedGroups editor bin event old).keyed := by
  refine Json.keyed_array.mpr fun group listed => ?_
  rcases List.mem_append.mp listed with kept | added
  · have before : group ∈ groupsOf old := List.mem_of_mem_filter kept
    match old, keyed with
    | some (.array groups), keyed => exact Json.keyed_array.mp (keyed _ rfl) group before
  · rw [List.mem_singleton.mp added]
    exact ourGroup_keyed ours

/-- **A merge keeps the keys distinct.** -/
theorem merge_keyed (editor : Editor) (existing : Config) (bin : String) :
    (merge editor existing.value bin).keyed := by
  have version : (Json.object (versioned editor (topLevel existing.value))).keyed := by
    rw [versioned]
    split
    case isTrue => exact Json.keyed_insertMember existing.topLevel_keyed rfl
    case isFalse => exact existing.topLevel_keyed
  rw [merge_eq]
  exact Json.keyed_insertMember version (Json.keyed_upsertAll existing.hooks_keyed
    fun event ours old keyed => mergedGroups_keyed ours keyed)

/-- Merge our hooks into a configuration. -/
def Config.merge (editor : Editor) (existing : Config) (bin : String) : Config :=
  ⟨Hooks.merge editor existing.value bin, merge_keyed editor existing bin⟩

end ClosedForm

section Repeated

/-- A group that is ours leaves nothing of itself to the next merge. -/
theorem mergedGroups_forgets (plain : '"' ∉ first.toList) {event : String}
    (ours : event ∈ eventKeys editor) (old : Option Json) :
    mergedGroups editor second event (some (mergedGroups editor first event old)) =
      mergedGroups editor second event old := by
  have recognised : groupIsOurs editor (ourGroup editor first event) = true :=
    (groupIsOurs_ourGroup ours).mpr plain
  have dropped : (groupsOf (some (mergedGroups editor first event old))).filter
      (fun group => !groupIsOurs editor group) =
        (groupsOf old).filter (fun group => !groupIsOurs editor group) := by
    show (_ ++ [ourGroup editor first event]).filter _ = _
    rw [List.filter_append, List.filter_filter]
    simp [recognised]
  rw [mergedGroups, dropped]
  rfl

/-- **A merge replaces an earlier one**, whose path holds no quote. -/
theorem merge_merge (existing : Config) (plain : '"' ∉ first.toList) :
    merge editor (merge editor existing.value first) second =
      merge editor existing.value second := by
  have replaced : upsertAll (mergedGroups editor second) (eventKeys editor)
      (hooksObject (topLevel (merge editor existing.value first))) =
        upsertAll (mergedGroups editor second) (eventKeys editor)
          (hooksObject (topLevel existing.value)) := by
    rw [hooksObject_merge]
    exact upsertAll_upsertAll existing.hooks_distinct (eventKeys_nodup editor)
      fun event ours old => mergedGroups_forgets plain ours old
  rw [merge_eq, replaced, versioned_merge, topLevel_merge, insertMember_insertMember, merge_eq]

/-- **Merges in a row** leave what the last of them leaves. -/
theorem merge_run (existing : Config) (earlier : List String)
    (plain : ∀ bin ∈ earlier, '"' ∉ bin.toList) (last : String) :
    merge editor (earlier.foldl (merge editor) existing.value) last =
      merge editor existing.value last := by
  induction earlier generalizing existing with
  | nil => rfl
  | cons bin rest inductionHypothesis =>
    have later := inductionHypothesis (existing.merge editor bin)
      fun other listed => plain other (List.mem_cons_of_mem bin listed)
    exact later.trans (merge_merge existing (plain bin List.mem_cons_self))

/-- One of our groups stands under each of our events. -/
def Once (editor : Editor) (config : Json) : Prop :=
  ∀ event ∈ eventKeys editor, (eventGroups config event).countP (groupIsOurs editor) = 1

/-- What is asked of two merges in a row: the same again changes nothing, another path
replaces the first, and each time every event has one of our groups. -/
structure Settles (editor : Editor) (existing : Json) (first second : String) : Prop where
  again : merge editor (merge editor existing first) first = merge editor existing first
  upgrade : merge editor (merge editor existing first) second = merge editor existing second
  installed : Once editor (merge editor existing first)
  upgraded : Once editor (merge editor (merge editor existing first) second)

/-- After a merge every event has one of our groups, exactly where the path holds no
quote. -/
theorem once_merge (existing : Json) :
    Once editor (merge editor existing bin) ↔ '"' ∉ bin.toList := by
  have counted : ∀ event ∈ eventKeys editor,
      (eventGroups (merge editor existing bin) event).countP (groupIsOurs editor) =
        if groupIsOurs editor (ourGroup editor bin event) then 1 else 0 := by
    intro event ours
    rw [eventGroups_merge ours, List.countP_append, List.countP_filter]
    simp [List.countP_cons]
  constructor
  · intro once
    obtain ⟨event, ours⟩ : ∃ event, event ∈ eventKeys editor := by
      cases editor <;> exact ⟨_, List.mem_cons_self⟩
    have one := once event ours
    rw [counted event ours] at one
    exact (groupIsOurs_ourGroup ours).mp (by simpa using one)
  · intro plain event ours
    rw [counted event ours, if_pos ((groupIsOurs_ourGroup ours).mpr plain)]

/-- **Two merges settle** exactly where neither path holds a quote. -/
theorem merge_settles_iff (editor : Editor) (existing : Config) (first second : String) :
    Settles editor existing.value first second ↔
      '"' ∉ first.toList ∧ '"' ∉ second.toList := by
  constructor
  · rintro ⟨-, -, installed, upgraded⟩
    exact ⟨(once_merge _).mp installed, (once_merge _).mp upgraded⟩
  · rintro ⟨first_plain, second_plain⟩
    exact ⟨merge_merge existing first_plain, merge_merge existing first_plain,
      (once_merge _).mpr first_plain, (once_merge _).mpr second_plain⟩

/-- A path with a quote, merged twice: the group is there twice, and the merge does not
settle. -/
theorem quoted_path_accumulates :
    (eventGroups (merge .claudeCode (merge .claudeCode (.object []) "/opt/a\"b/singularmem")
      "/opt/a\"b/singularmem") "Stop").length = 2 ∧
    ¬ Settles .claudeCode (.object []) "/opt/a\"b/singularmem" "/opt/a\"b/singularmem" := by
  refine ⟨by decide +kernel, fun settles => ?_⟩
  have one := settles.installed "Stop" (by decide +kernel)
  revert one
  decide +kernel

end Repeated

end Singularmem.Hooks
