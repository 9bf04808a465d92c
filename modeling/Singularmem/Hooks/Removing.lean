import Singularmem.Hooks.Foreign

/-!
# Removing

A removal goes through the events one by one and drops those that are left with no group,
whether or not a group of ours was there. So it leaves a configuration alone exactly where
it finds no group of ours, no empty event, and, but for Cursor, no empty hooks. A second
removal changes nothing. Installing and then removing gives the configuration back where
the merge lost nothing and the removal finds nothing empty.
-/

namespace Singularmem.Hooks

open Library Singularmem.Core

variable {editor : Editor} {existing : Json} {bin : String}
  {hooks : List (String × Json)}

/-- What a removal leaves under an event: nothing where no group is left. -/
def retain (editor : Editor) (value : Json) : Option Json :=
  match value.asArray with
  | none => some value
  | some groups =>
    if groups.filter (fun group => !groupIsOurs editor group) = [] then none
    else some (.array (groups.filter fun group => !groupIsOurs editor group))

/-- The hooks that a removal leaves. -/
def remaining (editor : Editor) (hooks : List (String × Json)) : List (String × Json) :=
  hooks.filterMap (refined (retain editor))

section ClosedForm

/-- One round of a removal. -/
theorem removeEvent_eq (editor : Editor) (hooks : List (String × Json)) (event : String) :
    removeEvent editor hooks event = refineMember (retain editor) hooks event := by
  rw [removeEvent, refineMember]
  cases found : hooks.lookup event with
  | none => rfl
  | some value =>
    rw [Option.bind_some]
    cases array : value.asArray with
    | none => simp only [retain, array, insertMember_same found]
    | some groups =>
      simp only [retain, array]
      split <;> rfl

/-- The rounds of a removal. -/
theorem removeEvents_eq (distinct : (hooks.map Prod.fst).Nodup) :
    (hooks.map Prod.fst).foldl (removeEvent editor) hooks = remaining editor hooks := by
  have rounds : removeEvent editor = refineMember (retain editor) := by
    funext current event
    exact removeEvent_eq editor current event
  rw [rounds]
  exact refineAll_eq distinct

/-- A configuration without hooks is left alone. -/
theorem remove_without_hooks
    (missing : ∀ hooks, (topLevel existing).lookup "hooks" ≠ some (.object hooks)) :
    remove editor existing = existing := by
  cases existing with
  | object members =>
    have none : (members.lookup "hooks").bind Json.asObject = none := by
      cases found : members.lookup "hooks" with
      | none => rfl
      | some value => cases value <;> first | rfl | exact absurd found (missing _)
    simp only [remove, Json.asObject] at none ⊢
    rw [none]
  | _ => rfl

/-- **A removal** leaves the hooks that remain, and for Cursor even none. -/
theorem remove_eq (distinct : (hooks.map Prod.fst).Nodup)
    (found : (topLevel existing).lookup "hooks" = some (.object hooks)) :
    remove editor existing =
      if editor = .cursor ∨ remaining editor hooks ≠ [] then
        .object (insertMember "hooks" (.object (remaining editor hooks)) (topLevel existing))
      else .object (shiftRemove "hooks" (topLevel existing)) := by
  cases existing with
  | object members =>
    have here : (members.lookup "hooks").bind Json.asObject = some hooks := by
      have listed : members.lookup "hooks" = some (.object hooks) := found
      rw [listed]
      rfl
    simp only [remove, Json.asObject, topLevel, Option.getD_some] at here ⊢
    rw [here]
    simp only [removeEvents_eq distinct]
  | _ => cases found

/-- The hooks of a configuration are found at its top level. -/
theorem Config.found_distinct (existing : Config)
    (found : (topLevel existing.value).lookup "hooks" = some (.object hooks)) :
    (hooks.map Prod.fst).Nodup :=
  (Json.keyed_object.mp (Json.keyed_of_lookup existing.topLevel_keyed found)).1

end ClosedForm

section Untouched

/-- What a removal leaves alone under an event: what is no array, and a non-empty array
without a group of ours. -/
theorem retain_eq_self {value : Json} :
    retain editor value = some value ↔
      value.asArray ≠ some [] ∧ ¬ value.asArray.any (·.any (groupIsOurs editor)) := by
  rw [retain]
  cases array : value.asArray with
  | none => simp
  | some groups =>
    have written : value = .array groups := by
      cases value <;> cases array
      rfl
    have whole : groups.filter (fun group => !groupIsOurs editor group) = groups ↔
        ¬ groups.any (groupIsOurs editor) := by
      simp [List.filter_eq_self]
    simp only [written]
    constructor
    · intro same
      split at same
      case isTrue => cases same
      case isFalse left =>
        injection same with same
        injection same with same
        exact ⟨fun empty => left (by cases empty; rfl), whole.mp same⟩
    · rintro ⟨nonempty, foreign⟩
      rw [whole.mpr foreign, if_neg fun empty => nonempty (by rw [empty])]

/-- A second removal leaves alone what the first one left. -/
theorem retain_retain {value left : Json} (kept : retain editor value = some left) :
    retain editor left = some left := by
  rw [retain] at kept
  cases array : value.asArray with
  | none =>
    simp only [array] at kept
    cases kept
    rw [retain, array]
  | some groups =>
    simp only [array] at kept
    split at kept
    case isTrue => cases kept
    case isFalse nonempty =>
      cases kept
      refine retain_eq_self.mpr ⟨fun empty => nonempty (Option.some.inj empty), ?_⟩
      simp [Json.asArray]

/-- Hooks remain as they are exactly where each event is left alone. -/
theorem remaining_eq_self : remaining editor hooks = hooks ↔
    ∀ member ∈ hooks, retain editor member.2 = some member.2 := by
  have member_eq : ∀ member : String × Json,
      refined (retain editor) member = some member ↔
        retain editor member.2 = some member.2 := by
    rintro ⟨event, value⟩
    simp [refined]
  rw [remaining]
  induction hooks with
  | nil => simp
  | cons member rest inductionHypothesis =>
    rw [List.forall_mem_cons]
    refine Iff.trans ?_ (and_congr (member_eq member) inductionHypothesis)
    cases left : refined (retain editor) member with
    | none =>
      rw [List.filterMap_cons_none left]
      have shorter := List.length_filterMap_le (refined (retain editor)) rest
      constructor
      · intro same
        rw [same, List.length_cons] at shorter
        omega
      · rintro ⟨kept, -⟩
        cases kept
    | some changed =>
      rw [List.filterMap_cons_some left, List.cons.injEq, Option.some.injEq]

/-- Where there are no hooks nothing is ours. -/
theorem hasOurs_eq (editor : Editor) (existing : Json) :
    hasOurs editor existing = (hooksObject (topLevel existing)).any fun member =>
      member.2.asArray.any (·.any (groupIsOurs editor)) := by
  cases existing with
  | object members =>
    have listed : hooksObject (topLevel (.object members)) =
        ((members.lookup "hooks").bind Json.asObject).getD [] := by
      show hooksObject members = _
      rw [hooksObject]
      cases members.lookup "hooks" with
      | none => rfl
      | some value => cases value <;> rfl
    rw [hasOurs, Json.get_object, listed]
    cases (members.lookup "hooks").bind Json.asObject <;> rfl
  | _ => rfl

/-- A value with a top level is an object. -/
theorem eq_object_topLevel {name : String} {value : Json}
    (found : (topLevel existing).lookup name = some value) :
    existing = .object (topLevel existing) := by
  cases existing with
  | object members => rfl
  | _ => cases found

/-- A configuration with hooks is left alone where the hooks remain, and are not empty or
may be. -/
theorem remove_hooks_eq_self (existing : Config)
    (found : (topLevel existing.value).lookup "hooks" = some (.object hooks)) :
    remove editor existing.value = existing.value ↔
      (editor = .cursor ∨ hooks ≠ []) ∧ remaining editor hooks = hooks := by
  have top_distinct : ((topLevel existing.value).map Prod.fst).Nodup :=
    (Json.keyed_object.mp existing.topLevel_keyed).1
  rw [remove_eq (existing.found_distinct found) found]
  constructor
  · intro same
    split at same
    case isTrue nonempty =>
      have there := congrArg (fun value => (topLevel value).lookup "hooks") same
      change (insertMember _ _ _).lookup "hooks" = (topLevel existing.value).lookup "hooks" at there
      rw [lookup_insertMember, if_pos rfl, found] at there
      have left : remaining editor hooks = hooks := by
        injection there with there
        injection there
      exact ⟨left ▸ nonempty, left⟩
    case isFalse =>
      have there := congrArg (fun value => (topLevel value).lookup "hooks") same
      change (shiftRemove _ _).lookup "hooks" = (topLevel existing.value).lookup "hooks" at there
      rw [lookup_shiftRemove top_distinct, found] at there
      cases there
  · rintro ⟨nonempty, left⟩
    rw [left, if_pos nonempty, insertMember_same found]
    exact (eq_object_topLevel found).symm

/-- **What a removal leaves alone**: a configuration whose hooks, where it has some, are
not empty, hold no empty event and no group of ours. Cursor may have empty hooks. -/
theorem remove_eq_self_iff (editor : Editor) (existing : Config) :
    remove editor existing.value = existing.value ↔
      ¬ hasOurs editor existing.value ∧
      ∀ hooks, (topLevel existing.value).lookup "hooks" = some (.object hooks) →
        (editor = .cursor ∨ hooks ≠ []) ∧ ∀ member ∈ hooks, member.2.asArray ≠ some [] := by
  by_cases present : ∃ hooks, (topLevel existing.value).lookup "hooks" = some (.object hooks)
  case neg =>
    have missing : ∀ hooks, (topLevel existing.value).lookup "hooks" ≠ some (.object hooks) :=
      fun hooks found => present ⟨hooks, found⟩
    have foreign : ¬ hasOurs editor existing.value := by
      rw [hasOurs_eq, hooksObject]
      split
      case h_1 hooks found => exact absurd found (missing hooks)
      case h_2 => exact Bool.false_ne_true
    exact iff_of_true (remove_without_hooks missing)
      ⟨foreign, fun hooks found => absurd found (missing hooks)⟩
  case pos =>
    obtain ⟨hooks, found⟩ := present
    have kept : (∀ member ∈ hooks, retain editor member.2 = some member.2) ↔
        ¬ hasOurs editor existing.value ∧ ∀ member ∈ hooks, member.2.asArray ≠ some [] := by
      rw [hasOurs_eq, hooksObject, found]
      simp only [retain_eq_self, List.any_eq_true, not_exists, not_and, ← forall_and]
      exact forall₂_congr fun member listed => and_comm
    have others : (∀ hooks, (topLevel existing.value).lookup "hooks" = some (.object hooks) →
        (editor = .cursor ∨ hooks ≠ []) ∧ ∀ member ∈ hooks, member.2.asArray ≠ some []) ↔
          (editor = .cursor ∨ hooks ≠ []) ∧ ∀ member ∈ hooks, member.2.asArray ≠ some [] := by
      constructor
      · exact fun each => each hooks found
      · intro this other found_other
        cases found.symm.trans found_other
        exact this
    rw [others, and_left_comm, ← kept, ← remaining_eq_self]
    exact remove_hooks_eq_self existing found

/-- An empty event is dropped, and the hooks with it, though nothing of ours was there. -/
example : remove .claudeCode (.object [("hooks", .object [("Stop", .array [])])]) =
    .object [] := rfl

end Untouched

section Twice

/-- What remains was there, with fewer groups. -/
theorem mem_remaining {member : String × Json} (listed : member ∈ remaining editor hooks) :
    ∃ before, (member.1, before) ∈ hooks ∧ retain editor before = some member.2 := by
  obtain ⟨⟨event, before⟩, there, kept⟩ := List.mem_filterMap.mp listed
  rw [refined, Option.map_eq_some_iff] at kept
  obtain ⟨left, result, rfl⟩ := kept
  exact ⟨before, there, result⟩

/-- The events that remain are distinct. -/
theorem remaining_distinct (distinct : (hooks.map Prod.fst).Nodup) :
    ((remaining editor hooks).map Prod.fst).Nodup := by
  have fewer : ∀ listed : List (String × Json),
      ((remaining editor listed).map Prod.fst).Sublist (listed.map Prod.fst) := by
    intro listed
    induction listed with
    | nil => exact List.Sublist.refl []
    | cons member rest inductionHypothesis =>
      rw [remaining, List.filterMap_cons, refined]
      cases retain editor member.2 with
      | none => exact inductionHypothesis.cons member.1
      | some left => exact inductionHypothesis.cons_cons member.1
  exact distinct.sublist (fewer hooks)

/-- What is retained repeats no key. -/
theorem retain_keyed {value left : Json} (keyed : value.keyed)
    (kept : retain editor value = some left) : left.keyed := by
  cases value with
  | array groups =>
    rw [retain] at kept
    simp only [Json.asArray] at kept
    split at kept
    case isTrue => cases kept
    case isFalse =>
      cases kept
      exact Json.keyed_array.mpr fun group listed =>
        Json.keyed_array.mp keyed group (List.mem_of_mem_filter listed)
  | _ => cases kept; exact keyed

/-- **A removal keeps the keys distinct.** -/
theorem remove_keyed (editor : Editor) (existing : Config) :
    (remove editor existing.value).keyed := by
  by_cases present : ∃ hooks, (topLevel existing.value).lookup "hooks" = some (.object hooks)
  case neg =>
    rw [remove_without_hooks fun hooks found => present ⟨hooks, found⟩]
    exact existing.keyed
  case pos =>
    obtain ⟨hooks, found⟩ := present
    obtain ⟨distinct, each⟩ :=
      Json.keyed_object.mp (Json.keyed_of_lookup existing.topLevel_keyed found)
    rw [remove_eq distinct found]
    split
    case isTrue =>
      refine Json.keyed_insertMember existing.topLevel_keyed
        (Json.keyed_object.mpr ⟨remaining_distinct distinct, fun member listed => ?_⟩)
      obtain ⟨before, there, kept⟩ := mem_remaining listed
      exact retain_keyed (each _ there) kept
    case isFalse =>
      obtain ⟨top_distinct, top_each⟩ := Json.keyed_object.mp existing.topLevel_keyed
      have fewer : (shiftRemove "hooks" (topLevel existing.value)).Sublist
          (topLevel existing.value) := List.eraseP_sublist
      exact Json.keyed_object.mpr ⟨top_distinct.sublist (fewer.map Prod.fst),
        fun member listed => top_each member (fewer.subset listed)⟩

/-- Remove our hooks from a configuration. -/
def Config.remove (editor : Editor) (existing : Config) : Config :=
  ⟨Hooks.remove editor existing.value, remove_keyed editor existing⟩

/-- **A second removal changes nothing.** -/
theorem remove_remove (editor : Editor) (existing : Config) :
    remove editor (remove editor existing.value) = remove editor existing.value := by
  by_cases present : ∃ hooks, (topLevel existing.value).lookup "hooks" = some (.object hooks)
  case neg => rw [remove_without_hooks fun hooks found => present ⟨hooks, found⟩,
    remove_without_hooks fun hooks found => present ⟨hooks, found⟩]
  case pos =>
    obtain ⟨hooks, found⟩ := present
    have closed := @remove_eq editor _ _ (existing.found_distinct found) found
    have settled : remaining editor (remaining editor hooks) = remaining editor hooks := by
      refine remaining_eq_self.mpr fun member listed => ?_
      obtain ⟨before, -, kept⟩ := mem_remaining listed
      exact retain_retain kept
    split at closed
    case isTrue nonempty =>
      have left : (topLevel (existing.remove editor).value).lookup "hooks" =
          some (.object (remaining editor hooks)) := by
        show (topLevel (remove editor existing.value)).lookup "hooks" = _
        rw [closed]
        exact (lookup_insertMember "hooks").trans (if_pos rfl)
      exact (remove_hooks_eq_self (existing.remove editor) left).mpr ⟨nonempty, settled⟩
    case isFalse =>
      refine remove_without_hooks fun left there => ?_
      rw [closed] at there
      exact Option.some_ne_none _ (there.symm.trans
        (lookup_shiftRemove (Json.keyed_object.mp existing.topLevel_keyed).1))

end Twice

section RoundTrip

/-- What a removal leaves of a merged event, where our group is recognised. -/
theorem retain_mergedGroups (plain : '"' ∉ bin.toList) {event : String}
    (ours : event ∈ eventKeys editor) (old : Option Json) :
    retain editor (mergedGroups editor bin event old) =
      if (groupsOf old).filter (fun group => !groupIsOurs editor group) = [] then none
      else some (.array ((groupsOf old).filter fun group => !groupIsOurs editor group)) := by
  have recognised : groupIsOurs editor (ourGroup editor bin event) = true :=
    (groupIsOurs_ourGroup ours).mpr plain
  have back : ((groupsOf old).filter (fun group => !groupIsOurs editor group) ++
      [ourGroup editor bin event]).filter (fun group => !groupIsOurs editor group) =
        (groupsOf old).filter fun group => !groupIsOurs editor group := by
    rw [List.filter_append, List.filter_filter]
    simp [recognised]
  simp only [retain, mergedGroups, Json.asArray, back]

/-- A removal leaves a merged event as it is, where our group is not recognised. -/
theorem retain_mergedGroups_quoted (quoted : '"' ∈ bin.toList) {event : String}
    (ours : event ∈ eventKeys editor) (old : Option Json) :
    retain editor (mergedGroups editor bin event old) =
      some (mergedGroups editor bin event old) := by
  have unrecognised : groupIsOurs editor (ourGroup editor bin event) = false := by
    rw [← Bool.not_eq_true, groupIsOurs_ourGroup ours]
    exact not_not.mpr quoted
  rw [retain_eq_self]
  simp [mergedGroups, Json.asArray, unrecognised]

/-- What a removal gives back of the hooks after a merge: all of them, where our events
held arrays. -/
theorem remaining_merged (plain : '"' ∉ bin.toList) (distinct : (hooks.map Prod.fst).Nodup)
    (untouched : ∀ member ∈ hooks, retain editor member.2 = some member.2)
    (arrays : ∀ member ∈ hooks, member.1 ∈ eventKeys editor → member.2.asArray.isSome) :
    remaining editor (upsertAll (mergedGroups editor bin) (eventKeys editor) hooks) = hooks := by
  have kept : (hooks.map (upserted (mergedGroups editor bin) (eventKeys editor))).filterMap
      (refined (retain editor)) = hooks := by
    rw [List.filterMap_map]
    refine (List.filterMap_congr fun member listed => ?_).trans List.filterMap_some
    obtain ⟨event, value⟩ := member
    have same := untouched _ listed
    show refined (retain editor) (upserted _ _ (event, value)) = some (event, value)
    by_cases ours : event ∈ eventKeys editor
    · obtain ⟨groups, array⟩ := Option.isSome_iff_exists.mp (arrays _ listed ours)
      have there : groupsOf (some value) = groups := by
        simp only at array
        rw [groupsOf, Option.bind_some, array, Option.getD_some]
      simp only [retain, array] at same
      rw [upserted, if_pos ours, refined, retain_mergedGroups plain ours, there, same,
        Option.map_some]
    · rw [upserted, if_neg ours, refined, same, Option.map_some]
  have gone : (added (mergedGroups editor bin) (eventKeys editor) hooks).filterMap
      (refined (retain editor)) = [] := by
    rw [List.filterMap_eq_nil_iff]
    intro member listed
    obtain ⟨event, new, rfl⟩ := List.mem_map.mp listed
    rw [refined, retain_mergedGroups plain (List.mem_of_mem_filter new)]
    rfl
  rw [remaining, upsertAll_eq distinct (eventKeys_nodup editor), List.filterMap_append, kept,
    gone, List.append_nil]

/-- What installing and then removing gives back: a configuration whose hooks are absent
or a non-empty object of non-empty events, with arrays under ours. The path holds no
quote. -/
structure Restorable (editor : Editor) (existing : Json) (bin : String) : Prop where
  plain : '"' ∉ bin.toList
  hooks : ∀ value, (topLevel existing).lookup "hooks" = some value →
    ∃ hooks, value = .object hooks ∧ hooks ≠ []
  filled : ∀ member ∈ hooksObject (topLevel existing), member.2.asArray ≠ some []
  arrays : ∀ member ∈ hooksObject (topLevel existing), member.1 ∈ eventKeys editor →
    member.2.asArray.isSome

/-- Only Cursor is given a version. -/
theorem versioned_of_ne (listed : editor ≠ .cursor) (members : List (String × Json)) :
    versioned editor members = members := by
  rw [versioned, if_neg fun cursor => listed cursor.1]

/-- The hooks after a merge are found at the top level, with distinct keys. -/
theorem merge_hooks_found (editor : Editor) (existing : Json) (bin : String) :
    (topLevel (merge editor existing bin)).lookup "hooks" =
      some (.object (upsertAll (mergedGroups editor bin) (eventKeys editor)
        (hooksObject (topLevel existing)))) := by
  rw [topLevel_merge, lookup_insertMember, if_pos rfl]

/-- What is no group of ours and holds no empty event is left alone. -/
theorem untouched_of_foreign (foreign : ¬ hasOurs editor existing)
    (filled : ∀ member ∈ hooksObject (topLevel existing), member.2.asArray ≠ some [])
    (member : String × Json) (listed : member ∈ hooksObject (topLevel existing)) :
    retain editor member.2 = some member.2 := by
  refine retain_eq_self.mpr ⟨filled member listed, fun ours => foreign ?_⟩
  rw [hasOurs_eq, List.any_eq_true]
  exact ⟨member, listed, ours⟩

/-- **Installing and then removing** gives back a configuration that can be restored. -/
theorem remove_merge (listed : editor ≠ .cursor) (existing : Config)
    (object : existing.value.isObject) (foreign : ¬ hasOurs editor existing.value)
    (restorable : Restorable editor existing.value bin) :
    remove editor (merge editor existing.value bin) = existing.value := by
  have left := remaining_merged restorable.plain existing.hooks_distinct
    (untouched_of_foreign foreign restorable.filled) restorable.arrays
  have closed := @remove_eq editor _ _ (nodup_upsertAll existing.hooks_distinct)
    (merge_hooks_found editor existing.value bin)
  rw [left, topLevel_merge, versioned_of_ne listed] at closed
  have whole : existing.value = .object (topLevel existing.value) := by
    cases value : existing.value with
    | object members => rfl
    | _ => rw [value] at object; cases object
  cases found : (topLevel existing.value).lookup "hooks" with
  | none =>
    have empty : hooksObject (topLevel existing.value) = [] := by rw [hooksObject, found]
    rw [closed, empty, if_neg (by simp [listed]),
      shiftRemove_insertMember (lookup_eq_none_iff_notMem.mp found), ← whole]
  | some value =>
    obtain ⟨hooks, rfl, nonempty⟩ := restorable.hooks value found
    have there : hooksObject (topLevel existing.value) = hooks := by rw [hooksObject, found]
    rw [closed, there, if_pos (.inr nonempty), insertMember_insertMember,
      insertMember_same found, ← whole]

/-- Where installing and then removing gives the configuration back, its hooks are those
that remain, and they are absent or a non-empty object. -/
theorem hooks_of_remove_merge (listed : editor ≠ .cursor) (existing : Config)
    (same : remove editor (merge editor existing.value bin) = existing.value) :
    hooksObject (topLevel existing.value) = remaining editor (upsertAll (mergedGroups editor bin)
      (eventKeys editor) (hooksObject (topLevel existing.value))) ∧
    ∀ value, (topLevel existing.value).lookup "hooks" = some value →
      ∃ hooks, value = .object hooks ∧ hooks ≠ [] := by
  have closed := @remove_eq editor _ _ (nodup_upsertAll existing.hooks_distinct)
    (merge_hooks_found editor existing.value bin)
  generalize left : remaining editor (upsertAll (mergedGroups editor bin) (eventKeys editor)
    (hooksObject (topLevel existing.value))) = remains at closed
  rw [same] at closed
  split at closed
  case isTrue nonempty =>
    have found : (topLevel existing.value).lookup "hooks" = some (.object remains) := by
      rw [closed]
      exact (lookup_insertMember "hooks").trans (if_pos rfl)
    refine ⟨by rw [hooksObject, found], fun value there => ?_⟩
    cases there.symm.trans found
    exact ⟨remains, rfl, nonempty.resolve_left listed⟩
  case isFalse empty =>
    have merged_distinct : ((topLevel (merge editor existing.value bin)).map Prod.fst).Nodup :=
      (Json.keyed_object.mp (existing.merge editor bin).topLevel_keyed).1
    have missing : (topLevel existing.value).lookup "hooks" = none := by
      rw [closed]
      exact lookup_shiftRemove merged_distinct
    have nothing : remains = [] := by
      by_contra some
      exact empty (.inr some)
    exact ⟨by rw [hooksObject, missing, nothing], fun value there => by
      cases there.symm.trans missing⟩

/-- What installing and then removing gives back could be restored. -/
theorem restorable_of_remove_merge (listed : editor ≠ .cursor) (existing : Config)
    (same : remove editor (merge editor existing.value bin) = existing.value) :
    Restorable editor existing.value bin := by
  obtain ⟨left, section_hooks⟩ := hooks_of_remove_merge listed existing same
  generalize given : hooksObject (topLevel existing.value) = hooks at left
  have distinct : (hooks.map Prod.fst).Nodup := given ▸ existing.hooks_distinct
  have merged_distinct := @nodup_upsertAll _ _ _ (mergedGroups editor bin) (eventKeys editor)
    hooks distinct
  have merged : ∀ event ∈ eventKeys editor,
      (upsertAll (mergedGroups editor bin) (eventKeys editor) hooks).lookup event =
        some (mergedGroups editor bin event (hooks.lookup event)) := fun event ours => by
    rw [lookup_upsertAll (eventKeys_nodup editor), if_pos ours]
  have settled : ∀ member ∈ hooks, retain editor member.2 = some member.2 := by
    intro member there
    rw [left] at there
    obtain ⟨before, -, kept⟩ := mem_remaining there
    exact retain_retain kept
  refine ⟨fun quoted => ?_, section_hooks, fun member there => ?_, fun member there ours => ?_⟩
  · obtain ⟨event, ours⟩ : ∃ event, event ∈ eventKeys editor := by
      cases editor <;> exact ⟨_, List.mem_cons_self⟩
    have there : (event, mergedGroups editor bin event (hooks.lookup event)) ∈ hooks := by
      rw [left]
      refine List.mem_filterMap.mpr ⟨_, (lookup_eq_some_iff_mem merged_distinct).mp
        (merged event ours), ?_⟩
      rw [← left, refined, retain_mergedGroups_quoted quoted ours, Option.map_some]
    have found := (lookup_eq_some_iff_mem distinct).mpr there
    have foreign := (retain_eq_self.mp (settled _ there)).2
    have groups : groupsOf (hooks.lookup event) = (groupsOf (hooks.lookup event)).filter
        (fun group => !groupIsOurs editor group) ++ [ourGroup editor bin event] :=
      congrArg groupsOf found
    have all : (groupsOf (hooks.lookup event)).filter (fun group => !groupIsOurs editor group) =
        groupsOf (hooks.lookup event) := by
      change ¬ (_ ++ [ourGroup editor bin event]).any (groupIsOurs editor) at foreign
      rw [← groups, List.any_eq_true] at foreign
      refine List.filter_eq_self.mpr fun group member => ?_
      simpa using fun recognised => foreign ⟨group, member, recognised⟩
    rw [all] at groups
    exact List.cons_ne_nil _ _ (List.self_eq_append_right.mp groups)
  · rw [given] at there
    exact (retain_eq_self.mp (settled member there)).1
  · rw [given, left] at there
    obtain ⟨before, earlier, kept⟩ := mem_remaining there
    have changed := (lookup_eq_some_iff_mem merged_distinct).mpr earlier
    rw [merged _ ours] at changed
    cases changed
    rw [retain] at kept
    simp only [mergedGroups, Json.asArray] at kept
    split at kept
    case isTrue => cases kept
    case isFalse =>
      injection kept with written
      rw [← written]
      rfl

/-- **Installing and then removing** gives a configuration back exactly where it can be
restored. -/
theorem remove_merge_eq_self_iff (listed : editor ≠ .cursor) (existing : Config)
    (object : existing.value.isObject) (foreign : ¬ hasOurs editor existing.value) :
    remove editor (merge editor existing.value bin) = existing.value ↔
      Restorable editor existing.value bin :=
  ⟨restorable_of_remove_merge listed existing,
    remove_merge listed existing object foreign⟩

/-- No event is empty, and the hooks are not, but for Cursor. -/
def Tidy (editor : Editor) (existing : Json) : Prop :=
  ∀ hooks, (topLevel existing).lookup "hooks" = some (.object hooks) →
    (editor = .cursor ∨ hooks ≠ []) ∧ ∀ member ∈ hooks, member.2.asArray ≠ some []

end RoundTrip

end Singularmem.Hooks
