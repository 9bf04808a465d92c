import Mathlib.Data.List.Basic
import Mathlib.Data.List.Nodup
import Mathlib.Tactic.Common

/-!
# Ordered members

A map that keeps the order in which its keys arrived, as a list of keys and values. Setting
the value of a key leaves it in its place, a new key goes to the end, and dropping a key
leaves the order of the others. Two loops are given in closed form: one sets the values of
some keys from what they held before, the other goes through every key and changes or drops
its value.
-/

namespace Singularmem.Library

universe u v
variable {κ : Type u} {ν : Type v} [DecidableEq κ]

/-- Set the value of a key, in its place or at the end. -/
def insertMember (key : κ) (value : ν) : List (κ × ν) → List (κ × ν)
  | [] => [(key, value)]
  | (name, old) :: rest =>
    if name = key then (key, value) :: rest else (name, old) :: insertMember key value rest

/-- Drop a key. -/
def shiftRemove (key : κ) (members : List (κ × ν)) : List (κ × ν) :=
  members.eraseP (·.1 = key)

/-- Set the value of each key from the value it held. -/
def upsertAll (change : κ → Option ν → ν) (keys : List κ) (members : List (κ × ν)) :
    List (κ × ν) :=
  keys.foldl (fun current key =>
    insertMember key (change key (current.lookup key)) current) members

/-- Change or drop the value of a key. -/
def refineMember (change : ν → Option ν) (members : List (κ × ν)) (key : κ) : List (κ × ν) :=
  match members.lookup key with
  | none => members
  | some value =>
    match change value with
    | none => shiftRemove key members
    | some changed => insertMember key changed members

/-- Change or drop the value of each key. -/
def refineAll (change : ν → Option ν) (keys : List κ) (members : List (κ × ν)) :
    List (κ × ν) :=
  keys.foldl (refineMember change) members

section Places

variable {key : κ} {value old : ν} {front back members : List (κ × ν)}

/-- Looking up key by key. -/
theorem lookup_member (name : κ) :
    ((name, old) :: members).lookup key = if key = name then some old else members.lookup key := by
  by_cases same : key = name
  · rw [same, List.lookup_cons_self, if_pos rfl]
  · rw [List.lookup_cons, beq_false_of_ne same, if_neg same]

/-- A key without a value is not listed. -/
theorem lookup_eq_none_iff_notMem :
    members.lookup key = none ↔ key ∉ members.map Prod.fst := by
  induction members with
  | nil => simp
  | cons member rest inductionHypothesis =>
    obtain ⟨name, held⟩ := member
    rw [lookup_member, List.map_cons, List.mem_cons, not_or, ← inductionHypothesis]
    split
    case isTrue same => simp [same]
    case isFalse other => simp [other]

/-- A new key goes to the end. -/
theorem insertMember_absent (absent : key ∉ members.map Prod.fst) :
    insertMember key value members = members ++ [(key, value)] := by
  induction members with
  | nil => rfl
  | cons member rest inductionHypothesis =>
    obtain ⟨head, tail⟩ := not_or.mp (List.mem_cons.not.mp absent)
    rw [insertMember, if_neg (Ne.symm head), inductionHypothesis tail, List.cons_append]

/-- A key that is there stays in its place. -/
theorem insertMember_middle (absent : key ∉ front.map Prod.fst) :
    insertMember key value (front ++ (key, old) :: back) = front ++ (key, value) :: back := by
  induction front with
  | nil => simp [insertMember]
  | cons member rest inductionHypothesis =>
    obtain ⟨head, tail⟩ := not_or.mp (List.mem_cons.not.mp absent)
    rw [List.cons_append, insertMember, if_neg (Ne.symm head), inductionHypothesis tail,
      List.cons_append]

/-- A key is looked up in its place. -/
theorem lookup_middle (absent : key ∉ front.map Prod.fst) :
    (front ++ (key, value) :: back).lookup key = some value := by
  rw [List.lookup_append, lookup_eq_none_iff_notMem.mpr absent, List.lookup_cons_self,
    Option.none_or]

/-- A key is dropped from its place. -/
theorem shiftRemove_middle (absent : key ∉ front.map Prod.fst) :
    shiftRemove key (front ++ (key, value) :: back) = front ++ back := by
  rw [shiftRemove, List.eraseP_append_right, List.eraseP_cons_of_pos (by simp)]
  intro member present same
  exact absent (List.mem_map.mpr ⟨member, present, of_decide_eq_true same⟩)

/-- A key that is there splits the members. -/
theorem split_members (present : key ∈ members.map Prod.fst) :
    ∃ front old back, members = front ++ (key, old) :: back ∧ key ∉ front.map Prod.fst := by
  induction members with
  | nil => simp at present
  | cons member rest inductionHypothesis =>
    by_cases head : key = member.1
    · exact ⟨[], member.2, rest, by simp [head], by simp⟩
    · obtain ⟨front, old, back, rfl, absent⟩ :=
        inductionHypothesis ((List.mem_cons.mp present).resolve_left head)
      exact ⟨member :: front, old, back, rfl, by simp [head, absent]⟩

/-- Without repetition, what is listed is what is looked up. -/
theorem lookup_eq_some_iff_mem (distinct : (members.map Prod.fst).Nodup) :
    members.lookup key = some value ↔ (key, value) ∈ members := by
  constructor
  · intro found
    obtain ⟨front, back, rfl, -⟩ := List.lookup_eq_some_iff.mp found
    exact List.mem_append_right front List.mem_cons_self
  · intro member
    obtain ⟨front, back, rfl⟩ := List.append_of_mem member
    refine lookup_middle fun early => ?_
    rw [List.map_append, List.map_cons] at distinct
    exact (List.nodup_append.mp distinct).2.2 key early key List.mem_cons_self rfl

/-- Looking up after a key was set. -/
theorem lookup_insertMember (wanted : κ) :
    (insertMember key value members).lookup wanted =
      if wanted = key then some value else members.lookup wanted := by
  induction members with
  | nil => rw [insertMember, lookup_member]
  | cons member rest inductionHypothesis =>
    obtain ⟨name, held⟩ := member
    by_cases head : name = key
    · rw [insertMember, if_pos head, lookup_member, lookup_member, head]
      split <;> rfl
    · rw [insertMember, if_neg head, lookup_member, lookup_member, inductionHypothesis]
      split
      case isTrue same => rw [if_neg (same ▸ head)]
      case isFalse => rfl

/-- The keys after one was set. -/
theorem keys_insertMember :
    (insertMember key value members).map Prod.fst =
      if key ∈ members.map Prod.fst then members.map Prod.fst
      else members.map Prod.fst ++ [key] := by
  split
  case isTrue present =>
    obtain ⟨front, old, back, rfl, absent⟩ := split_members present
    rw [insertMember_middle absent, List.map_append, List.map_append, List.map_cons,
      List.map_cons]
  case isFalse absent => rw [insertMember_absent absent, List.map_append]; rfl

/-- Setting a key keeps the keys distinct. -/
theorem nodup_insertMember (distinct : (members.map Prod.fst).Nodup) :
    ((insertMember key value members).map Prod.fst).Nodup := by
  rw [keys_insertMember]
  split
  case isTrue => exact distinct
  case isFalse absent =>
    exact distinct.append (List.nodup_singleton key) (by simpa using absent)

/-- What is listed after a key was set. -/
theorem mem_insertMember {member : κ × ν}
    (listed : member ∈ insertMember key value members) :
    member = (key, value) ∨ member ∈ members := by
  induction members with
  | nil => exact .inl (List.mem_singleton.mp listed)
  | cons first rest inductionHypothesis =>
    rw [insertMember] at listed
    split at listed
    case isTrue =>
      exact (List.mem_cons.mp listed).imp_right (List.mem_cons_of_mem first)
    case isFalse =>
      rcases List.mem_cons.mp listed with rfl | later
      · exact .inr List.mem_cons_self
      · exact (inductionHypothesis later).imp_right (List.mem_cons_of_mem first)

/-- Setting a key to the value it has changes nothing. -/
theorem insertMember_same (found : members.lookup key = some value) :
    insertMember key value members = members := by
  obtain ⟨front, back, rfl, earlier⟩ := List.lookup_eq_some_iff.mp found
  refine insertMember_middle fun listed => ?_
  obtain ⟨member, present, same⟩ := List.mem_map.mp listed
  simpa [same] using earlier member present

/-- The last value a key is set to is the one it has. -/
theorem insertMember_insertMember :
    insertMember key value (insertMember key old members) = insertMember key value members := by
  induction members with
  | nil => simp [insertMember]
  | cons member rest inductionHypothesis =>
    by_cases head : member.1 = key
    · simp [insertMember, head]
    · simp [insertMember, head, inductionHypothesis]

/-- Setting a key leaves the other members as they are, in their order. -/
theorem filter_insertMember (kept : κ → Bool) (dropped : kept key = false) :
    (insertMember key value members).filter (kept ·.1) = members.filter (kept ·.1) := by
  induction members with
  | nil => simp [insertMember, dropped]
  | cons member rest inductionHypothesis =>
    by_cases head : member.1 = key
    · simp [insertMember, head, dropped]
    · simp [insertMember, head, List.filter_cons, inductionHypothesis]

/-- A key that was dropped is gone. -/
theorem lookup_shiftRemove (distinct : (members.map Prod.fst).Nodup) :
    (shiftRemove key members).lookup key = none := by
  rw [lookup_eq_none_iff_notMem]
  by_cases present : key ∈ members.map Prod.fst
  · obtain ⟨front, old, back, rfl, absent⟩ := split_members present
    rw [List.map_append, List.map_cons] at distinct
    have behind := (List.nodup_cons.mp (List.nodup_append.mp distinct).2.1).1
    rw [shiftRemove_middle absent, List.map_append, List.mem_append]
    exact not_or.mpr ⟨absent, behind⟩
  · have fewer : (shiftRemove key members).Sublist members := List.eraseP_sublist
    exact fun later => present ((fewer.map Prod.fst).subset later)

/-- Dropping a key that was just added gives back what there was. -/
theorem shiftRemove_insertMember (absent : key ∉ members.map Prod.fst) :
    shiftRemove key (insertMember key value members) = members := by
  rw [insertMember_absent absent, shiftRemove_middle absent, List.append_nil]

end Places

section Upserting

variable {change first second : κ → Option ν → ν} {keys : List κ} {members : List (κ × ν)}

/-- A member after the values of some keys were set. -/
def upserted (change : κ → Option ν → ν) (keys : List κ) (member : κ × ν) : κ × ν :=
  if member.1 ∈ keys then (member.1, change member.1 (some member.2)) else member

/-- The key stays. -/
@[simp] theorem upserted_fst (member : κ × ν) :
    (upserted change keys member).1 = member.1 := by
  rw [upserted]; split <;> rfl

/-- The members that setting the values of some keys adds. -/
def added (change : κ → Option ν → ν) (keys : List κ) (members : List (κ × ν)) :
    List (κ × ν) :=
  (keys.filter (· ∉ members.map Prod.fst)).map fun key => (key, change key none)

/-- **Setting the values of some keys** changes those members in their places, and adds
what is new in the order of the keys. -/
theorem upsertAll_eq (distinct : (members.map Prod.fst).Nodup) (once : keys.Nodup) :
    upsertAll change keys members =
      members.map (upserted change keys) ++ added change keys members := by
  induction keys generalizing members with
  | nil =>
    have unchanged : members.map (upserted change []) = members :=
      (List.map_congr_left fun member _ => by simp [upserted]).trans (List.map_id members)
    rw [unchanged]
    exact (List.append_nil members).symm
  | cons key rest inductionHypothesis =>
    obtain ⟨fresh, rest_once⟩ := List.nodup_cons.mp once
    have step : upsertAll change (key :: rest) members = upsertAll change rest
        (insertMember key (change key (members.lookup key)) members) := rfl
    rw [step, inductionHypothesis (nodup_insertMember distinct) rest_once]
    by_cases present : key ∈ members.map Prod.fst
    · obtain ⟨front, old, back, rfl, absent⟩ := split_members present
      have behind : key ∉ back.map Prod.fst := by
        rw [List.map_append, List.map_cons] at distinct
        exact (List.nodup_cons.mp (List.nodup_append.mp distinct).2.1).1
      have others : ∀ {part : List (κ × ν)}, key ∉ part.map Prod.fst →
          part.map (upserted change rest) = part.map (upserted change (key :: rest)) := by
        intro part outside
        refine List.map_congr_left fun member listed => ?_
        have other : member.1 ≠ key := fun same => outside (same ▸ List.mem_map_of_mem listed)
        simp [upserted, other]
      have same : (front ++ (key, change key (some old)) :: back).map Prod.fst =
          (front ++ (key, old) :: back).map Prod.fst := by simp
      have news : added change (key :: rest) (front ++ (key, old) :: back) =
          added change rest (front ++ (key, change key (some old)) :: back) := by
        rw [added, added, same, List.filter_cons_of_neg (by simp)]
      rw [lookup_middle absent, insertMember_middle absent, news]
      simp [others absent, others behind, upserted, fresh]
    · have others : members.map (upserted change rest) =
          members.map (upserted change (key :: rest)) := by
        refine List.map_congr_left fun member listed => ?_
        have other : member.1 ≠ key := fun same => present (same ▸ List.mem_map_of_mem listed)
        simp [upserted, other]
      have news : rest.filter (· ∉ members.map Prod.fst ++ [key]) =
          rest.filter (· ∉ members.map Prod.fst) := by
        refine List.filter_congr fun other listed => ?_
        have different : other ≠ key := fun same => fresh (same ▸ listed)
        simp [different]
      rw [lookup_eq_none_iff_notMem.mpr present, insertMember_absent present, List.map_append,
        others]
      simp only [added, List.map_append, List.map_cons, List.map_nil] at news ⊢
      rw [news, List.filter_cons_of_pos (by simp [present])]
      simp [upserted, fresh]

/-- Setting the values of some keys keeps the keys distinct. -/
theorem nodup_upsertAll (distinct : (members.map Prod.fst).Nodup) :
    ((upsertAll change keys members).map Prod.fst).Nodup := by
  induction keys generalizing members with
  | nil => exact distinct
  | cons key rest inductionHypothesis => exact inductionHypothesis (nodup_insertMember distinct)

/-- Looking up after the values of some keys were set. -/
theorem lookup_upsertAll (once : keys.Nodup) (wanted : κ) :
    (upsertAll change keys members).lookup wanted =
      if wanted ∈ keys then some (change wanted (members.lookup wanted))
      else members.lookup wanted := by
  induction keys generalizing members with
  | nil => simp [upsertAll]
  | cons key rest inductionHypothesis =>
    obtain ⟨fresh, rest_once⟩ := List.nodup_cons.mp once
    have step : upsertAll change (key :: rest) members = upsertAll change rest
        (insertMember key (change key (members.lookup key)) members) := rfl
    rw [step, inductionHypothesis rest_once, lookup_insertMember]
    by_cases same : wanted = key
    · simp [same, fresh]
    · simp [same]

/-- Setting the values of some keys leaves every other member as it is. -/
theorem filter_upsertAll :
    (upsertAll change keys members).filter (·.1 ∉ keys) = members.filter (·.1 ∉ keys) := by
  have kept : ∀ listed : List κ, listed ⊆ keys → ∀ current : List (κ × ν),
      (upsertAll change listed current).filter (·.1 ∉ keys) =
        current.filter (·.1 ∉ keys) := by
    intro listed within
    induction listed with
    | nil => intro current; rfl
    | cons key rest inductionHypothesis =>
      intro current
      have step : upsertAll change (key :: rest) current = upsertAll change rest
          (insertMember key (change key (current.lookup key)) current) := rfl
      rw [step, inductionHypothesis fun _ later => within (List.mem_cons_of_mem key later)]
      exact filter_insertMember (fun name => decide (name ∉ keys))
        (by simp [within List.mem_cons_self])
  exact kept keys (List.Subset.refl keys) members

/-- **Setting values twice**: where the second value does not show what the first one was,
the first time might as well not have happened. -/
theorem upsertAll_upsertAll (distinct : (members.map Prod.fst).Nodup) (once : keys.Nodup)
    (forgets : ∀ key ∈ keys, ∀ old, second key (some (first key old)) = second key old) :
    upsertAll second keys (upsertAll first keys members) = upsertAll second keys members := by
  have kept : (members.map (upserted first keys)).map (upserted second keys) =
      members.map (upserted second keys) := by
    rw [List.map_map]
    refine List.map_congr_left fun member _ => ?_
    by_cases ours : member.1 ∈ keys
    · simp [upserted, ours, forgets member.1 ours]
    · simp [upserted, ours]
  have renewed : (added first keys members).map (upserted second keys) =
      added second keys members := by
    rw [added, added, List.map_map]
    refine List.map_congr_left fun key listed => ?_
    have ours : key ∈ keys := List.mem_of_mem_filter listed
    simp [upserted, ours, forgets key ours]
  have nothing : added second keys (upsertAll first keys members) = [] := by
    rw [added, List.filter_eq_nil_iff.mpr, List.map_nil]
    intro key ours
    have found : (upsertAll first keys members).lookup key ≠ none := by
      simp [lookup_upsertAll once, ours]
    simpa using lookup_eq_none_iff_notMem.not.mp found
  rw [upsertAll_eq (nodup_upsertAll distinct) once, nothing, List.append_nil,
    upsertAll_eq distinct once, List.map_append, kept, renewed,
    ← upsertAll_eq distinct once]

end Upserting

section Refining

variable {change : ν → Option ν} {members : List (κ × ν)}

/-- A member after its value was changed or dropped. -/
def refined (change : ν → Option ν) (member : κ × ν) : Option (κ × ν) :=
  (change member.2).map (member.1, ·)

/-- Changing or dropping the value of a key works in its place. -/
theorem refineMember_middle {key : κ} {value : ν} {front back : List (κ × ν)}
    (absent : key ∉ front.map Prod.fst) :
    refineMember change (front ++ (key, value) :: back) key =
      front ++ ((refined change (key, value)).toList ++ back) := by
  simp only [refineMember, lookup_middle absent, refined]
  cases change value with
  | none => exact shiftRemove_middle absent
  | some changed => exact insertMember_middle absent

/-- **Changing or dropping every value** goes from member to member. -/
theorem refineAll_eq (distinct : (members.map Prod.fst).Nodup) :
    refineAll change (members.map Prod.fst) members = members.filterMap (refined change) := by
  have behind : ∀ front back : List (κ × ν), ((front ++ back).map Prod.fst).Nodup →
      refineAll change (back.map Prod.fst) (front ++ back) =
        front ++ back.filterMap (refined change) := by
    intro front back
    induction back generalizing front with
    | nil => intro; rfl
    | cons member rest inductionHypothesis =>
      intro all
      rw [List.map_append, List.map_cons] at all
      have absent : member.1 ∉ front.map Prod.fst := fun early =>
        (List.nodup_append.mp all).2.2 member.1 early member.1 List.mem_cons_self rfl
      have step : refineAll change ((member :: rest).map Prod.fst) (front ++ member :: rest) =
          refineAll change (rest.map Prod.fst)
            ((front ++ (refined change member).toList) ++ rest) := by
        rw [List.append_assoc, ← refineMember_middle absent]
        rfl
      have fewer : (((front ++ (refined change member).toList) ++ rest).map Prod.fst).Nodup := by
        refine all.sublist ?_
        cases result : change member.2 <;> simp [refined, result]
      rw [step, inductionHypothesis _ fewer, List.append_assoc]
      cases result : change member.2 <;> simp [refined, result]
  exact behind [] members distinct

end Refining

end Singularmem.Library
