import Mathlib.Data.List.Nodup
import Mathlib.Data.List.Forall2

/-!
# Collections that mirror others

A mirror keeps copies of the entries of a growing collection, found by key. It is sound
when no two copies have one key and each describes an entry; it covers the entries of a
kind when each of them is described. Entries may change as long as what described one
still describes what it became.
-/

namespace Singularmem.Library

universe u v w
variable {Copy : Type u} {Entry : Type v} {Key : Type w}

/-- When a copy describes an entry, and by which keys they are known. -/
structure Mirror (Copy : Type u) (Entry : Type v) (Key : Type w) where
  copyKey : Copy → Key
  entryKey : Entry → Key
  describes : Copy → Entry → Prop
  sameKey : ∀ {copy entry}, describes copy entry → copyKey copy = entryKey entry

/-- What is related place by place: an element of the first list has a partner. -/
theorem forall₂_partner {α : Type u} {β : Type v} {relation : α → β → Prop} {first : List α}
    {second : List β} (related : List.Forall₂ relation first second) :
    ∀ left ∈ first, ∃ right ∈ second, relation left right := by
  induction related with
  | nil => exact fun _ none => absurd none List.not_mem_nil
  | cons head _ inductionHypothesis =>
    intro left member
    rcases List.mem_cons.mp member with rfl | later
    · exact ⟨_, List.mem_cons_self, head⟩
    · obtain ⟨right, there, held⟩ := inductionHypothesis left later
      exact ⟨right, List.mem_cons_of_mem _ there, held⟩

/-- An element of the second list has one too. -/
theorem forall₂_source {α : Type u} {β : Type v} {relation : α → β → Prop} {first : List α}
    {second : List β} (related : List.Forall₂ relation first second) :
    ∀ right ∈ second, ∃ left ∈ first, relation left right :=
  forall₂_partner related.flip

namespace Mirror

variable {mirror : Mirror Copy Entry Key}

/-- The copies have distinct keys, and each describes an entry. -/
structure Sound (mirror : Mirror Copy Entry Key) (copies : List Copy) (entries : List Entry) :
    Prop where
  distinct : (copies.map mirror.copyKey).Nodup
  each : ∀ copy ∈ copies, ∃ entry ∈ entries, mirror.describes copy entry

/-- Every entry of a kind is described by a copy. -/
def Covers (mirror : Mirror Copy Entry Key) (kind : Entry → Prop) (copies : List Copy)
    (entries : List Entry) : Prop :=
  ∀ entry ∈ entries, kind entry → ∃ copy ∈ copies, mirror.describes copy entry

/-- What described an entry before describes one after. -/
def Follows (mirror : Mirror Copy Entry Key) (before after : List Entry) : Prop :=
  ∀ entry ∈ before, ∃ became ∈ after, ∀ copy, mirror.describes copy entry →
    mirror.describes copy became

variable {copies more : List Copy} {entries after added : List Entry} {kind : Entry → Prop}

theorem Sound.nil : mirror.Sound [] entries :=
  ⟨List.nodup_nil, fun _ none => absurd none List.not_mem_nil⟩

theorem Follows.refl (entries : List Entry) : mirror.Follows entries entries :=
  fun entry member => ⟨entry, member, fun _ => id⟩

theorem Follows.trans {middle : List Entry} (first : mirror.Follows entries middle)
    (second : mirror.Follows middle after) : mirror.Follows entries after := by
  intro entry member
  obtain ⟨between, there, early⟩ := first entry member
  obtain ⟨became, here, late⟩ := second between there
  exact ⟨became, here, fun copy => late copy ∘ early copy⟩

/-- Fewer copies. -/
theorem Sound.sublist (sound : mirror.Sound copies entries) (fewer : more.Sublist copies) :
    mirror.Sound more entries :=
  ⟨sound.distinct.sublist (fewer.map _), fun copy member => sound.each copy (fewer.subset member)⟩

/-- Entries that changed. -/
theorem Sound.follow (sound : mirror.Sound copies entries) (follows : mirror.Follows entries after) :
    mirror.Sound copies after := by
  refine ⟨sound.distinct, fun copy member => ?_⟩
  obtain ⟨entry, stored, described⟩ := sound.each copy member
  obtain ⟨became, there, still⟩ := follows entry stored
  exact ⟨became, there, still copy described⟩

/-- Copies of one entry each have the keys of the entries. -/
theorem map_copyKey (described : List.Forall₂ mirror.describes more added) :
    more.map mirror.copyKey = added.map mirror.entryKey := by
  induction described with
  | nil => rfl
  | cons first _ inductionHypothesis =>
    rw [List.map_cons, List.map_cons, mirror.sameKey first, inductionHypothesis]

/-- **Copies of new entries.** The keys of the collection stay distinct. -/
theorem Sound.grow (sound : mirror.Sound copies entries)
    (described : List.Forall₂ mirror.describes more added)
    (distinct : ((entries ++ added).map mirror.entryKey).Nodup) :
    mirror.Sound (copies ++ more) (entries ++ added) := by
  rw [List.map_append] at distinct
  obtain ⟨_, fresh, apart⟩ := List.nodup_append.mp distinct
  refine ⟨?_, ?_⟩
  · rw [List.map_append, List.nodup_append]
    refine ⟨sound.distinct, map_copyKey described ▸ fresh, ?_⟩
    intro key old new appended
    obtain ⟨copy, member, rfl⟩ := List.mem_map.mp old
    obtain ⟨entry, stored, held⟩ := sound.each copy member
    rw [map_copyKey described] at appended
    rw [mirror.sameKey held]
    exact apart _ (List.mem_map_of_mem stored) new appended
  · intro copy member
    rcases List.mem_append.mp member with old | new
    · obtain ⟨entry, stored, held⟩ := sound.each copy old
      exact ⟨entry, List.mem_append_left _ stored, held⟩
    · obtain ⟨entry, stored, held⟩ := forall₂_partner described copy new
      exact ⟨entry, List.mem_append_right _ stored, held⟩

/-- Copies made afresh of entries with distinct keys. -/
theorem Sound.of_forall₂ (described : List.Forall₂ mirror.describes more added)
    (distinct : (added.map mirror.entryKey).Nodup) : mirror.Sound more added := by
  have none : mirror.Sound [] [] := .nil
  have grown := none.grow described (by simpa using distinct)
  simpa using grown

/-- New entries with their copies are covered where the old ones were. -/
theorem Covers.grow (covers : mirror.Covers kind copies entries)
    (described : List.Forall₂ mirror.describes more added) :
    mirror.Covers kind (copies ++ more) (entries ++ added) := by
  intro entry member of
  rcases List.mem_append.mp member with old | new
  · obtain ⟨copy, there, held⟩ := covers entry old of
    exact ⟨copy, List.mem_append_left _ there, held⟩
  · obtain ⟨copy, there, held⟩ := forall₂_source described entry new
    exact ⟨copy, List.mem_append_right _ there, held⟩

/-- Entries that changed in place are covered where they were. -/
theorem Covers.follow (covers : mirror.Covers kind copies entries)
    (origin : ∀ entry ∈ after, ∃ was ∈ entries, (kind entry → kind was) ∧
      ∀ copy, mirror.describes copy was → mirror.describes copy entry) :
    mirror.Covers kind copies after := by
  intro entry member of
  obtain ⟨was, stored, back, still⟩ := origin entry member
  obtain ⟨copy, there, held⟩ := covers was stored (back of)
  exact ⟨copy, there, still copy held⟩

/-- **One copy for a key.** -/
theorem Sound.unique (sound : mirror.Sound copies entries) {left right : Copy}
    (leftIn : left ∈ copies) (rightIn : right ∈ copies)
    (same : mirror.copyKey left = mirror.copyKey right) : left = right :=
  List.inj_on_of_nodup_map sound.distinct leftIn rightIn same

end Mirror

end Singularmem.Library
