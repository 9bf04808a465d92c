import Singularmem.Core.Items
import Singularmem.Library.Members

/-!
# JSON objects

An object lists its members in the order they were written, under distinct keys: so the
parser builds it, and so do the operations on its members.
-/

namespace Singularmem.Core

open Library

namespace Json

/-- The members of an object. -/
def asObject : Json → Option (List (String × Json))
  | .object members => some members
  | _ => none

mutual

/-- No object repeats a key. -/
def keyed : Json → Bool
  | .array elements => keyedElements elements
  | .object members => decide (members.map Prod.fst).Nodup && keyedMembers members
  | _ => true

/-- No element has an object that repeats a key. -/
def keyedElements : List Json → Bool
  | [] => true
  | element :: elements => keyed element && keyedElements elements

/-- No member has an object that repeats a key. -/
def keyedMembers : List (String × Json) → Bool
  | [] => true
  | (_, member) :: members => keyed member && keyedMembers members

end

/-- A member is looked up among the members. -/
theorem get_object (members : List (String × Json)) (name : String) :
    (Json.object members).get name = members.lookup name := by
  rw [get]
  induction members with
  | nil => rfl
  | cons member rest inductionHypothesis =>
    obtain ⟨key, held⟩ := member
    rw [lookup_member]
    by_cases same : key = name
    · simp [same]
    · rw [List.find?_cons_of_neg (by simpa using same), if_neg (Ne.symm same),
        inductionHypothesis]

/-- Element by element. -/
theorem keyedElements_iff {elements : List Json} :
    keyedElements elements ↔ ∀ element ∈ elements, element.keyed := by
  induction elements with
  | nil => simp [keyedElements]
  | cons element rest inductionHypothesis => simp [keyedElements, inductionHypothesis]

/-- Member by member. -/
theorem keyedMembers_iff {members : List (String × Json)} :
    keyedMembers members ↔ ∀ member ∈ members, member.2.keyed := by
  induction members with
  | nil => simp [keyedMembers]
  | cons member rest inductionHypothesis =>
    obtain ⟨key, held⟩ := member
    simp [keyedMembers, inductionHypothesis]

/-- An array repeats no key where no element does. -/
theorem keyed_array {elements : List Json} :
    (Json.array elements).keyed ↔ ∀ element ∈ elements, element.keyed := by
  rw [keyed, keyedElements_iff]

/-- An object repeats no key where its own keys are distinct and no member repeats one. -/
theorem keyed_object {members : List (String × Json)} :
    (Json.object members).keyed ↔
      (members.map Prod.fst).Nodup ∧ ∀ member ∈ members, member.2.keyed := by
  rw [keyed, Bool.and_eq_true, decide_eq_true_iff, keyedMembers_iff]

/-- The value of a member repeats no key. -/
theorem keyed_of_lookup {members : List (String × Json)} {name : String} {value : Json}
    (keyed : (Json.object members).keyed) (found : members.lookup name = some value) :
    value.keyed := by
  obtain ⟨distinct, each⟩ := keyed_object.mp keyed
  exact each (name, value) ((lookup_eq_some_iff_mem distinct).mp found)

/-- Setting a member keeps the keys distinct. -/
theorem keyed_insertMember {members : List (String × Json)} {name : String} {value : Json}
    (keyed : (Json.object members).keyed) (given : value.keyed) :
    (Json.object (insertMember name value members)).keyed := by
  obtain ⟨distinct, each⟩ := keyed_object.mp keyed
  refine keyed_object.mpr ⟨nodup_insertMember distinct, fun member listed => ?_⟩
  rcases mem_insertMember listed with rfl | earlier
  · exact given
  · exact each member earlier

/-- Setting members keeps the keys distinct, where each new value repeats none. -/
theorem keyed_upsertAll {change : String → Option Json → Json} {names : List String}
    {members : List (String × Json)} (keyed : (Json.object members).keyed)
    (given : ∀ name ∈ names, ∀ old : Option Json, (∀ value, old = some value → value.keyed) →
      (change name old).keyed) :
    (Json.object (upsertAll change names members)).keyed := by
  induction names generalizing members with
  | nil => exact keyed
  | cons name rest inductionHypothesis =>
    have first : (change name (members.lookup name)).keyed :=
      given name List.mem_cons_self _ fun _ found => keyed_of_lookup keyed found
    exact inductionHypothesis (keyed_insertMember keyed first)
      fun later listed => given later (List.mem_cons_of_mem name listed)

end Json

end Singularmem.Core
