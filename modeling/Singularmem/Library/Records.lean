import Mathlib.Data.List.Basic

/-!
# The last record of a key

A log holds keyed values in the order they were written. Reading it back gives
every key its last value; a key that was never written has none.
-/

namespace Singularmem.Library

universe u v
variable {κ : Type u} {ν : Type v} [DecidableEq κ]

/-- The value of the last record with this key. -/
def latest : List (κ × ν) → κ → Option ν
  | [], _ => none
  | (key, value) :: rest, wanted =>
    (latest rest wanted).or (if key = wanted then some value else none)

@[simp] theorem latest_nil (wanted : κ) : latest ([] : List (κ × ν)) wanted = none := rfl

/-- Later records take precedence over earlier ones. -/
theorem latest_append (first second : List (κ × ν)) (wanted : κ) :
    latest (first ++ second) wanted = (latest second wanted).or (latest first wanted) := by
  induction first with
  | nil => simp
  | cons record rest inductionHypothesis =>
    simp only [List.cons_append, latest, inductionHypothesis, Option.or_assoc]

@[simp] theorem latest_singleton (key wanted : κ) (value : ν) :
    latest [(key, value)] wanted = if key = wanted then some value else none := by
  simp [latest]

/-- A value read back was written under that key. -/
theorem latest_mem {records : List (κ × ν)} {wanted : κ} {value : ν}
    (found : latest records wanted = some value) : (wanted, value) ∈ records := by
  induction records with
  | nil => simp at found
  | cons record rest inductionHypothesis =>
    cases later : latest rest wanted with
    | some other =>
      have same : other = value := by simpa [latest, later] using found
      exact List.mem_cons_of_mem _ (inductionHypothesis (same ▸ later))
    | none =>
      by_cases head : record.1 = wanted
      · have same : record.2 = value := by simpa [latest, later, head] using found
        rw [← head, ← same]
        exact List.mem_cons_self
      · simp [latest, later, head] at found

/-- A key has no value exactly when no record carries it. -/
theorem latest_eq_none {records : List (κ × ν)} {wanted : κ} :
    latest records wanted = none ↔ wanted ∉ records.map Prod.fst := by
  induction records with
  | nil => simp
  | cons record rest inductionHypothesis =>
    simp only [latest, Option.or_eq_none_iff, inductionHypothesis, List.map_cons, List.mem_cons,
      not_or]
    constructor
    · rintro ⟨absent, head⟩
      exact ⟨fun same => by simp [same] at head, absent⟩
    · rintro ⟨head, absent⟩
      exact ⟨absent, by simp [Ne.symm head]⟩

/-- A key has a value exactly when some record carries it. -/
theorem latest_isSome {records : List (κ × ν)} {wanted : κ} :
    (latest records wanted).isSome ↔ wanted ∈ records.map Prod.fst := by
  rw [← not_iff_not, ← latest_eq_none]
  cases latest records wanted <;> simp

/-- Keeping only the records of some keys keeps exactly what those keys read. -/
theorem latest_filter (kept : κ → Bool) (records : List (κ × ν)) (wanted : κ) :
    latest (records.filter (fun record => kept record.1)) wanted =
      if kept wanted then latest records wanted else none := by
  induction records with
  | nil => simp
  | cons record rest inductionHypothesis =>
    by_cases head : record.1 = wanted
    · by_cases keep : kept wanted <;> simp [latest, head, keep, inductionHypothesis]
    · by_cases keep : kept record.1 <;> simp [latest, head, keep, inductionHypothesis]

/-- When no key repeats, every record is read back. -/
theorem latest_of_mem {records : List (κ × ν)} {key : κ} {value : ν}
    (distinct : (records.map Prod.fst).Nodup) (member : (key, value) ∈ records) :
    latest records key = some value := by
  induction records with
  | nil => simp at member
  | cons record rest inductionHypothesis =>
    obtain ⟨absent, tail⟩ := List.nodup_cons.mp distinct
    rcases List.mem_cons.mp member with rfl | later
    · simp [latest, latest_eq_none.mpr absent]
    · simp [latest, inductionHypothesis tail later]

end Singularmem.Library
