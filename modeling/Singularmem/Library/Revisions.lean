import Mathlib.Logic.Relation
import Mathlib.Data.List.Pairwise
import Mathlib.Tactic.Common

/-!
# Append-only revision logs

A log keeps revisions in the order of their appending. A revision may supersede one
earlier revision. Appending either opens a subject of which no open revision stands, or
ends an open one by a revision that is itself ended. Under this discipline a chain of
revisions is at most two long, whatever the appends.

A record time admits some of the revisions. Where it admits exactly those of a prefix of
the log, reading the whole log at that time is reading the prefix.
-/

namespace Singularmem.Library

universe u v w
variable {Row : Type u} {Id : Type v} {Key : Type w}

/-- How the columns of a revision are read. -/
structure RevisionLog (Row : Type u) (Id : Type v) (Key : Type w) where
  id : Row → Id
  /-- What at most one open revision may state. -/
  key : Row → Key
  /-- The revision this one supersedes. -/
  prior : Row → Option Id
  ended : Row → Prop
  /-- Agreement in every column that a closing revision copies. -/
  same : Row → Row → Prop

namespace RevisionLog

variable (log : RevisionLog Row Id Key)

/-- One revision of a log supersedes another. -/
def Supersedes (rows : List Row) (newer older : Row) : Prop :=
  newer ∈ rows ∧ older ∈ rows ∧ log.prior newer = some (log.id older)

/-- Some revision of a log supersedes this one. -/
def Superseded (rows : List Row) (row : Row) : Prop :=
  ∃ newer ∈ rows, log.prior newer = some (log.id row)

/-- A revision that has not ended and that nothing supersedes. -/
def OpenHead (rows : List Row) (row : Row) : Prop :=
  row ∈ rows ∧ ¬ log.ended row ∧ ¬ log.Superseded rows row

/-- The revisions that may be appended to a log. -/
inductive Push (rows : List Row) (row : Row) : Prop
  /-- A first revision of a subject that has no open head. -/
  | opens (fresh : log.prior row = none)
      (vacant : ∀ head, log.OpenHead rows head → log.key head ≠ log.key row)
  /-- The end of an open head. -/
  | ends {head : Row} (target : log.OpenHead rows head) (points : log.prior row = some (log.id head))
      (isEnded : log.ended row) (agrees : log.same row head)

/-- What appending keeps. -/
structure Sound (rows : List Row) : Prop where
  ids : rows.Pairwise fun earlier later => log.id earlier ≠ log.id later
  /-- At most one open head states a key. -/
  single : ∀ left right, log.OpenHead rows left → log.OpenHead rows right →
    log.key left = log.key right → left = right
  /-- At most one revision supersedes another. -/
  unforked : ∀ left ∈ rows, ∀ right ∈ rows, ∀ older, log.prior left = some older →
    log.prior right = some older → left = right
  /-- A superseding revision is ended; the one it supersedes is not, and agrees with it. -/
  closing : ∀ newer ∈ rows, ∀ id, log.prior newer = some id → log.ended newer ∧
    ∃ older ∈ rows, log.id older = id ∧ ¬ log.ended older ∧ log.same newer older

variable {log} {rows : List Row}

/-- The empty log is sound. -/
theorem Sound.nil : log.Sound [] := by
  constructor <;> simp [OpenHead]

/-- Revisions with one id are one revision. -/
theorem Sound.id_injective (sound : log.Sound rows) {left right : Row} (leftIn : left ∈ rows)
    (rightIn : right ∈ rows) (same : log.id left = log.id right) : left = right := by
  have symmetric : Std.Symm fun earlier later : Row => log.id earlier ≠ log.id later :=
    ⟨fun _ _ apart same => apart same.symm⟩
  by_contra different
  exact sound.ids.forall leftIn rightIn different same

/-- An open head of a longer log that was in the log before was an open head then. -/
theorem OpenHead.of_push {row head : Row} (heading : log.OpenHead (rows ++ [row]) head)
    (earlier : head ∈ rows) : log.OpenHead rows head := by
  refine ⟨earlier, heading.2.1, ?_⟩
  rintro ⟨newer, member, points⟩
  exact heading.2.2 ⟨newer, List.mem_append_left _ member, points⟩

/-- Nothing supersedes a first revision that was just appended. -/
theorem Sound.fresh_head (sound : log.Sound rows) {row : Row} (fresh : log.prior row = none)
    (unused : ∀ stored ∈ rows, log.id stored ≠ log.id row) :
    ¬ log.Superseded (rows ++ [row]) row := by
  rintro ⟨newer, member, points⟩
  rcases List.mem_append.mp member with earlier | last
  · obtain ⟨_, older, olderIn, same, _⟩ := sound.closing newer earlier _ points
    exact unused older olderIn same
  · rw [List.mem_singleton.mp last, fresh] at points
    cases points

/-- Nothing supersedes an ended revision. -/
theorem Sound.ended_head (sound : log.Sound rows) {row : Row} (stored : row ∈ rows)
    (isEnded : log.ended row) : ¬ log.Superseded rows row := by
  rintro ⟨newer, member, points⟩
  obtain ⟨_, older, olderIn, same, notEnded, _⟩ := sound.closing newer member _ points
  rw [sound.id_injective olderIn stored same] at notEnded
  exact notEnded isEnded

/-- **Appending keeps a log sound.** -/
theorem Sound.push (sound : log.Sound rows) {row : Row} (push : log.Push rows row)
    (unused : ∀ stored ∈ rows, log.id stored ≠ log.id row) : log.Sound (rows ++ [row]) := by
  have lift : ∀ {stored}, stored ∈ rows → stored ∈ rows ++ [row] := List.mem_append_left _
  have last : ∀ {stored}, stored ∈ rows ++ [row] → stored ∈ rows ∨ stored = row := by
    intro stored member
    simpa using member
  constructor
  · refine List.pairwise_append.mpr ⟨sound.ids, List.pairwise_singleton _ row, ?_⟩
    intro stored member final isLast
    rw [List.mem_singleton.mp isLast]
    exact unused stored member
  · have fromNew : ∀ head, log.OpenHead (rows ++ [row]) head → log.OpenHead (rows ++ [row]) row →
        log.key head = log.key row → head = row := by
      intro head heading rowHeading agree
      rcases last heading.1 with earlier | isLast
      · cases push with
        | opens fresh vacant => exact absurd agree (vacant head (heading.of_push earlier))
        | ends target points isEnded agrees => exact absurd isEnded rowHeading.2.1
      · exact isLast
    intro left right leftHead rightHead agree
    rcases last leftHead.1 with leftEarlier | rfl
    · rcases last rightHead.1 with rightEarlier | rfl
      · exact sound.single left right (leftHead.of_push leftEarlier)
          (rightHead.of_push rightEarlier) agree
      · exact fromNew left leftHead rightHead agree
    · exact (fromNew right rightHead leftHead agree.symm).symm
  · have fromNew : ∀ left ∈ rows, ∀ older, log.prior left = some older →
        log.prior row = some older → left = row := by
      intro left member older leftPrior rowPrior
      cases push with
      | opens fresh vacant =>
        rw [fresh] at rowPrior
        cases rowPrior
      | ends target points isEnded agrees =>
        rw [points] at rowPrior
        exact absurd ⟨left, member, leftPrior.trans rowPrior.symm⟩ target.2.2
    intro left leftIn right rightIn older leftPrior rightPrior
    rcases last leftIn with leftEarlier | rfl
    · rcases last rightIn with rightEarlier | rfl
      · exact sound.unforked left leftEarlier right rightEarlier older leftPrior rightPrior
      · exact fromNew left leftEarlier older leftPrior rightPrior
    · rcases last rightIn with rightEarlier | rfl
      · exact (fromNew right rightEarlier older rightPrior leftPrior).symm
      · rfl
  · intro newer member id points
    rcases last member with earlier | rfl
    · obtain ⟨isEnded, older, olderIn, rest⟩ := sound.closing newer earlier id points
      exact ⟨isEnded, older, lift olderIn, rest⟩
    · cases push with
      | opens fresh vacant =>
        rw [fresh] at points
        cases points
      | ends target rowPoints isEnded agrees =>
        rw [rowPoints] at points
        exact ⟨isEnded, _, lift target.1, Option.some.inj points, target.2.1, agrees⟩

/-- One log grows into another by appending admitted revisions with unused ids. -/
inductive Pushes (log : RevisionLog Row Id Key) (admitted : Row → Prop) (before : List Row) :
    List Row → Prop
  | refl : Pushes log admitted before before
  | push {rows : List Row} {row : Row} (past : Pushes log admitted before rows)
      (accepted : log.Push rows row) (unused : ∀ stored ∈ rows, log.id stored ≠ log.id row)
      (admits : admitted row) : Pushes log admitted before (rows ++ [row])

/-- Appends compose. -/
theorem Pushes.trans {admitted : Row → Prop} {before middle after : List Row}
    (first : log.Pushes admitted before middle) (second : log.Pushes admitted middle after) :
    log.Pushes admitted before after := by
  induction second with
  | refl => exact first
  | push _ accepted unused admits inductionHypothesis =>
    exact .push inductionHypothesis accepted unused admits

/-- A sound log stays sound. -/
theorem Pushes.sound {admitted : Row → Prop} {before after : List Row}
    (pushes : log.Pushes admitted before after) (sound : log.Sound before) : log.Sound after := by
  induction pushes with
  | refl => exact sound
  | push _ accepted unused _ inductionHypothesis => exact inductionHypothesis.push accepted unused

/-- What was appended stands after what was there, and was admitted. -/
theorem Pushes.appended {admitted : Row → Prop} {before after : List Row}
    (pushes : log.Pushes admitted before after) :
    ∃ added, after = before ++ added ∧ ∀ row ∈ added, admitted row := by
  induction pushes with
  | refl => exact ⟨[], by simp⟩
  | @push _ row _ _ _ admits inductionHypothesis =>
    obtain ⟨added, rfl, all⟩ := inductionHypothesis
    refine ⟨added ++ [row], by simp, ?_⟩
    intro new member
    rcases List.mem_append.mp member with earlier | last
    · exact all new earlier
    · rwa [List.mem_singleton.mp last]

/-- A revision that supersedes another is not superseded itself. -/
theorem Sound.no_third (sound : log.Sound rows) {newest newer older : Row}
    (first : log.Supersedes rows newest newer) : ¬ log.Supersedes rows newer older := by
  intro second
  obtain ⟨_, superseded, member, same, notEnded, _⟩ := sound.closing _ first.1 _ first.2.2
  rw [sound.id_injective member first.2.1 same] at notEnded
  exact notEnded (sound.closing _ second.1 _ second.2.2).1

/-- Revisions that are one, or of which one supersedes the other. -/
def Adjacent (log : RevisionLog Row Id Key) (rows : List Row) (left right : Row) : Prop :=
  left = right ∨ log.Supersedes rows left right ∨ log.Supersedes rows right left

/-- **A chain is at most two revisions long.** -/
theorem Sound.chain (sound : log.Sound rows) {left right : Row}
    (linked : Relation.EqvGen (log.Supersedes rows) left right) : log.Adjacent rows left right := by
  induction linked with
  | rel left right supersedes => exact .inr (.inl supersedes)
  | refl row => exact .inl rfl
  | symm left right _ inductionHypothesis =>
    rcases inductionHypothesis with rfl | forward | backward
    · exact .inl rfl
    · exact .inr (.inr forward)
    · exact .inr (.inl backward)
  | trans left middle right _ _ first second =>
    rcases first with rfl | forward | backward
    · exact second
    · rcases second with rfl | again | back
      · exact .inr (.inl forward)
      · exact absurd again (sound.no_third forward)
      · exact .inl (sound.unforked left forward.1 right back.1 _ forward.2.2 back.2.2)
    · rcases second with rfl | again | back
      · exact .inr (.inr backward)
      · have same : log.id left = log.id right := Option.some.inj (backward.2.2.symm.trans again.2.2)
        exact .inl (sound.id_injective backward.2.1 again.2.1 same)
      · exact absurd backward (sound.no_third back)

/-- A revision is visible at a record time: it is recorded by then, and no recorded
revision supersedes it. -/
def Visible (log : RevisionLog Row Id Key) (rows : List Row) (recorded : Row → Prop) (row : Row) :
    Prop :=
  row ∈ rows ∧ recorded row ∧ ∀ newer ∈ rows, log.prior newer = some (log.id row) → ¬ recorded newer

/-- **At most one revision of a chain is visible**, whatever the record time admits. -/
theorem Sound.visible_unique (sound : log.Sound rows) {recorded : Row → Prop} {left right : Row}
    (linked : Relation.EqvGen (log.Supersedes rows) left right)
    (leftVisible : log.Visible rows recorded left) (rightVisible : log.Visible rows recorded right) :
    left = right := by
  rcases sound.chain linked with same | forward | backward
  · exact same
  · exact absurd leftVisible.2.1 (rightVisible.2.2 left forward.1 forward.2.2)
  · exact absurd rightVisible.2.1 (leftVisible.2.2 right backward.1 backward.2.2)

end RevisionLog

end Singularmem.Library
