import Singularmem.Core.Text

/-!
# Hook commands

The command an editor runs for a hook is the quoted path of the binary, followed by the
editor and the event. Whether a command is one of ours is told from its form alone. A path
that holds a quote breaks the form: its command is not recognised.
-/

namespace Singularmem.Hooks

open Singularmem.Core

/-- An editor that hooks can be installed in. -/
inductive Editor
  | claudeCode
  | codex
  | cursor
deriving DecidableEq

namespace Editor

/-- The name of an editor in commands. -/
def asStr : Editor → String
  | .claudeCode => "claude-code"
  | .codex => "codex"
  | .cursor => "cursor"

/-- The editor of a name. -/
def fromStr (text : String) : Option Editor :=
  if text = "claude-code" then some .claudeCode
  else if text = "codex" then some .codex
  else if text = "cursor" then some .cursor
  else none

end Editor

/-- A hook event an editor fires. -/
inductive Event
  | sessionStart
  | stop
  | preCompact
  | sessionEnd
deriving DecidableEq

namespace Event

/-- The name of an event in commands. -/
def asStr : Event → String
  | .sessionStart => "session-start"
  | .stop => "stop"
  | .preCompact => "pre-compact"
  | .sessionEnd => "session-end"

/-- The event of a name. -/
def fromStr (text : String) : Option Event :=
  if text = "session-start" then some .sessionStart
  else if text = "stop" then some .stop
  else if text = "pre-compact" then some .preCompact
  else if text = "session-end" then some .sessionEnd
  else none

end Event

/-- What follows the quoted path. -/
def arguments (editor : Editor) (event : Event) : String :=
  "hook " ++ editor.asStr ++ " " ++ event.asStr

/-- The command for one event. The path is given as it is displayed. -/
def command (editor : Editor) (event : Event) (bin : String) : String :=
  "\"" ++ bin ++ "\" " ++ arguments editor event

/-- Read what follows the quoted path. -/
def parseArguments (remainder : String) : Option (Editor × Event) :=
  let tail := trim remainder
  match split ' ' tail with
  | ["hook", editor, event] => do
    let editor ← Editor.fromStr editor
    let event ← Event.fromStr event
    if tail = arguments editor event then some (editor, event) else none
  | _ => none

/-- Read a command as one of ours: the path, the editor and the event. -/
def parseOurs (command : String) : Option (String × Editor × Event) :=
  match command.toList with
  | '"' :: rest =>
    match rest.dropWhile (· ≠ '"') with
    | _ :: remainder => do
      let (editor, event) ← parseArguments (String.ofList remainder)
      some (String.ofList (rest.takeWhile (· ≠ '"')), editor, event)
    | [] => none
  | _ => none

/-- Whether a command is one of ours. -/
def isOurs (command : String) : Bool := (parseOurs command).isSome

/-- The arguments of a command are read back. -/
theorem parseArguments_arguments (editor : Editor) (event : Event) :
    parseArguments (" " ++ arguments editor event) = some (editor, event) := by
  cases editor <;> cases event <;> decide +kernel

/-- No argument holds a quote. -/
theorem quote_notMem_arguments (editor : Editor) (event : Event) :
    '"' ∉ (arguments editor event).toList := by
  cases editor <;> cases event <;> decide +kernel

/-- Trimming keeps every other character. -/
theorem mem_trim {char : Char} {text : String} (member : char ∈ text.toList)
    (kept : isWhitespace char = false) : char ∈ (trim text).toList := by
  have survives : ∀ chars : List Char, char ∈ chars →
      char ∈ chars.dropWhile isWhitespace := by
    intro chars listed
    induction chars with
    | nil => exact listed
    | cons head rest inductionHypothesis =>
      rw [List.dropWhile_cons]
      split
      case isTrue blank =>
        rcases List.mem_cons.mp listed with rfl | later
        · rw [kept] at blank
          cases blank
        · exact inductionHypothesis later
      case isFalse => exact listed
  rw [trim, trimMatches, String.toList_ofList, List.mem_reverse]
  exact survives _ (List.mem_reverse.mpr (survives _ member))

/-- What holds a quote is not read as arguments. -/
theorem parseArguments_quoted {remainder : String} (quoted : '"' ∈ remainder.toList) :
    parseArguments remainder = none := by
  have within : '"' ∈ (trim remainder).toList := mem_trim quoted (by decide)
  have never : ∀ editor event, trim remainder ≠ arguments editor event := by
    intro editor event same
    exact quote_notMem_arguments editor event (same ▸ within)
  rw [parseArguments]
  split
  case h_1 => simp [never]
  case h_2 => rfl

/-- A command is read by its first closing quote. -/
theorem parseOurs_quote {front back : List Char} {command : String}
    (written : command.toList = '"' :: (front ++ '"' :: back)) (plain : '"' ∉ front) :
    parseOurs command = (parseArguments (String.ofList back)).map
      fun (editor, event) => (String.ofList front, editor, event) := by
  have passes : ∀ char ∈ front, decide (char ≠ '"') = true := by
    intro char listed
    exact decide_eq_true fun same => plain (same ▸ listed)
  have taken : (front ++ '"' :: back).takeWhile (· ≠ '"') = front := by
    rw [List.takeWhile_append_of_pos passes]
    simp
  have dropped : (front ++ '"' :: back).dropWhile (· ≠ '"') = '"' :: back := by
    rw [List.dropWhile_append_of_pos passes]
    simp
  rw [parseOurs, written]
  simp only [dropped, taken]
  cases parseArguments (String.ofList back) <;> rfl

/-- The characters of a command. -/
theorem toList_command (editor : Editor) (event : Event) (bin : String) :
    (command editor event bin).toList =
      '"' :: (bin.toList ++ '"' :: (" " ++ arguments editor event).toList) := by
  simp [command]

/-- **Every command of a path without quotes is read back** as it was written. -/
theorem parseOurs_command {bin : String} (plain : '"' ∉ bin.toList) (editor : Editor)
    (event : Event) : parseOurs (command editor event bin) = some (bin, editor, event) := by
  rw [parseOurs_quote (toList_command editor event bin) plain, String.ofList_toList,
    String.ofList_toList, parseArguments_arguments, Option.map_some]

/-- No command of a path with a quote is recognised. -/
theorem parseOurs_command_quoted {bin : String} (quoted : '"' ∈ bin.toList) (editor : Editor)
    (event : Event) : parseOurs (command editor event bin) = none := by
  obtain ⟨front, back, written, plain⟩ :
      ∃ front back, bin.toList = front ++ '"' :: back ∧ '"' ∉ front :=
    List.eq_append_cons_of_mem quoted
  have chars : (command editor event bin).toList = '"' :: (front ++ '"' ::
      (back ++ '"' :: (" " ++ arguments editor event).toList)) := by
    rw [toList_command, written, List.append_assoc, List.cons_append]
  rw [parseOurs_quote chars plain, parseArguments_quoted, Option.map_none]
  rw [String.toList_ofList]
  exact List.mem_append_right back List.mem_cons_self

/-- **A command is recognised** exactly where the path holds no quote. -/
theorem isOurs_command (editor : Editor) (event : Event) (bin : String) :
    isOurs (command editor event bin) ↔ '"' ∉ bin.toList := by
  constructor
  · intro ours quoted
    rw [isOurs, parseOurs_command_quoted quoted] at ours
    cases ours
  · intro plain
    rw [isOurs, parseOurs_command plain]
    rfl

end Singularmem.Hooks
