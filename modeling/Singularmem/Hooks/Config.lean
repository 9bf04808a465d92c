import Singularmem.Core.Objects
import Singularmem.Hooks.Command

/-!
# Hook configuration

An editor keeps its hooks in a JSON file, with arrays of groups under the names of events.
Our groups are merged into the arrays and removed from them; a group is ours where one of
its commands is. The binary is given by its path as it is displayed.
-/

namespace Singularmem.Hooks

open Library Singularmem.Core

/-- A hook of Claude Code or Codex that runs a command. -/
def commandHook (command : String) (option : String × Json) : Json :=
  .object [("type", .string "command"), ("command", .string command), option]

/-- A group of Claude Code or Codex with one hook. -/
def commandGroup (matcher : Option String) (command : String) (option : String × Json) : Json :=
  .object ((matcher.map fun text => ("matcher", Json.string text)).toList ++
    [("hooks", .array [commandHook command option])])

/-- The hooks installed for an editor. -/
def entries (editor : Editor) (bin : String) : Json :=
  let line := fun event => command editor event bin
  match editor with
  | .claudeCode => .object [("hooks", .object [
      ("SessionStart", .array [commandGroup (some "startup|resume|clear|compact")
        (line .sessionStart) ("timeout", .number "30")]),
      ("Stop", .array [commandGroup none (line .stop) ("async", .bool true)]),
      ("PreCompact", .array [commandGroup none (line .preCompact) ("timeout", .number "60")]),
      ("SessionEnd", .array [commandGroup none (line .sessionEnd)
        ("timeout", .number "60")])])]
  | .codex => .object [("hooks", .object [
      ("SessionStart", .array [commandGroup (some "*") (line .sessionStart)
        ("timeout", .number "30")]),
      ("Stop", .array [commandGroup (some "*") (line .stop) ("async", .bool true)]),
      ("PreCompact", .array [commandGroup (some "*") (line .preCompact)
        ("timeout", .number "60")])])]
  | .cursor => .object [("version", .number "1"), ("hooks", .object [
      ("sessionStart", .array [.object
        [("command", .string (line .sessionStart)), ("timeout", .number "30")]]),
      ("stop", .array [.object [("command", .string (line .stop)), ("timeout", .number "60"),
        ("loop_limit", .number "1")]]),
      ("preCompact", .array [.object
        [("command", .string (line .preCompact)), ("timeout", .number "60")]]),
      ("sessionEnd", .array [.object
        [("command", .string (line .sessionEnd)), ("timeout", .number "60")]])])]

/-- The command of a hook, or of a group of Cursor. -/
def hookCommand (hook : Json) : Option String := (hook.get "command").bind Json.asStr

/-- Whether a group is ours: one of its commands is. -/
def groupIsOurs (editor : Editor) (group : Json) : Bool :=
  match editor with
  | .cursor => (hookCommand group).any isOurs
  | .claudeCode | .codex =>
    ((group.get "hooks").bind Json.asArray).any fun hooks =>
      (hooks.filterMap hookCommand).any isOurs

/-- The groups under an event: none where it has no array. -/
def groupsOf (value : Option Json) : List Json := (value.bind Json.asArray).getD []

/-- The hooks of a configuration, empty where there is no object. -/
def hooksObject (members : List (String × Json)) : List (String × Json) :=
  match members.lookup "hooks" with
  | some (.object hooks) => hooks
  | _ => []

/-- Put our groups under an event, in place of those that were ours. -/
def mergeEvent (editor : Editor) (hooks : List (String × Json)) (ours : String × Json) :
    List (String × Json) :=
  let kept := (groupsOf (hooks.lookup ours.1)).filter fun group => !groupIsOurs editor group
  insertMember ours.1 (.array (kept ++ groupsOf (some ours.2))) hooks

/-- Merge our hooks into a configuration. -/
def merge (editor : Editor) (existing : Json) (bin : String) : Json :=
  let result := existing.asObject.getD []
  let result :=
    if editor = .cursor ∧ result.lookup "version" = none then
      insertMember "version" (.number "1") result
    else result
  match ((entries editor bin).get "hooks").bind Json.asObject with
  | none => .object result
  | some oursHooks =>
    let hooks := oursHooks.foldl (mergeEvent editor) (hooksObject result)
    .object (insertMember "hooks" (.object hooks) result)

/-- Drop our groups under an event, and the event where none are left. -/
def removeEvent (editor : Editor) (hooks : List (String × Json)) (event : String) :
    List (String × Json) :=
  match (hooks.lookup event).bind Json.asArray with
  | none => hooks
  | some groups =>
    let retained := groups.filter fun group => !groupIsOurs editor group
    if retained = [] then shiftRemove event hooks
    else insertMember event (.array retained) hooks

/-- Remove our hooks from a configuration. -/
def remove (editor : Editor) (existing : Json) : Json :=
  match existing.asObject with
  | none => existing
  | some result =>
    match (result.lookup "hooks").bind Json.asObject with
    | none => .object result
    | some hooks =>
      let hooks := (hooks.map Prod.fst).foldl (removeEvent editor) hooks
      if editor = .cursor ∨ hooks ≠ [] then
        .object (insertMember "hooks" (.object hooks) result)
      else .object (shiftRemove "hooks" result)

/-- Whether one of our groups is in a configuration. -/
def hasOurs (editor : Editor) (existing : Json) : Bool :=
  ((existing.get "hooks").bind Json.asObject).any fun hooks =>
    hooks.any fun (_, value) => value.asArray.any (·.any (groupIsOurs editor))

/-- A configuration: a JSON value as the parser builds it. -/
structure Config where
  value : Json
  keyed : value.keyed

end Singularmem.Hooks
