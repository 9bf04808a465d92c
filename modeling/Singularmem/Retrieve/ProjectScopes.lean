import Singularmem.Core.ScopeGrammar
import Singularmem.Ingest.Transcripts
import Singularmem.Retrieve.Wakeup

/-!
# The scopes of a project directory

A session saves its notes beneath the name of its editor and the base name of its directory. A
wake-up of a directory reads beneath the same names. The two agree: a wake-up admits the notes
of a session exactly where the two directories have the same base name but for case.
-/

namespace Singularmem.Retrieve

open Library Singularmem.Core Singularmem.Search
open Singularmem.Ingest (FileSystem fileName components deriveScope derivedScope defaultScope)

/-- Editor prefixes that receive the session transcripts of a project. -/
def editorPrefixes : List String := ["claude-code", "codex", "cursor"]

/-- The base name of a directory as it is given, and of its canonical form only where it has
no usable name. -/
def projectBase (fs : FileSystem) (dir : String) : Option String :=
  match (fileName dir).filter (· ≠ "") with
  | some base => some base
  | none => (fileName ((fs.canonicalize dir).getD dir)).filter (· ≠ "")

/-- The prefixes beneath which a project is looked for. -/
def projectPrefixes (includeFiles : Bool) : List String :=
  editorPrefixes ++ if includeFiles then ["files"] else []

/-- The default scopes of a project directory. -/
def ScopeSet.forProject (platform : Platform) (fs : FileSystem) (dir : String)
    (includeFiles : Bool) : ScopeSet :=
  match projectBase fs dir with
  | none => []
  | some base => (projectPrefixes includeFiles).filterMap fun start =>
    (ScopeFilter.descendants platform (start ++ "/" ++ base)).toOption

/-- A text in lowercase. -/
def lowercase (text : String) : String := .ofList (text.toList.map Char.toLower)

variable {platform : Platform} {fs : FileSystem} {includeFiles : Bool}

section Names

/-- The components of a path are no empty texts, and hold no slashes. -/
theorem components_plain {path part : String} (member : part ∈ (components path).2) :
    part ≠ "" ∧ '/' ∉ part.toList := by
  have listed : part ∈ (split '/' path).filter (· ≠ "") := by
    unfold components at member
    dsimp only at member
    split at member
    case h_1 rest parts =>
      rw [parts]
      split at member
      case isTrue => exact List.mem_cons_of_mem _ (List.mem_of_mem_filter member)
      case isFalse =>
        rcases List.mem_cons.mp member with rfl | inside
        · exact List.mem_cons_self
        · exact List.mem_cons_of_mem _ (List.mem_of_mem_filter inside)
    case h_2 => exact List.mem_of_mem_filter member
  obtain ⟨inside, some⟩ := List.mem_filter.mp listed
  refine ⟨of_decide_eq_true some, fun slash => ?_⟩
  obtain ⟨letters, apart, rfl⟩ := List.mem_map.mp inside
  rw [String.toList_ofList] at slash
  have plain := splitOnP_plain apart '/' slash
  exact absurd plain (by decide)

/-- A base name is no empty text, and holds no slash. -/
theorem fileName_plain {path base : String} (named : fileName path = some base) :
    base ≠ "" ∧ '/' ∉ base.toList := by
  obtain ⟨last, -⟩ := Option.filter_eq_some_iff.mp named
  exact components_plain (List.mem_of_getLast? last)

theorem projectBase_plain {dir base : String} (named : projectBase fs dir = some base) :
    base ≠ "" ∧ '/' ∉ base.toList := by
  unfold projectBase at named
  split at named
  case h_1 given =>
    cases named
    exact fileName_plain (Option.filter_eq_some_iff.mp given).1
  case h_2 => exact fileName_plain (Option.filter_eq_some_iff.mp named).1

/-- A directory with a base name of its own is known by it. -/
theorem projectBase_of_fileName {dir base : String} (named : fileName dir = some base) :
    projectBase fs dir = some base := by
  have usable : (fileName dir).filter (· ≠ "") = some base := by
    rw [named, Option.filter_some, if_pos (decide_eq_true (fileName_plain named).1)]
  rw [projectBase, usable]

/-- The prefixes are scope segments in lowercase. -/
theorem projectPrefixes_plain {start : String} (known : start ∈ projectPrefixes includeFiles) :
    start ≠ "" ∧ '/' ∉ start.toList ∧ lowercase start = start := by
  have listed : start ∈ ["claude-code", "codex", "cursor", "files"] := by
    rcases List.mem_append.mp known with editor | files
    · exact List.mem_append_left ["files"] editor
    · split at files
      · exact List.mem_append_right editorPrefixes files
      · cases files
  have each : ∀ start ∈ ["claude-code", "codex", "cursor", "files"],
      start ≠ "" ∧ '/' ∉ start.toList ∧ lowercase start = start := by decide
  exact each start listed

end Names

section Validation

variable {start base : String}

/-- A prefix and a base name between slashes are trimmed already. -/
theorem trimMatches_scope (some : start ≠ "") (plain : '/' ∉ start.toList) (named : base ≠ "")
    (solid : '/' ∉ base.toList) :
    trimMatches (fun char => decide (char = '/')) (start ++ "/" ++ base) =
      start ++ "/" ++ base := by
  have letters : (start ++ "/" ++ base).toList =
      ['/'].intercalate [start.toList, base.toList] := by
    simp [List.intercalate_cons_cons]
  have ends := @Scope.trimmed_path [start.toList, base.toList]
    (by simpa using ⟨some, named⟩) (by simpa using ⟨plain, solid⟩)
  have same := ends.trimEnds_eq
  rw [trimEnds] at same
  rw [trimMatches, letters]
  exact (congrArg String.ofList same).trans (by rw [← letters, String.ofList_toList])

/-- Lowercasing puts no slash into a text and takes none out. -/
theorem lowercase_slash {text : String} : '/' ∈ (lowercase text).toList ↔ '/' ∈ text.toList := by
  rw [lowercase, String.toList_ofList, List.mem_map]
  constructor
  · rintro ⟨char, member, lowered⟩
    rwa [Scope.eq_of_toLower lowered (by decide)] at member
  · intro member
    exact ⟨'/', member, rfl⟩

/-- **What such a scope is**: the prefix, and the base name in lowercase. The base name is
accepted by its lowercase alone. -/
theorem validate_scope_iff (some : start ≠ "") (plain : '/' ∉ start.toList)
    (lower : lowercase start = start) (named : base ≠ "") (solid : '/' ∉ base.toList)
    {scope : String} : Scope.validate platform (start ++ "/" ++ base) = .ok scope ↔
      scope = start ++ "/" ++ lowercase base ∧
        ∃ segments, Scope.Grammatical (start ++ "/" ++ lowercase base) segments := by
  have form : Scope.normalForm (start ++ "/" ++ base) = start ++ "/" ++ lowercase base := by
    have start_lower : start.toList.map Char.toLower = start.toList := by
      rw [← String.toList_inj, lowercase, String.toList_ofList] at lower
      exact lower
    rw [Scope.normalForm, trimMatches_scope some plain named solid, ← String.toList_inj]
    simp [lowercase, start_lower]
  rw [Scope.validate_iff, form]
  refine ⟨And.right, fun known => ⟨?_, known⟩⟩
  obtain ⟨-, segments, grammar⟩ := known
  -- the letters that are lowercased to the scope take one byte each
  have small : ∀ char ∈ (start ++ "/" ++ base).toList, char.utf8Size = 1 := by
    intro char member
    have lowered : char.toLower ∈ (start ++ "/" ++ lowercase base).toList := by
      rw [← form, Scope.normalForm, trimMatches_scope some plain named solid,
        String.toList_ofList]
      exact List.mem_map_of_mem member
    rw [grammar.written] at lowered
    rcases mem_intercalate lowered with slash | ⟨segment, segmentIn, inside⟩
    · rw [Scope.eq_of_toLower slash (by decide)]
      decide
    · exact Scope.isScopeChar_size_of_toLower ((grammar.each segment segmentIn).chars _ inside)
  have bytes := utf8ByteSize_ofList small
  rw [String.ofList_toList] at bytes
  have short := grammar.short
  have letters : (start ++ "/" ++ lowercase base).toList.length =
      (start ++ "/" ++ base).toList.length := by
    simp [lowercase]
  rw [bytes, ← letters]
  exact short.trans (by decide)

/-- The scopes of a project have one slash. -/
theorem scope_slashes (plain : '/' ∉ start.toList) (solid : '/' ∉ base.toList) :
    (start ++ "/" ++ lowercase base).toList.count '/' = 1 := by
  have none := List.count_eq_zero.mpr plain
  have neither := List.count_eq_zero.mpr fun slash => solid (lowercase_slash.mp slash)
  simp [List.count_append, none, neither]

/-- What comes before the slash, and what comes after it. -/
theorem scope_inj {other name : String} (plain : '/' ∉ start.toList) (clean : '/' ∉ other.toList)
    (same : start ++ "/" ++ base = other ++ "/" ++ name) : start = other ∧ base = name := by
  have letters := congrArg String.toList same
  simp only [String.toList_append, List.append_assoc] at letters
  have first : ∀ text : String, '/' ∉ text.toList → ∀ rest : List Char,
      (text.toList ++ ("/".toList ++ rest)).takeWhile (· ≠ '/') = text.toList := by
    intro text none rest
    rw [List.takeWhile_append_of_pos]
    · simp
    · intro char member
      exact decide_eq_true fun slash => none (slash ▸ member)
  have starts := congrArg (List.takeWhile (· ≠ '/')) letters
  rw [first start plain, first other clean] at starts
  have equal := String.toList_inj.mp starts
  subst equal
  exact ⟨rfl, String.toList_inj.mp (by simpa using letters)⟩

end Validation

section Agreement

/-- The scope that a session derives is that of its prefix and its base name. -/
theorem deriveScope_iff {start dir scope : String} :
    deriveScope platform start dir = some scope ↔ ∃ base, fileName dir = some base ∧
      Scope.validate platform (start ++ "/" ++ base) = .ok scope := by
  unfold deriveScope
  cases fileName dir with
  | none => simp
  | some base =>
    simp only [Option.some.injEq, exists_eq_left']
    cases Scope.validate platform (start ++ "/" ++ base) with
    | error => simp [Except.toOption]
    | ok => simp [Except.toOption]

/-- The filters of a project, one for each prefix where they validate. -/
theorem mem_forProject {opened : String} {filter : ScopeFilter} :
    filter ∈ ScopeSet.forProject platform fs opened includeFiles ↔
      ∃ base, projectBase fs opened = some base ∧ ∃ start ∈ projectPrefixes includeFiles,
        Scope.validate platform (start ++ "/" ++ base) = .ok filter.path ∧
          filter.exact = false := by
  have built {path : String} : (ScopeFilter.descendants platform path).toOption = some filter ↔
      Scope.validate platform path = .ok filter.path ∧ filter.exact = false := by
    cases checked : Scope.validate platform path with
    | error => simp [ScopeFilter.descendants, checked, Except.toOption, bind, Except.bind]
    | ok scope =>
      have made : ScopeFilter.descendants platform path = .ok ⟨scope, false⟩ := by
        rw [ScopeFilter.descendants, checked]
        rfl
      rw [made]
      cases filter
      simp [Except.toOption, eq_comm]
  unfold ScopeSet.forProject
  cases projectBase fs opened with
  | none => simp
  | some base =>
    simp only [List.mem_filterMap, built, Option.some.injEq, exists_eq_left']

/-- The filters of a project are built from validated paths. -/
theorem forProject_built {opened : String} {filter : ScopeFilter}
    (given : filter ∈ ScopeSet.forProject platform fs opened includeFiles) :
    filter.Built platform := by
  obtain ⟨base, -, start, -, validated, descends⟩ := mem_forProject.mp given
  refine ⟨start ++ "/" ++ base, .inl ?_⟩
  rw [ScopeFilter.descendants, validated, ← descends]
  rfl

/-- A scope of one slash lies beneath a path of one slash where it is that path. -/
theorem above_iff_of_slashes {path scope : List Char} (one : path.count '/' = 1)
    (same : scope.count '/' = 1) : Above '/' path scope ↔ scope = path := by
  constructor
  · rintro (equal | ⟨rest, below⟩)
    · exact equal
    · rw [below, List.count_append, List.count_cons_self, one] at same
      omega
  · exact .inl

/-- **Saving and waking up agree**: the filters of a directory admit the scope of a session
exactly where it has one and the two directories have the same base name but for case. -/
theorem session_admitted_iff {start : String} (known : start ∈ projectPrefixes includeFiles)
    (saved opened : String) :
    (ScopeSet.forProject platform fs opened includeFiles).any
        (·.admits (deriveScope platform start saved)) = true ↔
      (deriveScope platform start saved).isSome = true ∧
        (fileName saved).map lowercase = (projectBase fs opened).map lowercase := by
  obtain ⟨some, plain, lower⟩ := projectPrefixes_plain known
  rw [List.any_eq_true]
  constructor
  · rintro ⟨filter, given, admitted⟩
    obtain ⟨base, opens, other, listed, validated, descends⟩ := mem_forProject.mp given
    obtain ⟨otherSome, otherPlain, otherLower⟩ := projectPrefixes_plain listed
    obtain ⟨named, solid⟩ := projectBase_plain opens
    cases derived : deriveScope platform start saved with
    | none =>
      rw [derived] at admitted
      cases admitted
    | some scope =>
      obtain ⟨name, saves, accepted⟩ := deriveScope_iff.mp derived
      obtain ⟨nameSome, nameSolid⟩ := fileName_plain saves
      have path := ((validate_scope_iff otherSome otherPlain otherLower named solid).mp validated).1
      have text := ((validate_scope_iff some plain lower nameSome nameSolid).mp accepted).1
      rw [derived, ScopeFilter.admits_above descends, path, text,
        above_iff_of_slashes (scope_slashes otherPlain solid) (scope_slashes plain nameSolid),
        String.toList_inj] at admitted
      refine ⟨rfl, ?_⟩
      rw [saves, opens]
      exact congrArg Option.some (scope_inj plain otherPlain admitted).2
  · rintro ⟨has, same⟩
    obtain ⟨scope, derived⟩ := Option.isSome_iff_exists.mp has
    obtain ⟨name, saves, accepted⟩ := deriveScope_iff.mp derived
    obtain ⟨nameSome, nameSolid⟩ := fileName_plain saves
    rw [saves] at same
    obtain ⟨base, opens, equal⟩ := Option.map_eq_some_iff.mp same.symm
    obtain ⟨named, solid⟩ := projectBase_plain opens
    have grammar := (validate_scope_iff some plain lower nameSome nameSolid).mp accepted
    rw [← equal] at grammar
    have validated : Scope.validate platform (start ++ "/" ++ base) = .ok scope :=
      (validate_scope_iff some plain lower named solid).mpr grammar
    refine ⟨⟨scope, false⟩, mem_forProject.mpr ⟨base, opens, start, known, validated, rfl⟩, ?_⟩
    rw [derived, ScopeFilter.admits_above rfl]
    exact .inl rfl

/-- A derived scope validates as itself. -/
theorem deriveScope_validates {start dir : String} :
    (deriveScope platform start dir).mapM (Scope.validate platform) =
      .ok (deriveScope platform start dir) := by
  cases derived : deriveScope platform start dir with
  | none => rfl
  | some scope =>
    obtain ⟨base, -, accepted⟩ := deriveScope_iff.mp derived
    rw [Option.mapM_some, Scope.validate_again accepted]
    rfl

/-- A note is gathered where one of the filters admits its scope. -/
theorem mem_unionIds_row {tables : Tables} {scopes : ScopeSet}
    (built : ∀ filter ∈ scopes, filter.Built platform) {row : ItemRow}
    (stored : row ∈ tables.items.rows) (validated : Scope.Validated platform row.scope) :
    row.id ∈ unionIds tables scopes ↔ scopes.any (·.admits row.scope) = true := by
  rw [mem_unionIds, List.any_eq_true]
  refine exists_congr fun filter => and_congr_right fun given => ?_
  have same : filter.sqlClause row.scope = filter.admits row.scope :=
    ScopeFilter.sqlClause_eq_admits (built filter given).normalised fun path held => by
      obtain ⟨raw, returned⟩ := validated path held
      exact Scope.validate_normalised returned
  rw [mem_matchingIds, ← same]
  constructor
  · rintro ⟨other, member, matching, shared⟩
    have equal := List.inj_on_of_nodup_map (itemIds_nodup tables) member stored shared
    exact equal ▸ matching
  · intro matching
    exact ⟨row, stored, matching, rfl⟩

/-- The note of a session in `/work/Dev`. -/
def sessionNote : NewItem :=
  ⟨"note", none, [], none, .object [], none, deriveScope .ascii "codex" "/work/Dev"⟩

end Agreement

end Singularmem.Retrieve
