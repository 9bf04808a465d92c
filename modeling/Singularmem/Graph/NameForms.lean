import Singularmem.Graph.StoredEntities
import Singularmem.Graph.Summaries
import Singularmem.Library.Paths
import Singularmem.Library.Splitting

/-!
# Normalised names

A normalised name is looked up by normalising it again. That gives the same name exactly where
every word of the lower-cased text, without its apostrophes, is still composed: dropping an
apostrophe can bring a letter and a combining mark together, and so can lower-casing.
-/

namespace Singularmem.Graph

open Library Singularmem.Core
open Effect hiding ofExcept

variable {platform : Platform} {env : Env}

variable (platform) in
/-- Lower-casing leaves a character alone. -/
def LowerFixed (char : Char) : Prop :=
  platform.toLowercase (String.singleton char) = String.singleton char

/-- What the Unicode standard says of composed and of lower-cased texts. -/
structure UnicodeNames (platform : Platform) : Prop where
  /-- Nothing is composed across an underscore. -/
  apart : ∀ front rest, platform.nfc (front ++ "_" ++ rest) =
    platform.nfc front ++ "_" ++ platform.nfc rest
  /-- Composing brings in no underscore and no apostrophe. -/
  unmarked : ∀ mark, mark = '_' ∨ mark = '\'' → ∀ text, mark ∉ text.toList →
    mark ∉ (platform.nfc text).toList
  /-- Composing brings in no whitespace. -/
  solid : ∀ text, (∀ char ∈ text.toList, isWhitespace char = false) →
    ∀ char ∈ (platform.nfc text).toList, isWhitespace char = false
  /-- Composing brings in no capitals. -/
  composedLower : ∀ text, (∀ char ∈ text.toList, LowerFixed platform char) →
    ∀ char ∈ (platform.nfc text).toList, LowerFixed platform char
  /-- A lower-cased text has no capitals. -/
  lowercase : ∀ text, ∀ char ∈ (platform.toLowercase text).toList, LowerFixed platform char
  /-- A text without capitals is in lowercase. -/
  fixed : ∀ text, (∀ char ∈ text.toList, LowerFixed platform char) →
    platform.toLowercase text = text
  underscore : LowerFixed platform '_'

namespace Normalise

variable (platform) in
/-- The trimmed text in lowercase, without its apostrophes. -/
def lowered (raw : String) : String :=
  String.ofList ((platform.toLowercase (trim (platform.nfc raw))).toList.filter (· ≠ '\''))

variable (platform) in
/-- Every word of the lower-cased text, without its apostrophes, is composed. -/
def StaysComposed (raw : String) : Prop :=
  ∀ word ∈ splitWhitespace (lowered platform raw), platform.nfc word = word

/-- A character that normalisation of a composed text keeps. -/
structure NameChar (platform : Platform) (char : Char) : Prop where
  solid : isWhitespace char = false
  quoteless : char ≠ '\''
  lower : LowerFixed platform char

/-- The base of a text is its words, joined. -/
theorem base_eq (platform : Platform) (raw : String) :
    base platform raw = "_".intercalate (splitWhitespace (lowered platform raw)) := rfl

/-- A word is not empty and has characters of the text, but no whitespace. -/
theorem splitWhitespace_word {text word : String} (member : word ∈ splitWhitespace text) :
    word.toList ≠ [] ∧ ∀ char ∈ word.toList, char ∈ text.toList ∧ isWhitespace char = false := by
  obtain ⟨part, kept, rfl⟩ := List.mem_map.mp member
  obtain ⟨inside, some⟩ := List.mem_filter.mp kept
  rw [String.toList_ofList]
  constructor
  · simpa using some
  · intro char charIn
    exact ⟨mem_of_mem_splitOnP inside char charIn, splitOnP_plain inside char charIn⟩

/-- The characters of a base. -/
theorem base_chars (unicode : UnicodeNames platform) (raw : String) :
    ∀ char ∈ (base platform raw).toList, NameChar platform char := by
  intro char member
  rw [base_eq, String.toList_intercalate] at member
  rcases mem_intercalate member with rfl | ⟨chars, charsIn, inside⟩
  · exact ⟨by decide, by decide, unicode.underscore⟩
  · obtain ⟨word, wordIn, rfl⟩ := List.mem_map.mp charsIn
    obtain ⟨source, solid⟩ := (splitWhitespace_word wordIn).2 char inside
    rw [lowered, String.toList_ofList] at source
    obtain ⟨lowercased, quoteless⟩ := List.mem_filter.mp source
    exact ⟨solid, of_decide_eq_true quoteless, unicode.lowercase _ char lowercased⟩

/-- A text of such characters is only composed by normalisation. -/
theorem base_of_chars (unicode : UnicodeNames platform) {name : String}
    (chars : ∀ char ∈ name.toList, NameChar platform char) :
    base platform name = platform.nfc name := by
  have solid : ∀ char ∈ (platform.nfc name).toList, isWhitespace char = false :=
    unicode.solid name fun char member => (chars char member).solid
  have quoteless : '\'' ∉ (platform.nfc name).toList :=
    unicode.unmarked '\'' (.inr rfl) name fun member => (chars '\'' member).quoteless rfl
  have lower := unicode.composedLower name fun char member => (chars char member).lower
  have trimmed : trim (platform.nfc name) = platform.nfc name :=
    trimMatches_of_none fun char member => by
      rw [solid char member]
      exact Bool.false_ne_true
  have kept : (platform.nfc name).toList.filter (· ≠ '\'') = (platform.nfc name).toList := by
    apply List.filter_eq_self.mpr
    intro char member
    apply decide_eq_true
    rintro rfl
    exact quoteless member
  have same : lowered platform name = platform.nfc name := by
    rw [lowered, trimmed, unicode.fixed _ lower, kept, String.ofList_toList]
  rw [base_eq, same, splitWhitespace, List.splitOnP_eq_singleton solid]
  by_cases empty : platform.nfc name = ""
  · rw [empty]
    rfl
  · have some : (platform.nfc name).toList ≠ [] := fun none => empty (String.toList_inj.mp none)
    simp [some, String.ofList_toList]

/-- Joined words are composed exactly where each word is. -/
theorem joined_composed_iff (unicode : UnicodeNames platform) {words : List String}
    (some : words ≠ []) : platform.nfc ("_".intercalate words) = "_".intercalate words ↔
      ∀ word ∈ words, platform.nfc word = word := by
  have plain : ∀ chars : List Char, '_' ∉ chars →
      '_' ∉ (platform.nfc (String.ofList chars)).toList := by
    intro chars absent
    apply unicode.unmarked '_' (.inl rfl)
    rwa [String.toList_ofList]
  have apart : ∀ front rest : List Char,
      (platform.nfc (String.ofList (front ++ '_' :: rest))).toList =
        (platform.nfc (String.ofList front)).toList ++
          '_' :: (platform.nfc (String.ofList rest)).toList := by
    intro front rest
    have split : String.ofList (front ++ '_' :: rest) =
        String.ofList front ++ "_" ++ String.ofList rest := by
      rw [← String.toList_inj]
      simp
    rw [split, unicode.apart]
    simp
  have joined := fixed_joined_iff plain apart (List.map_eq_nil_iff.not.mpr some :
    words.map String.toList ≠ [])
  have chars : ("_".intercalate words).toList = ['_'].intercalate (words.map String.toList) :=
    String.toList_intercalate
  rw [← chars, String.ofList_toList, String.toList_inj] at joined
  rw [joined]
  constructor
  · intro each word member
    have fixed := each word.toList (List.mem_map_of_mem member)
    rw [String.ofList_toList] at fixed
    exact String.toList_inj.mp fixed
  · intro each chars member
    obtain ⟨word, wordIn, rfl⟩ := List.mem_map.mp member
    rw [String.ofList_toList, each word wordIn]

/-- When a name is normalised to another. -/
theorem entityName_iff {raw name : String} :
    entityName platform raw = .ok name ↔
      base platform raw = name ∧ name ≠ "" ∧ name.utf8ByteSize ≤ maxEntityBytes := by
  unfold entityName
  generalize base platform raw = text
  dsimp only
  constructor
  · intro returned
    split at returned
    case isTrue => cases returned
    case isFalse filled =>
      split at returned
      case isTrue => cases returned
      case isFalse short =>
        cases returned
        exact ⟨rfl, filled, Nat.not_lt.mp short⟩
  · rintro ⟨rfl, filled, short⟩
    rw [if_neg filled, if_neg (Nat.not_lt.mpr short)]

/-- **A normalised name is normal** exactly where its words stay composed. -/
theorem entityName_again_iff (unicode : UnicodeNames platform) {raw name : String}
    (returned : entityName platform raw = .ok name) :
    entityName platform name = .ok name ↔ StaysComposed platform raw := by
  obtain ⟨rfl, filled, short⟩ := entityName_iff.mp returned
  have some : splitWhitespace (lowered platform raw) ≠ [] := by
    intro none
    apply filled
    rw [base_eq, none]
    rfl
  calc entityName platform (base platform raw) = .ok (base platform raw)
      _ ↔ base platform (base platform raw) = base platform raw := by
        rw [entityName_iff]
        exact ⟨fun again => again.1, fun again => ⟨again, filled, short⟩⟩
      _ ↔ platform.nfc (base platform raw) = base platform raw := by
        rw [base_of_chars unicode (base_chars unicode raw)]
      _ ↔ StaysComposed platform raw := joined_composed_iff unicode some

end Normalise

variable (platform) in
/-- Look an entity up by its name. -/
def getEntity (tables : Tables) (name : String) : Except Error (Option Entity) := do
  let normalised ← Normalise.entityName platform name
  (entityByName tables normalised).mapM (intoEntity platform)

/-- **A name leads back**: normalising it gives the same name; looking it up finds the entity
that has it; and resolving it gives that entity and creates none. -/
structure LeadsBack (platform : Platform) (name : String) : Prop where
  again : Normalise.entityName platform name = .ok name
  found : ∀ tables : Tables, ∀ row ∈ tables.entities.rows, row.normalisedName = name →
    getEntity platform tables name = some <$> intoEntity platform row
  single : ∀ (env : Env) (pending after : Pending) kind ref,
    ∀ row ∈ pending.tables.entities.rows, row.normalisedName = name →
      exec (getOrCreateEntity platform env name kind) pending = (.ok ref, after) →
        ref = ⟨row.id, row.name⟩ ∧ after.tables.entities.rows.map EntityRow.id =
          pending.tables.entities.rows.map EntityRow.id

/-- Filling in a kind keeps the ids. -/
theorem fillKind_ids (tables : Tables) (row : EntityRow) (kind : Option String) :
    (fillKind tables row kind).entities.rows.map EntityRow.id =
      tables.entities.rows.map EntityRow.id := by
  unfold fillKind
  split
  · change (tables.entities.rows.map _).map EntityRow.id = _
    rw [List.map_map]
    apply List.map_congr_left
    intro other _
    rw [Function.comp_apply]
    split <;> rfl
  · rfl

/-- A name that is normal leads back. -/
theorem leadsBack_of_again {name : String}
    (again : Normalise.entityName platform name = .ok name) : LeadsBack platform name where
  again := again
  found := by
    rintro tables row stored rfl
    rw [getEntity, again]
    change (entityByName tables row.normalisedName).mapM (intoEntity platform) = _
    rw [entityByName_stored stored]
    rfl
  single := by
    rintro env pending after kind ref row stored rfl returned
    obtain ⟨normalised, named, rest⟩ := ofExcept_bind_returned returned
    obtain rfl : row.normalisedName = normalised := Except.ok.inj (again.symm.trans named)
    rw [exec_bind_ok (exec_get pending), entityByName_stored stored] at rest
    obtain ⟨_, rest⟩ := throwIf_bind_returned rest
    cases rest
    exact ⟨rfl, fillKind_ids pending.tables row kind⟩

/-- Every call stores entities under normalised names. -/
theorem keptEntity_named (platform : Platform) (env : Env) : KeptEntity platform env
    fun row => ∃ raw, Normalise.entityName platform raw = .ok row.normalisedName where
  created _ name _ _ named _ := ⟨name, named⟩
  filled _ _ named := named

/-- The letter `é`. -/
def acuteLetter : Char := Char.ofNat 0xE9

/-- The mark that is composed with `e` to it. -/
def acuteMark : Char := Char.ofNat 0x301

/-- Compose each `e` with the mark that follows it. -/
def composeAcute : List Char → List Char
  | first :: second :: rest =>
    if first = 'e' ∧ second = acuteMark then acuteLetter :: composeAcute rest
    else first :: composeAcute (second :: rest)
  | chars => chars

/-- Composing brings in that letter only. -/
theorem mem_composeAcute {chars : List Char} {char : Char} (member : char ∈ composeAcute chars) :
    char = acuteLetter ∨ char ∈ chars := by
  fun_induction composeAcute chars with
  | case1 first second rest same inductionHypothesis =>
    rcases List.mem_cons.mp member with here | later
    · exact .inl here
    · exact (inductionHypothesis later).imp_right fun inside =>
        List.mem_cons_of_mem first (List.mem_cons_of_mem second inside)
  | case2 first second rest other inductionHypothesis =>
    rcases List.mem_cons.mp member with rfl | later
    · exact .inr List.mem_cons_self
    · exact (inductionHypothesis later).imp_right (List.mem_cons_of_mem first)
  | case3 chars => exact .inr member

/-- Nothing is composed across an underscore. -/
theorem composeAcute_apart (front rest : List Char) :
    composeAcute (front ++ '_' :: rest) = composeAcute front ++ '_' :: composeAcute rest := by
  have mark : '_' ≠ acuteMark := by decide
  have start : composeAcute ('_' :: rest) = '_' :: composeAcute rest := by
    cases rest with
    | nil => rfl
    | cons next others =>
      have other : ¬ ('_' = 'e' ∧ next = acuteMark) := fun same => absurd same.1 (by decide)
      rw [composeAcute, if_neg other]
  fun_induction composeAcute front with
  | case1 first second others same inductionHypothesis =>
    rw [List.cons_append, List.cons_append, composeAcute, if_pos same, inductionHypothesis,
      List.cons_append]
  | case2 first second others other inductionHypothesis =>
    rw [List.cons_append, List.cons_append, composeAcute, if_neg other, ← List.cons_append,
      inductionHypothesis, List.cons_append]
  | case3 chars few =>
    cases chars with
    | nil => exact start
    | cons first others =>
      cases others with
      | nil => rw [List.singleton_append, composeAcute, if_neg fun same => mark same.2, start]; rfl
      | cons second more => exact absurd rfl (few first second more)

/-- Libraries that know one composed letter. -/
def acutePlatform : Platform :=
  { Platform.ascii with nfc := fun text => String.ofList (composeAcute text.toList) }

/-- A lowercase letter is its own. -/
theorem toLower_again (char : Char) : char.toLower.toLower = char.toLower := by
  refine dif_neg ?_
  rintro ⟨low, high⟩
  unfold Char.toLower at low high
  split at low
  case isTrue upper =>
    have first := upper.1
    have last := upper.2
    rw [dif_pos upper] at high
    simp only [ge_iff_le, UInt32.le_iff_toNat_le, UInt32.toNat_add] at low high first last
    simp at low high first last
    omega
  case isFalse other =>
    rw [dif_neg other] at high
    exact other ⟨low, high⟩

/-- A character is left alone where it is its own lowercase. -/
theorem acutePlatform_lowerFixed {char : Char} :
    LowerFixed acutePlatform char ↔ char.toLower = char := by
  change String.ofList ((String.singleton char).toList.map Char.toLower) = _ ↔ _
  rw [← String.toList_inj]
  simp

/-- They compose and lower-case as the standard says. -/
theorem acutePlatform_unicodeNames : UnicodeNames acutePlatform where
  apart front rest := by
    change String.ofList (composeAcute (front ++ "_" ++ rest).toList) =
      String.ofList (composeAcute front.toList) ++ "_" ++ String.ofList (composeAcute rest.toList)
    have split : (front ++ "_" ++ rest).toList = front.toList ++ '_' :: rest.toList := by simp
    rw [split, composeAcute_apart, ← String.toList_inj]
    simp
  unmarked mark kind text absent member := by
    change mark ∈ (String.ofList (composeAcute text.toList)).toList at member
    rw [String.toList_ofList] at member
    rcases mem_composeAcute member with rfl | inside
    · exact absurd kind (by decide)
    · exact absent inside
  solid text solid char member := by
    change char ∈ (String.ofList (composeAcute text.toList)).toList at member
    rw [String.toList_ofList] at member
    rcases mem_composeAcute member with rfl | inside
    · decide
    · exact solid char inside
  composedLower text lower char member := by
    change char ∈ (String.ofList (composeAcute text.toList)).toList at member
    rw [String.toList_ofList] at member
    rcases mem_composeAcute member with rfl | inside
    · exact acutePlatform_lowerFixed.mpr (by decide)
    · exact lower char inside
  lowercase text char member := by
    change char ∈ (String.ofList (text.toList.map Char.toLower)).toList at member
    rw [String.toList_ofList] at member
    obtain ⟨source, _, rfl⟩ := List.mem_map.mp member
    exact acutePlatform_lowerFixed.mpr (toLower_again source)
  fixed text lower := by
    change String.ofList (text.toList.map Char.toLower) = text
    have same : text.toList.map Char.toLower = text.toList :=
      (List.map_congr_left fun char member => acutePlatform_lowerFixed.mp (lower char member)).trans
        (List.map_id _)
    rw [same, String.ofList_toList]
  underscore := acutePlatform_lowerFixed.mpr (by decide)

/-- A fact about a letter and a mark with an apostrophe between, and one about the name that the
store reports. -/
def apostropheCalls : List (Env × GraphCall) :=
  [(⟨instantAfter 0, fun draw => draw⟩,
      .add ⟨"e'\u0301", none, "uses", .value "a", none, none, .one, none, none⟩),
    (⟨instantAfter 1, fun draw => 10 + draw⟩,
      .add ⟨"e\u0301", none, "uses", .value "a", none, none, .one, none, none⟩)]

end Singularmem.Graph
