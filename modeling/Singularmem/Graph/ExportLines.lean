import Singularmem.Core.Announcements
import Singularmem.Graph.Export
import Singularmem.Graph.StoredFacts

/-!
# The lines of an export

Every line is one value, and says all there is to say about what it was made from: what is left
out is read as absent, identifiers and instants are read from their texts. So each line is
read back as its item, its entity or its fact revision.
-/

namespace Singularmem.Graph

open Library Singularmem.Core

variable {platform : Platform} {decimals : Decimals}

/-- Numbers of the unit interval are written as numerals that are read back. -/
def Decimals.Faithful (decimals : Decimals) : Prop :=
  ∀ confidence : Confidence, confidence.inUnit → Json.Numeral (decimals.write confidence) ∧
    decimals.read (decimals.write confidence) = some confidence

section Members

variable {name key : String} {value : Option Json} {front rest : List (String × Json)}

@[simp] theorem get_nil : (Json.object []).get name = none := rfl

@[simp] theorem get_cons {member : Json} : (Json.object ((key, member) :: rest)).get name =
    if key = name then some member else (Json.object rest).get name := by
  rw [Json.get, Json.get, List.find?_cons]
  by_cases same : key = name <;> simp [same]

@[simp] theorem get_append : (Json.object (front ++ rest)).get name =
    ((Json.object front).get name).or ((Json.object rest).get name) := by
  rw [Json.get, Json.get, Json.get, List.find?_append, Option.map_or]

@[simp] theorem get_unlessNone : (Json.object (unlessNone key value)).get name =
    if key = name then value else none := by
  cases value with
  | none => rw [ite_self]; rfl
  | some value => exact get_cons

/-- A member that is there is read. -/
theorem demanded_found {α : Type} {json member : Json} {parse : Json → Option α} {read : α}
    (found : json.get name = some member) (back : parse member = some read) :
    demanded json name parse = some read := by
  rw [demanded, found, Option.bind_some, back]

/-- A member that may be absent is read where it is there. -/
theorem offered_found {α : Type} {json : Json} {parse : Json → Option α} {render : α → Json}
    {entry : Option α} (found : json.get name = entry.map render)
    (back : ∀ read ∈ entry, render read ≠ .null ∧ parse (render read) = some read) :
    offered json name parse = some entry := by
  rw [offered, found]
  cases entry with
  | none => rfl
  | some read =>
    obtain ⟨filled, parsed⟩ := back read rfl
    rw [Option.map_some]
    split
    case h_1 absent => cases absent
    case h_2 absent => exact absurd (Option.some.inj absent) filled
    case h_3 same =>
      rw [← Option.some.inj same, parsed]
      rfl

/-- A text that is there is read. -/
theorem demanded_text {json : Json} {text : String} (found : json.get name = some (.string text)) :
    demanded json name Json.asStr = some text := demanded_found found rfl

/-- A text that may be absent is read. -/
theorem offered_text {json : Json} {text : Option String}
    (found : json.get name = text.map Json.string) : offered json name Json.asStr = some text :=
  offered_found found fun _ _ => ⟨nofun, rfl⟩

end Members

/-- The text of an identifier is read back. -/
theorem fromString_display (ulid : Ulid) : Ulid.fromString ulid.display = some ulid := by
  have back := ItemId.fromStr_display ⟨ulid⟩
  obtain ⟨read, found, same⟩ := Option.map_eq_some_iff.mp back
  rw [found, ItemId.mk.inj same]

theorem ulidOf_display (ulid : Ulid) : ulidOf (.string ulid.display) = some ulid :=
  fromString_display ulid

/-- The text of an instant is read back. -/
theorem timestampOf_json (keeps : platform.KeepsTimes) {instant : Timestamp}
    (unsigned : instant.Unsigned) :
    timestampOf platform (timestampJson platform instant) = some instant := keeps instant unsigned

/-- An identifier that is there is read. -/
theorem demanded_ulid {json : Json} {name : String} {ulid : Ulid}
    (found : json.get name = some (.string ulid.display)) : demanded json name ulidOf = some ulid :=
  demanded_found found (fromString_display ulid)

/-- An identifier that may be absent is read. -/
theorem offered_ulid {json : Json} {name : String} {ulid : Option Ulid}
    (found : json.get name = ulid.map fun ulid => .string ulid.display) :
    offered json name ulidOf = some ulid :=
  offered_found found fun ulid _ => ⟨nofun, fromString_display ulid⟩

/-- An instant that may be absent is read. -/
theorem offered_timestamp (keeps : platform.KeepsTimes) {json : Json} {name : String}
    {instant : Option Timestamp} (unsigned : ∀ time ∈ instant, time.Unsigned)
    (found : json.get name = instant.map (timestampJson platform)) :
    offered json name (timestampOf platform) = some instant :=
  offered_found found fun time given => ⟨nofun, timestampOf_json keeps (unsigned time given)⟩

/-- A number of the unit interval is read. -/
theorem demanded_confidence (faithful : decimals.Faithful) {json : Json} {name : String}
    {confidence : Confidence} (unit : confidence.inUnit)
    (found : json.get name = some (.number (decimals.write confidence))) :
    demanded json name (confidenceOf decimals) = some confidence :=
  demanded_found found (faithful confidence unit).2

/-- Tags are read back. -/
theorem tagsOfJson_json (tags : List String) :
    tagsOfJson (.array (tags.map Json.string)) = some tags := by
  rw [tagsOfJson, Json.asArray, Option.bind_some]
  induction tags with
  | nil => rfl
  | cons tag tags inductionHypothesis =>
    rw [List.map_cons, List.mapM_cons, inductionHypothesis]
    rfl

/-- Tags that were left out are none. -/
theorem offered_tags {json : Json} {name : String} {tags : List String}
    (found : json.get name = tagsJson tags) :
    ∃ read, offered json name tagsOfJson = some read ∧ read.getD [] = tags := by
  cases tags with
  | nil => exact ⟨none, by rw [offered, found]; rfl, rfl⟩
  | cons tag tags =>
    refine ⟨some (tag :: tags), ?_, rfl⟩
    refine @offered_found _ _ _ _ (fun tags => .array (tags.map Json.string)) _ ?_ ?_
    · rw [found]
      rfl
    · rintro _ ⟨⟩
      exact ⟨nofun, tagsOfJson_json _⟩

theorem metadataJson_getD (metadata : Json) :
    (metadataJson metadata).getD (.object []) = metadata := by
  unfold metadataJson
  split <;> rfl

/-- **The line of an item is read back.** -/
theorem itemOf_exportItem (keeps : platform.KeepsTimes) {item : Item}
    (unsigned : item.createdAt.Unsigned) :
    itemOf platform (exportItem platform item) = some item := by
  set line := exportItem platform item with made
  have known : demanded line "id" ulidOf = some item.id.ulid :=
    demanded_ulid (by simp [made, exportItem])
  have content : demanded line "content" Json.asStr = some item.content :=
    demanded_text (by simp [made, exportItem])
  have createdAt : demanded line "created_at" (timestampOf platform) = some item.createdAt :=
    demanded_found (by simp [made, exportItem]) (timestampOf_json keeps unsigned)
  have supersedes : offered line "supersedes" ulidOf = some (item.supersedes.map ItemId.ulid) :=
    offered_ulid (by simp [made, exportItem, Function.comp_def])
  obtain ⟨tags, tagsRead, tagged⟩ := @offered_tags line "tags" item.tags
    (by simp [made, exportItem])
  have source : offered line "source" Json.asStr = some item.source :=
    offered_text (by simp [made, exportItem])
  have metadata : line.get "metadata" = metadataJson item.metadata := by
    simp [made, exportItem]
  have externalId : offered line "external_id" Json.asStr = some item.externalId :=
    offered_text (by simp [made, exportItem])
  have scope : offered line "scope" Json.asStr = some item.scope :=
    offered_text (by simp [made, exportItem])
  simp only [itemOf, known, content, createdAt, supersedes, tagsRead, source, externalId, scope,
    metadata, tagged, metadataJson_getD, Option.bind_eq_bind, Option.bind_some, Option.map_map,
    show ItemId.mk ∘ ItemId.ulid = id from rfl, Option.map_id]
  rfl

/-- **The line of an entity is read back.** -/
theorem entityOf_exportEntity (keeps : platform.KeepsTimes) {entity : Entity}
    (unsigned : entity.createdAt.Unsigned) :
    entityOf platform (exportEntity platform entity) = some entity := by
  set line := exportEntity platform entity with made
  have known : demanded line "id" ulidOf = some entity.id.ulid :=
    demanded_ulid (by simp [made, exportEntity])
  have name : demanded line "name" Json.asStr = some entity.name :=
    demanded_text (by simp [made, exportEntity])
  have normalisedName : demanded line "normalised_name" Json.asStr = some entity.normalisedName :=
    demanded_text (by simp [made, exportEntity])
  have kind : offered line "kind" Json.asStr = some entity.kind :=
    offered_text (by simp [made, exportEntity])
  have createdAt : demanded line "created_at" (timestampOf platform) = some entity.createdAt :=
    demanded_found (by simp [made, exportEntity])
      (timestampOf_json keeps unsigned)
  simp only [entityOf, known, name, normalisedName, kind, createdAt, Option.bind_eq_bind,
    Option.bind_some]
  rfl

theorem entityRefOf_json (ref : EntityRef) : entityRefOf (entityRefJson ref) = some ref := by
  have known : demanded (entityRefJson ref) "id" ulidOf = some ref.id.ulid :=
    demanded_ulid (by simp [entityRefJson])
  have name : demanded (entityRefJson ref) "name" Json.asStr = some ref.name :=
    demanded_text (by simp [entityRefJson])
  simp only [entityRefOf, known, name, Option.bind_eq_bind, Option.bind_some]
  rfl

theorem factObjectOf_json (object : FactObject) :
    factObjectOf (factObjectJson object) = some object := by
  cases object with
  | entity ref =>
    have found : (factObjectJson (.entity ref)).get "entity" = some (entityRefJson ref) := by
      simp [factObjectJson]
    simp only [factObjectOf, found, entityRefOf_json, Option.map_some]
  | value text =>
    have absent : (factObjectJson (.value text)).get "entity" = none := by
      simp [factObjectJson]
    have found : demanded (factObjectJson (.value text)) "value" Json.asStr = some text :=
      demanded_text (by simp [factObjectJson])
    simp only [factObjectOf, absent, found, Option.map_some]

/-- **The line of a fact revision is read back.** -/
theorem factOf_exportFact (keeps : platform.KeepsTimes) (faithful : decimals.Faithful) {fact : Fact}
    (dated : fact.Dated) (unit : fact.confidence.inUnit) :
    factOf platform decimals (exportFact platform decimals fact) = some fact := by
  set line := exportFact platform decimals fact with made
  have known : demanded line "id" ulidOf = some fact.id.ulid :=
    demanded_ulid (by simp [made, exportFact])
  have subject : demanded line "subject" entityRefOf = some fact.subject :=
    demanded_found (by simp [made, exportFact]) (entityRefOf_json _)
  have predicate : demanded line "predicate" Json.asStr = some fact.predicate :=
    demanded_text (by simp [made, exportFact])
  have object : demanded line "object" factObjectOf = some fact.object :=
    demanded_found (by simp [made, exportFact]) (factObjectOf_json _)
  have validFrom : offered line "valid_from" (timestampOf platform) = some fact.validFrom :=
    offered_timestamp keeps dated.validFrom
      (by simp [made, exportFact])
  have validTo : offered line "valid_to" (timestampOf platform) = some fact.validTo :=
    offered_timestamp keeps dated.validTo
      (by simp [made, exportFact])
  have confidence : demanded line "confidence" (confidenceOf decimals) = some fact.confidence :=
    demanded_confidence faithful unit (by simp [made, exportFact])
  have sourceItemId : offered line "source_item_id" ulidOf =
      some (fact.sourceItemId.map ItemId.ulid) :=
    offered_ulid (by simp [made, exportFact, Function.comp_def])
  have scope : offered line "scope" Json.asStr = some fact.scope :=
    offered_text (by simp [made, exportFact])
  have supersedes : offered line "supersedes" ulidOf = some (fact.supersedes.map FactId.ulid) :=
    offered_ulid (by simp [made, exportFact, Function.comp_def])
  have recordedAt : demanded line "recorded_at" (timestampOf platform) = some fact.recordedAt :=
    demanded_found (by simp [made, exportFact])
      (timestampOf_json keeps dated.recordedAt)
  simp only [factOf, known, subject, predicate, object, validFrom, validTo, confidence,
    sourceItemId, scope, supersedes, recordedAt, Option.bind_eq_bind, Option.bind_some, Option.map_map,
    show ItemId.mk ∘ ItemId.ulid = id from rfl, show FactId.mk ∘ FactId.ulid = id from rfl,
    Option.map_id]
  rfl

section Numerals

variable {name : String} {members front rest : List (String × Json)}

theorem numericMembers_append : Json.NumericMembers (front ++ rest) ↔
    Json.NumericMembers front ∧ Json.NumericMembers rest := by
  induction front with
  | nil => simp [Json.NumericMembers]
  | cons member front inductionHypothesis =>
    rw [List.cons_append, Json.NumericMembers, Json.NumericMembers, inductionHypothesis, and_assoc]

theorem numericMembers_unlessNone {value : Option Json} (numeric : ∀ json ∈ value, json.Numeric) :
    Json.NumericMembers (unlessNone name value) := by
  cases value with
  | none => trivial
  | some json => exact ⟨numeric json rfl, trivial⟩

/-- Rendered members hold no number, where the rendering is a text. -/
theorem numericMembers_texts {α : Type} {entry : Option α} {render : α → Json}
    (text : ∀ read, ∃ value, render read = .string value) :
    Json.NumericMembers (unlessNone name (entry.map render)) := by
  refine numericMembers_unlessNone ?_
  intro json given
  obtain ⟨read, -, rfl⟩ := Option.map_eq_some_iff.mp given
  obtain ⟨value, same⟩ := text read
  rw [same]
  trivial

theorem numericElements_strings (texts : List String) :
    Json.NumericElements (texts.map Json.string) := by
  induction texts with
  | nil => trivial
  | cons text texts inductionHypothesis => exact ⟨trivial, inductionHypothesis⟩

theorem exportMeta_numeric (now : Timestamp) : (exportMeta platform now).Numeric :=
  ⟨trivial, trivial, trivial, trivial, trivial⟩

/-- The line of an item has no other numbers than its metadata. -/
theorem exportItem_numeric {item : Item} (numeric : item.metadata.Numeric) :
    (exportItem platform item).Numeric := by
  simp only [exportItem, Json.Numeric, numericMembers_append]
  refine ⟨⟨⟨⟨⟨⟨⟨trivial, trivial, trivial, trivial, trivial⟩, ?_⟩, ?_⟩, ?_⟩, ?_⟩, ?_⟩, ?_⟩
  · exact numericMembers_texts fun _ => ⟨_, rfl⟩
  · refine numericMembers_unlessNone ?_
    unfold tagsJson
    split <;> rintro _ ⟨⟩
    exact numericElements_strings item.tags
  · exact numericMembers_texts fun _ => ⟨_, rfl⟩
  · refine numericMembers_unlessNone ?_
    unfold metadataJson
    split <;> rintro _ ⟨⟩
    exact numeric
  · exact numericMembers_texts fun _ => ⟨_, rfl⟩
  · exact numericMembers_texts fun _ => ⟨_, rfl⟩

theorem exportEntity_numeric (entity : Entity) : (exportEntity platform entity).Numeric := by
  simp only [exportEntity, Json.Numeric, numericMembers_append]
  exact ⟨⟨⟨trivial, trivial, trivial, trivial, trivial⟩, numericMembers_texts fun _ => ⟨_, rfl⟩⟩,
    trivial, trivial⟩

/-- The one number of a fact's line is its confidence. -/
theorem exportFact_numeric (faithful : decimals.Faithful) {fact : Fact}
    (unit : fact.confidence.inUnit) : (exportFact platform decimals fact).Numeric := by
  simp only [exportFact, Json.Numeric, numericMembers_append]
  have object : (factObjectJson fact.object).Numeric := by
    cases fact.object with
    | entity ref => exact ⟨⟨trivial, trivial, trivial⟩, trivial⟩
    | value text => exact ⟨trivial, trivial⟩
  refine ⟨⟨⟨⟨⟨⟨⟨⟨trivial, trivial, ⟨trivial, trivial, trivial⟩, trivial, object, trivial⟩, ?_⟩, ?_⟩,
    (faithful _ unit).1, trivial⟩, ?_⟩, ?_⟩, ?_⟩, trivial, trivial⟩
  all_goals exact numericMembers_texts fun _ => ⟨_, rfl⟩

end Numerals

section Records

variable (knows : String → Bool)

/-- The record of a line, where the loader knows its kind. -/
def known (kind : String) (record : Record) : Record := if knows kind then record else .unknown

variable {knows}

theorem recordOf_meta (now : Timestamp) :
    recordOf platform decimals knows (exportMeta platform now) = some .unknown := by
  have kind : demanded (exportMeta platform now) "_kind" Json.asStr = some "meta" :=
    demanded_text (by simp [exportMeta])
  simp [recordOf, kind]

theorem recordOf_item (keeps : platform.KeepsTimes) {item : Item}
    (unsigned : item.createdAt.Unsigned) :
    recordOf platform decimals knows (exportItem platform item) =
      some (known knows "item" (.item item)) := by
  have kind : demanded (exportItem platform item) "_kind" Json.asStr = some "item" :=
    demanded_text (by simp [exportItem])
  simp only [recordOf, kind, itemOf_exportItem keeps unsigned, known, Option.bind_eq_bind,
    Option.bind_some]
  cases knows "item" <;> rfl

theorem recordOf_entity (keeps : platform.KeepsTimes) {entity : Entity}
    (unsigned : entity.createdAt.Unsigned) :
    recordOf platform decimals knows (exportEntity platform entity) =
      some (known knows "entity" (.entity entity)) := by
  have kind : demanded (exportEntity platform entity) "_kind" Json.asStr = some "entity" :=
    demanded_text (by simp [exportEntity])
  simp only [recordOf, kind, entityOf_exportEntity keeps unsigned, known, Option.bind_eq_bind,
    Option.bind_some]
  cases knows "entity" <;> rfl

theorem recordOf_fact (keeps : platform.KeepsTimes) (faithful : decimals.Faithful) {fact : Fact}
    (dated : fact.Dated) (unit : fact.confidence.inUnit) :
    recordOf platform decimals knows (exportFact platform decimals fact) =
      some (known knows "fact" (.fact fact)) := by
  have kind : demanded (exportFact platform decimals fact) "_kind" Json.asStr = some "fact" :=
    demanded_text (by simp [exportFact])
  simp only [recordOf, kind, factOf_exportFact keeps faithful dated unit, known,
    Option.bind_eq_bind, Option.bind_some]
  cases knows "fact" <;> rfl

/-- What a loader keeps of the lines of one kind. -/
theorem filterMap_known {α β : Type} {kind : String} {wrap : α → Record} {part : Record → Option β}
    (nothing : part .unknown = none) (entries : List α) :
    (entries.map fun entry => known knows kind (wrap entry)).filterMap part =
      if knows kind then entries.filterMap fun entry => part (wrap entry) else [] := by
  rw [List.filterMap_map]
  cases asked : knows kind with
  | true => simp only [Function.comp_def, known, asked, if_true]
  | false =>
    refine List.filterMap_eq_nil_iff.mpr fun entry _ => ?_
    simpa only [Function.comp_apply, known, asked, Bool.false_eq_true, if_false] using nothing

/-- A loader keeps every line of the kinds it knows. -/
theorem filterMap_records (items : List Item) (entities : List Entity) (facts : List Fact) :
    let records := Record.unknown :: (items.map (fun item => known knows "item" (.item item)) ++
      (entities.map (fun entity => known knows "entity" (.entity entity)) ++
        facts.map fun fact => known knows "fact" (.fact fact)))
    (⟨records.filterMap Record.asItem, records.filterMap Record.asEntity,
        records.filterMap Record.asFact⟩ : Archive) =
      ⟨if knows "item" then items else [], if knows "entity" then entities else [],
        if knows "fact" then facts else []⟩ := by
  intro records
  have split {β : Type} (part : Record → Option β) (nothing : part .unknown = none) :
      records.filterMap part =
        (if knows "item" then items.filterMap fun item => part (.item item) else []) ++
        ((if knows "entity" then entities.filterMap fun entity => part (.entity entity) else []) ++
          if knows "fact" then facts.filterMap fun fact => part (.fact fact) else []) := by
    rw [List.filterMap_cons_none nothing, List.filterMap_append, List.filterMap_append,
      filterMap_known nothing, filterMap_known nothing, filterMap_known nothing]
  rw [split Record.asItem rfl, split Record.asEntity rfl, split Record.asFact rfl]
  simp [Record.asItem, Record.asEntity, Record.asFact]

end Records

section Text

/-- A written value is one line. -/
theorem exportedLines_write {values : List Json} (numeric : ∀ value ∈ values, value.Numeric) :
    exportedLines (values.flatMap fun value => value.write ++ ['\n']) =
      values.map Json.write := by
  induction values with
  | nil => rfl
  | cons value values inductionHypothesis =>
    have printed := Json.write_printed value (numeric value List.mem_cons_self)
    have plain : ∀ char ∈ value.write, (char == '\n') = false := by
      intro char member
      refine beq_false_of_ne ?_
      rintro rfl
      exact absurd (printed _ member) (by decide)
    have filled : value.write ≠ [] := by
      intro empty
      have positive := Json.write_length value (numeric value List.mem_cons_self)
      rw [empty] at positive
      exact absurd positive (by decide)
    have rest := inductionHypothesis fun other member =>
      numeric other (List.mem_cons_of_mem value member)
    rw [exportedLines] at rest ⊢
    rw [List.flatMap_cons, List.append_assoc, List.singleton_append, List.splitOn,
      List.splitOnP_append_cons_of_forall_mem plain _ (by decide),
      List.filter_cons_of_pos (by simpa using filled), List.map_cons]
    exact congrArg _ rest

/-- Lines that can all be read are all written. -/
theorem writeLines_ok (values : List Json) : writeLines (values.map Except.ok) =
    (values.flatMap fun value => value.write ++ ['\n'], .ok ()) := by
  induction values with
  | nil => rfl
  | cons value values inductionHypothesis =>
    rw [List.map_cons, writeLines, inductionHypothesis, List.flatMap_cons, List.append_assoc]
    rfl

/-- **Written lines are loaded** as what they say. -/
theorem load_lines {knows : String → Bool} {values : List Json} {records : List Record}
    (each : List.Forall₂ (fun value record => value.Numeric ∧
      recordOf platform decimals knows value = some record) values records) :
    load platform decimals knows
        (String.ofList (values.flatMap fun value => value.write ++ ['\n'])) =
      some ⟨records.filterMap Record.asItem, records.filterMap Record.asEntity,
        records.filterMap Record.asFact⟩ := by
  have numeric : ∀ value ∈ values, value.Numeric := by
    induction each with
    | nil => exact nofun
    | cons holds _ inductionHypothesis =>
      exact List.forall_mem_cons.mpr ⟨holds.1, inductionHypothesis⟩
  have parsed : (values.map Json.write).mapM Json.ofText = some values := by
    clear each
    induction values with
    | nil => rfl
    | cons value values inductionHypothesis =>
      have rest := inductionHypothesis fun other member =>
        numeric other (List.mem_cons_of_mem value member)
      rw [List.map_cons, List.mapM_cons, Json.ofText_write (numeric value List.mem_cons_self), rest]
      rfl
  have understood : values.mapM (recordOf platform decimals knows) = some records := by
    clear parsed numeric
    induction each with
    | nil => rfl
    | cons holds _ inductionHypothesis =>
      rw [List.mapM_cons, holds.2, inductionHypothesis]
      rfl
  rw [load, String.toList_ofList, exportedLines_write numeric]
  simp only [parsed, understood, Option.bind_eq_bind, Option.bind_some]
  rfl

end Text

end Singularmem.Graph
