import Singularmem.Search.Directory

/-!
# The vector index

`VectorIndex` is an open handle: a graph and keymap in memory, the queue of
vectors not yet journalled, and the generation it loaded. The functions of this
module are the source's, over a session: the directory, the handle, the file
steps done so far and the schedule of failing graph calls.

Locks are taken for the whole of a load and the whole of a commit, so each runs
as one computation. Filesystem failures are not modelled; failures of the graph
library are, at each of its calls.
-/

namespace Singularmem.Search

open Library Singularmem.Core

/-- Journal records tolerated before a commit compacts. -/
def compactThreshold : Nat := 256

/-- Maximum records handed to one journal append. -/
def journalAppendChunk : Nat := 1024

/-- On-disk format version written by this build. -/
def formatVersion : String := "2"

/-- The pre-journal format version, upgraded in place on the first commit. -/
def formatVersionV1 : String := "1"

/-- The model a directory is opened with. -/
structure Embedder where
  modelId : String
  dim : Nat

/-- An open handle. -/
structure VectorIndex where
  inner : Graph
  «meta» : VectorIndexMeta
  keymap : Keymap
  journal : JournalHeader
  /-- Vectors added but not yet journalled, in insertion order. -/
  pending : List Entry
  /-- The generation the in-memory graph corresponds to. -/
  loadedGeneration : Nat
  metaUpgradePending : Bool
  /-- Ids removed since the last compaction. -/
  tombstones : List ItemId

/-- The graph and keymap a handle holds in memory. -/
def VectorIndex.pair (handle : VectorIndex) : Pair := ⟨handle.inner, handle.keymap⟩

/-- The vector an item reads through a handle. -/
def VectorIndex.view (handle : VectorIndex) (id : ItemId) : Option (List F32) :=
  handle.pair.view id

/-- A handle that holds another graph and keymap. -/
def VectorIndex.withPair (handle : VectorIndex) (pair : Pair) : VectorIndex :=
  { handle with inner := pair.index, keymap := pair.keymap }

/-- What an operation works on. While a directory is opened, `handle` is the
handle under construction. -/
structure Session where
  faults : List Bool
  dir : Directory
  steps : List FileStep
  handle : VectorIndex

/-- A computation on a session. -/
abbrev Op := Effect Error Session

/-- Do one file step. -/
def fileStep (step : FileStep) : Op PUnit :=
  modify fun session =>
    { session with dir := step.apply session.dir, steps := session.steps ++ [step] }

/-- Change the handle. -/
def updateHandle (update : VectorIndex → VectorIndex) : Op PUnit :=
  modify fun session => { session with handle := update session.handle }

/-- Work on the handle's own graph and keymap. -/
def onIndex : Usearch PUnit → Op PUnit :=
  Effect.zoom (fun session => ⟨session.faults, session.handle.inner, session.handle.keymap⟩)
    fun after session =>
      { session with faults := after.faults, handle := session.handle.withPair after.pair }

/-- Insert entries into a graph and keymap that no handle holds yet. -/
def insertFresh (fresh : Pair) (entries : List Entry) : Op Pair :=
  Effect.zoom (fun session => ⟨session.faults, fresh.index, fresh.keymap⟩)
    (fun after session => { session with faults := after.faults })
    (do insertEntries entries; return (← get).pair)

/-- Replace `.meta.json` through a temporary file. -/
def writeMetaAtomic (written : VectorIndexMeta) : Op PUnit := do
  fileStep (.createTemp .metaJson)
  fileStep (.renameMeta written)

/-- Delete leftover temporary files. -/
def sweepTempFiles : List TempFile → Op PUnit
  | [] => pure ⟨⟩
  | temp :: rest => do
    fileStep (.removeTemp temp)
    sweepTempFiles rest

/-- Read `.meta.json`, or write the one a fresh directory should have. Returns
the metadata this handle will use and the version found on disk. -/
def loadMeta (embedder : Embedder) : Op (VectorIndexMeta × Option String) := do
  match (← get).dir.metaJson with
  | none => do
    let written : VectorIndexMeta := ⟨formatVersion, embedder.modelId, embedder.dim⟩
    writeMetaAtomic written
    pure (written, none)
  | some found =>
    if found.formatVersion ≠ formatVersion ∧ found.formatVersion ≠ formatVersionV1 then
      throw (.indexCorrupted ("unsupported vector index format_version " ++
        found.formatVersion.quote ++ "; this build reads " ++ formatVersionV1.quote ++ " and " ++
        formatVersion.quote))
    else if found.modelId ≠ embedder.modelId then
      throw (.modelMismatch found.modelId embedder.modelId)
    else if found.dim ≠ embedder.dim then
      throw (.dimMismatch found.dim embedder.dim)
    else
      pure ({ found with formatVersion := formatVersion }, some found.formatVersion)

/-- Load `index.usearch` when it is present, or reserve an empty graph. -/
def loadGraph (context : String) : Option Graph → Op Graph
  | some graph => do
    onIndex (usearchCall context)
    pure graph
  | none => do
    onIndex (usearchCall "reserving initial usearch capacity")
    pure ∅

/-- Forget every name, keeping the generation and the next key. -/
def Keymap.clear (keymap : Keymap) : Keymap := { keymap with forward := ∅, reverse := ∅ }

/-- The keymap a load starts from: one that names vectors beside an absent graph
is stale and is reset. -/
def Directory.loadedKeymap (dir : Directory) : Keymap :=
  let keymap := dir.keymap.getD .default
  if dir.usearch.isNone ∧ keymap.forward ≠ ∅ then keymap.clear else keymap

/-- Shared body of add and journal replay. Replayed vectors are already on disk
and are not queued. -/
def addEntries (entries : List Entry) (queue : Bool) : Op PUnit := do
  let dim := (← get).handle.meta.dim
  match entries.find? (fun entry => entry.2.length ≠ dim) with
  | some entry => throw (.dimMismatch dim entry.2.length)
  | none => do
    onIndex (insertEntries entries)
    if queue then
      updateHandle fun handle => { handle with pending := handle.pending ++ entries }
    else pure ⟨⟩

/-- The journal records whose id is neither in the keymap nor removed. -/
def VectorIndex.missing (handle : VectorIndex) (dir : Directory) : List Entry :=
  (Journal.replay handle.journal dir.journal).filter fun record =>
    (handle.keymap.reverse.lookup record.1).isNone ∧ record.1 ∉ handle.tombstones

/-- Add every journal record whose id is not already in the keymap, without
journalling it again. -/
def absorbJournal : Op PUnit := do
  let session ← get
  match session.handle.missing session.dir with
  | [] => pure ⟨⟩
  | missing => addEntries missing false

/-- Load the directory into a fresh handle. -/
def load (embedder : Embedder) : Op PUnit := do
  let (written, diskFormat) ← loadMeta embedder
  onIndex (usearchCall "constructing usearch::Index")
  let inner ← loadGraph "loading existing usearch index" (← get).dir.usearch
  let keymap := (← get).dir.loadedKeymap
  let journal ← Effect.ofExcept (Journal.open (← get).dir.journal written.dim written.modelId)
  updateHandle fun _ =>
    { inner, «meta» := written, keymap, journal, pending := [],
      loadedGeneration := keymap.generation,
      metaUpgradePending := diskFormat.getD formatVersion = formatVersionV1,
      tombstones := [] }
  absorbJournal

/-- The errors a torn compaction produces. -/
def isRetryableLoadError : Error → Bool
  | .usearch _ => true
  | .embedding context _ => context = "deserializing keymap.bin"
  | _ => false

/-- Sweep leftovers, then load. -/
def sweepAndLoad (embedder : Embedder) : Op PUnit := do
  sweepTempFiles (← get).dir.temps
  load embedder

/-- Open a vector index. A retryable failure is retried once. -/
def VectorIndex.open (embedder : Embedder) : Op PUnit :=
  tryCatch (sweepAndLoad embedder) fun error =>
    if isRetryableLoadError error then sweepAndLoad embedder else throw error

/-- Add or replace a batch of vectors. -/
def VectorIndex.addBatch (entries : List Entry) : Op PUnit := addEntries entries true

/-- Add or replace one vector. -/
def VectorIndex.add (id : ItemId) (vector : List F32) : Op PUnit :=
  VectorIndex.addBatch [(id, vector)]

/-- Drop an item's key from the keymap and then its vector from the graph.
Returns whether the item was present. -/
def removeKey (id : ItemId) : Op Bool := do
  match (← get).handle.keymap.reverse.lookup id with
  | some key => do
    updateHandle fun handle => { handle with keymap := handle.keymap.forget id key }
    onIndex (usearchCall "usearch remove")
    updateHandle fun handle => { handle with inner := handle.inner.erase key }
    pure true
  | none => pure false

/-- Remove an item. An absent item is left alone; the removal of a present one
is remembered until the next compaction truncates the journal. -/
def VectorIndex.remove (id : ItemId) : Op PUnit := do
  let present ← removeKey id
  updateHandle fun handle =>
    { handle with
      pending := handle.pending.filter fun entry => entry.1 ≠ id
      tombstones := if present then id :: handle.tombstones else handle.tombstones }

/-- Write the journal's header out, creating the file. -/
def createFile : Op PUnit := do
  let header := (← get).handle.journal
  fileStep .createJournal
  fileStep (.writeJournal header.encoded)

/-- Create the journal when it is absent. -/
def createIfAbsent : Op PUnit := do
  if (← get).dir.journal.isNone then createFile else pure ⟨⟩

/-- Append records to the journal, creating it when it is absent. -/
def journalAppend (records : List Entry) : Op PUnit := do
  let dim := (← get).handle.journal.dim
  match records, records.find? (fun entry => entry.2.length ≠ dim) with
  | [], _ => pure ⟨⟩
  | _, some entry => throw (.dimMismatch dim entry.2.length)
  | records, none => do
    createIfAbsent
    fileStep (.writeJournal (records.flatMap encodeRecord))

/-- Truncate the journal back to its header; an absent journal stays absent. -/
def journalClear : Op PUnit := do
  let headerLen := (← get).handle.journal.headerLen
  if (← get).dir.journal.isSome then fileStep (.setLenJournal headerLen) else pure ⟨⟩

/-- Put drained records back at the front of the queue. -/
def requeue (records : List Entry) : Op PUnit :=
  updateHandle fun handle => { handle with pending := records ++ handle.pending }

/-- Append drained records in bounded chunks; what could not be written goes
back to the queue. `fuel` bounds the number of chunks. -/
def appendChunks : Nat → List Entry → Op PUnit
  | 0, _ => pure ⟨⟩
  | _, [] => pure ⟨⟩
  | fuel + 1, rest => do
    tryCatch (journalAppend (rest.take journalAppendChunk)) fun error => do
      requeue rest
      throw error
    appendChunks fuel (rest.drop journalAppendChunk)

/-- Take the queue. -/
def takePending : Op (List Entry) := do
  let drained := (← get).handle.pending
  updateHandle fun handle => { handle with pending := [] }
  pure drained

/-- When another handle compacted, replace the in-memory graph and keymap with
what is on disk and insert the queue again. -/
def reloadIfStale : Op PUnit := do
  let session ← get
  match session.dir.keymap with
  | none => pure ⟨⟩
  | some diskKeymap =>
    if diskKeymap.generation = session.handle.loadedGeneration then pure ⟨⟩
    else do
      onIndex (usearchCall "constructing usearch::Index for a stale-handle reload")
      let fresh ← loadGraph "reloading usearch index after another handle compacted"
        session.dir.usearch
      let reloaded ← insertFresh ⟨fresh, diskKeymap⟩ session.handle.pending
      updateHandle fun handle =>
        { handle.withPair reloaded with loadedGeneration := diskKeymap.generation }

/-- Rewrite `.meta.json` the first time a directory of the old format commits. -/
def writeMetaUpgrade : Op PUnit := do
  let handle := (← get).handle
  if handle.metaUpgradePending then do
    updateHandle fun handle => { handle with metaUpgradePending := false }
    writeMetaAtomic handle.meta
  else pure ⟨⟩

/-- Rename a graph that holds something into place; for an empty one remove the
old file. -/
def publishGraph (snapshot : Graph) : Op PUnit := do
  if snapshot ≠ ∅ then fileStep (.renameUsearch snapshot)
  else if (← get).dir.usearch.isSome then fileStep .removeUsearch
  else pure ⟨⟩

/-- Stamp the keymap with the next generation and rename it into place. -/
def publishKeymap : Op PUnit := do
  updateHandle fun handle =>
    { handle with keymap := { handle.keymap with generation := handle.loadedGeneration + 1 } }
  fileStep (.createTemp .keymap)
  fileStep (.renameKeymap (← get).handle.keymap)

/-- Publish the graph, then the keymap, then drop the journal. -/
def publishCompaction (snapshot : Graph) : Op PUnit := do
  publishGraph snapshot
  publishKeymap
  journalClear
  updateHandle fun handle =>
    { handle with tombstones := [], loadedGeneration := handle.loadedGeneration + 1 }

/-- Write a snapshot of a graph that holds something to its temporary file. -/
def saveSnapshot (snapshot : Graph) : Op PUnit :=
  if snapshot ≠ ∅ then do
    onIndex (usearchCall "usearch save")
    fileStep (.createTemp .usearch)
  else pure ⟨⟩

/-- Fold everything into `index.usearch` and `keymap.bin` and truncate the
journal. -/
def compactLocked : Op PUnit := do
  reloadIfStale
  absorbJournal
  let snapshot := (← get).handle.inner
  let drained ← takePending
  tryCatch (do saveSnapshot snapshot; publishCompaction snapshot) fun error => do
    requeue drained
    throw error

/-- Body of commit, with the lock held. -/
def commitLocked (endOfBatch : Bool) : Op PUnit := do
  writeMetaUpgrade
  if endOfBatch then compactLocked
  else do
    let drained ← takePending
    appendChunks drained.length drained
    let session ← get
    if compactThreshold < Journal.len session.handle.journal session.dir.journal then compactLocked
    else pure ⟨⟩

/-- Persist everything added since the last commit. -/
def VectorIndex.commit (endOfBatch : Bool) : Op PUnit := commitLocked endOfBatch

/-- Rewrite `index.usearch` and `keymap.bin` unconditionally. -/
def VectorIndex.compact : Op PUnit := commitLocked true

end Singularmem.Search
