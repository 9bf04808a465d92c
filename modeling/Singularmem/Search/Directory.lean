import Singularmem.Search.Keymap

/-!
# The vector directory and its file steps

A vector directory holds `.meta.json`, `index.usearch`, `keymap.bin` and
`journal.bin`. Its first three files are only ever replaced as a whole, by a
rename over the old one, so they are present with their decoded contents or
absent; the journal is written in place and is kept as bytes.

Every change of the directory is a file step. A crash leaves the steps of an
operation that were done, and possibly a part of the bytes of the next one.
-/

namespace Singularmem.Search

open Library Singularmem.Core

/-- The part of `.meta.json` that a load checks. -/
structure VectorIndexMeta where
  formatVersion : String
  modelId : String
  dim : Nat
deriving DecidableEq

/-- Temporary files, by what they become when renamed. -/
inductive TempFile
  | metaJson
  | usearch
  | keymap
deriving DecidableEq

/-- The files of a vector directory. -/
structure Directory where
  metaJson : Option VectorIndexMeta
  usearch : Option Graph
  keymap : Option Keymap
  journal : Option (List UInt8)
  temps : List TempFile

/-- A directory nothing was written to. -/
def Directory.fresh : Directory := ⟨none, none, none, none, []⟩

/-- One atomic change of the directory. -/
inductive FileStep
  | createTemp (temp : TempFile)
  | removeTemp (temp : TempFile)
  | renameMeta (written : VectorIndexMeta)
  | renameUsearch (saved : Graph)
  | removeUsearch
  | renameKeymap (written : Keymap)
  | createJournal
  | writeJournal (bytes : List UInt8)
  | setLenJournal (length : Nat)

namespace FileStep

/-- Cut a file to a length, or extend it with zero bytes. -/
def setLen (length : Nat) (bytes : List UInt8) : List UInt8 :=
  bytes.take length ++ List.replicate (length - bytes.length) 0

/-- The directory after a step. -/
def apply (dir : Directory) : FileStep → Directory
  | createTemp temp => { dir with temps := dir.temps ++ [temp] }
  | removeTemp temp => { dir with temps := dir.temps.filter (· ≠ temp) }
  | renameMeta written =>
    { dir with metaJson := some written, temps := dir.temps.filter (· ≠ .metaJson) }
  | renameUsearch saved =>
    { dir with usearch := some saved, temps := dir.temps.filter (· ≠ .usearch) }
  | removeUsearch => { dir with usearch := none }
  | renameKeymap written =>
    { dir with keymap := some written, temps := dir.temps.filter (· ≠ .keymap) }
  | createJournal => { dir with journal := some [] }
  | writeJournal bytes => { dir with journal := dir.journal.map (· ++ bytes) }
  | setLenJournal length => { dir with journal := dir.journal.map (setLen length) }

/-- The part of a step that a crash in its middle leaves: only a write of bytes
can be cut. -/
def cut (length : Nat) : FileStep → Option FileStep
  | writeJournal bytes => some (.writeJournal (bytes.take length))
  | _ => none

/-- The steps a compaction takes. -/
def ofCompaction : FileStep → Bool
  | createTemp .usearch | createTemp .keymap => true
  | renameUsearch _ | removeUsearch | renameKeymap _ | setLenJournal _ => true
  | _ => false

end FileStep

/-- The directory after several steps. -/
def Directory.after (dir : Directory) (steps : List FileStep) : Directory :=
  steps.foldl FileStep.apply dir

@[simp] theorem Directory.after_nil (dir : Directory) : dir.after [] = dir := rfl

@[simp] theorem Directory.after_append (dir : Directory) (first second : List FileStep) :
    dir.after (first ++ second) = (dir.after first).after second :=
  List.foldl_append

@[simp] theorem Directory.after_cons (dir : Directory) (step : FileStep) (rest : List FileStep) :
    dir.after (step :: rest) = (step.apply dir).after rest := rfl

/-- What every one of these steps keeps, all of them keep. -/
theorem Directory.after_keeps {holds : Directory → Prop} {steps : List FileStep}
    (kept : ∀ step ∈ steps, ∀ dir, holds dir → holds (step.apply dir)) {dir : Directory}
    (held : holds dir) : holds (dir.after steps) := by
  induction steps generalizing dir with
  | nil => exact held
  | cons step rest inductionHypothesis =>
    exact inductionHypothesis (fun later member => kept later (List.mem_cons_of_mem _ member))
      (kept step List.mem_cons_self dir held)

/-- What one of these steps establishes and the others keep, holds after them. -/
theorem Directory.after_settles {holds : Directory → Prop} {steps : List FileStep}
    {settling : FileStep} (taken : settling ∈ steps)
    (settles : ∀ dir, holds (settling.apply dir))
    (kept : ∀ step ∈ steps, ∀ dir, holds dir → holds (step.apply dir)) (dir : Directory) :
    holds (dir.after steps) := by
  obtain ⟨before, later, rfl⟩ := List.append_of_mem taken
  rw [Directory.after_append, Directory.after_cons]
  exact after_keeps (fun step member => kept step (by simp [member])) (settles _)

end Singularmem.Search
