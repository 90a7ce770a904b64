import GigaPdf.Lib.Attempts
import GigaPdf.Models
import GigaPdf.Search.Chunking

/-!
# Re-indexing

`reindex_document_text` and `store_ocr_blocks` of `storage.py`: the text of a document and the
blocks of its semantic index are written in the caller's transaction, which the caller commits
whatever became of the call.
-/

namespace GigaPdf.Reindexing

open Attempts Chunking
open Text (isSpace strip)

abbrev Line := List Char

def MAX_EXTRACTED_TEXT_CHARS : Nat := 500000

def MAX_OCR_BLOCK_TEXT_CHARS : Nat := 4000

def EMBED_BATCH_SIZE : Nat := 128

structure Bbox (κ : Type) where
  x : κ
  y : κ
  w : κ
  h : κ
deriving DecidableEq

/-- A block as it is handed in; a page that `int` does not take counts as missing. -/
structure IncomingBlock (κ : Type) where
  page : Option Int
  bbox : Bbox (Option κ)
  text : Option Line

structure NormalizedBlock (κ : Type) where
  page : Int
  bbox : Bbox κ
  text : Line
deriving DecidableEq

/-- A row of `ocr_blocks`. -/
structure OcrBlock (κ ν : Type) extends NormalizedBlock κ where
  embedding : Option ν
deriving DecidableEq

/-- `extractedText` is `none` where there is no such document. -/
structure Store (κ ν : Type) where
  extractedText : Uuid → Option (Option Line)
  blocks : Uuid → List (OcrBlock κ ν)

/-- The session of the caller, and what is committed. After an error of the database the transaction
is aborted, and COMMIT rolls back. -/
structure Session (κ ν : Type) where
  committed : Store κ ν
  working : Store κ ν
  aborted : Bool

inductive Fault
  | raised
  | aborted
deriving DecidableEq

/-- Where a call may fail. A batch that cannot be embedded has no answer; `add` tells which rows are
refused. -/
structure Faults (ν : Type) where
  lookup : Option Fault
  chunking : Bool
  deletion : Option Fault
  embedPassages : Nat → List Line → Option (List (Option ν))
  add : Nat → Bool

inductive Failure
  | statement
  | chunking
  | embedding
  | row
  | lengths
deriving DecidableEq

section
variable {κ ν : Type}

def Session.start (store : Store κ ν) : Session κ ν := ⟨store, store, false⟩

def Session.commit (s : Session κ ν) : Store κ ν := if s.aborted then s.committed else s.working

def Store.setBlocks (store : Store κ ν) (documentId : Uuid) (rows : List (OcrBlock κ ν)) :
    Store κ ν :=
  { store with blocks := Function.update store.blocks documentId rows }

def Store.setText (store : Store κ ν) (documentId : Uuid) (text : Option Line) : Store κ ν :=
  { store with extractedText := Function.update store.extractedText documentId (some text) }

def Session.change (f : Store κ ν → Store κ ν) (s : Session κ ν) : Session κ ν :=
  { s with working := f s.working }

/-- A statement. -/
def execute {α : Type} (fault : Option Fault) (f : Session κ ν → α × Session κ ν) :
    Attempt (Session κ ν) Failure α :=
  step fun s =>
    match fault with
    | none => (.ok (f s).1, (f s).2)
    | some .raised => (.error .statement, s)
    | some .aborted => (.error .statement, { s with aborted := true })

/-! ## Blocks -/

def withoutNul (text : Option Line) : Line := strip ((text.getD []).filter (· ≠ '\x00'))

def normalizeBlocks [Zero κ] (blocks : List (IncomingBlock κ)) : List (NormalizedBlock κ) :=
  blocks.filterMap fun block =>
    let text := withoutNul block.text
    if text = [] then none
    else some
      { page := block.page.getD 0
        bbox := ⟨block.bbox.x.getD 0, block.bbox.y.getD 0, block.bbox.w.getD 0, block.bbox.h.getD 0⟩
        text := text.take MAX_OCR_BLOCK_TEXT_CHARS }

/-- `range(0, len(texts), _EMBED_BATCH_SIZE)` -/
def batches (texts : List Line) : List (List Line) :=
  (List.range ((texts.length + EMBED_BATCH_SIZE - 1) / EMBED_BATCH_SIZE)).map fun i =>
    (texts.drop (i * EMBED_BATCH_SIZE)).take EMBED_BATCH_SIZE

def embedBatches (faults : Faults ν) (texts : List Line) : Except Failure (List (Option ν)) :=
  (batches texts).zipIdx.foldlM (fun embeddings chunk =>
    match faults.embedPassages chunk.2 chunk.1 with
    | none => .error .embedding
    | some chunkVectors => .ok (embeddings ++ chunkVectors)) []

/-- `zip(normalized, embeddings, strict=True)`, from the row `k` on. -/
def addRows (faults : Faults ν) (documentId : Uuid) :
    Nat → List (NormalizedBlock κ) → List (Option ν) → Attempt (Session κ ν) Failure Unit
  | _, [], [] => pure ()
  | k, block :: normalized, embedding :: embeddings =>
    if faults.add k then throw .row
    else do
      modify (Session.change fun store =>
        store.setBlocks documentId (store.blocks documentId ++ [⟨block, embedding⟩]))
      addRows faults documentId (k + 1) normalized embeddings
  | _, _, _ => throw .lengths

def storeOcrBlocks [Zero κ] (faults : Faults ν) (documentId : Uuid)
    (blocks : List (IncomingBlock κ)) : Attempt (Session κ ν) Failure Nat := do
  execute faults.deletion fun s => ((), s.change fun store => store.setBlocks documentId [])
  let normalized := normalizeBlocks blocks
  if normalized.isEmpty then
    return 0
  let embeddings ← step fun s => (embedBatches faults (normalized.map (·.text)), s)
  addRows faults documentId 0 normalized embeddings
  return normalized.length

/-- The block that a chunk is handed in as. -/
def chunkBlock (chunk : Line) : IncomingBlock κ := ⟨some 0, ⟨none, none, none, none⟩, some chunk⟩

def normalizedText (text : Option Line) : Line := (withoutNul text).take MAX_EXTRACTED_TEXT_CHARS

/-- `normalized or None` -/
def newText (text : Option Line) : Option Line :=
  if normalizedText text = [] then none else some (normalizedText text)

/-- The chunks by the default bounds; an empty text has none. -/
def textChunks (faults : Faults ν) (text : Option Line) : Except Failure (List Line) :=
  if normalizedText text = [] then .ok []
  else if faults.chunking then .error .chunking
  else (chunkTextForEmbedding (normalizedText text) 900 400).mapError fun _ => .chunking

def reindexDocumentText [Zero κ] (faults : Faults ν) (documentId : Uuid) (text : Option Line) :
    Attempt (Session κ ν) Failure Nat :=
  tryCatch
    (do
      let doc ← execute faults.lookup fun s => (s.working.extractedText documentId, s)
      if doc.isSome then
        modify (Session.change fun store => store.setText documentId (newText text))
      let chunks ← step fun s => (textChunks faults text, s)
      storeOcrBlocks faults documentId (chunks.map chunkBlock))
    fun _ => pure 0

/-! ## What is in the index -/

/-- The chunks of a new text. -/
def newChunks (text : Option Line) : List Line :=
  (chunkTextForEmbedding (normalizedText text) 900 400).toOption.getD []

/-- The text and the blocks are both those of the new text, or both the previous ones. -/
def AllOrNothing (before after : Store κ ν) (documentId : Uuid) (text : Option Line) : Prop :=
  (∀ other, other ≠ documentId → after.blocks other = before.blocks other) ∧
    (after.extractedText documentId = some (newText text) ∧
        (after.blocks documentId).map (·.text) = newChunks text ∨
      after.extractedText documentId = before.extractedText documentId ∧
        after.blocks documentId = before.blocks documentId)

/-! ## Sessions -/

theorem Store.setBlocks_self (store : Store κ ν) (documentId : Uuid) :
    store.setBlocks documentId (store.blocks documentId) = store := by
  rw [setBlocks, Function.update_eq_self]

theorem Store.setBlocks_setBlocks (store : Store κ ν) (documentId : Uuid)
    (rows rows' : List (OcrBlock κ ν)) :
    (store.setBlocks documentId rows).setBlocks documentId rows' =
      store.setBlocks documentId rows' := by
  simp only [setBlocks, Function.update_idem]

@[simp] theorem Store.setBlocks_blocks (store : Store κ ν) (documentId : Uuid)
    (rows : List (OcrBlock κ ν)) : (store.setBlocks documentId rows).blocks documentId = rows :=
  Function.update_self ..

/-- The rows that are added before one is refused or one of the lists ends. -/
def rowsAdded (faults : Faults ν) :
    Nat → List (NormalizedBlock κ) → List (Option ν) → List (OcrBlock κ ν)
  | k, block :: normalized, embedding :: embeddings =>
    if faults.add k then []
    else ⟨block, embedding⟩ :: rowsAdded faults (k + 1) normalized embeddings
  | _, _, _ => []

/-- The rows that are there when the old ones are deleted and no more can be added. -/
def written (faults : Faults ν) (normalized : List (NormalizedBlock κ)) : List (OcrBlock κ ν) :=
  match embedBatches faults (normalized.map (·.text)) with
  | .error _ => []
  | .ok embeddings => rowsAdded faults 0 normalized embeddings

theorem Session.add_none (s : Session κ ν) (documentId : Uuid) :
    (s.change fun store => store.setBlocks documentId (store.blocks documentId ++ [])) = s := by
  rw [change, List.append_nil, Store.setBlocks_self]

theorem addRows_state (faults : Faults ν) (documentId : Uuid) (k : Nat)
    (normalized : List (NormalizedBlock κ)) (embeddings : List (Option ν)) (s : Session κ ν) :
    (outcome (addRows faults documentId k normalized embeddings) s).2 =
      s.change fun store => store.setBlocks documentId
        (store.blocks documentId ++ rowsAdded faults k normalized embeddings) := by
  induction normalized generalizing k embeddings s with
  | nil => cases embeddings <;> exact (s.add_none documentId).symm
  | cons block normalized ih =>
    cases embeddings with
    | nil => exact (s.add_none documentId).symm
    | cons embedding embeddings =>
      rw [addRows, rowsAdded]
      split
      · exact (s.add_none documentId).symm
      · rw [outcome_bind, outcome_modify]
        dsimp only
        rw [ih]
        simp [Session.change, Store.setBlocks_setBlocks]

theorem embedBatches_nil (faults : Faults ν) : embedBatches faults [] = .ok [] := by
  simp [embedBatches, batches, EMBED_BATCH_SIZE, pure, Except.pure]

theorem written_nil (faults : Faults ν) : written faults ([] : List (NormalizedBlock κ)) = [] := by
  simp only [written, List.map_nil, embedBatches_nil, rowsAdded]

theorem storeOcrBlocks_state [Zero κ] (faults : Faults ν) (documentId : Uuid)
    (blocks : List (IncomingBlock κ)) (s : Session κ ν) :
    (outcome (storeOcrBlocks faults documentId blocks) s).2 =
      match faults.deletion with
      | some .raised => s
      | some .aborted => { s with aborted := true }
      | none => s.change fun store =>
          store.setBlocks documentId (written faults (normalizeBlocks blocks)) := by
  rw [storeOcrBlocks, outcome_bind, execute, outcome_step]
  cases faults.deletion with
  | some fault => cases fault <;> rfl
  | none =>
    dsimp only
    cases normalizeBlocks blocks with
    | nil =>
      rw [written_nil]
      rfl
    | cons block normalized =>
      rw [List.isEmpty_cons, if_neg Bool.false_ne_true, outcome_bind, outcome_step, written]
      cases embedBatches faults ((block :: normalized).map (·.text)) with
      | error e => rfl
      | ok embeddings =>
        dsimp only
        rw [state_bind_pure, addRows_state]
        simp [Session.change, Store.setBlocks_setBlocks]

/-! ## The chunks as blocks -/

def plainBlock [Zero κ] (chunk : Line) : NormalizedBlock κ := ⟨0, ⟨0, 0, 0, 0⟩, chunk⟩

theorem newChunks_eq (text : Option Line) :
    chunkTextForEmbedding (normalizedText text) 900 400 = .ok (newChunks text) := by
  obtain ⟨found, ran⟩ : ∃ found, chunkTextForEmbedding (normalizedText text) 900 400 = .ok found :=
    chunkTextForEmbedding_ok _ (by omega) (by omega)
  rw [newChunks, ran]
  rfl

theorem textChunks_eq (faults : Faults ν) (text : Option Line) :
    textChunks faults text =
      if normalizedText text ≠ [] ∧ faults.chunking = true then .error .chunking
      else .ok (newChunks text) := by
  by_cases empty : normalizedText text = []
  · have none_left : newChunks text = [] := by
      rw [newChunks, empty]
      rfl
    simp [textChunks, empty, none_left]
  · rw [textChunks, if_neg empty, newChunks_eq]
    simp only [ne_eq, empty, not_false_eq_true, true_and]
    rfl

theorem nul_not_mem_normalizedText (text : Option Line) : '\x00' ∉ normalizedText text := by
  intro mem
  have inside := Words.mem_of_mem_trim (List.mem_of_mem_take mem)
  simpa using (List.mem_filter.mp inside).2

/-- A chunk is a text already, and is not cut again. -/
theorem withoutNul_chunk {text : Option Line} {chunk : Line} (mem : chunk ∈ newChunks text) :
    withoutNul (some chunk) = chunk ∧ chunk ≠ [] ∧ chunk.length ≤ MAX_OCR_BLOCK_TEXT_CHARS := by
  obtain ⟨nonempty, stripped, short, inside⟩ := mem_chunkTextForEmbedding (newChunks_eq text) mem
  have present : chunk.filter (· ≠ '\x00') = chunk := by
    refine List.filter_eq_self.mpr fun c here => decide_eq_true ?_
    rintro rfl
    exact nul_not_mem_normalizedText text (inside _ here rfl)
  refine ⟨?_, nonempty, ?_⟩
  · rw [withoutNul, Option.getD_some, present, stripped]
  · rw [MAX_OCR_BLOCK_TEXT_CHARS]
    omega

theorem normalizeBlocks_chunks [Zero κ] (text : Option Line) :
    normalizeBlocks ((newChunks text).map chunkBlock) =
      (newChunks text).map (plainBlock : Line → NormalizedBlock κ) := by
  rw [normalizeBlocks, List.filterMap_map, ← List.filterMap_eq_map]
  refine List.filterMap_congr fun chunk mem => ?_
  obtain ⟨same, nonempty, short⟩ := withoutNul_chunk mem
  simp only [Function.comp, chunkBlock, same, nonempty, if_false]
  rw [List.take_of_length_le short]
  rfl

/-! ## What is committed -/

theorem reindexDocumentText_commit [Zero κ] (faults : Faults ν) (before : Store κ ν)
    (documentId : Uuid) (text : Option Line)
    (exists_row : (before.extractedText documentId).isSome) :
    (outcome (reindexDocumentText faults documentId text) (Session.start before)).2.commit =
      match faults.lookup with
      | some _ => before
      | none =>
        if normalizedText text ≠ [] ∧ faults.chunking = true then
          before.setText documentId (newText text)
        else
          match faults.deletion with
          | some .raised => before.setText documentId (newText text)
          | some .aborted => before
          | none => (before.setText documentId (newText text)).setBlocks documentId
              (written faults ((newChunks text).map plainBlock)) := by
  rw [reindexDocumentText, state_tryCatch_pure, outcome_bind, execute, outcome_step]
  cases faults.lookup with
  | some fault => cases fault <;> rfl
  | none =>
    have row : ((Session.start before).working.extractedText documentId).isSome = true := exists_row
    dsimp only
    rw [if_pos row, outcome_bind, outcome_modify]
    dsimp only
    rw [outcome_bind, outcome_step, textChunks_eq]
    by_cases fails : normalizedText text ≠ [] ∧ faults.chunking = true
    · rw [if_pos fails, if_pos fails]
      rfl
    · rw [if_neg fails, if_neg fails]
      dsimp only
      rw [storeOcrBlocks_state, normalizeBlocks_chunks]
      cases faults.deletion with
      | some fault => cases fault <;> rfl
      | none => rfl

/-! ## When it is all or nothing -/

/-- The text is written when the call fails, and the old blocks are still there. -/
def StopsEarly (faults : Faults ν) (text : Option Line) : Prop :=
  normalizedText text ≠ [] ∧ faults.chunking = true ∨ faults.deletion = some .raised

/-- Every batch is answered, there is a vector for each chunk, and no row is refused. -/
def Complete (faults : Faults ν) (chunks : List Line) : Prop :=
  ∃ embeddings, embedBatches faults chunks = .ok embeddings ∧ chunks.length ≤ embeddings.length ∧
    ∀ k < chunks.length, faults.add k = false

/-- Nothing is written, or all of it, or what is left behind is what was there. -/
def Survives [Zero κ] (faults : Faults ν) (before : Store κ ν) (documentId : Uuid)
    (text : Option Line) : Prop :=
  let sameText := before.extractedText documentId = some (newText text)
  faults.lookup ≠ none ∨
    StopsEarly faults text ∧
      (sameText ∨ (before.blocks documentId).map (·.text) = newChunks text) ∨
    ¬StopsEarly faults text ∧
      (faults.deletion = some .aborted ∨ Complete faults (newChunks text) ∨
        sameText ∧
          before.blocks documentId = written faults ((newChunks text).map plainBlock))

theorem rowsAdded_texts_iff (faults : Faults ν) (k : Nat) (normalized : List (NormalizedBlock κ))
    (embeddings : List (Option ν)) :
    (rowsAdded faults k normalized embeddings).map (·.text) = normalized.map (·.text) ↔
      normalized.length ≤ embeddings.length ∧
        ∀ j < normalized.length, faults.add (k + j) = false := by
  induction normalized generalizing k embeddings with
  | nil => cases embeddings <;> simp [rowsAdded]
  | cons block normalized ih =>
    cases embeddings with
    | nil => simp [rowsAdded]
    | cons embedding embeddings =>
      rw [rowsAdded]
      split
      · rename_i refused
        simp only [List.map_nil, List.map_cons, List.nil_eq, reduceCtorEq, false_iff, not_and]
        intro _ accepted
        have first := accepted 0 (by simp)
        rw [Nat.add_zero, refused] at first
        cases first
      · rename_i accepted
        simp only [List.map_cons, List.cons.injEq, true_and, ih, List.length_cons]
        constructor
        · rintro ⟨long, others⟩
          refine ⟨by omega, fun j less => ?_⟩
          cases j with
          | zero => simpa using accepted
          | succ j =>
            rw [← Nat.add_assoc, Nat.add_right_comm]
            exact others j (by omega)
        · rintro ⟨long, all⟩
          refine ⟨by omega, fun j less => ?_⟩
          rw [Nat.add_right_comm, Nat.add_assoc]
          exact all (j + 1) (by omega)

theorem written_texts_iff [Zero κ] (faults : Faults ν) (chunks : List Line) :
    (written faults (chunks.map (plainBlock : Line → NormalizedBlock κ))).map (·.text) = chunks ↔
      Complete faults chunks := by
  have texts : (chunks.map (plainBlock : Line → NormalizedBlock κ)).map (·.text) = chunks := by
    rw [List.map_map]
    exact List.map_id chunks
  rw [written, texts, Complete]
  cases ran : embedBatches faults chunks with
  | error e =>
    simp only [reduceCtorEq, false_and, exists_false, iff_false]
    intro empty
    rw [← empty] at ran
    cases (embedBatches_nil faults).symm.trans ran
  | ok embeddings =>
    have each := rowsAdded_texts_iff faults 0
      (chunks.map (plainBlock : Line → NormalizedBlock κ)) embeddings
    rw [texts] at each
    simpa using each

theorem allOrNothing_self (store : Store κ ν) (documentId : Uuid) (text : Option Line) :
    AllOrNothing store store documentId text :=
  ⟨fun _ _ => rfl, .inr ⟨rfl, rfl⟩⟩

theorem allOrNothing_setText_iff (store : Store κ ν) (documentId : Uuid) (text : Option Line) :
    AllOrNothing store (store.setText documentId (newText text)) documentId text ↔
      store.extractedText documentId = some (newText text) ∨
        (store.blocks documentId).map (·.text) = newChunks text := by
  simp only [AllOrNothing, Store.setText, Function.update_self, implies_true, true_and, and_true]
  rw [or_comm, @eq_comm _ (some _)]

theorem allOrNothing_setBlocks_iff (store : Store κ ν) (documentId : Uuid) (text : Option Line)
    (rows : List (OcrBlock κ ν)) :
    AllOrNothing store ((store.setText documentId (newText text)).setBlocks documentId rows)
        documentId text ↔
      rows.map (·.text) = newChunks text ∨
        store.extractedText documentId = some (newText text) ∧ store.blocks documentId = rows := by
  have others : ∀ other, other ≠ documentId →
      Function.update store.blocks documentId rows other = store.blocks other :=
    fun other ne => Function.update_of_ne ne _ _
  simp only [AllOrNothing, Store.setText, Store.setBlocks, Function.update_self, true_and]
  rw [@eq_comm _ (some _), @eq_comm _ rows]
  exact and_iff_right others

/-- The text and the blocks stay together in exactly these cases. -/
theorem reindexDocumentText_allOrNothing_iff [Zero κ] (faults : Faults ν) (before : Store κ ν)
    (documentId : Uuid) (text : Option Line)
    (exists_row : (before.extractedText documentId).isSome) :
    AllOrNothing before
        (outcome (reindexDocumentText faults documentId text) (Session.start before)).2.commit
        documentId text ↔
      Survives faults before documentId text := by
  rw [reindexDocumentText_commit faults before documentId text exists_row, Survives]
  cases faults.lookup with
  | some fault => simp [allOrNothing_self]
  | none =>
    simp only [ne_eq, not_true_eq_false, false_or]
    by_cases chunking : normalizedText text ≠ [] ∧ faults.chunking = true
    · have early : StopsEarly faults text := .inl chunking
      rw [if_pos chunking, allOrNothing_setText_iff]
      simp only [early, true_and, not_true_eq_false, false_and, or_false]
    · rw [if_neg chunking]
      cases deletion : faults.deletion with
      | none =>
        have late : ¬StopsEarly faults text := by simp [StopsEarly, chunking, deletion]
        rw [allOrNothing_setBlocks_iff, written_texts_iff]
        simp only [late, false_and, not_false_eq_true, true_and, reduceCtorEq, false_or]
      | some fault =>
        cases fault with
        | raised =>
          have early : StopsEarly faults text := .inr deletion
          rw [allOrNothing_setText_iff]
          simp only [early, true_and, not_true_eq_false, false_and, or_false]
        | aborted =>
          have late : ¬StopsEarly faults text := by simp [StopsEarly, chunking, deletion]
          simp [allOrNothing_self, late]

/-! ## A failing batch -/

def invoice : Uuid := uuid "invoice"

/-- A document with one block. -/
def indexed : Store Int Unit where
  extractedText _ := some (some "old".toList)
  blocks _ := [⟨plainBlock "old".toList, some ()⟩]

/-- Nothing fails but the embedding, as far as `answers` has no answer. -/
def embeddingOnly (answers : List Line → Option (List (Option Unit))) : Faults Unit where
  lookup := none
  chunking := false
  deletion := none
  embedPassages _ texts := answers texts
  add _ := false

theorem reindexDocumentText_allOrNothing_iff_embedded :
    (indexed.extractedText invoice).isSome ∧
      (AllOrNothing indexed
          (outcome (reindexDocumentText
            (embeddingOnly fun texts => some (texts.map fun _ => none)) invoice
            (some "new".toList)) (Session.start indexed)).2.commit
          invoice (some "new".toList) ↔
        Survives (embeddingOnly fun texts => some (texts.map fun _ => none)) indexed invoice
          (some "new".toList)) :=
  ⟨rfl, reindexDocumentText_allOrNothing_iff _ indexed invoice (some "new".toList) rfl⟩

/-- With the model out of order the new text is committed without a block. -/
theorem reindexDocumentText_half :
    ¬AllOrNothing indexed
      (outcome (reindexDocumentText (embeddingOnly fun _ => none) invoice (some "new".toList))
        (Session.start indexed)).2.commit
      invoice (some "new".toList) := by
  rintro ⟨-, ⟨-, blocks⟩ | ⟨text, -⟩⟩
  · exact absurd blocks (by decide)
  · exact absurd text (by decide)

end

end GigaPdf.Reindexing
