import GigaPdf.Lib.Text
import GigaPdf.Lib.Words

/-!
# Chunks for the search index

`chunk_text_for_embedding` of `text_chunking.py`. A text is split into paragraphs, a long paragraph
into sentences, a long sentence into words and a long word into windows; what is short enough is
packed again, words and sentences with a space, paragraphs with a blank line.
-/

namespace GigaPdf.Chunking

open Scanning Words
open Text (isSpace strip)

/-! ## Splits -/

def isIndent (c : Char) : Bool := c = ' ' || c = '\t'

/-- `\n[ \t]*\n+` -/
def paragraphBreak (_ : Option Char) : List Char → Nat
  | '\n' :: rest =>
    let indent := rest.takeWhile isIndent
    let lines := (rest.drop indent.length).takeWhile (· = '\n')
    if lines = [] then 0 else indent.length + lines.length + 1
  | _ => 0

/-- `(?<=[.!?])\s+|\n+` -/
def sentenceBreak (before : Option Char) (text : List Char) : Nat :=
  if before = some '.' ∨ before = some '!' ∨ before = some '?' then
    (text.takeWhile isSpace).length
  else (text.takeWhile (· = '\n')).length

/-- `\s+` -/
def wordBreak (_ : Option Char) (text : List Char) : Nat := (text.takeWhile isSpace).length

def splitParagraphs (text : List Char) : List (List Char) :=
  ((pieces paragraphBreak text).map strip).filter (· ≠ [])

def splitSentences (paragraph : List Char) : List (List Char) :=
  ((pieces sentenceBreak paragraph).map strip).filter (· ≠ [])

def splitWords (sentence : List Char) : List (List Char) :=
  (pieces wordBreak sentence).filter (· ≠ [])

/-- The windows of a text. -/
def hardSplit (text : List Char) (maxChars : Nat) : List (List Char) :=
  (List.range ((text.length + maxChars - 1) / maxChars)).map fun i =>
    (text.drop (i * maxChars)).take maxChars

/-! ## Chunks -/

def packPieces (parts : List (List Char)) (maxChars : Nat) (sep : List Char) :
    List (List Char) :=
  pack maxChars sep parts

/-- A word that is too long is cut into windows. -/
def safeWord (maxChars : Nat) (word : List Char) : List (List Char) :=
  if word.length ≤ maxChars then [word] else hardSplit word maxChars

/-- The pass of the loop for a sentence. -/
def fitSentence (maxChars : Nat) (sentence : List Char) : List (List Char) :=
  if sentence.length ≤ maxChars then [sentence]
  else packPieces ((splitWords sentence).flatMap (safeWord maxChars)) maxChars [' ']

def chunkParagraph (maxChars : Nat) (paragraph : List Char) : List (List Char) :=
  if paragraph.length ≤ maxChars then [paragraph]
  else
    packPieces ((splitSentences paragraph).flatMap (fitSentence maxChars)) maxChars [' ']

/-- The chunks before their number is capped. -/
def chunks (text : List Char) (maxChars : Nat) : List (List Char) :=
  packPieces ((splitParagraphs text).flatMap (chunkParagraph maxChars)) maxChars ['\n', '\n']

structure ValueError where
  message : String
deriving DecidableEq

def chunkTextForEmbedding (text : List Char) (maxChars maxChunks : Int) :
    Except ValueError (List (List Char)) :=
  if maxChars ≤ 0 then .error ⟨"max_chars must be a positive integer"⟩
  else if maxChunks ≤ 0 then .error ⟨"max_chunks must be a positive integer"⟩
  else if text = [] ∨ strip text = [] then .ok []
  else
    let all := chunks text maxChars.toNat
    .ok (if maxChunks < all.length then all.take maxChunks.toNat else all)

/-! ## What the chunks are -/

/-- The chunks are short texts without blanks at their ends, and have the words of the text, a long
word in windows. -/
structure Chunked (text : List Char) (maxChars : Nat) (chunks : List (List Char)) : Prop where
  nonempty : ∀ chunk ∈ chunks, chunk ≠ []
  stripped : ∀ chunk ∈ chunks, strip chunk = chunk
  bounded : ∀ chunk ∈ chunks, chunk.length ≤ maxChars
  words : chunks.flatMap (words isSpace) = (words isSpace text).flatMap (safeWord maxChars)

/-- A piece that can be packed. -/
structure Fit (maxChars : Nat) (piece : List Char) : Prop where
  trimmed : Trimmed isSpace piece
  short : piece.length ≤ maxChars

theorem blanks_takeWhile {p : Char → Bool} (blanks : ∀ c, p c = true → isSpace c = true)
    (text : List Char) : Blanks isSpace (text.take (text.takeWhile p).length) := by
  rw [← List.prefix_iff_eq_take.mp (List.takeWhile_prefix p)]
  exact fun c mem => blanks c (List.mem_takeWhile_imp mem)

theorem blanks_newlines (text : List Char) :
    Blanks isSpace (text.take (text.takeWhile (· = '\n')).length) :=
  blanks_takeWhile (fun c line => by rw [of_decide_eq_true line]; decide) text

theorem paragraphBreak_blanks (before : Option Char) (text : List Char) :
    Blanks isSpace (text.take (paragraphBreak before text)) := by
  unfold paragraphBreak
  split
  · rename_i rest
    simp only
    split
    · exact nofun
    · have indents : Blanks isSpace (rest.take (rest.takeWhile isIndent).length) := by
        apply blanks_takeWhile
        intro c indent
        simp only [isIndent, Bool.or_eq_true, decide_eq_true_eq] at indent
        obtain rfl | rfl := indent <;> decide
      have newline : isSpace '\n' = true := by decide
      rw [List.take_succ_cons, List.take_add]
      exact List.forall_mem_cons.mpr
        ⟨newline, List.forall_mem_append.mpr ⟨indents, blanks_newlines _⟩⟩
  · exact nofun

theorem sentenceBreak_blanks (before : Option Char) (text : List Char) :
    Blanks isSpace (text.take (sentenceBreak before text)) := by
  unfold sentenceBreak
  split
  · exact blanks_takeWhile (fun _ space => space) text
  · exact blanks_newlines text

theorem wordBreak_blanks (before : Option Char) (text : List Char) :
    Blanks isSpace (text.take (wordBreak before text)) :=
  blanks_takeWhile (fun _ space => space) text

/-! ## Pieces -/

/-- What is stripped and not blank, with the words of the pieces. -/
theorem flatMap_words_stripped (parts : List (List Char)) :
    ((parts.map strip).filter (· ≠ [])).flatMap (words isSpace) =
      parts.flatMap (words isSpace) := by
  induction parts with
  | nil => rfl
  | cons part parts ih =>
    have same : words isSpace part = words isSpace (strip part) := words_padded (padded_trim part)
    rw [List.map_cons, List.filter_cons, List.flatMap_cons, same]
    split
    · rw [List.flatMap_cons, ih]
    · rename_i blank
      have empty : strip part = [] := by simpa using blank
      rw [ih, empty, words_nil, List.nil_append]

theorem trimmed_of_mem_stripped {parts : List (List Char)} :
    ∀ part ∈ (parts.map strip).filter (· ≠ []), Trimmed isSpace part := by
  intro part mem
  obtain ⟨stripped, nonempty⟩ := List.mem_filter.mp mem
  obtain ⟨raw, -, rfl⟩ := List.mem_map.mp stripped
  exact trimmed_trim (of_decide_eq_true nonempty)

theorem words_splitParagraphs (text : List Char) :
    (splitParagraphs text).flatMap (words isSpace) = words isSpace text := by
  rw [splitParagraphs, flatMap_words_stripped]
  exact (words_pieces paragraphBreak_blanks text).symm

theorem words_splitSentences (paragraph : List Char) :
    (splitSentences paragraph).flatMap (words isSpace) = words isSpace paragraph := by
  rw [splitSentences, flatMap_words_stripped]
  exact (words_pieces sentenceBreak_blanks paragraph).symm

/-- Dark pieces are the words themselves. -/
theorem flatMap_words_dark {parts : List (List Char)}
    (dark : ∀ part ∈ parts, ∀ c ∈ part, isSpace c = false) :
    parts.flatMap (words isSpace) = parts.filter (· ≠ []) := by
  induction parts with
  | nil => rfl
  | cons part parts ih =>
    obtain ⟨first, others⟩ := List.forall_mem_cons.mp dark
    rw [List.flatMap_cons, ih others, List.filter_cons]
    split
    · rename_i nonempty
      rw [words_of_dark (of_decide_eq_true nonempty) first, List.singleton_append]
    · rename_i blank
      have empty : part = [] := by simpa using blank
      rw [empty, words_nil, List.nil_append]

theorem splitWords_eq (sentence : List Char) : splitWords sentence = words isSpace sentence := by
  have dark : ∀ part ∈ pieces wordBreak sentence, ∀ c ∈ part, isSpace c = false := by
    apply forall_piecesFrom
    intro before c text free
    by_contra space
    rw [wordBreak, List.takeWhile_cons_of_pos (by simpa using space)] at free
    cases free
  rw [words_pieces wordBreak_blanks, flatMap_words_dark dark, splitWords]

theorem mem_hardSplit {word piece : List Char} {maxChars : Nat} (positive : 0 < maxChars)
    (mem : piece ∈ hardSplit word maxChars) :
    piece ≠ [] ∧ piece.length ≤ maxChars ∧ ∀ c ∈ piece, c ∈ word := by
  obtain ⟨i, inside, rfl⟩ := List.mem_map.mp mem
  have before : i * maxChars < word.length := by
    have low := (Nat.le_div_iff_mul_le positive).mp (List.mem_range.mp inside)
    rw [Nat.succ_mul] at low
    omega
  refine ⟨?_, List.length_take_le _ _, fun c here =>
    List.mem_of_mem_drop (List.mem_of_mem_take here)⟩
  apply List.ne_nil_of_length_pos
  rw [List.length_take, List.length_drop]
  omega

/-- What is made of a word is dark and short. -/
theorem mem_safeWord {word piece : List Char} {maxChars : Nat} (positive : 0 < maxChars)
    (nonempty : word ≠ []) (dark : ∀ c ∈ word, isSpace c = false)
    (mem : piece ∈ safeWord maxChars word) :
    piece ≠ [] ∧ piece.length ≤ maxChars ∧ ∀ c ∈ piece, isSpace c = false := by
  unfold safeWord at mem
  split at mem
  · rename_i short
    cases List.mem_singleton.mp mem
    exact ⟨nonempty, short, dark⟩
  · obtain ⟨filled, short, inside⟩ := mem_hardSplit positive mem
    exact ⟨filled, short, fun c here => dark c (inside c here)⟩

theorem flatMap_safeWord_short {text : List Char} {maxChars : Nat}
    (short : text.length ≤ maxChars) :
    (words isSpace text).flatMap (safeWord maxChars) = words isSpace text := by
  have each : ∀ word ∈ words isSpace text, safeWord maxChars word = [word] := by
    intro word mem
    have bound := (mem_words mem).2.2
    rw [safeWord, if_pos (by omega)]
  rw [List.flatMap_congr each]
  exact List.flatMap_singleton' _

/-! ## Packing -/

theorem fit_packPieces {parts : List (List Char)} {maxChars : Nat} {sep : List Char}
    (fits : ∀ part ∈ parts, Fit maxChars part) :
    ∀ window ∈ packPieces parts maxChars sep, Fit maxChars window := by
  apply forall_pack fits
  intro a b fit fit' short
  exact ⟨fit.trimmed.append fit'.trimmed sep, short⟩

theorem words_packPieces {sep : List Char} (nonempty : sep ≠ []) (blanks : Blanks isSpace sep)
    (parts : List (List Char)) (maxChars : Nat) :
    (packPieces parts maxChars sep).flatMap (words isSpace) = parts.flatMap (words isSpace) :=
  flatMap_pack words_nil (words_append_gap nonempty blanks) parts

theorem words_packed_line (parts : List (List Char)) (maxChars : Nat) :
    (packPieces parts maxChars [' ']).flatMap (words isSpace) = parts.flatMap (words isSpace) :=
  words_packPieces (List.cons_ne_nil _ _) (List.forall_mem_singleton.mpr rfl) parts maxChars

theorem words_packed_paragraphs (parts : List (List Char)) (maxChars : Nat) :
    (packPieces parts maxChars ['\n', '\n']).flatMap (words isSpace) =
      parts.flatMap (words isSpace) := by
  have blanks : Blanks isSpace ['\n', '\n'] :=
    List.forall_mem_cons.mpr ⟨rfl, List.forall_mem_singleton.mpr rfl⟩
  exact words_packPieces (List.cons_ne_nil _ _) blanks parts maxChars

/-- Pieces that fit, and have the words of a text, a long word in windows. -/
structure Broken (maxChars : Nat) (text : List Char) (parts : List (List Char)) : Prop where
  fit : ∀ part ∈ parts, Fit maxChars part
  words : parts.flatMap (words isSpace) = (words isSpace text).flatMap (safeWord maxChars)

section
variable {maxChars : Nat}

theorem Broken.whole {text : List Char} (trimmed : Trimmed isSpace text)
    (short : text.length ≤ maxChars) : Broken maxChars text [text] where
  fit part mem := by
    rw [List.mem_singleton.mp mem]
    exact ⟨trimmed, short⟩
  words := by rw [List.flatMap_singleton, flatMap_safeWord_short short]

/-- The parts of a text are broken one by one. -/
theorem broken_flatMap {text : List Char} {parts : List (List Char)}
    {split : List Char → List (List Char)}
    (same : parts.flatMap (words isSpace) = words isSpace text)
    (each : ∀ part ∈ parts, Broken maxChars part (split part)) :
    Broken maxChars text (parts.flatMap split) where
  fit piece mem := by
    obtain ⟨part, here, inside⟩ := List.mem_flatMap.mp mem
    exact (each part here).fit piece inside
  words := by
    rw [List.flatMap_assoc, ← same, List.flatMap_assoc]
    exact List.flatMap_congr fun part here => (each part here).words

theorem Broken.packed {text : List Char} {parts : List (List Char)}
    (broken : Broken maxChars text parts) :
    Broken maxChars text (packPieces parts maxChars [' ']) where
  fit := fit_packPieces broken.fit
  words := (words_packed_line parts maxChars).trans broken.words

theorem safeWord_broken (positive : 0 < maxChars) {text word : List Char}
    (mem : word ∈ words isSpace text) : Broken maxChars word (safeWord maxChars word) := by
  obtain ⟨nonempty, dark, -⟩ := mem_words mem
  have made : ∀ piece ∈ safeWord maxChars word,
      piece ≠ [] ∧ piece.length ≤ maxChars ∧ ∀ c ∈ piece, isSpace c = false :=
    fun piece => mem_safeWord positive nonempty dark
  refine ⟨fun piece here => ?_, ?_⟩
  · obtain ⟨filled, short, darkPiece⟩ := made piece here
    exact ⟨Trimmed.of_dark filled darkPiece, short⟩
  · rw [flatMap_words_dark fun piece here => (made piece here).2.2, words_of_dark nonempty dark,
      List.flatMap_singleton]
    exact List.filter_eq_self.mpr fun piece here => decide_eq_true (made piece here).1

theorem fitSentence_broken (positive : 0 < maxChars) {sentence : List Char}
    (trimmed : Trimmed isSpace sentence) :
    Broken maxChars sentence (fitSentence maxChars sentence) := by
  unfold fitSentence
  split
  · exact .whole trimmed ‹_›
  · apply Broken.packed
    rw [splitWords_eq]
    apply broken_flatMap _ fun word mem => safeWord_broken positive mem
    have dark : ∀ word ∈ words isSpace sentence, ∀ c ∈ word, isSpace c = false :=
      fun word mem => (mem_words mem).2.1
    rw [flatMap_words_dark dark]
    exact List.filter_eq_self.mpr fun word mem => decide_eq_true (mem_words mem).1

theorem chunkParagraph_broken (positive : 0 < maxChars) {paragraph : List Char}
    (trimmed : Trimmed isSpace paragraph) :
    Broken maxChars paragraph (chunkParagraph maxChars paragraph) := by
  unfold chunkParagraph
  split
  · exact .whole trimmed ‹_›
  · apply Broken.packed
    apply broken_flatMap (words_splitSentences paragraph)
    exact fun sentence mem => fitSentence_broken positive (trimmed_of_mem_stripped sentence mem)

theorem chunks_chunked (positive : 0 < maxChars) (text : List Char) :
    Chunked text maxChars (chunks text maxChars) := by
  have broken : Broken maxChars text ((splitParagraphs text).flatMap (chunkParagraph maxChars)) :=
    broken_flatMap (words_splitParagraphs text) fun paragraph mem =>
      chunkParagraph_broken positive (trimmed_of_mem_stripped paragraph mem)
  have fit : ∀ chunk ∈ chunks text maxChars, Fit maxChars chunk := fit_packPieces broken.fit
  exact ⟨fun chunk mem => (fit chunk mem).trimmed.nonempty,
    fun chunk mem => (fit chunk mem).trimmed.trim_eq, fun chunk mem => (fit chunk mem).short,
    (words_packed_paragraphs _ maxChars).trans broken.words⟩

end

/-- What is not blank in a chunk is in the text. -/
theorem mem_of_mem_chunks {maxChars : Nat} (positive : 0 < maxChars) {text chunk : List Char}
    (mem : chunk ∈ chunks text maxChars) {c : Char} (dark : isSpace c = false) (here : c ∈ chunk) :
    c ∈ text := by
  have in_word {t : List Char} : c ∈ (words isSpace t).flatten ↔ c ∈ t := by
    rw [flatten_words, List.mem_filter]
    simp [dark]
  have in_chunks : c ∈ ((chunks text maxChars).flatMap (words isSpace)).flatten := by
    obtain ⟨w, word, inside⟩ := List.mem_flatten.mp (in_word.mpr here)
    exact List.mem_flatten.mpr ⟨w, List.mem_flatMap.mpr ⟨chunk, mem, word⟩, inside⟩
  rw [(chunks_chunked positive text).words] at in_chunks
  obtain ⟨piece, pieces, inside⟩ := List.mem_flatten.mp in_chunks
  obtain ⟨w, word, cut⟩ := List.mem_flatMap.mp pieces
  refine in_word.mp (List.mem_flatten.mpr ⟨w, word, ?_⟩)
  rw [safeWord] at cut
  split at cut
  · exact List.mem_singleton.mp cut ▸ inside
  · exact (mem_hardSplit positive cut).2.2 c inside

/-- A chunk that is returned, as the index takes it. -/
theorem mem_chunkTextForEmbedding {text chunk : List Char} {maxChars maxChunks : Int}
    {found : List (List Char)} (ran : chunkTextForEmbedding text maxChars maxChunks = .ok found)
    (mem : chunk ∈ found) :
    chunk ≠ [] ∧ strip chunk = chunk ∧ chunk.length ≤ maxChars ∧
      ∀ c ∈ chunk, isSpace c = false → c ∈ text := by
  simp only [chunkTextForEmbedding] at ran
  split at ran
  · cases ran
  · split at ran
    · cases ran
    · split at ran
      · cases ran
        cases mem
      · have positive : 0 < maxChars.toNat := by omega
        have chunked := chunks_chunked positive text
        have all : chunk ∈ chunks text maxChars.toNat := by
          cases ran
          split at mem
          · exact List.mem_of_mem_take mem
          · exact mem
        have short := chunked.bounded chunk all
        exact ⟨chunked.nonempty chunk all, chunked.stripped chunk all, by omega,
          fun c here dark => mem_of_mem_chunks positive all dark here⟩

theorem chunkTextForEmbedding_ok (text : List Char) {maxChars maxChunks : Int}
    (positive : 0 < maxChars) (some_chunks : 0 < maxChunks) :
    ∃ found, chunkTextForEmbedding text maxChars maxChunks = .ok found := by
  rw [chunkTextForEmbedding, if_neg (by omega), if_neg (by omega)]
  split <;> exact ⟨_, rfl⟩

example : chunkTextForEmbedding "One. Two three four!\n\nFive".toList 10 2 =
    .ok ["One.".toList, "Two three".toList] := by decide

end GigaPdf.Chunking
