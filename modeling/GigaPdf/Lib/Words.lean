import GigaPdf.Lib.Scanning

/-!
# Words

The words of a text are what lies between its blanks. A text that is cut within its blanks keeps its
words, and so do pieces that are joined with blanks between them, in windows of a bounded length.
-/

namespace Words

open Scanning

variable {α : Type*}

section
variable (blank : α → Bool)

def words (text : List α) : List (List α) := (text.splitOnP blank).filter fun w => !w.isEmpty

/-- The pieces are what is left of the text when blanks are taken out between them. -/
inductive Parted : List α → List (List α) → Prop where
  | last (text : List α) : Parted text [text]
  | cons {gap rest : List α} {pieces : List (List α)} (piece : List α) (nonempty : gap ≠ [])
      (blanks : Blanks blank gap) (parted : Parted rest pieces) :
      Parted (piece ++ gap ++ rest) (piece :: pieces)

/-- A text that is not blank at either end. -/
structure Trimmed (text : List α) : Prop where
  nonempty : text ≠ []
  head : ∀ c, text.head? = some c → blank c = false
  last : ∀ c, text.getLast? = some c → blank c = false

end

variable {blank : α → Bool}

/-! ## Words of a text -/

theorem words_nil : words blank [] = [] := by
  rw [words, List.splitOnP_nil]
  rfl

theorem words_append_cons {c : α} (shade : blank c = true) (a b : List α) :
    words blank (a ++ c :: b) = words blank a ++ words blank b := by
  rw [words, List.splitOnP_append_cons a b shade, List.filter_append]
  rfl

theorem words_blanks_append {gap : List α} (blanks : Blanks blank gap) (text : List α) :
    words blank (gap ++ text) = words blank text := by
  induction gap with
  | nil => rfl
  | cons c gap ih =>
    have first := words_append_cons (blanks c (List.mem_cons_self ..)) [] (gap ++ text)
    rw [List.nil_append, words_nil, List.nil_append] at first
    rw [List.cons_append, first]
    exact ih fun d mem => blanks d (List.mem_cons_of_mem _ mem)

theorem words_append_gap {gap : List α} (nonempty : gap ≠ []) (blanks : Blanks blank gap)
    (a b : List α) : words blank (a ++ gap ++ b) = words blank a ++ words blank b := by
  cases gap with
  | nil => exact absurd rfl nonempty
  | cons c gap =>
    rw [List.append_assoc, List.cons_append,
      words_append_cons (blanks c (List.mem_cons_self ..)),
      words_blanks_append fun d mem => blanks d (List.mem_cons_of_mem _ mem)]

theorem words_padded {core text : List α} (padded : Padded blank core text) :
    words blank text = words blank core := by
  obtain ⟨b, b', blanks, blanks', rfl⟩ := padded
  rw [List.append_assoc, words_blanks_append blanks]
  cases b' with
  | nil => rw [List.append_nil]
  | cons c b' =>
    have rest := words_blanks_append
      (fun d mem => blanks' d (List.mem_cons_of_mem _ mem) : Blanks blank b') []
    rw [words_append_cons (blanks' c (List.mem_cons_self ..)), ← List.append_nil b', rest,
      words_nil, List.append_nil]

theorem words_of_dark {text : List α} (nonempty : text ≠ [])
    (dark : ∀ c ∈ text, blank c = false) : words blank text = [text] := by
  rw [words, List.splitOnP_eq_singleton dark]
  cases text with
  | nil => exact absurd rfl nonempty
  | cons c text => rfl

theorem dark_of_mem_splitOnP {text w : List α} (mem : w ∈ text.splitOnP blank) :
    (∀ c ∈ w, blank c = false) ∧ w.length ≤ text.length := by
  induction text generalizing w with
  | nil =>
    rw [List.splitOnP_nil, List.mem_singleton] at mem
    subst mem
    exact ⟨nofun, Nat.le_refl 0⟩
  | cons x text ih =>
    rw [List.splitOnP_cons_eq_if_modifyHead] at mem
    split at mem
    · cases mem with
      | head => exact ⟨nofun, Nat.zero_le _⟩
      | tail _ mem =>
        obtain ⟨dark, short⟩ := ih mem
        exact ⟨dark, Nat.le_succ_of_le short⟩
    · rename_i shade
      obtain ⟨first, others, split⟩ := List.exists_cons_of_ne_nil
        (List.splitOnP_ne_nil blank text)
      rw [split, List.modifyHead_cons] at mem
      cases mem with
      | head =>
        obtain ⟨dark, short⟩ := ih (split ▸ List.mem_cons_self ..)
        refine ⟨List.forall_mem_cons.mpr ⟨by simpa using shade, dark⟩, ?_⟩
        exact Nat.succ_le_succ short
      | tail _ mem =>
        obtain ⟨dark, short⟩ := ih (split ▸ List.mem_cons_of_mem _ mem)
        exact ⟨dark, Nat.le_succ_of_le short⟩

theorem mem_words {text w : List α} (mem : w ∈ words blank text) :
    w ≠ [] ∧ (∀ c ∈ w, blank c = false) ∧ w.length ≤ text.length := by
  obtain ⟨piece, nonempty⟩ := List.mem_filter.mp mem
  exact ⟨by simpa using nonempty, dark_of_mem_splitOnP piece⟩

/-- The words have all items of the text that are not blank, in their order. -/
theorem flatten_words (text : List α) :
    (words blank text).flatten = text.filter fun c => !blank c := by
  rw [words, List.flatten_filter_not_isEmpty]
  induction text with
  | nil => rfl
  | cons c text ih =>
    obtain ⟨first, others, split⟩ := List.exists_cons_of_ne_nil
      (List.splitOnP_ne_nil blank text)
    rw [List.splitOnP_cons_eq_if_modifyHead, List.filter_cons, ← ih, split]
    cases blank c <;> rfl

theorem Parted.words_eq {text : List α} {pieces : List (List α)}
    (parted : Parted blank text pieces) : words blank text = pieces.flatMap (words blank) := by
  induction parted with
  | last text => simp
  | cons piece nonempty blanks parted ih =>
    rw [words_append_gap nonempty blanks, ih, List.flatMap_cons]

/-! ## Trimmed texts -/

theorem Trimmed.of_dark {text : List α} (nonempty : text ≠ [])
    (dark : ∀ c ∈ text, blank c = false) : Trimmed blank text where
  nonempty := nonempty
  head c first := dark c (List.mem_of_mem_head? first)
  last c final := dark c (List.mem_of_getLast? final)

theorem Trimmed.append {a b : List α} (trimmed : Trimmed blank a) (trimmed' : Trimmed blank b)
    (gap : List α) : Trimmed blank (a ++ gap ++ b) where
  nonempty := by simp [trimmed.nonempty]
  head c first := by
    rw [List.append_assoc, List.head?_append_of_ne_nil _ trimmed.nonempty] at first
    exact trimmed.head c first
  last c final := by
    rw [List.getLast?_append_of_ne_nil _ trimmed'.nonempty] at final
    exact trimmed'.last c final

theorem Trimmed.trim_eq {text : List α} (trimmed : Trimmed blank text) :
    trim blank text = text := by
  have start : text.dropWhile blank = text := by
    cases text with
    | nil => rfl
    | cons c rest =>
      exact List.dropWhile_cons_of_neg (by rw [trimmed.head c rfl]; exact Bool.false_ne_true)
  rw [trim, start]
  obtain rfl | ⟨front, d, rfl⟩ := List.eq_nil_or_concat text
  · rfl
  · rw [List.concat_eq_append] at trimmed ⊢
    exact trimEnd_concat (trimmed.last d List.getLast?_concat) front

theorem padded_trim (text : List α) : Padded blank (trim blank text) text := by
  refine ⟨text.takeWhile blank, ((text.dropWhile blank).reverse.takeWhile blank).reverse,
    fun c mem => List.mem_takeWhile_imp mem,
    fun c mem => List.mem_takeWhile_imp (List.mem_reverse.mp mem), ?_⟩
  rw [List.append_assoc, trim, trimEnd, ← List.reverse_append, List.takeWhile_append_dropWhile,
    List.reverse_reverse, List.takeWhile_append_dropWhile]

theorem mem_of_mem_trim {text : List α} {c : α} (mem : c ∈ trim blank text) : c ∈ text := by
  obtain ⟨b, b', -, -, parts⟩ : Padded blank (trim blank text) text := padded_trim text
  rw [parts, List.mem_append, List.mem_append]
  exact .inl (.inr mem)

theorem trimmed_trim {text : List α} (nonempty : trim blank text ≠ []) :
    Trimmed blank (trim blank text) where
  nonempty := nonempty
  head c first := by
    have dark := List.head?_dropWhile_not blank text
    rw [trim] at first
    cases rest : text.dropWhile blank with
    | nil =>
      rw [rest] at first
      cases first
    | cons d tail =>
      rw [rest] at first dark
      have shade : blank d = false := by simpa using dark
      have kept := trimEnd_append_cons shade [] tail
      rw [List.nil_append, List.nil_append] at kept
      rw [kept] at first
      cases first
      exact shade
  last c final := by
    rw [trim, trimEnd, List.getLast?_reverse] at final
    have dark := List.head?_dropWhile_not blank (text.dropWhile blank).reverse
    rw [final] at dark
    simpa using dark

/-! ## Splits at matches -/

section
variable (longest : Option α → List α → Nat)

/-- The pieces between the leftmost matches: `longest` is the length of the match at the start of
what is left, behind the item before it, and `skip` is what is left of a match. -/
def piecesFrom : Nat → Option α → List α → List (List α)
  | _, _, [] => [[]]
  | skip + 1, _, c :: text => piecesFrom skip (some c) text
  | 0, before, c :: text =>
    match longest before (c :: text) with
    | 0 => (piecesFrom 0 (some c) text).modifyHead (c :: ·)
    | skip + 1 => [] :: piecesFrom skip (some c) text

def pieces (text : List α) : List (List α) := piecesFrom longest 0 none text

variable {longest}

theorem Parted.cons_head {text : List α} {parts : List (List α)} (c : α)
    (parted : Parted blank text parts) : Parted blank (c :: text) (parts.modifyHead (c :: ·)) := by
  cases parted with
  | last => exact .last _
  | cons piece nonempty blanks parted => exact .cons (c :: piece) nonempty blanks parted

theorem parted_piecesFrom
    (gaps : ∀ before (text : List α), Blanks blank (text.take (longest before text)))
    (skip : Nat) (before : Option α) (text : List α) :
    Parted blank (text.drop skip) (piecesFrom longest skip before text) := by
  induction text generalizing skip before with
  | nil =>
    rw [List.drop_nil]
    cases skip <;> exact .last []
  | cons c text ih =>
    cases skip with
    | succ skip => exact ih skip (some c)
    | zero =>
      rw [List.drop_zero, piecesFrom]
      split
      · exact (ih 0 (some c)).cons_head c
      · rename_i skip matched
        have gap := gaps before (c :: text)
        rw [matched, List.take_succ_cons] at gap
        have parted := Parted.cons [] (List.cons_ne_nil c (text.take skip)) gap (ih skip (some c))
        rwa [List.nil_append, List.cons_append, List.take_append_drop] at parted

theorem words_pieces
    (gaps : ∀ before (text : List α), Blanks blank (text.take (longest before text)))
    (text : List α) : words blank text = (pieces longest text).flatMap (words blank) :=
  (parted_piecesFrom gaps 0 none text).words_eq

/-- The pieces hold only what no match starts at. -/
theorem forall_piecesFrom {P : α → Prop}
    (unmatched : ∀ before c (text : List α), longest before (c :: text) = 0 → P c)
    (skip : Nat) (before : Option α) (text : List α) :
    ∀ piece ∈ piecesFrom longest skip before text, ∀ c ∈ piece, P c := by
  induction text generalizing skip before with
  | nil =>
    cases skip <;>
      exact fun piece mem c here => nomatch List.mem_singleton.mp mem ▸ here
  | cons c text ih =>
    cases skip with
    | succ skip => exact ih skip (some c)
    | zero =>
      rw [piecesFrom]
      split
      · rename_i free
        have rest := ih 0 (some c)
        cases shape : piecesFrom longest 0 (some c) text with
        | nil => exact nofun
        | cons first others =>
          rw [shape] at rest
          obtain ⟨inFirst, inOthers⟩ := List.forall_mem_cons.mp rest
          rw [List.modifyHead_cons]
          exact List.forall_mem_cons.mpr
            ⟨List.forall_mem_cons.mpr ⟨unmatched before c text free, inFirst⟩, inOthers⟩
      · exact List.forall_mem_cons.mpr ⟨nofun, ih _ (some c)⟩

end

/-! ## Windows -/

section
variable (bound : Nat) (gap : List α)

/-- One pass of the loop: `state` are the windows, and the window that is being filled. -/
def packStep (state : List (List α) × List α) (piece : List α) : List (List α) × List α :=
  if state.2 = [] then (state.1, piece)
  else if (state.2 ++ gap ++ piece).length ≤ bound then (state.1, state.2 ++ gap ++ piece)
  else (state.1 ++ [state.2], piece)

/-- Pieces in windows of at most `bound` items, with the gap between them. -/
def pack (parts : List (List α)) : List (List α) :=
  let packed := parts.foldl (packStep bound gap) ([], [])
  if packed.2 = [] then packed.1 else packed.1 ++ [packed.2]

variable {bound gap}

theorem forall_pack {P : List α → Prop} {parts : List (List α)} (each : ∀ part ∈ parts, P part)
    (joins : ∀ a b, P a → P b → (a ++ gap ++ b).length ≤ bound → P (a ++ gap ++ b)) :
    ∀ window ∈ pack bound gap parts, P window := by
  have invariant : ∀ state : List (List α) × List α,
      (∀ window ∈ state.1, P window) → (state.2 ≠ [] → P state.2) →
      (∀ window ∈ (parts.foldl (packStep bound gap) state).1, P window) ∧
        ((parts.foldl (packStep bound gap) state).2 ≠ [] →
          P (parts.foldl (packStep bound gap) state).2) := by
    induction parts with
    | nil => exact fun state windows current => ⟨windows, current⟩
    | cons part parts ih =>
      obtain ⟨first, others⟩ := List.forall_mem_cons.mp each
      intro state windows current
      rw [List.foldl_cons, packStep]
      split
      · exact ih others _ windows fun _ => first
      · rename_i filled
        split
        · rename_i short
          exact ih others _ windows fun _ => joins _ _ (current filled) first short
        · refine ih others _ (fun window mem => ?_) fun _ => first
          cases List.mem_append.mp mem with
          | inl old => exact windows window old
          | inr new =>
            rw [List.mem_singleton.mp new]
            exact current filled
  obtain ⟨windows, current⟩ := invariant ([], []) nofun fun filled => absurd rfl filled
  simp only [pack]
  split
  · exact windows
  · rename_i filled
    intro window mem
    cases List.mem_append.mp mem with
    | inl old => exact windows window old
    | inr new =>
      rw [List.mem_singleton.mp new]
      exact current filled

/-- What adds up when pieces are joined is the same for the windows. -/
theorem flatMap_pack {β : Type*} {f : List α → List β} (empty : f [] = [])
    (joins : ∀ a b, f (a ++ gap ++ b) = f a ++ f b) (parts : List (List α)) :
    (pack bound gap parts).flatMap f = parts.flatMap f := by
  have total : ∀ state : List (List α) × List α,
      (parts.foldl (packStep bound gap) state).1.flatMap f ++
          f (parts.foldl (packStep bound gap) state).2 =
        state.1.flatMap f ++ f state.2 ++ parts.flatMap f := by
    induction parts with
    | nil => exact fun state => (List.append_nil _).symm
    | cons part parts ih =>
      intro state
      rw [List.foldl_cons, ih, List.flatMap_cons, ← List.append_assoc]
      congr 1
      rw [packStep]
      split
      · rename_i unfilled
        rw [unfilled, empty, List.append_nil]
      · split
        · simp only [joins]
          rw [List.append_assoc]
        · rw [List.flatMap_append, List.flatMap_singleton]
  have sum := total ([], [])
  rw [List.flatMap_nil, empty, List.nil_append, List.nil_append] at sum
  rw [← sum]
  simp only [pack]
  split
  · rename_i unfilled
    rw [unfilled, empty, List.append_nil]
  · rw [List.flatMap_append, List.flatMap_singleton]

end

end Words
