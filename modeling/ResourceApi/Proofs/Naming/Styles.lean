import Mathlib.Data.List.Basic
import Mathlib.Data.List.Forall2
import ResourceApi.Proofs.Naming.Plain

/-!
Naming styles. The words of a name can be spelled in camel case, in Pascal case, in snake case or
with blanks between them. Every spelling is cut into the same words again, but for the case of their
first letters, so all of them are the same in kebab case, and the same in upper camel case.
-/

namespace ResourceApi

/-- What related entries have in common can be read off either list. -/
theorem map_eq_map_of_forall₂ {α β γ : Type} {R : α → β → Prop} {f : α → γ} {g : β → γ}
    (hR : ∀ a b, R a b → f a = g b) {as : List α} {bs : List β} (h : List.Forall₂ R as bs) :
    as.map f = bs.map g := by
  have hmap : List.Forall₂ (· = ·) (as.map f) (bs.map g) := List.rel_map hR h
  rwa [List.forall₂_eq_eq_eq] at hmap

namespace Naming

/-! ### Spellings -/

/-- A word of a name: two lower case letters, then lower case letters and digits. -/
structure Word where
  first : Char
  second : Char
  rest : List Char
  isLower_first : first.isLower = true
  isLower_second : second.isLower = true
  isLowerOrDigit_rest : ∀ c ∈ rest, IsLowerOrDigit c

namespace Word

/-- The word that characters make which have been checked. -/
def ofChars (first second : Char) (rest : List Char)
    (h : first.isLower ∧ second.isLower ∧
      (rest.all fun c => decide (IsLowerOrDigit c)) = true) : Word where
  first := first
  second := second
  rest := rest
  isLower_first := h.1
  isLower_second := h.2.1
  isLowerOrDigit_rest c hc := of_decide_eq_true (List.all_eq_true.mp h.2.2 c hc)

def chars (w : Word) : List Char := w.first :: w.second :: w.rest

def capitalised (w : Word) : List Char := w.first.toUpper :: w.second :: w.rest

end Word

/-- How the words of a name are put together. -/
inductive Style where
  | camel
  | pascal
  | snake
  | spaced

/-- The name that has the words, in a style. -/
def Style.spell : Style → List Word → String
  | .camel, [] => ""
  | .camel, w :: ws => String.ofList (w.chars ++ ws.flatMap Word.capitalised)
  | .pascal, ws => String.ofList (ws.flatMap Word.capitalised)
  | .snake, ws => String.ofList (List.intercalate ['_'] (ws.map Word.chars))
  | .spaced, ws => String.ofList (List.intercalate [' '] (ws.map Word.chars))

/-! ### Characters of words -/

section Ascii

variable {c : Char}

theorem IsLowerOrDigit.isUppercase (h : IsLowerOrDigit c) : Text.isUppercase c = false :=
  Text.of_ascii (P := fun c => IsLowerOrDigit c → Text.isUppercase c = false) (by decide)
    (Text.lt_of_isAlphanum h.isAlphanum) h

theorem IsLowerOrDigit.isAlphanumeric (h : IsLowerOrDigit c) : Text.isAlphanumeric c = true := by
  rw [Text.isAlphanumeric_of_lt (Text.lt_of_isAlphanum h.isAlphanum), h.isAlphanum]

theorem IsLowerOrDigit.toLower (h : IsLowerOrDigit c) : c.toLower = c :=
  Text.of_ascii (P := fun c => IsLowerOrDigit c → c.toLower = c) (by decide)
    (Text.lt_of_isAlphanum h.isAlphanum) h

theorem isLowercase_of_isLower (h : c.isLower = true) : Text.isLowercase c = true := by
  rw [Text.isLowercase, if_pos (Text.lt_of_isAlphanum (IsLowerOrDigit.isAlphanum (.inl h))), h]

theorem isUppercase_toUpper (h : c.isLower = true) : Text.isUppercase c.toUpper = true :=
  Text.of_ascii (P := fun c => c.isLower = true → Text.isUppercase c.toUpper = true) (by decide)
    (Text.lt_of_isAlphanum (IsLowerOrDigit.isAlphanum (.inl h))) h

theorem isLowercase_toUpper (h : c.isLower = true) : Text.isLowercase c.toUpper = false :=
  Text.of_ascii (P := fun c => c.isLower = true → Text.isLowercase c.toUpper = false) (by decide)
    (Text.lt_of_isAlphanum (IsLowerOrDigit.isAlphanum (.inl h))) h

theorem toLower_toUpper (h : c.isLower = true) : c.toUpper.toLower = c :=
  Text.of_ascii (P := fun c => c.isLower = true → c.toUpper.toLower = c) (by decide)
    (Text.lt_of_isAlphanum (IsLowerOrDigit.isAlphanum (.inl h))) h

theorem toUpper_toUpper (h : c.isLower = true) : c.toUpper.toUpper = c.toUpper :=
  Text.of_ascii (P := fun c => c.isLower = true → c.toUpper.toUpper = c.toUpper) (by decide)
    (Text.lt_of_isAlphanum (IsLowerOrDigit.isAlphanum (.inl h))) h

end Ascii

namespace Word

variable (w : Word)

theorem isLowerOrDigit_chars : ∀ c ∈ w.chars, IsLowerOrDigit c := by
  rw [chars, List.forall_mem_cons, List.forall_mem_cons]
  exact ⟨.inl w.isLower_first, .inl w.isLower_second, w.isLowerOrDigit_rest⟩

theorem isAlphanum_capitalised : ∀ c ∈ w.capitalised, c.isAlphanum = true := by
  obtain ⟨hfirst, hmore⟩ := List.forall_mem_cons.mp w.isLowerOrDigit_chars
  rw [capitalised, List.forall_mem_cons]
  exact ⟨isAlphanum_toUpper hfirst.isAlphanum, fun c hc => (hmore c hc).isAlphanum⟩

end Word

/-! ### Runs -/

theorem runs_append {part : List Char} (h : ∀ c ∈ part, Text.isAlphanumeric c = true)
    (run tail : List Char) : runs run (part ++ tail) = runs (part.reverse ++ run) tail := by
  induction part generalizing run with
  | nil => rfl
  | cons c part ih =>
      obtain ⟨hc, hpart⟩ := List.forall_mem_cons.mp h
      rw [List.cons_append, runs, if_pos hc, ih hpart, List.reverse_cons, List.append_assoc]
      rfl

theorem runs_of_alphanumeric {part : List Char} (h : ∀ c ∈ part, Text.isAlphanumeric c = true)
    (hne : part ≠ []) : runs [] part = [part] := by
  have hempty : ¬ part.reverse.isEmpty = true := by simpa using hne
  calc runs [] part
      = runs [] (part ++ []) := by rw [List.append_nil]
    _ = runs (part.reverse ++ []) [] := runs_append h [] []
    _ = [part] := by rw [List.append_nil, runs, if_neg hempty, List.reverse_reverse]

theorem runs_separated {part : List Char} (h : ∀ c ∈ part, Text.isAlphanumeric c = true)
    (hne : part ≠ []) {separator : Char} (hseparator : Text.isAlphanumeric separator = false)
    (rest : List Char) : runs [] (part ++ separator :: rest) = part :: runs [] rest := by
  have hempty : ¬ part.reverse.isEmpty = true := by simpa using hne
  rw [runs_append h, List.append_nil, runs, if_neg (by simp [hseparator]), if_neg hempty,
    List.reverse_reverse]

/-- Parts with separators between them are the runs of the text. -/
theorem runs_intercalate {separator : Char} (hseparator : Text.isAlphanumeric separator = false)
    {parts : List (List Char)}
    (h : ∀ part ∈ parts, part ≠ [] ∧ ∀ c ∈ part, Text.isAlphanumeric c = true) :
    runs [] (List.intercalate [separator] parts) = parts := by
  induction parts with
  | nil => rfl
  | cons part parts ih =>
      obtain ⟨⟨hne, hpart⟩, hparts⟩ := List.forall_mem_cons.mp h
      cases parts with
      | nil =>
          rw [List.intercalate_singleton]
          exact runs_of_alphanumeric hpart hne
      | cons next parts =>
          rw [List.intercalate_cons_cons, List.append_assoc, List.singleton_append,
            runs_separated hpart hne hseparator, ih hparts]

/-! ### Words in a run -/

theorem Mode.after_of_isLower (mode : Mode) {c : Char} (h : c.isLower = true) :
    mode.after c = .lowercase := by
  rw [Mode.after, if_pos (isLowercase_of_isLower h)]

/-- Once a lower case letter has been read, digits keep the mode. -/
theorem Mode.after_of_isLowerOrDigit {c : Char} (h : IsLowerOrDigit c) :
    Mode.lowercase.after c = .lowercase := by
  rw [Mode.after]
  split
  · rfl
  · rw [if_neg (by simp [h.isUppercase])]

/-- A word goes on as far as there are lower case letters and digits. The invariant is the mode,
which is that of lower case letters from the first of them on. -/
theorem cutRun_lower {mode : Mode} {c : Char} (hmode : mode.after c = .lowercase)
    (hc : Text.isUppercase c = false) {more tail : List Char}
    (hmore : ∀ d ∈ more, IsLowerOrDigit d)
    (htail : ∀ d ∈ tail.head?, Text.isUppercase d = true) (word : List Char) :
    cutRun mode word (c :: (more ++ tail)) =
      (word.reverse ++ c :: more) :: cutRun .boundary [] tail := by
  induction more generalizing mode c word with
  | nil =>
      rw [List.nil_append]
      cases tail with
      | nil => simp [cutRun]
      | cons next tail =>
          have hnext : Text.isUppercase next = true := htail next rfl
          rw [cutRun, if_pos ⟨hmode, hnext⟩, List.reverse_cons]
  | cons next more ih =>
      obtain ⟨hnext, hmore⟩ := List.forall_mem_cons.mp hmore
      have hstay : ¬ (mode.after c = .lowercase ∧ Text.isUppercase next = true) := by
        simp [hnext.isUppercase]
      have hkeep : ¬ (mode = .uppercase ∧ Text.isUppercase c = true ∧
          Text.isLowercase next = true) := by
        simp [hc]
      rw [List.cons_append, cutRun, if_neg hstay, if_neg hkeep, hmode,
        ih (Mode.after_of_isLowerOrDigit hnext) hnext.isUppercase hmore, List.reverse_cons,
        List.append_assoc]
      rfl

section Words

variable (w : Word) {tail : List Char} (htail : ∀ d ∈ tail.head?, Text.isUppercase d = true)

include htail

theorem cutRun_chars :
    cutRun .boundary [] (w.chars ++ tail) = w.chars :: cutRun .boundary [] tail := by
  obtain ⟨hfirst, hmore⟩ := List.forall_mem_cons.mp w.isLowerOrDigit_chars
  exact cutRun_lower (Mode.after_of_isLower _ w.isLower_first) hfirst.isUppercase hmore htail []

/-- The capital in front of a word begins it and is no word of its own. -/
theorem cutRun_capitalised :
    cutRun .boundary [] (w.capitalised ++ tail) = w.capitalised :: cutRun .boundary [] tail := by
  have hafter : Mode.boundary.after w.first.toUpper = .uppercase := by
    rw [Mode.after, if_neg (by simp [isLowercase_toUpper w.isLower_first]),
      if_pos (isUppercase_toUpper w.isLower_first)]
  have hsecond : IsLowerOrDigit w.second := .inl w.isLower_second
  rw [Word.capitalised, List.cons_append, List.cons_append, cutRun, hafter, if_neg (by simp),
    if_neg (by simp), cutRun_lower (Mode.after_of_isLower _ w.isLower_second) hsecond.isUppercase
      w.isLowerOrDigit_rest htail]
  rfl

end Words

theorem isUppercase_head?_capitalised (ws : List Word) :
    ∀ d ∈ (ws.flatMap Word.capitalised).head?, Text.isUppercase d = true := by
  cases ws with
  | nil => intro d hd; cases hd
  | cons w ws =>
      intro d hd
      obtain rfl := Option.some.inj hd
      exact isUppercase_toUpper w.isLower_first

theorem cutRun_flatMap_capitalised (ws : List Word) :
    cutRun .boundary [] (ws.flatMap Word.capitalised) = ws.map Word.capitalised := by
  induction ws with
  | nil => rfl
  | cons w ws ih =>
      rw [List.flatMap_cons, cutRun_capitalised w (isUppercase_head?_capitalised ws), ih,
        List.map_cons]

theorem cutRun_of_chars (w : Word) : cutRun .boundary [] w.chars = [w.chars] := by
  have hcut : cutRun .boundary [] (w.chars ++ []) = w.chars :: cutRun .boundary [] [] :=
    cutRun_chars w (by simp)
  rwa [List.append_nil] at hcut

/-! ### Words of spellings -/

/-- A word as it stands in a name, with its first letter in either case. -/
def Word.IsForm (w : Word) (part : List Char) : Prop := part = w.chars ∨ part = w.capitalised

theorem forall₂_isForm_chars (ws : List Word) :
    List.Forall₂ Word.IsForm ws (ws.map Word.chars) := by
  rw [List.forall₂_map_right_iff]
  exact List.forall₂_same.mpr fun w _ => .inl rfl

theorem forall₂_isForm_capitalised (ws : List Word) :
    List.Forall₂ Word.IsForm ws (ws.map Word.capitalised) := by
  rw [List.forall₂_map_right_iff]
  exact List.forall₂_same.mpr fun w _ => .inr rfl

theorem words_of_run {run : List Char} (h : ∀ c ∈ run, Text.isAlphanumeric c = true)
    (hne : run ≠ []) : words (String.ofList run) = cutRun .boundary [] run := by
  rw [words, String.toList_ofList, runs_of_alphanumeric h hne, List.flatMap_singleton]

theorem words_separated {separator : Char} (hseparator : Text.isAlphanumeric separator = false)
    (ws : List Word) :
    words (String.ofList (List.intercalate [separator] (ws.map Word.chars))) =
      ws.map Word.chars := by
  have hparts : ∀ part ∈ ws.map Word.chars,
      part ≠ [] ∧ ∀ c ∈ part, Text.isAlphanumeric c = true := by
    rw [List.forall_mem_map]
    intro w _
    exact ⟨List.cons_ne_nil _ _, fun c hc => (w.isLowerOrDigit_chars c hc).isAlphanumeric⟩
  calc words (String.ofList (List.intercalate [separator] (ws.map Word.chars)))
      = (ws.map Word.chars).flatMap (cutRun .boundary []) := by
        rw [words, String.toList_ofList, runs_intercalate hseparator hparts]
    _ = ws.flatMap fun w => [w.chars] := by
        rw [List.flatMap_map]
        exact List.flatMap_congr fun w _ => cutRun_of_chars w
    _ = ws.map Word.chars := (List.map_eq_flatMap ..).symm

theorem isAlphanumeric_flatMap_capitalised (ws : List Word) :
    ∀ c ∈ ws.flatMap Word.capitalised, Text.isAlphanumeric c = true := by
  intro c hc
  obtain ⟨w, -, hc⟩ := List.mem_flatMap.mp hc
  have halphanum := w.isAlphanum_capitalised c hc
  rw [Text.isAlphanumeric_of_lt (Text.lt_of_isAlphanum halphanum), halphanum]

theorem words_pascal (ws : List Word) :
    words (Style.pascal.spell ws) = ws.map Word.capitalised := by
  cases ws with
  | nil => rfl
  | cons w ws =>
      have hne : (w :: ws).flatMap Word.capitalised ≠ [] := List.cons_ne_nil _ _
      rw [Style.spell, words_of_run (isAlphanumeric_flatMap_capitalised _) hne,
        cutRun_flatMap_capitalised]

theorem words_camel (w : Word) (ws : List Word) :
    words (Style.camel.spell (w :: ws)) = w.chars :: ws.map Word.capitalised := by
  have hrun : ∀ c ∈ w.chars ++ ws.flatMap Word.capitalised, Text.isAlphanumeric c = true := by
    rw [List.forall_mem_append]
    refine ⟨fun c hc => ?_, isAlphanumeric_flatMap_capitalised ws⟩
    exact (w.isLowerOrDigit_chars c hc).isAlphanumeric
  rw [Style.spell, words_of_run hrun (List.cons_ne_nil _ _),
    cutRun_chars w (isUppercase_head?_capitalised ws), cutRun_flatMap_capitalised]

/-- Whatever the style, the words of a name are those it was spelled from. -/
theorem words_spell (style : Style) (ws : List Word) :
    List.Forall₂ Word.IsForm ws (words (style.spell ws)) := by
  cases style with
  | camel =>
      cases ws with
      | nil => exact .nil
      | cons w ws =>
          rw [words_camel]
          exact .cons (.inl rfl) (forall₂_isForm_capitalised ws)
  | pascal =>
      rw [words_pascal]
      exact forall₂_isForm_capitalised ws
  | snake =>
      rw [Style.spell, words_separated (by decide)]
      exact forall₂_isForm_chars ws
  | spaced =>
      rw [Style.spell, words_separated (by decide)]
      exact forall₂_isForm_chars ws

/-! ### Spellings in either case -/

namespace Word

variable {w : Word} {part : List Char}

theorem lowerWord_eq (h : ∀ c ∈ part, IsLowerOrDigit c) : lowerWord part = part := by
  rw [lowerWord_of_isAlphanum fun c hc => (h c hc).isAlphanum]
  calc part.map Char.toLower
      = part.map id := List.map_congr_left fun c hc => (h c hc).toLower
    _ = part := List.map_id part

theorem IsForm.lowerWord (h : w.IsForm part) : Naming.lowerWord part = w.chars := by
  rcases h with rfl | rfl
  · exact lowerWord_eq w.isLowerOrDigit_chars
  · obtain ⟨-, hmore⟩ := List.forall_mem_cons.mp w.isLowerOrDigit_chars
    rw [lowerWord_of_isAlphanum w.isAlphanum_capitalised, capitalised, List.map_cons,
      toLower_toUpper w.isLower_first,
      ← lowerWord_of_isAlphanum fun c hc => (hmore c hc).isAlphanum, lowerWord_eq hmore]
    rfl

theorem IsForm.capitalWord (h : w.IsForm part) : Naming.capitalWord part = w.capitalised := by
  obtain ⟨hfirst, hmore⟩ := List.forall_mem_cons.mp w.isLowerOrDigit_chars
  rcases h with rfl | rfl
  · rw [chars, Naming.capitalWord, textToUpper_of_isAlphanum hfirst.isAlphanum, lowerWord_eq hmore]
    rfl
  · rw [capitalised, Naming.capitalWord,
      textToUpper_of_isAlphanum (isAlphanum_toUpper hfirst.isAlphanum),
      toUpper_toUpper w.isLower_first, lowerWord_eq hmore]
    rfl

end Word

theorem kebabCase_spell (style : Style) (ws : List Word) :
    kebabCase (style.spell ws) =
      String.ofList (List.intercalate ['-'] (ws.map Word.chars)) := by
  have hwords := map_eq_map_of_forall₂ (fun _ _ h => h.lowerWord.symm) (words_spell style ws)
  rw [kebabCase, ← hwords]

theorem upperCamelCase_spell (style : Style) (ws : List Word) :
    upperCamelCase (style.spell ws) = String.ofList (ws.flatMap Word.capitalised) := by
  have hwords := map_eq_map_of_forall₂ (fun _ _ h => h.capitalWord.symm) (words_spell style ws)
  rw [upperCamelCase, List.flatMap_def, ← hwords, ← List.flatMap_def]

end Naming

end ResourceApi
