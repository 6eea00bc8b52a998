import ResourceApi.Proofs.Json.Lists

/-!
The scanner passes over the tokens of the grammar. It stops behind each token, counts its
characters, and reads the same keys as the strict reader.
-/

namespace ResourceApi.Json.Spans

variable {offset : Nat} {rest : List Char}

/-! ### Blanks, words and numbers -/

theorem isBlank_eq : Cursor.isBlank = Reader.isBlank := by
  funext c
  simp only [Cursor.isBlank, Reader.isBlank]
  grind

theorem skipWhile_append {p : Char → Bool} {s : List Char} (hs : ∀ c ∈ s, p c = true)
    (hrest : ∀ c, rest.head? = some c → p c = false) :
    Cursor.skipWhile p ⟨offset, s ++ rest⟩ = ⟨offset + s.length, rest⟩ := by
  have htake : rest.takeWhile p = [] ∧ rest.dropWhile p = rest := by
    cases rest with
    | nil => exact ⟨rfl, rfl⟩
    | cons c rest => simp [hrest c rfl]
  simp only [Cursor.skipWhile, List.takeWhile_append_of_pos hs, List.dropWhile_append_of_pos hs,
    htake, List.append_nil]

theorem skipBlank_cons {b : List Char} {c : Char} (hb : Blank b) (hc : Reader.isBlank c = false) :
    Cursor.skipBlank ⟨offset, b ++ c :: rest⟩ = ⟨offset + b.length, c :: rest⟩ := by
  rw [Cursor.skipBlank, isBlank_eq]
  refine skipWhile_append hb fun d hd => ?_
  rw [List.head?_cons, Option.some.injEq] at hd
  exact hd ▸ hc

theorem skipBlank_blank {b : List Char} (hb : Blank b) :
    Cursor.skipBlank ⟨offset, b⟩ = ⟨offset + b.length, []⟩ := by
  have hskip : Cursor.skipWhile Reader.isBlank ⟨offset, b ++ []⟩ = ⟨offset + b.length, []⟩ :=
    skipWhile_append hb (by simp)
  rwa [List.append_nil, ← isBlank_eq] at hskip

theorem literal_append (name : String) (w : List Char) (offset : Nat) (rest : List Char) :
    Cursor.literal name w ⟨offset, w ++ rest⟩ = .ok ⟨offset + w.length, rest⟩ := by
  induction w generalizing offset with
  | nil => rfl
  | cons c w ih =>
      simp only [List.cons_append, Cursor.literal, Cursor.next?, if_true, ih, List.length_cons,
        Nat.add_assoc, Nat.add_comm 1]

theorem skipWhile_numeral {text : List Char} {n : Number} (h : Numeral text n)
    (hrest : Stops rest) :
    Cursor.skipWhile isNumberCharacter ⟨offset, text ++ rest⟩ = ⟨offset + text.length, rest⟩ :=
  skipWhile_append h.numberCharacters hrest

/-! ### Strings -/

theorem hexDigits_append {ds : List Char} {n : Nat} (h : HexUnit ds n) :
    hexDigits 4 0 ⟨offset, ds ++ rest⟩ = .ok (n, ⟨offset + 4, rest⟩) := by
  cases h with
  | digits ha hb hc hd =>
      rw [show Reader.hexValue? = hexDigit? from rfl] at ha hb hc hd
      simp only [List.cons_append, List.nil_append, hexDigits, Cursor.next?, ha, hb, hc, hd,
        Except.ok.injEq, Prod.mk.injEq, Nat.add_assoc, Nat.reduceAdd, and_true]
      omega

theorem unicodeEscape_append {e : List Char} {c : Char} (h : Escape ('u' :: e) c) :
    unicodeEscape ⟨offset, e ++ rest⟩ = .ok (c, ⟨offset + e.length, rest⟩) := by
  cases h with
  | letter h => simp [Reader.simpleEscape?] at h
  | @unit s n hs hn =>
      have hhigh : ¬ (0xD800 ≤ n ∧ n < 0xDC00) := by omega
      have hunit : ¬ (0xD800 ≤ n ∧ n < 0xE000) := by omega
      simp only [unicodeEscape, hexDigits_append hs, hhigh, if_false, ofUnit, hunit,
        hs.length_eq]
  | @pair s t high low hs ht hhigh hlow =>
      have h1 : 0xD800 ≤ high ∧ high < 0xDC00 := by omega
      have h2 : 0xDC00 ≤ low ∧ low < 0xE000 := by omega
      simp only [unicodeEscape, List.append_assoc, List.cons_append, hexDigits_append hs, h1, h2,
        hexDigits_append ht, and_self, if_true, Nat.add_assoc, List.length_append,
        List.length_cons, hs.length_eq, ht.length_eq]

theorem stringBody_escape {e : List Char} {c : Char} (he : Escape e c) (fuel offset : Nat)
    (done rest : List Char) :
    stringBody (fuel + 1) done ⟨offset, '\\' :: (e ++ rest)⟩ =
      stringBody fuel (c :: done) ⟨offset + 1 + e.length, rest⟩ := by
  have hunit : ∀ {t}, Escape ('u' :: t) c →
      stringBody (fuel + 1) done ⟨offset, '\\' :: ('u' :: t ++ rest)⟩ =
        stringBody fuel (c :: done) ⟨offset + 1 + ('u' :: t).length, rest⟩ := by
    intro t ht
    have hlength : offset + 1 + ('u' :: t).length = offset + 1 + 1 + t.length := by
      rw [List.length_cons]
      omega
    simp only [List.cons_append, stringBody, Cursor.next?, unicodeEscape_append ht, if_true,
      hlength]
    rfl
  cases he with
  | @letter l c h =>
      have hu : l ≠ 'u' := by
        rintro rfl
        simp [Reader.simpleEscape?] at h
      rw [show Reader.simpleEscape? = escape? from rfl] at h
      simp only [List.cons_append, List.nil_append, stringBody, Cursor.next?, hu, if_false, h,
        if_true, List.length_cons, List.length_nil]
      rfl
  | unit hs hn => exact hunit (.unit hs hn)
  | pair hs ht hhigh hlow => exact hunit (.pair hs ht hhigh hlow)

theorem stringBody_append {text cs : List Char} (h : StringRest text cs) (fuel offset : Nat)
    (done : List Char) (hfuel : text.length ≤ fuel) :
    stringBody fuel done ⟨offset, text ++ rest⟩ =
      .ok (String.ofList (done.reverse ++ cs), ⟨offset + text.length, rest⟩) := by
  induction h generalizing fuel offset done with
  | close =>
      obtain ⟨fuel, rfl⟩ : ∃ n, fuel = n + 1 := ⟨fuel - 1, by simp at hfuel; omega⟩
      simp [stringBody, Cursor.next?]
  | @plain c text cs hquote hslash hcontrol h ih =>
      obtain ⟨fuel, rfl⟩ : ∃ n, fuel = n + 1 := ⟨fuel - 1, by simp at hfuel; omega⟩
      simp only [List.length_cons, Nat.add_le_add_iff_right] at hfuel
      simp only [List.cons_append, stringBody, Cursor.next?, hquote, hslash, if_false,
        ih fuel _ (c :: done) hfuel, List.reverse_cons, List.append_assoc, List.nil_append,
        List.length_cons, Nat.add_assoc, Nat.add_comm 1]
  | @escape e text cs c he h ih =>
      obtain ⟨fuel, rfl⟩ : ∃ n, fuel = n + 1 := ⟨fuel - 1, by simp at hfuel; omega⟩
      have hlength : text.length ≤ fuel := by
        simp only [List.length_cons, List.length_append] at hfuel
        omega
      have hbody := ih fuel (offset + 1 + e.length) (c :: done) hlength
      rw [List.reverse_cons, List.append_assoc, List.singleton_append] at hbody
      have hoffset : offset + ('\\' :: (e ++ text)).length =
          offset + 1 + e.length + text.length := by
        rw [List.length_cons, List.length_append]
        omega
      rw [hoffset, ← hbody, List.cons_append, List.append_assoc]
      exact stringBody_escape he fuel offset done (text ++ rest)

theorem string_append {q : List Char} {k : String} (h : Quoted q k) :
    Spans.string ⟨offset, q ++ rest⟩ = .ok (k, ⟨offset + q.length, rest⟩) := by
  cases h with
  | @mk text chars h =>
      have hfuel : text.length ≤ (text ++ rest).length + 1 := by
        rw [List.length_append]
        omega
      simp only [Spans.string, Cursor.expect, Cursor.next?, List.cons_append, if_true,
        stringBody_append h _ _ [] hfuel, List.reverse_nil, List.nil_append, List.length_cons,
        Nat.add_assoc, Nat.add_comm 1]

end ResourceApi.Json.Spans
