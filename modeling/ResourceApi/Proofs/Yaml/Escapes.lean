import Mathlib.Tactic.SplitIfs
import ResourceApi.Proofs.Yaml.Cursor

/-!
Escapes between double quotes. A character is written by one letter or by the digits of its code in
base 16, and reading the escape gives the character back.
-/

namespace ResourceApi.Yaml

/-! ### Digits in base 16 -/

/-- Digits in base 16 stand for a number. -/
def IsHex (ds : List Char) (n : Nat) : Prop :=
  (ds.mapM hexValue?).map (List.foldl (fun n d => 16 * n + d) 0) = some n

theorem isHex_nil : IsHex [] 0 := rfl

theorem IsHex.concat {ds : List Char} {c : Char} {n d : Nat} (h : IsHex ds n)
    (hc : hexValue? c = some d) : IsHex (ds ++ [c]) (16 * n + d) := by
  obtain ⟨values, hvalues, hn⟩ := Option.map_eq_some_iff.mp h
  simp [IsHex, List.mapM_append, hvalues, hc, hn]

theorem IsHex.cons_zero {ds : List Char} {n : Nat} (h : IsHex ds n) : IsHex ('0' :: ds) n := by
  obtain ⟨values, hvalues, hn⟩ := Option.map_eq_some_iff.mp h
  simp [IsHex, hvalues, show hexValue? '0' = some 0 by decide, hn]

theorem hexValue?_toUpper_digitChar :
    ∀ n < 16, hexValue? n.digitChar.toUpper = some n := by decide

theorem isHex_toDigits (n : Nat) : IsHex ((Nat.toDigits 16 n).map Char.toUpper) n := by
  induction n using Nat.strongRecOn with
  | _ n ih =>
  rw [Nat.toDigits_eq_if (by decide)]
  split
  · next h => simpa using isHex_nil.concat (hexValue?_toUpper_digitChar n h)
  · next h =>
      have hdigit := hexValue?_toUpper_digitChar (n % 16) (Nat.mod_lt _ (by decide))
      rw [List.map_append]
      have hconcat := (ih (n / 16) (by omega)).concat hdigit
      rwa [Nat.div_add_mod] at hconcat

theorem isHex_hexDigits (width n : Nat) : IsHex (hexDigits width n) n := by
  rw [hexDigits]
  induction width - ((Nat.toDigits 16 n).map Char.toUpper).length with
  | zero => exact isHex_toDigits n
  | succ k ih => exact ih.cons_zero

theorem length_toDigits_byte {n : Nat} (h : n ≤ 0xFF) : (Nat.toDigits 16 n).length ≤ 2 :=
  (Nat.length_toDigits_le_iff (by decide) (by decide)).mpr (by omega)

theorem length_toDigits_plane {n : Nat} (h : n ≤ 0xFFFF) : (Nat.toDigits 16 n).length ≤ 4 :=
  (Nat.length_toDigits_le_iff (by decide) (by decide)).mpr (by omega)

theorem length_toDigits_char (x : Char) : (Nat.toDigits 16 x.toNat).length ≤ 8 := by
  have hvalid := x.valid
  simp only [UInt32.isValidChar, Nat.isValidChar] at hvalid
  have hval : x.toNat = x.val.toNat := rfl
  exact (Nat.length_toDigits_le_iff (by decide) (by decide)).mpr (by omega)

theorem length_hexDigits {width n : Nat} (h : (Nat.toDigits 16 n).length ≤ width) :
    (hexDigits width n).length = width := by
  simp [hexDigits]
  omega

theorem hexCharacter_hexDigits {width : Nat} {c : Char} {d : Cursor} {rest : List Char}
    (hc : (Nat.toDigits 16 c.toNat).length ≤ width)
    (h : d.rest = hexDigits width c.toNat ++ rest) :
    hexCharacter width d = some (c, d.skip width) := by
  have hlength := length_hexDigits hc
  have htake : d.rest.take width = hexDigits width c.toNat := by
    rw [h, List.take_left' hlength]
  obtain ⟨values, hvalues, hn⟩ := Option.map_eq_some_iff.mp (isHex_hexDigits width c.toNat)
  have hvalid : c.toNat.isValidChar := c.valid
  simp [hexCharacter, htake, hlength, hvalues, hn, hvalid]

theorem isBreak_of_hexValue? {x : Char} {d : Nat} (h : hexValue? x = some d) :
    isBreak x = false := by
  refine Bool.eq_false_iff.mpr fun hx => ?_
  simp only [isBreak, Bool.or_eq_true, decide_eq_true_eq] at hx
  rcases hx with (((rfl | rfl) | rfl) | rfl) | rfl <;> simp [hexValue?] at h

theorem IsHex.exists_hexValue? {ds : List Char} {n : Nat} (h : IsHex ds n) :
    ∀ x ∈ ds, ∃ d, hexValue? x = some d := by
  obtain ⟨values, hvalues, -⟩ := Option.map_eq_some_iff.mp h
  clear h
  induction ds generalizing values with
  | nil => simp
  | cons x ds ih =>
      rw [List.mapM_cons] at hvalues
      obtain ⟨d, hd, hvalues⟩ := Option.bind_eq_some_iff.mp hvalues
      obtain ⟨more, hmore, -⟩ := Option.bind_eq_some_iff.mp hvalues
      exact List.forall_mem_cons.mpr ⟨⟨d, hd⟩, ih more hmore⟩

theorem IsHex.isBreak {ds : List Char} {n : Nat} (h : IsHex ds n) :
    ∀ x ∈ ds, isBreak x = false := by
  intro x hx
  obtain ⟨d, hd⟩ := h.exists_hexValue? x hx
  exact isBreak_of_hexValue? hd

/-! ### Escapes -/

/-- Behind a backslash the text is read as the character. -/
structure IsEscape (e : List Char) (x : Char) : Prop where
  ne_nil : e ≠ []
  flat : ∀ y ∈ e, isBreak y = false
  read : ∀ {c : Cursor} {rest : List Char}, c.rest = e ++ rest →
    escape c = some (x, c.skip e.length)

theorem isEscape_letter {l x : Char} (h : letterEscape? l = some x) (hbreak : isBreak l = false) :
    IsEscape [l] x where
  ne_nil := List.cons_ne_nil _ _
  flat := by simpa using hbreak
  read hrest := by
    rw [escape, Cursor.peek_of_rest hrest]
    split
    · next heq => cases heq
    · next heq => cases heq; cases h
    · next heq => cases heq; cases h
    · next heq => cases heq; cases h
    · next heq => cases heq; rw [h]; rfl

theorem isEscape_hexDigits {mark : Char} {width : Nat} {x : Char}
    (hmark : ∀ c : Cursor, c.peek = some mark → escape c = hexCharacter width (c.skip 1))
    (hbreak : isBreak mark = false) (hx : (Nat.toDigits 16 x.toNat).length ≤ width) :
    IsEscape (mark :: hexDigits width x.toNat) x where
  ne_nil := List.cons_ne_nil _ _
  flat := List.forall_mem_cons.mpr ⟨hbreak, (isHex_hexDigits width x.toNat).isBreak⟩
  read {c rest} hrest := by
    have hskip : (c.skip 1).rest = hexDigits width x.toNat ++ rest := by
      rw [Cursor.skip_rest, hrest]
      rfl
    rw [hmark c (Cursor.peek_of_rest hrest), hexCharacter_hexDigits hx hskip,
      Cursor.skip_skip, List.length_cons, length_hexDigits hx, Nat.add_comm]

/-- The escape of a character is read as the character. -/
theorem exists_escaped (x : Char) : ∃ e, escaped x = '\\' :: e ∧ IsEscape e x := by
  unfold escaped
  simp only
  split
  · next letter hletter =>
      obtain ⟨before, behind, hshort, -⟩ := List.lookup_eq_some_iff.mp hletter
      have hread : ∀ pair ∈ before ++ (x, letter) :: behind,
          letterEscape? pair.2 = some pair.1 ∧ isBreak pair.2 = false := by
        rw [← hshort]
        decide
      obtain ⟨hescape, hbreak⟩ := hread (x, letter) (by simp)
      exact ⟨[letter], rfl, isEscape_letter hescape hbreak⟩
  · split_ifs with hbyte hplane
    · exact ⟨_, rfl, isEscape_hexDigits (fun c hc => by rw [escape, hc]; rfl) (by decide)
        (length_toDigits_byte hbyte)⟩
    · exact ⟨_, rfl, isEscape_hexDigits (fun c hc => by rw [escape, hc]; rfl) (by decide)
        (length_toDigits_plane hplane)⟩
    · exact ⟨_, rfl, isEscape_hexDigits (fun c hc => by rw [escape, hc]; rfl) (by decide)
        (length_toDigits_char x)⟩

end ResourceApi.Yaml
