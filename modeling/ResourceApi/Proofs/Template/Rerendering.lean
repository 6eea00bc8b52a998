import ResourceApi.Proofs.Json.Reading
import ResourceApi.Proofs.Template.Markers

/-!
Filling a template that has been filled before. The values are inserted as they are, so one can hold
a marker, or complete one with the text around it. All other markers of the filled template are
markers of the template that lead to no value.
-/

namespace ResourceApi.Template

section Filled

variable {document : Json} {template s before after : List Char} {m : Marker}
variable {p : Piece} {ps : List Piece}

/-- The path of the marker leads to a value. -/
def Marker.Resolves (document : Json) (m : Marker) : Prop :=
  (document.resolve? (m.segments.map String.ofList)).isSome = true

instance : Decidable (m.Resolves document) :=
  inferInstanceAs (Decidable (_ = true))

/-- The pieces with the values in place of the markers that lead to one. -/
def filling (document : Json) (ps : List Piece) : List Char :=
  ps.flatMap (Piece.replaced document)

/-- Behind this text stands a marker of the template that leads to no value. -/
def KeptAt (document : Json) (ps : List Piece) (before : List Char) (m : Marker) : Prop :=
  ∃ front back, ps = front ++ .marker m :: back ∧ ¬ m.Resolves document ∧
    filling document front = before

/-- A marker behind this text neither ends before an inserted value nor starts behind it. -/
def FormedAt (document : Json) (ps : List Piece) (before : List Char) (m : Marker) : Prop :=
  ∃ front inserted back, ps = front ++ .marker inserted :: back ∧ inserted.Resolves document ∧
    ¬ before ++ m.written <+: filling document front ∧
    ¬ filling document front ++ (Piece.marker inserted).replaced document <+: before

@[simp] theorem filling_nil : filling document [] = [] := rfl

@[simp] theorem filling_cons :
    filling document (p :: ps) = p.replaced document ++ filling document ps :=
  List.flatMap_cons

@[simp] theorem filling_append {front back : List Piece} :
    filling document (front ++ back) = filling document front ++ filling document back :=
  List.flatMap_append

theorem replaced_of_not_resolves (h : ¬ m.Resolves document) :
    (Piece.marker m).replaced document = m.written := by
  rw [Marker.Resolves, Bool.not_eq_true, Option.isSome_eq_false_iff, Option.isNone_iff_eq_none] at h
  rw [Piece.replaced, h]

theorem written_ne_nil : m.written ≠ [] := by
  rw [written_eq]
  exact List.cons_ne_nil _ _

/-! ### Behind one more piece -/

theorem KeptAt.cons (h : KeptAt document ps before m) :
    KeptAt document (p :: ps) (p.replaced document ++ before) m := by
  obtain ⟨front, back, rfl, hm, rfl⟩ := h
  exact ⟨p :: front, back, rfl, hm, filling_cons⟩

theorem FormedAt.cons (h : FormedAt document ps before m) :
    FormedAt document (p :: ps) (p.replaced document ++ before) m := by
  obtain ⟨front, inserted, back, rfl, hinserted, hends, hstarts⟩ := h
  refine ⟨p :: front, inserted, back, rfl, hinserted, ?_, ?_⟩
  · rwa [filling_cons, List.append_assoc, List.prefix_append_right_inj]
  · rwa [filling_cons, List.append_assoc, List.prefix_append_right_inj]

theorem Occurs.behind (first : List Char)
    (h : Occurs (first ++ template) (first ++ before) m after) : Occurs template before m after := by
  refine ⟨h.valid, ?_⟩
  have hwritten := h.written
  rwa [List.append_assoc, List.append_cancel_left_eq] at hwritten

/-! ### Kept and formed markers -/

/-- Pieces up to the first inserted value stand as they were written. -/
theorem filling_eq_or_exists_inserted (document : Json) (ps : List Piece) :
    filling document ps = ps.flatMap Piece.written ∨
      ∃ front inserted back, ps = front ++ .marker inserted :: back ∧
        inserted.Resolves document ∧ filling document front = front.flatMap Piece.written := by
  induction ps with
  | nil => exact .inl rfl
  | cons p ps ih =>
      by_cases hp : ∃ m, p = .marker m ∧ m.Resolves document
      · obtain ⟨m, rfl, hm⟩ := hp
        exact .inr ⟨[], m, ps, rfl, hm, rfl⟩
      · have hwritten : p.replaced document = p.written := by
          cases p with
          | character c => rfl
          | marker m => exact replaced_of_not_resolves fun hm => hp ⟨m, rfl, hm⟩
        rcases ih with hps | ⟨front, inserted, back, rfl, hinserted, hfront⟩
        · exact .inl (by rw [filling_cons, List.flatMap_cons, hwritten, hps])
        · refine .inr ⟨p :: front, inserted, back, rfl, hinserted, ?_⟩
          rw [filling_cons, List.flatMap_cons, hwritten, hfront]

theorem pieces_of_unread {c : Char} (hread : marker? (c :: s) = none) :
    pieces (c :: s) = .character c :: pieces s := by
  rw [pieces]
  split
  · rename_i hsome
    rw [hread] at hsome
    cases hsome
  · rfl

/-- Where the scan of the template read no marker, one that stands there afterwards is formed. -/
theorem formedAt_of_unread (hread : marker? s = none)
    (h : Occurs (filling document (pieces s)) [] m after) :
    FormedAt document (pieces s) [] m := by
  have hunread : ∀ m : Marker, m.Valid → ∀ behind, m.written ++ behind ≠ s := by
    rintro m hm behind rfl
    rw [marker?_eq_some.mpr ⟨hm, rfl⟩] at hread
    cases hread
  have hs := pieces_written s
  rcases filling_eq_or_exists_inserted document (pieces s) with
    heq | ⟨front, inserted, back, hps, hinserted, hfront⟩
  · exact absurd (h.written.symm.trans (heq.trans hs)) (hunread m h.valid after)
  · have hvalid : inserted.Valid := valid_of_mem_pieces (s := s) (by simp [hps])
    rw [hps, List.flatMap_append, List.flatMap_cons, ← hfront] at hs
    refine ⟨front, inserted, back, hps, hinserted, ?_, ?_⟩
    · rintro ⟨behind, hbehind⟩
      rw [← hbehind, List.nil_append, List.append_assoc] at hs
      exact hunread m h.valid _ hs
    · intro hstarts
      rw [(List.append_eq_nil_iff.mp (List.prefix_nil.mp hstarts)).1, List.nil_append] at hs
      exact hunread inserted hvalid _ hs

/-- A marker that leads to no value is met again, or another one stands behind it. -/
theorem Occurs.kept_or_behind {first : Marker} (hvalid : first.Valid)
    (hfirst : ¬ first.Resolves document)
    (h : Occurs (filling document (.marker first :: ps)) before m after) :
    (before = [] ∧ m = first) ∨
      ∃ before', before = (Piece.marker first).replaced document ++ before' ∧
        Occurs (filling document ps) before' m after := by
  have hkept : Occurs (filling document (.marker first :: ps)) [] first (filling document ps) := by
    refine ⟨hvalid, ?_⟩
    rw [filling_cons, replaced_of_not_resolves hfirst, List.nil_append]
  rcases hkept.disjoint h with ⟨rfl, rfl, -⟩ | ⟨between, rfl⟩ | ⟨between, hbetween⟩
  · exact .inl ⟨rfl, rfl⟩
  · rw [filling_cons, List.nil_append, ← replaced_of_not_resolves hfirst] at h
    rw [List.nil_append, ← replaced_of_not_resolves hfirst]
    exact .inr ⟨between, rfl, h.behind _⟩
  · exact absurd hbetween.symm (by simp [written_ne_nil])

/-- Each marker of the filled template is kept from the template or formed by an inserted value. -/
theorem keptAt_or_formedAt (h : Occurs (filling document (pieces s)) before m after) :
    KeptAt document (pieces s) before m ∨ FormedAt document (pieces s) before m := by
  fun_induction pieces s generalizing before with
  | case1 => exact absurd h.written.symm (by simp [written_ne_nil])
  | case2 c s first behind hread _ ih =>
      by_cases hfirst : first.Resolves document
      · by_cases hstarts : (Piece.marker first).replaced document <+: before
        · obtain ⟨before, rfl⟩ := hstarts
          rw [filling_cons] at h
          exact (ih (h.behind _)).imp KeptAt.cons FormedAt.cons
        · exact .inr ⟨[], first, pieces behind, rfl, hfirst, by simp [written_ne_nil], hstarts⟩
      · rcases h.kept_or_behind (marker?_eq_some.mp hread).1 hfirst with
          ⟨rfl, rfl⟩ | ⟨before, rfl, hbehind⟩
        · exact .inl ⟨[], pieces behind, rfl, hfirst, rfl⟩
        · exact (ih hbehind).imp KeptAt.cons FormedAt.cons
  | case3 c s hread ih =>
      cases before with
      | nil =>
          rw [← pieces_of_unread hread] at h ⊢
          exact .inr (formedAt_of_unread hread h)
      | cons d before =>
          obtain rfl : c = d := (List.cons.inj h.written).1
          exact (ih (h.behind [c])).imp KeptAt.cons FormedAt.cons

/-- A marker that is kept is not formed. -/
theorem KeptAt.not_formedAt (h : KeptAt document ps before m) :
    ¬ FormedAt document ps before m := by
  obtain ⟨front, back, rfl, hm, rfl⟩ := h
  rintro ⟨front', inserted, back', hps, hinserted, hends, hstarts⟩
  have hne : m ≠ inserted := by
    rintro rfl
    exact hm hinserted
  rcases List.append_eq_append_iff.mp hps with ⟨gap, rfl, hgap⟩ | ⟨gap, rfl, hgap⟩
  · rcases List.cons_eq_append_iff.mp hgap with ⟨-, heq⟩ | ⟨gap, rfl, -⟩
    · exact hne (Piece.marker.inj (List.cons.inj heq).1).symm
    · refine hends ⟨filling document gap, ?_⟩
      rw [filling_append, filling_cons, replaced_of_not_resolves hm, List.append_assoc]
  · rcases List.cons_eq_append_iff.mp hgap with ⟨-, heq⟩ | ⟨gap, rfl, -⟩
    · exact hne (Piece.marker.inj (List.cons.inj heq).1)
    · refine hstarts ⟨filling document gap, ?_⟩
      rw [filling_append, filling_cons, List.append_assoc]

/-- If the only pieces with an opening brace are markers that lead to no value, no marker is
formed. -/
theorem keptAt_of_braces (hvalid : ∀ m, .marker m ∈ ps → m.Valid)
    (hbraces : ∀ p ∈ ps, '{' ∈ p.replaced document → ∃ m, p = .marker m ∧ ¬ m.Resolves document)
    (h : Occurs (filling document ps) before m after) : KeptAt document ps before m := by
  induction ps generalizing before with
  | nil => exact absurd h.written.symm (by simp [written_ne_nil])
  | cons p ps ih =>
      obtain ⟨hp, hps⟩ := List.forall_mem_cons.mp hbraces
      have hkept {before : List Char} (h : Occurs (filling document ps) before m after) :
          KeptAt document ps before m :=
        ih (fun m hm => hvalid m (List.mem_cons_of_mem p hm)) hps h
      by_cases hbrace : '{' ∈ p.replaced document
      · obtain ⟨first, rfl, hfirst⟩ := hp hbrace
        rcases h.kept_or_behind (hvalid first List.mem_cons_self) hfirst with
          ⟨rfl, rfl⟩ | ⟨before, rfl, hbehind⟩
        · exact ⟨[], ps, rfl, hfirst, rfl⟩
        · exact (hkept hbehind).cons
      · obtain ⟨before, rfl⟩ : p.replaced document <+: before := by
          have hwritten := h.written
          rw [filling_cons, written_eq, List.cons_append] at hwritten
          rcases List.append_eq_append_iff.mp hwritten with ⟨gap, rfl, -⟩ | ⟨gap, hgap, hbehind⟩
          · exact List.prefix_append _ _
          · cases gap with
            | nil => simp [hgap]
            | cons c gap =>
                obtain ⟨rfl, -⟩ := List.cons.inj hbehind
                exact absurd (by simp [hgap]) hbrace
        rw [filling_cons] at h
        exact (hkept (h.behind _)).cons

/-- A text stays as it is if all its markers do. -/
theorem filling_pieces (h : ∀ before m after, Occurs s before m after →
    (Piece.marker m).replaced document = m.written) : filling document (pieces s) = s := by
  have hpieces : ∀ p ∈ pieces s, p.replaced document = p.written := by
    intro p hp
    cases p with
    | character c => rfl
    | marker m =>
        obtain ⟨front, back, hsplit⟩ := List.append_of_mem hp
        exact h _ m _ (occurs_iff.mpr ⟨front, back, hsplit, rfl, rfl⟩)
  rw [filling, List.flatMap_congr hpieces, pieces_written]

end Filled

section Render

/-- A text that is no JSON fills nothing, however often. The markers of a filled template are of two
kinds: those of the template that lead to no value, and those that overlap an inserted value or
surround it. Only the latter can be filled when the template is filled again. So nothing changes if
they lead to no value either, or to their own text; and there are none if no opening brace stands
outside of the markers of the template or in the values that are inserted. -/
theorem rendering_again_fills_formed_markers (source template : String) :
    (∀ e, Json.parse source = .error e →
      render source (render source template) = render source template) ∧
    ∀ document, Json.parse source = .ok document →
      (∀ before m after, Occurs (render source template).toList before m after →
        (KeptAt document (pieces template.toList) before m ↔
          ¬ FormedAt document (pieces template.toList) before m)) ∧
      ((∀ before m after, Occurs (render source template).toList before m after →
          FormedAt document (pieces template.toList) before m →
          (Piece.marker m).replaced document = m.written) →
        render source (render source template) = render source template) ∧
      ((∀ p ∈ pieces template.toList, '{' ∈ p.replaced document →
          ∃ m, p = .marker m ∧ ¬ m.Resolves document) →
        render source (render source template) = render source template) := by
  constructor
  · intro e he
    rw [render, he]
  intro document hdocument
  have hrender (template : String) : render source template = fill document template := by
    rw [render, hdocument]
  have hfilling (template : String) :
      (render source template).toList = filling document (pieces template.toList) := by
    rw [hrender, toList_fill, filling]
  have hkept : (∀ before m after, Occurs (render source template).toList before m after →
        (Piece.marker m).replaced document = m.written) →
      render source (render source template) = render source template := by
    intro h
    exact String.toList_inj.mp ((hfilling _).trans (filling_pieces h))
  refine ⟨?_, ?_, ?_⟩
  · intro before m after h
    rw [hfilling] at h
    exact ⟨KeptAt.not_formedAt, (keptAt_or_formedAt h).resolve_right⟩
  · intro hformed
    refine hkept fun before m after h => ?_
    rcases keptAt_or_formedAt (hfilling template ▸ h) with ⟨_, _, _, hm, _⟩ | hm
    · exact replaced_of_not_resolves hm
    · exact hformed before m after h hm
  · intro hbraces
    refine hkept fun before m after h => ?_
    obtain ⟨_, _, _, hm, _⟩ :=
      keptAt_of_braces (fun _ => valid_of_mem_pieces) hbraces (hfilling template ▸ h)
    exact replaced_of_not_resolves hm

/-- One member holds a marker that leads to no value. -/
def quotingSource : String := "\x7b\"quoted\":\"\x7b\x7bb\x7d\x7d\",\"plain\":\"x\"\x7d"

def quotingDocument : Json :=
  .object [("quoted", .string "\x7b\x7bb\x7d\x7d"), ("plain", .string "x")]

theorem rendering_again_fills_formed_markers_quoted :
    render quotingSource (render quotingSource "\x7b\x7bquoted\x7d\x7d") =
      render quotingSource "\x7b\x7bquoted\x7d\x7d" ∧
    render quotingSource (render quotingSource "\x7b\x7bplain\x7d\x7d\x7b\x7bb\x7d\x7d") =
      render quotingSource "\x7b\x7bplain\x7d\x7d\x7b\x7bb\x7d\x7d" ∧
    render "a" (render "a" "\x7b\x7ba\x7d\x7d") = render "a" "\x7b\x7ba\x7d\x7d" := by
  have hparse : Json.parse quotingSource = .ok quotingDocument :=
    Json.eq_ok_of_toOption (by decide +kernel)
  refine ⟨?_, ?_, ?_⟩
  · obtain ⟨-, hformed, -⟩ := (rendering_again_fills_formed_markers _ _).2 _ hparse
    refine hformed fun before m after h _ => ?_
    obtain ⟨front, back, hpieces, -, -⟩ := occurs_iff.mp h
    have hm : .marker m ∈ pieces (render quotingSource "\x7b\x7bquoted\x7d\x7d").toList := by
      simp [hpieces]
    have hb : pieces (render quotingSource "\x7b\x7bquoted\x7d\x7d").toList =
        [.marker ⟨[], [['b']], []⟩] := by decide +kernel
    obtain rfl := Piece.marker.inj (List.mem_singleton.mp (hb ▸ hm))
    exact replaced_of_not_resolves (by decide +kernel)
  · obtain ⟨-, -, hbraces⟩ := (rendering_again_fills_formed_markers _ _).2 _ hparse
    apply hbraces
    have hpieces : pieces "\x7b\x7bplain\x7d\x7d\x7b\x7bb\x7d\x7d".toList =
        [.marker ⟨[], ["plain".toList], []⟩, .marker ⟨[], [['b']], []⟩] := by decide +kernel
    rw [hpieces, List.forall_mem_cons, List.forall_mem_singleton]
    exact ⟨fun hbrace => absurd hbrace (by decide +kernel), fun _ => ⟨_, rfl, by decide +kernel⟩⟩
  · cases hparse : Json.parse "a" with
    | error e => exact (rendering_again_fills_formed_markers _ _).1 e hparse
    | ok document =>
        have herror : (Json.parse "a").isOk = false := by decide +kernel
        rw [hparse] at herror
        cases herror

/-- The second rendering fills the marker that the first one inserts. -/
theorem rendering_again_differs :
    ¬ ∀ source template, render source (render source template) = render source template := by
  intro h
  have hab := h "\x7b\"a\":\"\x7b\x7bb\x7d\x7d\",\"b\":\"x\"\x7d" "\x7b\x7ba\x7d\x7d"
  revert hab
  decide +kernel

end Render

end ResourceApi.Template
