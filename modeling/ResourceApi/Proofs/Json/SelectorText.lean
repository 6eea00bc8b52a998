import ResourceApi.Json.Selector
import ResourceApi.Proofs.Json.Reading
import ResourceApi.Proofs.Text.Edges

/-!
The texts of selectors. Behind the `$` a selector is a sequence of written segments, and it is read
in one way only. Each segment has one written form that stands for it whatever follows, so the segments
of a selector written in these forms are read back as they are.
-/

namespace ResourceApi.Json.Selector

open Text (EndsVisibly)

/-! ### The grammar -/

/-- A name that goes up to a dot, an opening bracket or the end. -/
structure IsName (name : List Char) : Prop where
  nonempty : name ≠ []
  chars : ∀ c ∈ name, isNameCharacter c = true

/-- No name goes on here. -/
def EndsName (rest : List Char) : Prop := ∀ c ∈ rest.head?, isNameCharacter c = false

/-- The texts of lists of segments. -/
inductive Reads : List Char → List Segment → Prop where
  | nil : Reads [] []
  | descendant {name rest : List Char} {segments : List Segment} (hname : IsName name)
      (hend : EndsName rest) (h : Reads rest segments) :
      Reads ('.' :: '.' :: (name ++ rest)) (.descendant (String.ofList name) :: segments)
  | star {rest : List Char} {segments : List Segment} (h : Reads rest segments) :
      Reads ('.' :: '*' :: rest) (.wildcard :: segments)
  | child {name rest : List Char} {segments : List Segment} (hname : IsName name)
      (hstar : name.head? ≠ some '*') (hend : EndsName rest) (h : Reads rest segments) :
      Reads ('.' :: (name ++ rest)) (.child (String.ofList name) :: segments)
  | bracket {inner rest : List Char} {segment : Segment} {segments : List Segment}
      (hclose : ']' ∉ inner) (hinner : bracket? (Text.trim inner) = some segment)
      (h : Reads rest segments) : Reads ('[' :: (inner ++ ']' :: rest)) (segment :: segments)

section Grammar

variable {s rest name : List Char} {segments : List Segment}

theorem isName_takeWhile (h : ¬ (rest.takeWhile isNameCharacter).isEmpty = true) :
    IsName (rest.takeWhile isNameCharacter) where
  nonempty := by simpa using h
  chars _ hc := List.mem_takeWhile_imp hc

theorem endsName_dropWhile (rest : List Char) : EndsName (rest.dropWhile isNameCharacter) := by
  intro c hc
  have hstop := List.head?_dropWhile_not isNameCharacter rest
  rw [Option.mem_def.mp hc] at hstop
  exact hstop

theorem IsName.exists_cons (h : IsName name) :
    ∃ c more, name = c :: more ∧ isNameCharacter c = true := by
  obtain ⟨c, more, rfl⟩ := List.exists_cons_of_ne_nil h.nonempty
  exact ⟨c, more, rfl, h.chars c List.mem_cons_self⟩

theorem reads_of_segmentsOf {fuel : Nat} (h : segmentsOf fuel s = .ok segments) :
    Reads s segments := by
  fun_induction segmentsOf fuel s generalizing segments with
  | case1 =>
      obtain rfl := Except.ok.inj h
      exact .nil
  | case2 | case3 | case6 | case8 | case9 | case11 => cases h
  | case4 fuel rest name hname =>
      rename_i ih
      obtain ⟨more, hmore, rfl⟩ := map_eq_ok h
      have hreads := Reads.descendant (isName_takeWhile hname) (endsName_dropWhile rest) (ih hmore)
      rwa [List.takeWhile_append_dropWhile] at hreads
  | case5 fuel rest ih =>
      obtain ⟨more, hmore, rfl⟩ := map_eq_ok h
      exact .star (ih hmore)
  | case7 fuel rest hdot hstar name hname =>
      rename_i ih
      obtain ⟨more, hmore, rfl⟩ := map_eq_ok h
      have hhead : (rest.takeWhile isNameCharacter).head? ≠ some '*' := by
        intro hhead
        obtain ⟨after, hafter⟩ := List.head?_eq_some_iff.mp hhead
        have hrest := List.takeWhile_append_dropWhile (p := isNameCharacter) (l := rest)
        rw [hafter] at hrest
        exact hstar _ hrest.symm
      have hreads := Reads.child (isName_takeWhile hname) hhead (endsName_dropWhile rest) (ih hmore)
      rwa [List.takeWhile_append_dropWhile] at hreads
  | case10 fuel rest c after hafter segment hsegment ih =>
      obtain ⟨more, hmore, rfl⟩ := map_eq_ok h
      have hstop := List.head?_dropWhile_not (fun c => decide (c ≠ ']')) rest
      rw [hafter] at hstop
      obtain rfl : c = ']' := by simpa using hstop
      have hclose : ']' ∉ rest.takeWhile fun c => decide (c ≠ ']') := by
        intro hmem
        simpa using List.mem_takeWhile_imp hmem
      have hreads := Reads.bracket hclose hsegment (ih hmore)
      rwa [← hafter, List.takeWhile_append_dropWhile] at hreads

/-- Each segment takes one step. -/
theorem Reads.segmentsOf_eq (h : Reads s segments) (extra : Nat) :
    segmentsOf (segments.length + extra) s = .ok segments := by
  induction h with
  | nil => cases extra <;> rfl
  | descendant hname hend _ ih =>
      obtain ⟨htake, hdrop⟩ := Text.takeWhile_append_stop hname.chars hend
      rw [List.length_cons, Nat.add_right_comm, segmentsOf, htake, hdrop,
        if_neg (by simpa using hname.nonempty), ih]
      rfl
  | star _ ih =>
      rw [List.length_cons, Nat.add_right_comm, segmentsOf, ih]
      rfl
  | child hname hstar hend _ ih =>
      obtain ⟨htake, hdrop⟩ := Text.takeWhile_append_stop hname.chars hend
      obtain ⟨c, more, rfl, hc⟩ := hname.exists_cons
      have hdot : c ≠ '.' := by
        rintro rfl
        cases hc
      have hwild : c ≠ '*' := by
        rintro rfl
        exact hstar rfl
      rw [List.length_cons, Nat.add_right_comm, segmentsOf, htake, hdrop, if_neg (by simp), ih]
      · rfl
      · exact fun _ heq => hdot (List.cons.inj heq).1
      · exact fun _ heq => hwild (List.cons.inj heq).1
  | @bracket inner rest _ _ hclose hinner _ ih =>
      have hchars : ∀ c ∈ inner, decide (c ≠ ']') = true :=
        fun c hc => decide_eq_true fun heq => hclose (heq ▸ hc)
      have hstop : ∀ c ∈ (']' :: rest).head?, decide (c ≠ ']') = false := by simp
      obtain ⟨htake, hdrop⟩ := Text.takeWhile_append_stop hchars hstop
      rw [List.length_cons, Nat.add_right_comm, segmentsOf, hdrop]
      dsimp only
      rw [htake, hinner, ih]
      rfl

theorem Reads.length_le (h : Reads s segments) : segments.length ≤ s.length := by
  induction h with
  | nil => exact Nat.le_refl 0
  | descendant | star | child | bracket =>
      simp only [List.length_cons, List.length_append]
      omega

/-- A text is a selector exactly if, without the white space around it, it is a `$` and the text of
segments. -/
theorem parse_eq_ok {source : String} {selector : Selector} :
    parse source = .ok selector ↔ selector.source = source ∧
      ∃ rest, Text.trim source.toList = '$' :: rest ∧ Reads rest selector.segments := by
  constructor
  · intro h
    unfold parse at h
    split at h
    · rename_i rest hrest
      split at h
      · rename_i segments hsegments
        obtain rfl := Except.ok.inj h
        exact ⟨rfl, rest, hrest, reads_of_segmentsOf hsegments⟩
      · cases h
    · cases h
  · rintro ⟨rfl, rest, hrest, hreads⟩
    obtain ⟨extra, hextra⟩ := Nat.exists_eq_add_of_le hreads.length_le
    have hsegments : segmentsOf rest.length rest = .ok selector.segments := by
      rw [hextra, hreads.segmentsOf_eq]
    simp only [parse, hrest, hsegments]

end Grammar

/-! ### Written forms -/

/-- The form in which a segment is written. A key is put between quotes unless that would end the
bracket too early. -/
def Segment.written : Segment → List Char
  | .wildcard => ['[', '*', ']']
  | .index n => '[' :: (Nat.toDigits 10 n ++ [']'])
  | .descendant name => '.' :: '.' :: name.toList
  | .child name =>
    if ']' ∈ name.toList then '.' :: name.toList
    else '[' :: (('\'' :: (name.toList ++ ['\''])) ++ [']'])

/-- The form in which a list of segments is written. -/
def written (segments : List Segment) : String :=
  String.ofList ('$' :: segments.flatMap Segment.written)

/-- The written form of the segment can be read. -/
def Segment.Readable : Segment → Prop
  | .wildcard => True
  | .index n => n < Nat.pow 2 64
  | .descendant name => IsName name.toList
  | .child name => ']' ∈ name.toList → IsName name.toList ∧ name.toList.head? ≠ some '*'

section Brackets

variable {inner : List Char} {q : Char} {name : List Char}

theorem unquote?_quoted : unquote? q (q :: (name ++ [q])) = some name := by
  simp [unquote?]

theorem quoted_of_unquote? (h : unquote? q inner = some name) : inner = q :: (name ++ [q]) := by
  unfold unquote? at h
  split at h
  · cases h
  · rename_i c rest
    split at h
    · rename_i hc
      split at h
      · rename_i d more hmore
        split at h
        · rename_i hd
          rw [hc, ← Option.some.inj h, ← hd, ← List.reverse_cons, ← hmore, List.reverse_reverse]
        · cases h
      · cases h
    · cases h

theorem bracket?_index {n : Nat} (h : n < Nat.pow 2 64) :
    bracket? (Nat.toDigits 10 n) = some (.index n) := by
  have hstar : Nat.toDigits 10 n ≠ ['*'] := by
    intro heq
    have hdigit : '*'.isDigit = true := Text.isDigit_of_mem_toDigits (heq ▸ List.mem_cons_self)
    cases hdigit
  rw [bracket?, if_neg hstar, Text.natural?_toDigits h]

theorem bracket?_quoted (name : String) :
    bracket? ('\'' :: (name.toList ++ ['\''])) = some (.child name) := by
  have hnatural : Text.natural? ('\'' :: (name.toList ++ ['\''])) = none := by
    rw [Text.natural?]
    · rw [if_neg (by simp), Text.digitsValue?_cons_of_not_digit rfl]
      rfl
    · simp
  rw [bracket?, if_neg (by simp), hnatural]
  dsimp only
  rw [unquote?_quoted, Option.some_or, Option.map_some, String.ofList_toList]

/-- What stands between brackets is a star, a number of 64 bits or a key. -/
theorem bracket?_cases {segment : Segment} (h : bracket? inner = some segment) :
    segment = .wildcard ∨ (∃ n, n < Nat.pow 2 64 ∧ segment = .index n) ∨
      ∃ name, (∀ c ∈ name, c ∈ inner) ∧ segment = .child (String.ofList name) := by
  unfold bracket? at h
  split at h
  · exact .inl (Option.some.inj h).symm
  · split at h
    · rename_i n hn
      exact .inr (.inl ⟨n, Text.natural?_lt hn, (Option.some.inj h).symm⟩)
    · obtain ⟨name, hname, rfl⟩ := Option.map_eq_some_iff.mp h
      refine .inr (.inr ⟨name, fun c hc => ?_, rfl⟩)
      rcases Option.or_eq_some_iff.mp hname with hname | ⟨-, hname⟩ <;>
        rw [quoted_of_unquote? hname] <;> simp [hc]

end Brackets

section Written

variable {s rest : List Char} {segment : Segment} {segments : List Segment}

theorem written_ne_nil (segment : Segment) : segment.written ≠ [] := by
  cases segment with
  | child name =>
      rw [Segment.written]
      split <;> exact List.cons_ne_nil _ _
  | index | wildcard | descendant => exact List.cons_ne_nil _ _

theorem endsName_written (segment : Segment) (rest : List Char) :
    EndsName (segment.written ++ rest) := by
  have hdot : ∀ s, EndsName ('.' :: s) := by simp [EndsName, isNameCharacter]
  have hbracket : ∀ s, EndsName ('[' :: s) := by simp [EndsName, isNameCharacter]
  cases segment with
  | child name =>
      rw [Segment.written]
      split
      · exact hdot _
      · exact hbracket _
  | descendant name => exact hdot _
  | index n => exact hbracket _
  | wildcard => exact hbracket _

theorem endsName_flatMap_written (segments : List Segment) :
    EndsName (segments.flatMap Segment.written) := by
  cases segments with
  | nil => exact fun c hc => by cases hc
  | cons segment segments => exact endsName_written segment _

theorem reads_bracket (hclose : ']' ∉ s) (hedges : Text.trim s = s)
    (hs : bracket? s = some segment) (h : Reads rest segments) :
    Reads ('[' :: (s ++ [']']) ++ rest) (segment :: segments) := by
  have hreads := Reads.bracket hclose (hedges.symm ▸ hs) h
  rwa [List.cons_append, List.append_assoc, List.singleton_append]

theorem trim_quoted (name : List Char) :
    Text.trim ('\'' :: (name ++ ['\''])) = '\'' :: (name ++ ['\'']) :=
  Text.trim_eq_self (by simp [Text.isWhiteSpace, Text.whiteSpace])
    ((Text.endsVisibly_concat (by decide)).cons (by decide))

/-- A written segment stands for itself, whatever segments follow. -/
theorem Segment.Readable.reads (hsegment : segment.Readable) (hend : EndsName rest)
    (h : Reads rest segments) : Reads (segment.written ++ rest) (segment :: segments) := by
  cases segment with
  | wildcard => exact reads_bracket (s := ['*']) (by simp) rfl rfl h
  | index n =>
      have hclose : ']' ∉ Nat.toDigits 10 n := by
        intro hmem
        cases Text.isDigit_of_mem_toDigits hmem
      have hedges : Text.trim (Nat.toDigits 10 n) = Nat.toDigits 10 n :=
        Text.trim_of_forall fun _ hc =>
          Text.not_whiteSpace_of_digit (Text.isDigit_of_mem_toDigits hc)
      exact reads_bracket hclose hedges (bracket?_index hsegment) h
  | descendant name =>
      have hreads := Reads.descendant hsegment hend h
      rwa [String.ofList_toList] at hreads
  | child name =>
      rw [Segment.written]
      split
      · rename_i hclose
        obtain ⟨hname, hstar⟩ := hsegment hclose
        have hreads := Reads.child hname hstar hend h
        rwa [String.ofList_toList] at hreads
      · rename_i hclose
        exact reads_bracket (by simpa using hclose) (trim_quoted _) (bracket?_quoted name) h

theorem reads_flatMap_written (h : ∀ segment ∈ segments, segment.Readable) :
    Reads (segments.flatMap Segment.written) segments := by
  induction segments with
  | nil => exact .nil
  | cons segment segments ih =>
      obtain ⟨hsegment, hsegments⟩ := List.forall_mem_cons.mp h
      exact hsegment.reads (endsName_flatMap_written segments) (ih hsegments)

/-- Segments that can be read are read back from their written form, if that does not end with white
space. -/
theorem parse_written (h : ∀ segment ∈ segments, segment.Readable)
    (hlast : EndsVisibly (segments.flatMap Segment.written)) :
    parse (written segments) = .ok ⟨written segments, segments⟩ := by
  refine parse_eq_ok.mpr ⟨rfl, segments.flatMap Segment.written, ?_, reads_flatMap_written h⟩
  rw [written, String.toList_ofList]
  exact Text.trim_eq_self (by simp [Text.isWhiteSpace, Text.whiteSpace])
    (hlast.cons (by decide))

/-! ### Written forms of what was read -/

theorem Reads.eq_nil (h : Reads s []) : s = [] := by
  cases h
  rfl

theorem endsVisibly_closed (s : List Char) : EndsVisibly ('[' :: (s ++ [']'])) :=
  (Text.endsVisibly_concat (by decide)).cons (by decide)

theorem readable_of_bracket? {inner : List Char} (hclose : ']' ∉ inner)
    (h : bracket? (Text.trim inner) = some segment) :
    segment.Readable ∧ EndsVisibly segment.written := by
  rcases bracket?_cases h with rfl | ⟨n, hn, rfl⟩ | ⟨name, hname, rfl⟩
  · exact ⟨trivial, endsVisibly_closed ['*']⟩
  · exact ⟨hn, endsVisibly_closed _⟩
  · have hmem : ']' ∉ (String.ofList name).toList := by
      rw [String.toList_ofList]
      exact fun hmem => hclose (Text.mem_of_mem_trim (hname _ hmem))
    refine ⟨fun h => absurd h hmem, ?_⟩
    rw [Segment.written, if_neg hmem]
    exact endsVisibly_closed _

theorem Reads.readable (h : Reads s segments) : ∀ segment ∈ segments, segment.Readable := by
  induction h with
  | nil => simp
  | descendant hname _ _ ih =>
      refine List.forall_mem_cons.mpr ⟨?_, ih⟩
      rwa [Segment.Readable, String.toList_ofList]
  | star _ ih => exact List.forall_mem_cons.mpr ⟨trivial, ih⟩
  | child hname hstar _ _ ih =>
      refine List.forall_mem_cons.mpr ⟨fun _ => ?_, ih⟩
      rw [String.toList_ofList]
      exact ⟨hname, hstar⟩
  | bracket hclose hinner _ ih =>
      exact List.forall_mem_cons.mpr ⟨(readable_of_bracket? hclose hinner).1, ih⟩

/-- Writing a segment anew in front of others keeps the end of the text free of white space. -/
theorem endsVisibly_cons (text : List Char) (h : Reads rest segments)
    (hwhole : EndsVisibly (text ++ rest))
    (hsegment : EndsVisibly text → EndsVisibly segment.written)
    (hrest : EndsVisibly rest → EndsVisibly (segments.flatMap Segment.written)) :
    EndsVisibly ((segment :: segments).flatMap Segment.written) := by
  rw [List.flatMap_cons]
  cases segments with
  | nil =>
      rw [h.eq_nil, List.append_nil] at hwhole
      rw [List.flatMap_nil, List.append_nil]
      exact hsegment hwhole
  | cons next segments =>
      apply (hrest hwhole.of_append).append
      rw [List.flatMap_cons]
      exact List.append_ne_nil_of_left_ne_nil (written_ne_nil next) _

theorem Reads.endsVisibly_written (h : Reads s segments) (hs : EndsVisibly s) :
    EndsVisibly (segments.flatMap Segment.written) := by
  induction h with
  | nil => exact hs
  | @descendant name rest segments _ _ hrest ih =>
      refine endsVisibly_cons ('.' :: '.' :: name) hrest hs (fun htext => ?_) ih
      rwa [Segment.written, String.toList_ofList]
  | @star rest segments hrest ih =>
      exact endsVisibly_cons ['.', '*'] hrest hs
        (fun _ => endsVisibly_closed ['*']) ih
  | @child name rest segments _ _ _ hrest ih =>
      refine endsVisibly_cons ('.' :: name) hrest hs (fun htext => ?_) ih
      rw [Segment.written, String.toList_ofList]
      split
      · exact htext
      · exact endsVisibly_closed _
  | @bracket inner rest segment segments hclose hinner hrest ih =>
      refine endsVisibly_cons ('[' :: (inner ++ [']'])) hrest ?_
        (fun _ => (readable_of_bracket? hclose hinner).2) ih
      rwa [List.cons_append, List.append_assoc, List.singleton_append]

theorem endsVisibly_flatMap_written (h : ∀ segment ∈ segments, EndsVisibly segment.written) :
    EndsVisibly (segments.flatMap Segment.written) := by
  induction segments with
  | nil => exact fun c hc => by cases hc
  | cons segment segments ih =>
      obtain ⟨hsegment, hsegments⟩ := List.forall_mem_cons.mp h
      rw [List.flatMap_cons]
      by_cases hnil : segments.flatMap Segment.written = []
      · rwa [hnil, List.append_nil]
      · exact (ih hsegments).append hnil

theorem isName_of_not_mem {name : String} (hne : name ≠ "") (hdot : '.' ∉ name.toList)
    (hbracket : '[' ∉ name.toList) : IsName name.toList where
  nonempty := by simpa using hne
  chars c hc := by
    have hnot : c ≠ '.' ∧ c ≠ '[' := ⟨fun heq => hdot (heq ▸ hc), fun heq => hbracket (heq ▸ hc)⟩
    simpa [isNameCharacter] using hnot

/-- Whatever selector is written in the forms of its segments is read as those segments again. So is
every list of segments whose keys do not hold a closing bracket, whose indices have 64 bits and whose
names for any depth are names that do not end with white space. -/
theorem written_segments_read_back :
    (∀ source selector, parse source = .ok selector →
      parse (written selector.segments) = .ok ⟨written selector.segments, selector.segments⟩) ∧
    ∀ segments : List Segment,
      (∀ name, .child name ∈ segments → ']' ∉ name.toList) →
      (∀ n, .index n ∈ segments → n < Nat.pow 2 64) →
      (∀ name, .descendant name ∈ segments → name ≠ "" ∧ '.' ∉ name.toList ∧ '[' ∉ name.toList ∧
        ∀ c ∈ name.toList.getLast?, Text.isWhiteSpace c = false) →
      parse (written segments) = .ok ⟨written segments, segments⟩ := by
  constructor
  · intro source selector h
    obtain ⟨-, rest, hrest, hreads⟩ := parse_eq_ok.mp h
    have hvisible : EndsVisibly (['$'] ++ rest) := by
      rw [List.singleton_append, ← hrest]
      exact Text.endsVisibly_trim source.toList
    exact parse_written hreads.readable (hreads.endsVisibly_written hvisible.of_append)
  · intro segments hchild hindex hdescendant
    have hall : ∀ segment ∈ segments, segment.Readable ∧ EndsVisibly segment.written := by
      intro segment hsegment
      cases segment with
      | wildcard => exact ⟨trivial, endsVisibly_closed ['*']⟩
      | index n => exact ⟨hindex n hsegment, endsVisibly_closed _⟩
      | descendant name =>
          obtain ⟨hne, hdot, hbracket, hlast⟩ := hdescendant name hsegment
          have hname := isName_of_not_mem hne hdot hbracket
          have hvisible : EndsVisibly name.toList := hlast
          exact ⟨hname, (hvisible.cons (by decide)).cons (by decide)⟩
      | child name =>
          have hclose := hchild name hsegment
          refine ⟨fun hmem => absurd hmem hclose, ?_⟩
          rw [Segment.written, if_neg hclose]
          exact endsVisibly_closed _
    exact parse_written (fun segment hsegment => (hall segment hsegment).1)
      (endsVisibly_flatMap_written fun segment hsegment => (hall segment hsegment).2)

/-- A key with a closing bracket, a key that holds a quote, an index with a sign and a star as the
name at any depth. -/
def mixedSource : String := " $.a]b[ \"it's\" ][+07]..*.* "

/-- A quote as a key, and a name that ends with a closing bracket. -/
def mixedSegments : List Segment := [.child "'", .child ". ", .index 0, .descendant "a]"]

theorem written_segments_read_back_mixed :
    (∃ selector, parse mixedSource = .ok selector ∧
      parse "$.a]b['it's'][7]..*[*]" = .ok ⟨"$.a]b['it's'][7]..*[*]", selector.segments⟩) ∧
    parse "$[''']['. '][0]..a]" = .ok ⟨"$[''']['. '][0]..a]", mixedSegments⟩ := by
  constructor
  · obtain ⟨selector, hsource, hwritten⟩ : ∃ selector, parse mixedSource = .ok selector ∧
        written selector.segments = "$.a]b['it's'][7]..*[*]" :=
      ⟨⟨mixedSource, [.child "a]b", .child "it's", .index 7, .descendant "*", .wildcard]⟩,
        by decide +kernel, by decide +kernel⟩
    have hback := written_segments_read_back.1 mixedSource selector hsource
    rw [hwritten] at hback
    exact ⟨selector, hsource, hback⟩
  · have hwritten : written mixedSegments = "$[''']['. '][0]..a]" := by decide +kernel
    rw [← hwritten]
    refine written_segments_read_back.2 mixedSegments ?_ ?_ ?_ <;>
      simp [mixedSegments, Text.isWhiteSpace, Text.whiteSpace]

end Written

end ResourceApi.Json.Selector
