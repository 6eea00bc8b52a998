import Mathlib.Data.List.TakeWhile
import ResourceApi.Proofs.Json.Automaton
import ResourceApi.Proofs.Json.Printing
import ResourceApi.Proofs.Json.Progress

/-!
Where scanning fails. The scanner goes through its text as the automaton does: where it succeeds, the
automaton has come to the state behind the value, and where it fails, the automaton is stuck at the
next character, or the text is at its end while something is still due. Since every state can be
completed, the offset of an error is tight: what has been consumed, but for the last character, is the
beginning of a text that is scanned, and what has been looked at is not, unless it is all there is.
-/

namespace ResourceApi.Json.Spans

open Cursor Automaton
open Reader (Frame)

/-! ### Following a reader -/

/-- From a state at a place the automaton follows what a reader does: to the place behind what has
been read and a state with some property, to the end of the text, or to a character with no place.
An error is reported in front of this character or behind it. -/
inductive Tracks {α : Type} (place : α → Cursor) (s : Config) (c : Cursor)
    (goal : Config → Cursor → Prop) : Except Error α → Prop where
  | reads {a : α} {w : List Char} {t : Config} (hread : c.Reads w (place a))
      (hrun : run s w = some t) (hgoal : goal t (place a)) : Tracks place s c goal (.ok a)
  | ends {e : Error} {t : Config} (hrun : run s c.rest = some t) (hdue : accepts t = false)
      (hoffset : e.offset = c.offset + c.rest.length) : Tracks place s c goal (.error e)
  | halts {e : Error} {w rest : List Char} {x : Char} {t : Config} (hrest : c.rest = w ++ x :: rest)
      (hrun : run s w = some t) (hstep : step t x = none)
      (hoffset : e.offset = c.offset + w.length ∨ e.offset = c.offset + w.length + 1) :
      Tracks place s c goal (.error e)

section Composition

variable {α β : Type} {place : α → Cursor} {place' : β → Cursor} {s t : Config} {c d : Cursor}
  {goal goal' : Config → Cursor → Prop} {r : Except Error α} {x : Char}

theorem Tracks.map (h : Tracks place s c goal r) {g : α → β} (hg : ∀ a, place' (g a) = place a) :
    Tracks place' s c goal (r.map g) := by
  cases h with
  | @reads a w t hread hrun hgoal =>
      rw [← hg a] at hread hgoal
      exact .reads hread hrun hgoal
  | ends hrun hdue hoffset => exact .ends hrun hdue hoffset
  | halts hrest hrun hstep hoffset => exact .halts hrest hrun hstep hoffset

theorem Tracks.imp (h : Tracks place s c goal r) (hgoal : ∀ t d, goal t d → goal' t d) :
    Tracks place s c goal' r := by
  cases h with
  | reads hread hrun h => exact .reads hread hrun (hgoal _ _ h)
  | ends hrun hdue hoffset => exact .ends hrun hdue hoffset
  | halts hrest hrun hstep hoffset => exact .halts hrest hrun hstep hoffset

/-- What is read first may be put in front. -/
theorem Tracks.after {w : List Char} (hread : c.Reads w d) (hrun : run s w = some t)
    (h : Tracks place t d goal r) : Tracks place s c goal r := by
  obtain ⟨hrest, hoffset⟩ := hread
  cases h with
  | @reads a v u hread' hrun' hgoal =>
      obtain ⟨hrest', hoffset'⟩ := hread'
      have hboth : c.Reads (w ++ v) (place a) := by
        refine ⟨by rw [hrest, hrest', List.append_assoc], ?_⟩
        rw [List.length_append]
        omega
      exact .reads hboth (run_eq_some hrun hrun') hgoal
  | ends hrun' hdue hoffset' =>
      refine .ends ?_ hdue ?_
      · rw [hrest]
        exact run_eq_some hrun hrun'
      · rw [hrest, List.length_append]
        omega
  | @halts e v rest x u hrest' hrun' hstep hoffset' =>
      have hboth : c.rest = (w ++ v) ++ x :: rest := by rw [hrest, hrest', List.append_assoc]
      refine .halts hboth (run_eq_some hrun hrun') hstep ?_
      rw [List.length_append]
      omega

theorem Tracks.next (hnext : c.next? = some (x, d)) (hstep : step s x = some t)
    (h : Tracks place t d goal r) : Tracks place s c goal r := by
  have hread : c.Reads [x] d := next?_eq_some hnext
  have hrun : run s [x] = some t := by
    rw [run_cons, hstep]
    rfl
  exact .after hread hrun h

/-- What is read next may go on from what was read first. -/
theorem Tracks.andThen {q : Except Error β} (h : Tracks place s c goal r)
    (hfails : ∀ e, r = .error e → q = .error e)
    (hgoes : ∀ a t, r = .ok a → c.Reaches (place a) → goal t (place a) →
      Tracks place' t (place a) goal' q) : Tracks place' s c goal' q := by
  cases h with
  | @reads a w t hread hrun hgoal => exact .after hread hrun (hgoes a t rfl hread.reaches hgoal)
  | ends hrun hdue hoffset =>
      rw [hfails _ rfl]
      exact .ends hrun hdue hoffset
  | halts hrest hrun hstep hoffset =>
      rw [hfails _ rfl]
      exact .halts hrest hrun hstep hoffset

theorem Tracks.here {a : α} (ha : place a = c) (h : goal s c) : Tracks place s c goal (.ok a) := by
  subst ha
  exact .reads ⟨rfl, rfl⟩ (run_nil s) h

theorem rest_of_next?_eq_none (h : c.next? = none) : c.rest = [] := by
  rw [Cursor.next?] at h
  split at h
  · assumption
  · cases h

theorem tracks_reject {cause : Cause} (hdue : accepts s = false)
    (hstep : ∀ x d, c.next? = some (x, d) → step s x = none) :
    Tracks place s c goal (c.reject cause) := by
  rw [reject]
  cases hnext : c.next? with
  | none =>
      have hrest := rest_of_next?_eq_none hnext
      refine .ends (t := s) ?_ hdue ?_
      · rw [hrest, run_nil]
      · rw [hrest]
        rfl
  | some first =>
      obtain ⟨x, d⟩ := first
      obtain ⟨hrest, hoffset⟩ := next?_eq_some hnext
      exact .halts (w := []) hrest (run_nil s) (hstep x d hnext) (.inr hoffset)

theorem tracks_refuse_end {cause : Cause} (hdue : accepts s = false) (hnext : c.next? = none) :
    Tracks place s c goal (c.refuse cause) := by
  have hrest := rest_of_next?_eq_none hnext
  refine .ends (t := s) ?_ hdue ?_
  · rw [hrest, run_nil]
  · rw [hrest]
    rfl

theorem tracks_refuse {cause : Cause} (hnext : c.next? = some (x, d)) (hstep : step s x = none) :
    Tracks place s c goal (c.refuse cause) :=
  .halts (w := []) (next?_eq_some hnext).1 (run_nil s) hstep (.inl rfl)

end Composition

/-! ### Words and single characters -/

section Words

variable {s t : Config} {c d : Cursor} {x : Char} {frames : List Frame}

theorem tracks_expect (hdue : accepts s = false)
    (hstep : ∀ y d, c.next? = some (y, d) → step s y = if y = x then some t else none) :
    Tracks id s c (fun u _ => u = t) (c.expect x) := by
  rw [expect]
  split
  · rename_i y d hnext
    split
    · rename_i hy
      have hgo := hstep y d hnext
      rw [if_pos hy] at hgo
      exact .next hnext hgo (.here rfl rfl)
    · rename_i hy
      refine tracks_reject hdue fun z e hz => ?_
      rw [hnext] at hz
      obtain ⟨rfl, rfl⟩ := Prod.mk.inj (Option.some.inj hz)
      rw [hstep y d hnext, if_neg hy]
  · rename_i hnone
    refine tracks_reject hdue fun z e hz => ?_
    rw [hnone] at hz
    cases hz

theorem tracks_literal (name : String) (w : List Char) (c : Cursor) :
    Tracks id (.word w, frames) c (fun t _ => t = (.word [], frames)) (literal name w c) := by
  induction w generalizing c with
  | nil => exact .here rfl rfl
  | cons y w ih =>
      rw [literal]
      have hdue : accepts (.word (y :: w), frames) = false := rfl
      split
      · rename_i z d hnext
        split
        · rename_i hz
          exact .next hnext (if_pos hz) (ih d)
        · rename_i hz
          refine tracks_reject hdue fun x e hx => ?_
          rw [hnext] at hx
          obtain ⟨rfl, rfl⟩ := Prod.mk.inj (Option.some.inj hx)
          exact if_neg hz
      · rename_i hnone
        refine tracks_reject hdue fun x e hx => ?_
        rw [hnone] at hx
        cases hx

end Words

/-! ### Strings -/

section Strings

variable {isKey : Bool} {frames : List Frame}

theorem tracks_hexDigits (isKey : Bool) (frames : List Frame) (count n : Nat) (c : Cursor) :
    Tracks Prod.snd (.string isKey (.awaiting count), frames) c
      (fun t _ => t = (.string isKey .between, frames)) (hexDigits count n c) := by
  induction count generalizing n c with
  | zero => exact .here rfl rfl
  | succ count ih =>
      rw [hexDigits]
      have hdue : accepts (.string isKey (.awaiting (count + 1)), frames) = false := rfl
      split
      · rename_i x d hnext
        split
        · rename_i digit hdigit
          refine .next hnext (if_pos ?_) (ih _ d)
          rw [hdigit]
          rfl
        · rename_i hdigit
          refine tracks_reject hdue fun y e hy => ?_
          rw [hnext] at hy
          obtain ⟨rfl, rfl⟩ := Prod.mk.inj (Option.some.inj hy)
          refine if_neg ?_
          rw [hdigit]
          decide
      · rename_i hnone
        refine tracks_reject hdue fun y e hy => ?_
        rw [hnone] at hy
        cases hy

/-- The second half of a pair is an escape like any other. -/
theorem tracks_unicodeEscape (isKey : Bool) (frames : List Frame) (c : Cursor) :
    Tracks Prod.snd (.string isKey (.awaiting 4), frames) c
      (fun t _ => t = (.string isKey .between, frames)) (unicodeEscape c) := by
  rw [unicodeEscape]
  refine (tracks_hexDigits isKey frames 4 0 c).andThen (fun e he => by rw [he]) ?_
  rintro ⟨high, d⟩ t hhigh - rfl
  rw [hhigh]
  have hsame : ∀ z : Char, Tracks Prod.snd (.string isKey .between, frames) d
      (fun t _ => t = (.string isKey .between, frames)) (.ok (z, d)) := fun z => .here rfl rfl
  dsimp only
  split
  · split
    · rename_i rest hrest
      have hpair : d.Reads ['\\', 'u'] ⟨d.offset + 2, rest⟩ := ⟨hrest, rfl⟩
      have hrun : run (.string isKey .between, frames) ['\\', 'u'] =
          some (.string isKey (.awaiting 4), frames) := rfl
      refine .after hpair hrun ?_
      refine (tracks_hexDigits isKey frames 4 0 _).andThen (fun e he => by rw [he]) ?_
      rintro ⟨low, e⟩ t hlow - rfl
      rw [hlow]
      dsimp only
      split <;> exact .here rfl rfl
    · exact hsame _
  · exact hsame _

theorem tracks_stringBody {fuel : Nat} {done : List Char} {c : Cursor}
    (hfuel : c.rest.length < fuel) :
    Tracks Prod.snd (.string isKey .between, frames) c
      (fun t _ => t = (.afterString isKey, frames)) (stringBody fuel done c) := by
  induction fuel generalizing done c with
  | zero => cases hfuel
  | succ fuel ih =>
      rw [stringBody]
      split
      · rename_i hnone
        exact tracks_refuse_end rfl hnone
      · rename_i x d hnext
        have hlength := length_lt_of_next? hnext
        split
        · rename_i hquote
          exact .next hnext (if_pos hquote) (.here rfl rfl)
        · rename_i hquote
          split
          · rename_i hslash
            have hstep : step (.string isKey .between, frames) x =
                some (.string isKey .escape, frames) := (if_neg hquote).trans (if_pos hslash)
            refine .next hnext hstep ?_
            split
            · rename_i hnone
              exact tracks_refuse_end rfl hnone
            · rename_i y e hescape
              have hshorter := length_lt_of_next? hescape
              split
              · rename_i hunit
                refine .next hescape (if_pos hunit) ?_
                refine (tracks_unicodeEscape isKey frames e).andThen (fun _ he => by rw [he]) ?_
                rintro ⟨z, f⟩ t hunicode hreaches rfl
                rw [hunicode]
                have hlast : f.rest.length ≤ e.rest.length := hreaches.length_le
                exact ih (show f.rest.length < fuel by omega)
              · rename_i hunit
                split
                · rename_i z hz
                  have hstep : step (.string isKey .escape, frames) y =
                      some (.string isKey .between, frames) := by
                    refine (if_neg hunit).trans (if_pos ?_)
                    rw [hz]
                    rfl
                  exact .next hescape hstep (ih (by omega))
                · rename_i hz
                  refine tracks_reject rfl fun w f hw => ?_
                  rw [hescape] at hw
                  obtain ⟨rfl, rfl⟩ := Prod.mk.inj (Option.some.inj hw)
                  refine (if_neg hunit).trans (if_neg ?_)
                  rw [hz]
                  decide
          · rename_i hslash
            exact .next hnext ((if_neg hquote).trans (if_neg hslash)) (ih (by omega))

theorem tracks_string {s : Config} {c : Cursor} (hdue : accepts s = false)
    (hstep : ∀ x d, c.next? = some (x, d) →
      step s x = if x = '"' then some (.string isKey .between, frames) else none) :
    Tracks Prod.snd s c (fun t _ => t = (.afterString isKey, frames)) (Spans.string c) := by
  rw [Spans.string]
  refine (tracks_expect hdue hstep).andThen (fun e he => by rw [he]) ?_
  rintro d t hquote - rfl
  rw [hquote]
  exact tracks_stringBody (Nat.lt_succ_self _)

end Strings

/-! ### Blanks -/

section Blanks

variable {α : Type} {place : α → Cursor} {goal : Config → Cursor → Prop} {r : Except Error α}
  {s : Config} {frames : List Frame} {token : Char → Option Config} {c : Cursor}

theorem reads_skipWhile (p : Char → Bool) (c : Cursor) :
    c.Reads (c.rest.takeWhile p) (c.skipWhile p) :=
  ⟨List.takeWhile_append_dropWhile.symm, rfl⟩

theorem reads_skipBlank (c : Cursor) : c.Reads (c.rest.takeWhile isBlank) c.skipBlank :=
  reads_skipWhile isBlank c

theorem run_staying {p : Char → Bool} (h : ∀ x, p x = true → step s x = some s) {w : List Char}
    (hw : ∀ x ∈ w, p x = true) : run s w = some s := by
  induction w with
  | nil => rfl
  | cons x w ih =>
      obtain ⟨hx, hw⟩ := List.forall_mem_cons.mp hw
      rw [run_cons, h x hx]
      exact ih hw

theorem next?_skipBlank_skipBlank (c : Cursor) :
    c.skipBlank.skipBlank.next? = c.skipBlank.next? := by
  obtain ⟨n, rest⟩ := c
  have hhead := List.head?_dropWhile_not isBlank rest
  simp only [skipBlank, skipWhile]
  cases hrest : rest.dropWhile isBlank with
  | nil => rfl
  | cons x t =>
      rw [hrest] at hhead
      have hx : isBlank x = false := by simpa using hhead
      simp [hx, Cursor.next?]

/-- In a state that waits for a token, blanks change nothing and the token decides. -/
structure Awaits (s : Config) (token : Char → Option Config) (c : Cursor) : Prop where
  blank : ∀ x, isBlank x = true → step s x = some s
  token : ∀ x d, c.skipBlank.next? = some (x, d) → step s x = token x
  due : accepts s = false

theorem awaits_of_passing {due : Due} {first : Char → Option Config}
    (hstep : ∀ x, step (due, frames) x = passing due frames first x)
    (hfirst : ∀ x d, c.skipBlank.next? = some (x, d) → first x = token x)
    (hdue : accepts (due, frames) = false) : Awaits (due, frames) token c := by
  refine ⟨fun x hx => ?_, fun x d hx => ?_, hdue⟩
  · rw [hstep, passing, if_pos hx]
  · rw [hstep, passing, if_neg (by rw [not_blank_of_next? hx]; decide), hfirst x d hx]

theorem Tracks.skip (h : Awaits s token c) (htracks : Tracks place s c.skipBlank goal r) :
    Tracks place s c goal r :=
  .after (reads_skipBlank c) (run_staying h.blank fun _ => List.mem_takeWhile_imp) htracks

/-- In a state behind a value, its text may go on; whatever else comes belongs to the brackets
around it. -/
structure Closed (frames : List Frame) (s : Config) (c : Cursor) : Prop where
  accepts : accepts s = frames.isEmpty
  following : ∀ x d, c.next? = some (x, d) → step s x = following frames x

theorem closed_behind (frames : List Frame) (c : Cursor) : Closed frames (.behind, frames) c :=
  ⟨by cases frames <;> rfl, fun _ _ _ => rfl⟩

theorem Closed.skip (h : Closed frames s c) :
    ∃ t, run s (c.rest.takeWhile isBlank) = some t ∧ Closed frames t c.skipBlank := by
  have hread := reads_skipBlank c
  have hblank : ∀ x ∈ c.rest.takeWhile isBlank, isBlank x = true :=
    fun _ => List.mem_takeWhile_imp
  cases hw : c.rest.takeWhile isBlank with
  | nil =>
      rw [hw] at hread
      have hsame : c.skipBlank.rest = c.rest := hread.1.symm
      refine ⟨s, run_nil s, h.accepts, fun x d hx => ?_⟩
      obtain ⟨hrest, -⟩ := next?_eq_some hx
      rw [hsame] at hrest
      exact h.following x ⟨c.offset + 1, d.rest⟩ (by rw [Cursor.next?, hrest])
  | cons x w =>
      rw [hw] at hread hblank
      obtain ⟨hx, hw⟩ := List.forall_mem_cons.mp hblank
      have hnext : c.next? = some (x, ⟨c.offset + 1, w ++ c.skipBlank.rest⟩) := by
        rw [Cursor.next?, hread.1]
        rfl
      have hstep : step s x = some (.behind, frames) := (h.following x _ hnext).trans (if_pos hx)
      have hblanks : ∀ y, isBlank y = true → step (.behind, frames) y = some (.behind, frames) :=
        fun y hy => if_pos hy
      refine ⟨(.behind, frames), ?_, closed_behind frames _⟩
      rw [run_cons, hstep]
      exact run_staying hblanks hw

end Blanks

/-! ### Values -/

/-- What a reader of values has to do: followed from a state that waits for a value, it comes to a
state behind one. -/
def Follows (limit : Nat) (item : String → State → Except Error State) : Prop :=
  ∀ pointer spans c s frames, c.rest.length < limit → Awaits s (opening frames) c →
    Tracks Prod.snd s c (Closed frames) (item pointer (spans, c))

section Loops

variable {limit fuel index : Nat} {item : String → State → Except Error State} {pointer : String}
  {s : Config} {outer : List Frame} {spans : List (String × Span)} {c : Cursor}

theorem following_comma (frame : Frame) (outer : List Frame) :
    following (frame :: outer) ',' = some (afterComma frame, frame :: outer) := rfl

theorem following_closing (frame : Frame) (outer : List Frame) :
    following (frame :: outer) (closing frame) = some (.behind, outer) := by
  cases frame <;> rfl

theorem following_eq_none {frame : Frame} {x : Char} (hblank : isBlank x = false) (hcomma : x ≠ ',')
    (hclose : x ≠ closing frame) : following (frame :: outer) x = none := by
  rw [following, if_neg (by rw [hblank]; decide), if_neg hcomma, if_neg hclose]

/-- Behind a value in brackets come a comma or the closing bracket. -/
theorem tracks_reject_behind {α : Type} {place : α → Cursor} {goal : Config → Cursor → Prop}
    {frame : Frame} {cause : Cause} (h : Closed (frame :: outer) s c.skipBlank)
    (hcomma : ∀ d, c.skipBlank.next? = some (',', d) → False)
    (hclose : ∀ d, c.skipBlank.next? = some (closing frame, d) → False) :
    Tracks place s c.skipBlank goal (c.skipBlank.reject cause) := by
  refine tracks_reject h.accepts fun x d hx => ?_
  rw [h.following x d hx]
  refine following_eq_none (not_blank_of_next? hx) ?_ ?_
  · rintro rfl
    exact hcomma d hx
  · rintro rfl
    exact hclose d hx

theorem awaits_value (frames : List Frame) (c : Cursor) :
    Awaits (.value, frames) (opening frames) c :=
  awaits_of_passing (fun _ => rfl) (fun _ _ _ => rfl) rfl

theorem awaits_key (frames : List Frame) (c : Cursor) :
    Awaits (.key, frames) (quoting frames) c :=
  awaits_of_passing (fun _ => rfl) (fun _ _ _ => rfl) rfl

theorem tracks_items (hitem : Follows limit item) (hfuel : c.rest.length < fuel)
    (hlimit : c.rest.length < limit) (h : Awaits s (opening (.array :: outer)) c) :
    Tracks Prod.snd s c (fun t _ => t = (.behind, outer))
      (Spans.items item pointer fuel index (spans, c)) := by
  induction fuel generalizing index s spans c with
  | zero => cases hfuel
  | succ fuel ih =>
      rw [Spans.items]
      refine (hitem _ spans c s _ hlimit h).andThen (fun e he => by rw [he]) ?_
      rintro ⟨more, d⟩ t hread hreaches hclosed
      rw [hread]
      obtain ⟨u, hblanks, hclosed⟩ := hclosed.skip
      refine .after (reads_skipBlank d) hblanks ?_
      have hshort : d.skipBlank.rest.length ≤ c.rest.length :=
        (hreaches.trans d.reaches_skipBlank).length_le
      dsimp only
      split
      · rename_i e hnext
        have hstep := hclosed.following _ _ hnext
        have hlength := length_lt_of_next? hnext
        exact .next hnext (hstep.trans (following_comma _ _))
          (ih (by omega) (by omega) (awaits_value _ _))
      · rename_i e hnext
        have hstep := hclosed.following _ _ hnext
        exact .next hnext (hstep.trans (following_closing .array _)) (.here rfl rfl)
      · rename_i hcomma hclose
        exact tracks_reject_behind hclosed hcomma hclose

theorem tracks_members (hitem : Follows limit item) (hfuel : c.rest.length < fuel)
    (hlimit : c.rest.length < limit) (h : Awaits s (quoting (.object :: outer)) c) :
    Tracks Prod.snd s c (fun t _ => t = (.behind, outer))
      (Spans.members item pointer fuel (spans, c)) := by
  induction fuel generalizing s spans c with
  | zero => cases hfuel
  | succ fuel ih =>
      rw [Spans.members]
      refine .skip h ?_
      have hkey : Tracks Prod.snd s c.skipBlank (fun t _ => t = (.afterString true, .object :: outer))
          (Spans.string c.skipBlank) := tracks_string h.due h.token
      refine hkey.andThen (fun e he => by rw [he]) ?_
      rintro ⟨key, d⟩ t hstring hname rfl
      rw [hstring]
      dsimp only
      have hdue : Awaits (.colon, .object :: outer)
          (fun x => if x = ':' then some (.value, .object :: outer) else none) d :=
        awaits_of_passing (fun _ => rfl) (fun _ _ _ => rfl) rfl
      refine .skip hdue ?_
      refine (tracks_expect hdue.due hdue.token).andThen (fun e he => by rw [he]) ?_
      rintro e t hcolon hbehind rfl
      rw [hcolon]
      dsimp only [id]
      have hlate : e.rest.length ≤ c.rest.length :=
        (c.reaches_skipBlank.trans (hname.trans (d.reaches_skipBlank.trans hbehind))).length_le
      have hvalue := hitem (Pointer.push pointer key) spans e _ _ (by omega)
        (awaits_value (.object :: outer) e)
      refine hvalue.andThen (fun f hf => by rw [hf]) ?_
      rintro ⟨more, f⟩ t hread hreaches hclosed
      rw [hread]
      obtain ⟨u, hblanks, hclosed⟩ := hclosed.skip
      refine .after (reads_skipBlank f) hblanks ?_
      have hshort : f.skipBlank.rest.length ≤ e.rest.length :=
        (hreaches.trans f.reaches_skipBlank).length_le
      dsimp only
      split
      · rename_i g hnext
        have hstep := hclosed.following _ _ hnext
        have hlength := length_lt_of_next? hnext
        exact .next hnext (hstep.trans (following_comma _ _))
          (ih (by omega) (by omega) (awaits_key _ _))
      · rename_i g hnext
        have hstep := hclosed.following _ _ hnext
        exact .next hnext (hstep.trans (following_closing .object _)) (.here rfl rfl)
      · rename_i hcomma hclose
        exact tracks_reject_behind hclosed hcomma hclose

end Loops

section Brackets

variable {due : Due} {frames inner : List Frame} {close : Char} {first : Char → Option Config}
  {c d : Cursor}

/-- Behind an opening bracket the closing one may come at once. -/
theorem tracks_closing {α : Type} {place : α → Cursor} {a : α}
    (h : Awaits (due, inner) (fun x => if x = close then some (.behind, frames) else first x) c)
    (hnext : c.skipBlank.next? = some (close, place a)) :
    Tracks place (due, inner) c (Closed frames) (.ok a) :=
  .skip h (.next hnext ((h.token _ _ hnext).trans (if_pos rfl)) (.here rfl (closed_behind frames _)))

theorem Awaits.behindOpening
    (h : Awaits (due, inner) (fun x => if x = close then some (.behind, frames) else first x) c)
    (hclose : ∀ d, c.skipBlank.next? = some (close, d) → False) :
    Awaits (due, inner) first c.skipBlank := by
  refine ⟨h.blank, fun x d hx => ?_, h.due⟩
  rw [next?_skipBlank_skipBlank] at hx
  refine (h.token x d hx).trans (if_neg ?_)
  rintro rfl
  exact hclose d hx

end Brackets

section Scalars

variable {frames : List Frame} {s : Config} {c d : Cursor} {x : Char}

theorem closed_word (frames : List Frame) (c : Cursor) : Closed frames (.word [], frames) c :=
  ⟨by cases frames <;> rfl, fun _ _ _ => rfl⟩

theorem tracks_word {α : Type} {place : α → Cursor} {g : Cursor → α} {w : List Char}
    (hg : ∀ d, place (g d) = d) (name : String) (hnext : c.next? = some (x, d))
    (hstep : step s x = some (.word w, frames)) :
    Tracks place s c (Closed frames) ((literal name (x :: w) c).map g) := by
  have hword : literal name (x :: w) c = literal name w d := by
    rw [literal, hnext]
    exact if_pos rfl
  rw [hword]
  have hread : Tracks id s c (Closed frames) (literal name w d) := by
    refine .next hnext hstep ((tracks_literal name w d).imp ?_)
    rintro t e rfl
    exact closed_word frames e
  exact hread.map hg

theorem closed_skipNumber (frames : List Frame) (c : Cursor) :
    Closed frames (.number, frames) (c.skipWhile isNumberCharacter) := by
  refine ⟨by cases frames <;> rfl, fun y e hy => ?_⟩
  have hhead := List.head?_dropWhile_not isNumberCharacter c.rest
  obtain ⟨hrest, -⟩ := next?_eq_some hy
  have hdrop : c.rest.dropWhile isNumberCharacter = y :: e.rest := hrest
  rw [hdrop] at hhead
  have hnumber : isNumberCharacter y = false := by simpa using hhead
  rw [step, if_neg (by rw [hnumber]; decide)]

theorem tracks_number {α : Type} {place : α → Cursor} {a : α} (hnext : c.next? = some (x, d))
    (hx : isNumberCharacter x = true) (hstep : step s x = some (.number, frames))
    (ha : place a = c.skipWhile isNumberCharacter) :
    Tracks place s c (Closed frames) (.ok a) := by
  obtain ⟨hrest, -⟩ := next?_eq_some hnext
  have hread : c.Reads (x :: d.rest.takeWhile isNumberCharacter) (place a) := by
    have hall := reads_skipWhile isNumberCharacter c
    rw [show c.rest = x :: d.rest from hrest, List.takeWhile_cons_of_pos hx] at hall
    rwa [ha]
  have hdigits : run (.number, frames) (d.rest.takeWhile isNumberCharacter) =
      some (.number, frames) :=
    run_staying (s := (.number, frames)) (fun y hy => if_pos hy) fun _ => List.mem_takeWhile_imp
  refine .reads hread ?_ (ha ▸ closed_skipNumber frames c)
  rw [run_cons, hstep]
  exact hdigits

end Scalars

/-- Inside brackets nothing is read but the closing one, or what is in them. -/
theorem tracks_valueFrom {fuel : Nat} {pointer : String} {spans : List (String × Span)} {s : Config}
    {frames : List Frame} {c d : Cursor} {x : Char} (hvalue : Follows fuel (Spans.value fuel))
    (hfuel : c.rest.length < fuel + 1) (hnext : c.next? = some (x, d)) (hdue : accepts s = false)
    (hstep : step s x = opening frames x) :
    Tracks Prod.snd s c (Closed frames) (valueFrom fuel pointer spans c x d) := by
  have hfinish : ∀ {r}, Tracks Prod.snd s c (Closed frames) r →
      Tracks Prod.snd s c (Closed frames) (finish pointer c.offset r) :=
    fun hr => hr.map fun _ => rfl
  have hbehind : ∀ t e, t = (.behind, frames) → Closed frames t e := by
    rintro t e rfl
    exact closed_behind frames e
  have hlength := length_lt_of_next? hnext
  have hskipped : d.skipBlank.rest.length ≤ d.rest.length := d.reaches_skipBlank.length_le
  rw [valueFrom]
  split
  · rename_i hbrace
    have hopen : step s x = some (.firstKey, .object :: frames) := hstep.trans (if_pos hbrace)
    have h : Awaits (.firstKey, .object :: frames)
        (fun y => if y = '}' then some (.behind, frames) else quoting (.object :: frames) y) d :=
      awaits_of_passing (fun _ => rfl) (fun _ _ _ => rfl) rfl
    split
    · rename_i hclose
      exact hfinish (.next hnext hopen (tracks_closing h hclose))
    · rename_i hclose
      refine hfinish (.next hnext hopen (.skip h ?_))
      exact (tracks_members hvalue (Nat.lt_succ_self _) (by omega) (h.behindOpening hclose)).imp hbehind
  rename_i hbrace
  split
  · rename_i hbracket
    have hopen : step s x = some (.firstItem, .array :: frames) :=
      hstep.trans ((if_neg hbrace).trans (if_pos hbracket))
    have h : Awaits (.firstItem, .array :: frames)
        (fun y => if y = ']' then some (.behind, frames) else opening (.array :: frames) y) d :=
      awaits_of_passing (fun _ => rfl) (fun _ _ _ => rfl) rfl
    split
    · rename_i hclose
      exact hfinish (.next hnext hopen (tracks_closing h hclose))
    · rename_i hclose
      refine hfinish (.next hnext hopen (.skip h ?_))
      exact (tracks_items hvalue (Nat.lt_succ_self _) (by omega) (h.behindOpening hclose)).imp hbehind
  rename_i hbracket
  have hstep := hstep.trans ((if_neg hbrace).trans (if_neg hbracket))
  split
  · rename_i hquote
    subst hquote
    have hopen : ∀ y e, c.next? = some (y, e) →
        step s y = if y = '"' then some (.string false .between, frames) else none := by
      intro y e hy
      rw [hnext] at hy
      obtain ⟨rfl, rfl⟩ := Prod.mk.inj (Option.some.inj hy)
      exact hstep
    exact hfinish (((tracks_string hdue hopen).imp hbehind).map fun _ => rfl)
  rename_i hquote
  have hstep := hstep.trans (if_neg hquote)
  split
  · rename_i hword
    subst hword
    exact hfinish (tracks_word (fun _ => rfl) "true" hnext hstep)
  rename_i htrue
  have hstep := hstep.trans (if_neg htrue)
  split
  · rename_i hword
    subst hword
    exact hfinish (tracks_word (fun _ => rfl) "false" hnext hstep)
  rename_i hfalse
  have hstep := hstep.trans (if_neg hfalse)
  split
  · rename_i hword
    subst hword
    exact hfinish (tracks_word (fun _ => rfl) "null" hnext hstep)
  rename_i hnull
  have hstep := hstep.trans (if_neg hnull)
  split
  · rename_i hnumber
    refine hfinish (tracks_number hnext ?_ (hstep.trans (if_pos hnumber)) rfl)
    rw [isNumberCharacter]
    grind
  · rename_i hnumber
    exact tracks_refuse hnext (hstep.trans (if_neg hnumber))

theorem tracks_value (fuel : Nat) : Follows fuel (Spans.value fuel) := by
  induction fuel with
  | zero =>
      intro pointer spans c s frames hfuel _
      cases hfuel
  | succ fuel ih =>
      intro pointer spans c s frames hfuel h
      refine .skip h ?_
      cases hnext : c.skipBlank.next? with
      | none =>
          simp only [Spans.value, hnext]
          exact tracks_refuse_end h.due hnext
      | some first =>
          obtain ⟨x, d⟩ := first
          rw [value_eq_valueFrom hnext]
          have hshort : c.skipBlank.rest.length ≤ c.rest.length := c.reaches_skipBlank.length_le
          exact tracks_valueFrom ih (by omega) hnext h.due (h.token x d hnext)

/-! ### Whole texts -/

theorem tracks_parse (text : String) :
    Tracks (fun _ => ⟨text.toList.length, []⟩) start (Cursor.ofText text)
      (fun t _ => accepts t = true) (Spans.parse text) := by
  have hstart : Awaits start (opening []) (Cursor.ofText text) := awaits_value [] _
  have hvalue := tracks_value ((Cursor.ofText text).rest.length + 1) "" [] _ start []
    (Nat.lt_succ_self _) hstart
  rw [Spans.parse]
  refine hvalue.andThen (fun e he => by rw [he]) ?_
  rintro ⟨spans, c⟩ t hread hreaches hclosed
  rw [hread]
  obtain ⟨u, hblanks, hclosed⟩ := hclosed.skip
  refine .after (reads_skipBlank c) hblanks ?_
  dsimp only
  split
  · rename_i hempty
    have hrest : c.skipBlank.rest = [] := List.isEmpty_iff.mp hempty
    have hend := (hreaches.trans c.reaches_skipBlank).eq_end hrest
    rw [hend] at hclosed ⊢
    exact .here rfl hclosed.accepts
  · rename_i hempty
    obtain ⟨x, rest, hrest⟩ := List.exists_cons_of_ne_nil (mt List.isEmpty_iff.mpr hempty)
    have hnext : c.skipBlank.next? = some (x, ⟨c.skipBlank.offset + 1, rest⟩) := by
      rw [Cursor.next?, hrest]
    have hstep : step u x = none := by
      rw [hclosed.following x _ hnext, following,
        if_neg (by rw [not_blank_of_next? hnext]; decide)]
    exact tracks_refuse hnext hstep

/-- The automaton accepts the texts that are scanned. -/
theorem exists_parse_iff {text : String} :
    (∃ spans, Spans.parse text = .ok spans) ↔
      ∃ t, run start text.toList = some t ∧ accepts t = true := by
  have htracks := tracks_parse text
  constructor
  · rintro ⟨spans, h⟩
    rw [h] at htracks
    cases htracks with
    | @reads _ w t hread hrun hgoal =>
        have htext : text.toList = w := hread.1.trans (List.append_nil w)
        exact ⟨t, htext ▸ hrun, hgoal⟩
  · rintro ⟨t, hrun, haccepts⟩
    cases h : Spans.parse text with
    | ok spans => exact ⟨spans, rfl⟩
    | error e =>
        rw [h] at htracks
        cases htracks with
        | ends hrun' hdue _ =>
            obtain rfl := Option.some.inj (hrun.symm.trans hrun')
            rw [haccepts] at hdue
            cases hdue
        | @halts _ w rest x u hrest hrun' hstep _ =>
            have hstuck : run start text.toList = none := by
              rw [show text.toList = w ++ x :: rest from hrest, run_append, hrun',
                Option.bind_some, run_cons, hstep]
              rfl
            rw [hstuck] at hrun
            cases hrun

/-- A text begins with these characters and is scanned. -/
def Continues (begun : List Char) : Prop :=
  ∃ rest spans, Spans.parse (String.ofList (begun ++ rest)) = .ok spans

/-- A text can be completed if the automaton has a state behind it. -/
theorem continues_iff {begun : List Char} :
    Continues begun ↔ (run start begun).isSome := by
  constructor
  · rintro ⟨rest, h⟩
    obtain ⟨t, hrun, -⟩ := exists_parse_iff.mp h
    rw [String.toList_ofList] at hrun
    exact isSome_run_of_append (Option.isSome_of_mem hrun)
  · intro h
    obtain ⟨t, hrun⟩ := Option.isSome_iff_exists.mp h
    obtain ⟨rest, u, hrest, haccepts⟩ := exists_accepts t
    refine ⟨rest, exists_parse_iff.mpr ⟨u, ?_, haccepts⟩⟩
    rw [String.toList_ofList]
    exact run_eq_some hrun hrest

theorem Continues.of_isPrefix {begun more : List Char} (hbegun : begun <+: more)
    (h : Continues more) : Continues begun := by
  obtain ⟨left, rfl⟩ := hbegun
  obtain ⟨rest, h⟩ := h
  rw [List.append_assoc] at h
  exact ⟨left ++ rest, h⟩

/-- **The offset of an error is tight.** All that was consumed but for the last character can still
be completed. A text that can be completed fails at its end, and of one that cannot, nothing
behind the character at the offset is to blame. -/
theorem offset_tight {text : String} {e : Error} (h : Spans.parse text = .error e) :
    e.offset ≤ text.toList.length ∧
      Continues (text.toList.take (e.offset - 1)) ∧
      (Continues text.toList → e.offset = text.toList.length) ∧
      (¬ Continues text.toList →
        ¬ Continues (text.toList.take (min (e.offset + 1) text.toList.length))) := by
  have htracks := tracks_parse text
  rw [h] at htracks
  cases htracks with
  | @ends _ t hrun _ hoffset =>
      have hcontinues : Continues text.toList := continues_iff.mpr (Option.isSome_of_mem hrun)
      have hend : e.offset = text.toList.length := hoffset.trans (Nat.zero_add _)
      exact ⟨hend.le, hcontinues.of_isPrefix (List.take_prefix _ _), fun _ => hend,
        fun hstuck => absurd hcontinues hstuck⟩
  | @halts _ w rest x t hrest hrun hstep hoffset =>
      have htext : text.toList = w ++ x :: rest := hrest
      have hlength : text.toList.length = w.length + (rest.length + 1) := by
        rw [htext, List.length_append, List.length_cons]
      have hplace : e.offset = w.length ∨ e.offset = w.length + 1 := by
        simpa [Cursor.ofText] using hoffset
      have hbegun : Continues w := continues_iff.mpr (Option.isSome_of_mem hrun)
      have hstuck : ¬ Continues (w ++ [x]) := by
        rw [continues_iff, run_append, hrun, Option.bind_some, run_cons, hstep]
        decide
      have hblamed : w ++ [x] <+: text.toList := ⟨rest, by rw [htext, List.append_assoc]; rfl⟩
      refine ⟨by omega, ?_, fun hall => absurd (hall.of_isPrefix hblamed) hstuck, fun _ hall => ?_⟩
      · rw [htext, List.take_append_of_le_length (by omega)]
        exact hbegun.of_isPrefix (List.take_prefix _ _)
      · refine hstuck (hall.of_isPrefix (List.prefix_take_iff.mpr ⟨hblamed, ?_⟩))
        rw [List.length_append, List.length_singleton]
        omega

/-- Where the value of a member is missing, what is in front of the blank can be completed, and what
has the closing brace cannot. -/
theorem offset_tight_valueless :
    Spans.parse "\x7b\"a\": \x7d" = .error ⟨.character, 6⟩ ∧
      Continues ['{', '"', 'a', '"', ':'] ∧
      ¬ Continues ['{', '"', 'a', '"', ':', ' ', '}'] := by
  have hparse : Spans.parse "\x7b\"a\": \x7d" = .error ⟨.character, 6⟩ := by rfl
  obtain ⟨-, hbegun, -, hstuck⟩ := offset_tight hparse
  have hwrong : ¬ Continues "\x7b\"a\": \x7d".toList := by
    rw [continues_iff]
    decide
  exact ⟨hparse, hbegun, hstuck hwrong⟩

end ResourceApi.Json.Spans
