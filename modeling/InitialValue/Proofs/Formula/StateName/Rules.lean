/-
  Rules that take no notice of what the state is called.

  Most rules write a fixed text where something is found (`respects_of_guard`).  With another name
  for the state they find the same, since all they ask of a text are heads, runs of blanks and what
  stands before.  A rule that copies what it finds is given in cells instead: where it applies, how
  many cells it finds and which it writes, read from the plain text (`respects_of_cells`).

  What a rule writes must leave the words as they are.  Most rules replace marks by marks
  (`neat_outside`), or a word that stands between marks (`neat_of_bounds`).  An exponent mark is
  never the neighbour of the state, so the digits of its name are not taken for those of a number
  (`inExponent_named`).
-/
import InitialValue.Proofs.Formula.Spacing
import InitialValue.Proofs.Formula.StateName.Lengths

namespace InitialValue.Formula.StateName

open InitialValue.Text

/-! ## Words among cells -/

section

variable {w : List Char} {b b' e : Bool} {cs xs : List Cell} {n : Nat}

theorem leads_eq : leads e cs = (plain cs).head?.elim e isWord := by
  cases cs <;> rfl

theorem trails_of_forall {q : Bool} (h : ∀ c ∈ cs, c.is isWord = q) (hne : cs ≠ []) :
    trails b cs = q := by
  obtain ⟨front, c, rfl⟩ := (List.eq_nil_or_concat cs).resolve_left hne
  rw [List.concat_eq_append, trails_append]
  exact h c (by simp)

theorem trails_of_gap (h : ∀ c ∈ cs, c.is isWord = false) : trails false cs = false := by
  rcases eq_or_ne cs [] with rfl | hne
  · rfl
  · exact trails_of_forall h hne

theorem leads_of_gap (h : ∀ c ∈ cs, c.is isWord = false) : leads false cs = false := by
  cases cs with
  | nil => rfl
  | cons c cs => exact h c List.mem_cons_self

theorem leads_append_gap (h : ∀ c ∈ cs, c.is isWord = false) (hne : cs ≠ []) :
    leads e (cs ++ xs) = false := by
  cases cs with
  | nil => exact absurd rfl hne
  | cons c cs => exact h c List.mem_cons_self

namespace Marked

/-- What a place has behind it, told whether a word ends there. -/
theorem behind {bs : List Cell} (h : Marked false (bs.reverse ++ cs) false) :
    Marked (leads false bs) cs false := by
  have hright := (marked_append.mp h).2
  rwa [trails_reverse] at hright

theorem take (h : Marked b cs e) : Marked b (cs.take n) (leads e (cs.drop n)) := by
  rw [← List.take_append_drop n cs] at h
  exact (marked_append.mp h).1

theorem drop (h : Marked b cs e) : Marked (trails b (cs.take n)) (cs.drop n) e := by
  rw [← List.take_append_drop n cs] at h
  exact (marked_append.mp h).2

/-- What is told of the left matters to a word only. -/
theorem of_left (h : Marked b cs e) (hb : leads e cs = true → b' = b) : Marked b' cs e := by
  cases cs with
  | nil => trivial
  | cons c cs =>
    refine ⟨?_, h.2⟩
    cases hword : c.is isWord with
    | false => exact fits_of_not_word hword
    | true =>
      rw [hb hword]
      exact h.1

/-- The state stands alone in its word. -/
theorem of_word (h : Marked b cs e) (hword : ∀ c ∈ cs, c.is isWord = true) :
    cs = [.state] ∨ .state ∉ cs := by
  by_cases hmem : .state ∈ cs
  · left
    obtain ⟨pre, post, rfl⟩ := List.append_of_mem hmem
    obtain ⟨hleft, hright⟩ : trails b pre = false ∧ leads e post = false :=
      (marked_append.mp h).2.1
    have hpre : pre = [] := by
      by_contra hne
      rw [trails_of_forall (fun c hc => hword c (by simp [hc])) hne] at hleft
      cases hleft
    have hpost : post = [] := by
      cases post with
      | nil => rfl
      | cons c post =>
        have hc : c.is isWord = true := hword c (by simp)
        rw [show leads e (c :: post) = c.is isWord from rfl, hc] at hright
        cases hright
    rw [hpre, hpost]
    rfl
  · exact Or.inr hmem

end Marked

/-- A text without the state does not tell how it is called. -/
theorem named_eq_plain (h : .state ∉ cs) : named w cs = plain cs := by
  induction cs with
  | nil => rfl
  | cons c cs ih =>
    rw [List.mem_cons, not_or] at h
    cases c with
    | char a => rw [named_char, plain_char, ih h.2]
    | state => exact absurd rfl h.1

theorem named_map_char (xs : List Char) : named w (xs.map .char) = xs := by
  induction xs with
  | nil => rfl
  | cons x xs ih => rw [List.map_cons, named_char, ih]

theorem plain_map_char (xs : List Char) : plain (xs.map .char) = xs := by
  induction xs with
  | nil => rfl
  | cons x xs ih => rw [List.map_cons, plain_char, ih]

/-- The cells of a text without a letter `y`. -/
theorem other_map_char (xs : List Char) (h : 'y' ∉ xs) : ∀ c ∈ xs.map Cell.char, Other c := by
  intro c hc
  obtain ⟨x, hx, rfl⟩ := List.mem_map.mp hc
  refine ⟨by simp, ?_⟩
  rintro ⟨⟩
  exact h hx

end

/-! ## Rules in cells -/

section

variable {w : List Char} {r : Rule}

/-- A rule that is given in cells, by how many it finds beyond the first and what it writes. -/
theorem respects_of_cells (f : List Cell → List Cell → Option (Nat × List Cell)) (hidle : Idle r)
    (hplain : ∀ bs c cs, Marked false (bs.reverse ++ c :: cs) false →
      r (plain bs) (plain (c :: cs)) = (f bs (c :: cs)).map fun p => ⟨p.1, plain p.2⟩)
    (hnamed : ∀ bs c cs, Marked false (bs.reverse ++ c :: cs) false →
      r (namedBack w bs) (named w (c :: cs)) =
        (f bs (c :: cs)).map fun p => ⟨span w (c :: cs) (p.1 + 1) - 1, named w p.2⟩)
    (hneat : ∀ bs c cs n out, Marked (leads false bs) (c :: cs) false →
      f bs (c :: cs) = some (n, out) → Neat (leads false bs) (c :: cs) (n + 1) out) :
    Respects w r where
  idle := hidle
  miss bs c cs hmarked h := by
    rw [hplain bs c cs hmarked, Option.map_eq_none_iff] at h
    rw [hnamed bs c cs hmarked, h]
    rfl
  hit bs c cs h hmarked hhit := by
    rw [hplain bs c cs hmarked, Option.map_eq_some_iff] at hhit
    obtain ⟨⟨n, out⟩, hf, rfl⟩ := hhit
    refine ⟨out, rfl, hneat bs c cs n out hmarked.behind hf, ?_⟩
    rw [hnamed bs c cs hmarked, hf]
    rfl

/-- **A rule that writes a fixed text**, if what it asks for is there.  What it asks for has not to
    depend on what the state is called, and what it finds has to be as many cells. -/
theorem respects_of_guard {asks : List Char → List Char → Prop} [DecidableRel asks]
    {extra : List Char → Nat} {text : List Char}
    (hr : ∀ before xs, r before xs = if asks before xs then some ⟨extra xs, text⟩ else none)
    (hidle : Idle r)
    (hasks : ∀ bs c cs, asks (namedBack w bs) (named w (c :: cs)) ↔ asks (plain bs) (plain (c :: cs)))
    (hextra : ∀ bs c cs, asks (plain bs) (plain (c :: cs)) →
      extra (named w (c :: cs)) + 1 = span w (c :: cs) (extra (plain (c :: cs)) + 1))
    (hneat : ∀ bs c cs, asks (plain bs) (plain (c :: cs)) →
      Neat (leads false bs) (c :: cs) (extra (plain (c :: cs)) + 1) (text.map .char)) :
    Respects w r where
  idle := hidle
  miss bs c cs _ h := by
    rw [hr] at h ⊢
    refine if_neg fun hnamed => ?_
    rw [if_pos ((hasks bs c cs).mp hnamed)] at h
    cases h
  hit bs c cs h _ hhit := by
    rw [hr] at hhit
    obtain ⟨hplain, hhit⟩ := Option.ite_none_right_eq_some.mp hhit
    cases hhit
    refine ⟨text.map .char, (plain_map_char text).symm, hneat bs c cs hplain, ?_⟩
    rw [hr, if_pos ((hasks bs c cs).mpr hplain), ← hextra bs c cs hplain, Nat.add_sub_cancel,
      named_map_char]

/-- What is written instead of something between words leaves the words as they are. -/
theorem neat_outside {cs out : List Cell} {b : Bool} {n : Nat} (hfull : out ≠ [])
    (hfront : leads false cs = false) (hback : trails false (cs.take n) = false)
    (hout : ∀ c ∈ out, c.is isWord = false) : Neat b cs n out where
  full := hfull
  starts _ := by rw [hfront, leads_of_gap hout]
  ends _ := by rw [hback, trails_of_gap hout]
  marked _ _ _ _ := marked_of_other fun c hc => other_of_not_word (hout c hc)

/-- What is written instead of something that no word runs on from may have words at its ends. -/
theorem neat_of_bounds {cs out : List Cell} {b : Bool} {n : Nat} (hfull : out ≠ [])
    (hfront : b = false) (hback : leads false (cs.drop n) = false)
    (hmarked : ∀ b' e, (leads false cs = true → b' = false) →
      (trails false (cs.take n) = true → e = false) → Marked b' out e) : Neat b cs n out where
  full := hfull
  starts h := by
    rw [hfront] at h
    cases h
  ends h := by
    rw [hback] at h
    cases h
  marked b' e hb he := hmarked b' e (fun h => (hb h).trans hfront) fun h => (he h).trans hback

end

/-! ## Heads -/

section

variable {w : List Char} {bs cs : List Cell} {q : Char → Bool} {a d : Char} (hw : IsStateName w)

theorem exists_of_elim (h : (plain cs).head?.elim false q = true) (hq : q 'y' = false) :
    ∃ a xs, cs = .char a :: xs ∧ q a = true := by
  cases cs with
  | nil => cases h
  | cons c cs =>
    cases c with
    | char a => exact ⟨a, cs, rfl, h⟩
    | state => exact absurd (hq.symm.trans h) (by decide)

include hw

omit hw in
/-- The text behind the first character, if that is known not to be a `y`. -/
theorem drop_one_named (h : (plain cs).head?.elim false q = true) (hq : q 'y' = false) :
    (named w cs).drop 1 = named w (cs.drop 1) := by
  obtain ⟨a, xs, rfl, -⟩ := exists_of_elim h hq
  rfl

omit hw in
theorem drop_one_of_head (h : (plain cs).head? = some a) (ha : a ≠ 'y') :
    (named w cs).drop 1 = named w (cs.drop 1) := by
  obtain ⟨xs, rfl⟩ := exists_of_head h ha
  rfl

/-- What is asked of the character behind the first one, if the first is known not to be a `y`. -/
theorem second_named (h : (plain cs).head?.elim false q = true) (hq : q 'y' = false) :
    ((named w cs).drop 1).head? = ((plain cs).drop 1).head? := by
  rw [drop_one_named h hq, head?_named hw, plain_drop]

theorem endsWord_named : endsWord (namedBack w bs).head? = endsWord (plain bs).head? := by
  have helim : ∀ o : Option Char, endsWord o = o.elim false isWord := fun o => by cases o <;> rfl
  rw [helim, helim]
  refine before_named hw fun d hd => ?_
  rw [isWord_of_isPlainWord (isPlainWord_of_isDigit hd)]
  rfl

end

theorem leads_eq_endsWord {cs : List Cell} : leads false cs = endsWord (plain cs).head? := by
  cases cs <;> rfl

/-! ## Marks -/

section

variable {w : List Char} (hw : IsStateName w)

/-- A rule that starts at no digit. -/
theorem idle_of_ignores {r : Rule} (h : ∀ d : Char, d.isDigit = true → r.Ignores d) : Idle r :=
  fun _ _ d _ _ hd => h d hd _ _

theorem starsRule_eq (before xs : List Char) : starsRule before xs =
    if xs.head? = some '*' ∧ (xs.drop 1).head? = some '*' then some ⟨1, ['^']⟩ else none := by
  unfold starsRule
  cases xs with
  | nil => rfl
  | cons c xs =>
    by_cases hc : c = '*'
    · subst hc
      cases xs with
      | nil => rfl
      | cons d xs =>
        by_cases hd : d = '*'
        · simp [hd]
        · simp [hd]
    · simp [hc]

include hw in
theorem starsRule_respects : Respects w starsRule := by
  refine respects_of_guard starsRule_eq ?_ (fun bs c cs => ?_) (fun bs c cs h => ?_)
    (fun bs c cs h => ?_)
  · refine idle_of_ignores fun d hd before rest => ?_
    rw [starsRule_eq, if_neg]
    rintro ⟨h, -⟩
    obtain rfl := Option.some.inj h
    exact absurd hd (by decide)
  · rw [head?_named hw]
    refine and_congr_right fun h => ?_
    rw [drop_one_of_head h (by decide), head?_named hw, plain_drop]
  · obtain ⟨xs, hxs⟩ := exists_of_head h.1 (by decide)
    obtain ⟨rfl, rfl⟩ := List.cons.inj hxs
    obtain ⟨ys, rfl⟩ := exists_of_head h.2 (by decide)
    rw [span_char, span_char, span_zero]
  · obtain ⟨xs, hxs⟩ := exists_of_head h.1 (by decide)
    rw [hxs] at h ⊢
    obtain ⟨ys, rfl⟩ := exists_of_head h.2 (by decide)
    exact neat_outside (by simp) rfl rfl (by decide)

theorem gap_not_word {cs : List Cell} :
    ∀ c ∈ cs.takeWhile (Cell.is isBlank), c.is isWord = false := by
  intro c hc
  have hblank : c.is isBlank = true := mem_takeWhile hc
  exact isWord_of_isBlank hblank

/-- A mark and the blanks behind it end no word. -/
theorem trails_mark_gap {c : Cell} {cs : List Cell} (hc : c.is isWord = false) :
    trails false ((c :: cs).take (((plain cs).takeWhile isBlank).length + 1)) = false := by
  rw [List.take_succ_cons, take_run]
  exact trails_of_gap (List.forall_mem_cons.mpr ⟨hc, gap_not_word⟩)

theorem bracketTermRule_eq (before xs : List Char) : bracketTermRule before xs =
    if xs.head? = some ')' ∧ (skipBlanks (xs.drop 1)).head?.elim false startsTerm then
      some ⟨((xs.drop 1).takeWhile isBlank).length, [')', '*']⟩ else none := by
  have hgap : ∀ xs : List Char, xs.drop (xs.takeWhile isBlank).length = skipBlanks xs :=
    drop_length_takeWhile
  unfold bracketTermRule
  simp only [hgap]
  cases xs with
  | nil => rfl
  | cons c xs =>
    by_cases hc : c = ')'
    · subst hc
      cases hskip : skipBlanks xs with
      | nil => simp [hskip]
      | cons d rest => simp [hskip]
    · simp [hc]

include hw in
theorem bracketTermRule_respects : Respects w bracketTermRule := by
  refine respects_of_guard bracketTermRule_eq ?_ (fun bs c cs => ?_) (fun bs c cs h => ?_)
    (fun bs c cs h => ?_)
  · refine idle_of_ignores fun d hd before rest => ?_
    rw [bracketTermRule_eq, if_neg]
    rintro ⟨h, -⟩
    obtain rfl := Option.some.inj h
    exact absurd hd (by decide)
  · rw [head?_named hw]
    refine and_congr_right fun h => ?_
    rw [drop_one_of_head h (by decide), skipBlanks_named hw, head?_named hw, plain_drop,
      skipBlanks_plain]
  · obtain ⟨xs, hxs⟩ := exists_of_head h.1 (by decide)
    rw [drop_one_of_head h.1 (by decide), length_takeWhile_named hw steady_isBlank, plain_drop, hxs,
      span_char]
    rfl
  · obtain ⟨xs, hxs⟩ := exists_of_head h.1 (by decide)
    rw [hxs]
    exact neat_outside (by simp) rfl (trails_mark_gap rfl) (by decide)

end

/-! ## Blanks -/

section

variable {w : List Char} (hw : IsStateName w)

theorem blanksRule_eq (before xs : List Char) : blanksRule before xs =
    if xs.head?.elim false isBlank then some ⟨((xs.drop 1).takeWhile isBlank).length, [' ']⟩
    else none := by
  cases xs <;> rfl

include hw in
theorem blanksRule_respects : Respects w blanksRule := by
  refine respects_of_guard blanksRule_eq ?_ (fun bs c cs => ?_) (fun bs c cs h => ?_)
    (fun bs c cs h => ?_)
  · exact idle_of_ignores fun d hd => blanksRule_ignores
      (isBlank_of_isWord (isWord_of_isPlainWord (isPlainWord_of_isDigit hd)))
  · rw [head?_named hw]
  · obtain ⟨a, xs, hxs, -⟩ := exists_of_elim h (by decide)
    rw [drop_one_named h (by decide), length_takeWhile_named hw steady_isBlank, plain_drop, hxs,
      span_char]
    rfl
  · obtain ⟨a, xs, hxs, ha⟩ := exists_of_elim h (by decide)
    rw [hxs]
    exact neat_outside (by simp) (isWord_of_isBlank ha) (trails_mark_gap (isWord_of_isBlank ha))
      (by decide)

theorem powerSignRule_eq (before xs : List Char) : powerSignRule before xs =
    if (skipBlanks xs).head? = some '^' then
      some ⟨(xs.takeWhile isBlank).length +
        (((skipBlanks xs).drop 1).takeWhile isBlank).length, " ** ".toList⟩
    else none := by
  have hgap : ∀ xs : List Char, xs.drop (xs.takeWhile isBlank).length = skipBlanks xs :=
    drop_length_takeWhile
  unfold powerSignRule
  simp only [hgap]
  cases skipBlanks xs with
  | nil => rfl
  | cons c rest =>
    by_cases hc : c = '^'
    · subst hc
      rfl
    · simp [hc]

theorem drop_gap {cs : List Cell} :
    cs.drop ((plain cs).takeWhile isBlank).length = skip cs := by
  rw [takeWhile_plain, length_plain]
  exact drop_length_takeWhile cs

/-- A mark behind blanks. -/
theorem exists_of_skip {cs : List Cell} {a : Char} (h : (plain (skip cs)).head? = some a)
    (ha : a ≠ 'y') : ∃ ys, skip cs = .char a :: ys ∧
      cs = cs.takeWhile (Cell.is isBlank) ++ .char a :: ys := by
  obtain ⟨ys, hys⟩ := exists_of_head h ha
  refine ⟨ys, hys, ?_⟩
  rw [← hys]
  exact (List.takeWhile_append_dropWhile (p := Cell.is isBlank)).symm

include hw in
theorem powerSignRule_respects : Respects w powerSignRule := by
  refine respects_of_guard powerSignRule_eq ?_ (fun bs c cs => ?_) (fun bs c cs h => ?_)
    (fun bs c cs h => ?_)
  · refine idle_of_ignores fun d hd before rest => ?_
    have hblank := isBlank_of_isWord (isWord_of_isPlainWord (isPlainWord_of_isDigit hd))
    rw [powerSignRule_eq, skipBlanks_cons hblank, if_neg]
    intro h
    obtain rfl := Option.some.inj h
    exact absurd hd (by decide)
  · rw [skipBlanks_named hw, head?_named hw, skipBlanks_plain]
  · rw [skipBlanks_plain] at h
    obtain ⟨ys, hys, -⟩ := exists_of_skip h (by decide)
    rw [skipBlanks_named hw, skipBlanks_plain, drop_one_of_head h (by decide), plain_drop,
      length_takeWhile_named hw steady_isBlank, length_takeWhile_named hw steady_isBlank,
      Nat.add_assoc, Nat.add_assoc, span_add, drop_gap, hys, span_char]
    rfl
  · rw [skipBlanks_plain] at h ⊢
    obtain ⟨ys, hys, hcs⟩ := exists_of_skip h (by decide)
    refine neat_outside (by simp) ?_ ?_ (by decide)
    · rw [hcs]
      cases hgap : (c :: cs).takeWhile (Cell.is isBlank) with
      | nil => rfl
      | cons d ds => exact gap_not_word d (by rw [hgap]; exact List.mem_cons_self)
    · -- the blanks in front, the sign and the blanks behind it
      rw [Nat.add_assoc, List.take_add, take_run, drop_gap, hys, trails_append,
        trails_of_gap gap_not_word]
      exact trails_mark_gap rfl

theorem doubledRule_isSome (before xs : List Char) : (doubledRule before xs).isSome =
    (xs.head?.elim false isMultiplicative &&
      (skipBlanks (xs.drop 1)).head?.elim false isMultiplicative) := by
  have hgap : ∀ xs : List Char, xs.drop (xs.takeWhile isBlank).length = skipBlanks xs :=
    drop_length_takeWhile
  unfold doubledRule
  simp only [hgap]
  cases xs with
  | nil => rfl
  | cons c xs =>
    cases hc : isMultiplicative c with
    | false => simp [hc]
    | true =>
      cases hskip : skipBlanks xs with
      | nil => simp [hc, hskip]
      | cons d rest =>
        cases hd : isMultiplicative d with
        | false => simp [hc, hskip, hd]
        | true => simp [hc, hskip, hd]

theorem isWord_of_isMultiplicative {c : Char} (h : isMultiplicative c = true) :
    isWord c = false := by
  rcases Bool.or_eq_true_iff.mp h with h | h
  · rw [eq_of_beq h]
    decide
  · rw [eq_of_beq h]
    decide

include hw in
theorem doubledRule_alike : Alike w doubledRule where
  idle := by
    refine idle_of_ignores fun d hd before rest => ?_
    rw [← Option.isNone_iff_eq_none, ← Option.isSome_eq_false_iff, doubledRule_isSome]
    cases hmult : isMultiplicative d with
    | false =>
      show (isMultiplicative d && _) = false
      rw [hmult]
      rfl
    | true =>
      have hword := isWord_of_isMultiplicative hmult
      rw [isWord_of_isPlainWord (isPlainWord_of_isDigit hd)] at hword
      cases hword
  same bs c cs _ := by
    rw [doubledRule_isSome, doubledRule_isSome, head?_named hw]
    cases hc : (plain (c :: cs)).head?.elim false isMultiplicative with
    | false => rfl
    | true =>
      obtain ⟨a, xs, hxs, -⟩ := exists_of_elim hc (by decide)
      rw [hxs, named_char, plain_char, List.drop_one, List.drop_one, List.tail_cons, List.tail_cons,
        skipBlanks_named hw, skipBlanks_plain, head?_named hw]

end

/-! ## Constants and operators -/

section

variable {w : List Char} (hw : IsStateName w)

theorem eulerRule_eq (before xs : List Char) : eulerRule before xs =
    if xs.head?.elim false (sameLetter 'e') ∧ endsWord before.head? = false ∧
      endsWord (xs.drop 1).head? = false then some ⟨0, ['e']⟩ else none := by
  cases xs with
  | nil => rfl
  | cons a rest =>
    rw [eulerRule_cons]
    simp [and_assoc]

include hw in
theorem eulerRule_respects : Respects w eulerRule := by
  refine respects_of_guard eulerRule_eq ?_ (fun bs c cs => ?_) (fun bs c cs h => ?_)
    (fun bs c cs h => ?_)
  · exact fun a before d cs ha _ => @eulerRule_behind (a :: before) ha _
  · rw [head?_named hw, endsWord_named hw]
    exact and_congr_right fun h => by rw [second_named hw h (by decide)]
  · obtain ⟨a, xs, hxs, -⟩ := exists_of_elim h.1 (by decide)
    rw [hxs, span_char, span_zero]
  · refine neat_of_bounds (by simp) (leads_eq_endsWord.trans h.2.1) ?_ fun _ _ _ _ =>
      marked_of_other (other_map_char ['e'] (by decide))
    have hbehind := h.2.2
    rw [plain_drop] at hbehind
    exact leads_eq_endsWord.trans hbehind

theorem piRule_eq (before xs : List Char) : piRule before xs =
    if xs.head?.elim false (sameLetter 'p') ∧ (xs.drop 1).head?.elim false (sameLetter 'i') ∧
      endsWord before.head? = false ∧ endsWord (xs.drop 2).head? = false then
        some ⟨1, ['p', 'i']⟩ else none := by
  rcases xs with _ | ⟨a, _ | ⟨b, rest⟩⟩
  · rfl
  · exact (if_neg fun h => by cases h.2.1).symm
  · rw [piRule_cons]
    simp [and_assoc]

include hw in
theorem piRule_respects : Respects w piRule := by
  refine respects_of_guard piRule_eq ?_ (fun bs c cs => ?_) (fun bs c cs h => ?_)
    (fun bs c cs h => ?_)
  · exact fun a before d cs ha _ => @piRule_behind (a :: before) ha _
  · rw [head?_named hw, endsWord_named hw]
    refine and_congr_right fun hp => ?_
    rw [second_named hw hp (by decide)]
    refine and_congr_right fun hi => ?_
    -- behind both letters, a text starts alike whatever the state is called
    obtain ⟨a, xs, hxs, -⟩ := exists_of_elim hp (by decide)
    rw [hxs] at hi ⊢
    obtain ⟨b, ys, rfl, -⟩ := exists_of_elim hi (by decide)
    have htail : ((named w (.char a :: .char b :: ys)).drop 2).head? =
        ((plain (.char a :: .char b :: ys)).drop 2).head? := head?_named hw
    rw [htail]
  · obtain ⟨a, xs, hxs, -⟩ := exists_of_elim h.1 (by decide)
    rw [hxs] at h ⊢
    obtain ⟨b, ys, rfl, -⟩ := exists_of_elim h.2.1 (by decide)
    rw [span_char, span_char, span_zero]
  · refine neat_of_bounds (by simp) (leads_eq_endsWord.trans h.2.2.1) ?_ fun _ _ _ _ =>
      marked_of_other (other_map_char ['p', 'i'] (by decide))
    have hbehind := h.2.2.2
    rw [plain_drop] at hbehind
    exact leads_eq_endsWord.trans hbehind

/-- Does a text end with a digit and an exponent mark? -/
def inExponent : List Char → Bool
  | e :: d :: _ => (e == 'e' || e == 'E') && isDigit d
  | _ => false

theorem spacingRule_cons (before : List Char) (c : Char) (rest : List Char) :
    spacingRule before (c :: rest) =
      if isSpaced c && !inExponent before then some ⟨0, [' ', c, ' ']⟩ else none := rfl

theorem inExponent_cons (a : Char) (before : List Char) : inExponent (a :: before) =
    ((a == 'e' || a == 'E') && before.head?.elim false isDigit) := by
  cases before with
  | nil => simp [inExponent]
  | cons d before => rfl

include hw in
theorem inExponent_named {bs cs : List Cell} (h : Marked false (bs.reverse ++ cs) false) :
    inExponent (namedBack w bs) = inExponent (plain bs) := by
  cases bs with
  | nil => rfl
  | cons b bs =>
    cases b with
    | state =>
      obtain ⟨d, rest, hlast, hd⟩ := exists_last hw
      have hmark : (d == 'e' || d == 'E') = false := by
        rcases hd with rfl | hd
        · decide
        · rw [Bool.eq_false_iff]
          intro h
          rcases Bool.or_eq_true_iff.mp h with h | h
          · rw [eq_of_beq h] at hd
            exact absurd hd (by decide)
          · rw [eq_of_beq h] at hd
            exact absurd hd (by decide)
      rw [namedBack_state, hlast, List.cons_append, inExponent_cons, hmark, plain_state,
        inExponent_cons]
      rfl
    | char a =>
      rw [namedBack_char, plain_char, inExponent_cons, inExponent_cons]
      cases hmark : (a == 'e' || a == 'E') with
      | false => rfl
      | true =>
        cases bs with
        | nil => rfl
        | cons d bs =>
          cases d with
          | char d =>
            rw [namedBack_char]
            rfl
          | state =>
            -- the state would run on with the exponent mark
            rw [List.reverse_cons, List.reverse_cons, List.append_assoc, List.append_assoc] at h
            have hfits := ((marked_append.mp h).2).1.2
            have hword : isWord a = false := hfits
            rcases Bool.or_eq_true_iff.mp hmark with h | h
            · rw [eq_of_beq h] at hword
              exact absurd hword (by decide)
            · rw [eq_of_beq h] at hword
              exact absurd hword (by decide)

/-- An operator with blanks around it, in cells. -/
def spacedCells? (bs cs : List Cell) : Option (Nat × List Cell) :=
  (plain cs).head?.bind fun c =>
    if isSpaced c && !inExponent (plain bs) then some (0, [.char ' ', .char c, .char ' ']) else none

include hw in
theorem spacingRule_respects : Respects w spacingRule := by
  refine respects_of_cells spacedCells? ?_ ?_ ?_ ?_
  · refine idle_of_ignores fun d hd => spacingRule_ignores ?_
    rw [Bool.eq_false_iff]
    intro h
    have hword := isWord_of_isPlainWord (isPlainWord_of_isDigit hd)
    simp only [isSpaced, Bool.or_eq_true, beq_iff_eq] at h
    rcases h with ((rfl | rfl) | rfl) | rfl <;> exact absurd hword (by decide)
  · intro bs c cs _
    cases c with
    | state => rfl
    | char a =>
      rw [plain_char, spacingRule_cons, spacedCells?, plain_char, List.head?_cons, Option.bind_some]
      split <;> rfl
  · intro bs c cs hmarked
    cases c with
    | state =>
      obtain ⟨ds, rfl, -⟩ := hw
      rfl
    | char a =>
      rw [named_char, spacingRule_cons, inExponent_named hw hmarked, spacedCells?, plain_char,
        List.head?_cons, Option.bind_some]
      split
      · rw [Option.map_some, span_char, span_zero]
        rfl
      · rfl
  · intro bs c cs n out _ h
    cases c with
    | state => cases h
    | char a =>
      rw [spacedCells?, plain_char, List.head?_cons, Option.bind_some] at h
      split at h
      · rename_i hspaced
        obtain ⟨rfl, rfl⟩ := Prod.mk.inj (Option.some.inj h)
        have ha : isWord a = false := by
          simp only [isSpaced, Bool.and_eq_true, Bool.or_eq_true, beq_iff_eq] at hspaced
          rcases hspaced.1 with ((rfl | rfl) | rfl) | rfl <;> decide
        refine neat_outside (by simp) ha ha fun c hc => ?_
        simp only [List.mem_cons, List.not_mem_nil, or_false] at hc
        rcases hc with rfl | rfl | rfl
        · rfl
        · exact ha
        · rfl
      · cases h

end

end InitialValue.Formula.StateName
