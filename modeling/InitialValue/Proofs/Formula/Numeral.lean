/-
  Numerals: the numbers that a formula writes in decimal digits.

  A `Numeral` is a text that the reader of numbers takes as one decimal literal from end to end, and
  in which a point is followed by a digit.  Single underscores may stand between its digits.

  Its shape is `digits`, `.digits`, `e±digits`, each part with underscores and some of them left
  out (`Numeral.shape`).  What matters to the passes over formula text is said by three lemmas:

  * `Numeral.unsigned_or_signed` — all characters are word characters and points, but for the sign
    of an exponent, and in front of that sign stand a digit and the mark;
  * `Numeral.numberLength?_append` — the pattern for numbers takes the numeral up to its first
    underscore;
  * `Numeral.takeNumber?_append` — the scanner takes exactly the numeral.
-/
import InitialValue.Formula.Normal
import InitialValue.Proofs.Formula.Scan
import InitialValue.Proofs.Formula.Substitution

namespace InitialValue.Formula

open InitialValue.Text

/-! ## Numerals -/

/-- A decimal literal in which digits follow the point. -/
structure Numeral where
  text : List Char
  literal : Literal
  reads : Token.takeDecimal? text = some (literal, [])
  pointed : ∀ pre post, text = pre ++ '.' :: post → ∃ c more, post = c :: more ∧ c.isDigit = true

namespace Numeral

variable (n : Numeral)

/-- **The shape of a numeral**: digits, a fraction and an exponent, some of them missing. -/
theorem shape : ∃ w f x, n.text = w ++ (f ++ x) ∧ (w = [] ∨ DigitRun w) ∧ Decimal.IsFraction f ∧
    Decimal.IsExponent x ∧ (w = [] → f ≠ []) := by
  have hreads := n.reads
  rw [Token.takeDecimal?_eq] at hreads
  obtain ⟨⟨m, rest⟩, hm, hreads⟩ := Option.bind_eq_some_iff.mp hreads
  obtain ⟨l, -, hreads⟩ := Option.map_eq_some_iff.mp hreads
  obtain ⟨-, hrest⟩ := Prod.mk.inj hreads
  dsimp only at hrest
  subst hrest
  rw [Decimal.takeNumeral?_eq] at hm
  dsimp only at hm
  split at hm
  · cases hm
  rename_i hsome
  have hexponent := (Prod.mk.inj (Option.some.inj hm)).2
  have hx := Decimal.isExponent_of_takeExponent hexponent
  obtain ⟨w, hw, hwhole, hwrest⟩ : ∃ w, (w = [] ∨ DigitRun w) ∧
      n.text = w ++ (Decimal.takeDigits n.text).2 ∧
      (w = [] → (Decimal.takeDigits n.text).1 = []) := by
    rcases Decimal.takeDigits_cases n.text with ⟨hnone, -⟩ | ⟨run, hrun, hcs⟩
    · exact ⟨[], Or.inl rfl, by rw [hnone]; rfl, fun _ => by rw [hnone]⟩
    · exact ⟨run, Or.inr hrun, hcs, fun hnil => absurd hnil hrun.ne_nil⟩
  generalize Decimal.takeDigits n.text = whole at hwhole hwrest hsome hx
  -- behind the digits come a point, an exponent or nothing
  rcases hpoint : whole.2 with _ | ⟨c, more⟩
  · rw [hpoint] at hwhole hsome hx
    refine ⟨w, [], [], by simpa using hwhole, hw, Or.inl rfl, Or.inl rfl, ?_⟩
    intro hnil
    rw [hwrest hnil] at hsome
    exact absurd rfl hsome
  · rw [hpoint] at hwhole hsome hx
    by_cases hc : c = '.'
    · subst hc
      obtain ⟨d, tail, rfl, hd⟩ := n.pointed w more hwhole
      have hx : Decimal.IsExponent (Decimal.takeDigits (d :: tail)).2 := hx
      rcases Decimal.takeDigits_cases (d :: tail) with ⟨-, hstop⟩ | ⟨run, hrun, hcs⟩
      · have hd' := hstop d rfl
        rw [hd] at hd'
        cases hd'
      · refine ⟨w, '.' :: run, _, ?_, hw, Or.inr ⟨run, hrun, rfl⟩, hx, fun _ => by simp⟩
        rw [hwhole, List.cons_append, ← hcs]
    · have hnone : Decimal.takeFraction (c :: more) = (false, [], c :: more) := by
        unfold Decimal.takeFraction
        split
        · rename_i heq
          exact absurd (List.cons.inj heq).1 hc
        · rfl
      rw [hnone] at hx hsome
      refine ⟨w, [], c :: more, by simpa using hwhole, hw, Or.inl rfl, hx, ?_⟩
      intro hnil
      rw [hwrest hnil] at hsome
      exact absurd rfl hsome

/-! ## Its characters -/

/-- The characters of a numeral other than the sign of its exponent. -/
def isBodyChar (c : Char) : Bool :=
  c.isDigit || c == '_' || c == '.' || c == 'e' || c == 'E'

theorem isBodyChar_of_digitRun {run : List Char} (h : DigitRun run) {c : Char} (hc : c ∈ run) :
    isBodyChar c = true := by
  unfold isBodyChar
  rcases h.mem hc with hd | rfl
  · rw [hd]
    rfl
  · rfl

theorem word_or_point_of_isBodyChar {c : Char} (h : isBodyChar c = true) :
    isWord c = true ∨ c = '.' := by
  unfold isBodyChar at h
  simp only [Bool.or_eq_true, beq_iff_eq] at h
  rcases h with (((h | rfl) | rfl) | rfl) | rfl
  · exact Or.inl (isWord_of_isPlainWord (by simp [isPlainWord, Char.isAlphanum, h]))
  · exact Or.inl (by decide)
  · exact Or.inr rfl
  · exact Or.inl (by decide)
  · exact Or.inl (by decide)

theorem head : ∃ c rest, n.text = c :: rest ∧ (c.isDigit = true ∨ c = '.') := by
  obtain ⟨w, f, x, htext, hw, hf, -, hne⟩ := n.shape
  rcases hw with rfl | hw
  · rcases hf with rfl | ⟨run, -, rfl⟩
    · exact absurd rfl (hne rfl)
    · exact ⟨'.', _, htext, Or.inr rfl⟩
  · obtain ⟨d, more, rfl, hd⟩ := hw.head
    exact ⟨d, _, htext, Or.inl hd⟩

/-- In front of the exponent stands a digit. -/
theorem mantissa_last {w f : List Char} (hw : w = [] ∨ DigitRun w) (hf : Decimal.IsFraction f)
    (hne : w = [] → f ≠ []) : ∃ front d, w ++ f = front ++ [d] ∧ d.isDigit = true := by
  rcases hf with rfl | ⟨run, hrun, rfl⟩
  · rcases hw with rfl | hw
    · exact absurd rfl (hne rfl)
    · rw [List.append_nil]
      exact hw.last
  · obtain ⟨front, d, hfront, hd⟩ := hrun.last
    exact ⟨w ++ '.' :: front, d, by simp [hfront], hd⟩

theorem mantissa_body {w f : List Char} (hw : w = [] ∨ DigitRun w) (hf : Decimal.IsFraction f) :
    ∀ c ∈ w ++ f, isBodyChar c = true := by
  intro c hc
  rcases List.mem_append.mp hc with hc | hc
  · rcases hw with rfl | hw
    · cases hc
    · exact isBodyChar_of_digitRun hw hc
  · rcases hf with rfl | ⟨run, hrun, rfl⟩
    · cases hc
    · rcases List.mem_cons.mp hc with rfl | hc
      · rfl
      · exact isBodyChar_of_digitRun hrun hc

theorem last : ∃ front d, n.text = front ++ [d] ∧ d.isDigit = true := by
  obtain ⟨w, f, x, htext, hw, hf, hx, hne⟩ := n.shape
  rcases hx with rfl | ⟨mark, sign, run, -, -, hrun, rfl⟩
  · rw [htext, List.append_nil]
    exact mantissa_last hw hf hne
  · obtain ⟨front, d, hfront, hd⟩ := hrun.last
    exact ⟨w ++ (f ++ mark :: (sign ++ front)), d, by simpa [hfront] using htext, hd⟩

/-- **A sign stands in the exponent only**, behind a digit and the mark. -/
theorem unsigned_or_signed : (∀ c ∈ n.text, isBodyChar c = true) ∨
    ∃ front d mark sign run, n.text = front ++ d :: mark :: sign :: run ∧
      (∀ c ∈ front, isBodyChar c = true) ∧ d.isDigit = true ∧ (mark = 'e' ∨ mark = 'E') ∧
      (sign = '+' ∨ sign = '-') ∧ DigitRun run := by
  obtain ⟨w, f, x, htext, hw, hf, hx, hne⟩ := n.shape
  have hbody := mantissa_body hw hf
  rw [← List.append_assoc] at htext
  rcases hx with rfl | ⟨mark, sign, run, hmark, hsign, hrun, rfl⟩
  · left
    intro c hc
    rw [htext, List.append_nil] at hc
    exact hbody c hc
  · obtain ⟨front, d, hfront, hd⟩ := mantissa_last hw hf hne
    have hsigned : ∀ s, sign = [s] → (s = '+' ∨ s = '-') →
        ∃ front d mark sign run, n.text = front ++ d :: mark :: sign :: run ∧
          (∀ c ∈ front, isBodyChar c = true) ∧ d.isDigit = true ∧ (mark = 'e' ∨ mark = 'E') ∧
          (sign = '+' ∨ sign = '-') ∧ DigitRun run := by
      intro s hs hpm
      refine ⟨front, d, mark, s, run, by rw [htext, hfront, hs]; simp, ?_, hd, hmark, hpm, hrun⟩
      intro c hc
      exact hbody c (by rw [hfront]; exact List.mem_append_left _ hc)
    rcases hsign with rfl | hsign | hsign
    · left
      intro c hc
      rw [htext, List.nil_append] at hc
      rcases List.mem_append.mp hc with hc | hc
      · exact hbody c hc
      · rcases List.mem_cons.mp hc with rfl | hc
        · rcases hmark with rfl | rfl <;> rfl
        · exact isBodyChar_of_digitRun hrun hc
    · exact Or.inr (hsigned '+' hsign (Or.inl rfl))
    · exact Or.inr (hsigned '-' hsign (Or.inr rfl))

/-- The characters of a numeral. -/
theorem mem {c : Char} (hc : c ∈ n.text) : isBodyChar c = true ∨ c = '+' ∨ c = '-' := by
  rcases n.unsigned_or_signed with
    hall | ⟨front, d, mark, sign, run, htext, hfront, hd, hmark, hsign, hrun⟩
  · exact Or.inl (hall c hc)
  · rw [htext] at hc
    simp only [List.mem_append, List.mem_cons] at hc
    rcases hc with hc | rfl | rfl | rfl | hc
    · exact Or.inl (hfront c hc)
    · left
      simp [isBodyChar, hd]
    · left
      rcases hmark with rfl | rfl <;> rfl
    · exact Or.inr hsign
    · exact Or.inl (isBodyChar_of_digitRun hrun hc)

/-- What stands on both sides of a sign. -/
theorem at_sign {front run : List Char} {sign : Char} (h : n.text = front ++ sign :: run)
    (hs : sign = '+' ∨ sign = '-') : (∀ c ∈ front, isBodyChar c = true) ∧ DigitRun run ∧
      ∃ body d mark, front = body ++ [d, mark] ∧ d.isDigit = true ∧ (mark = 'e' ∨ mark = 'E') := by
  have hsign : isBodyChar sign = false := by rcases hs with rfl | rfl <;> rfl
  rcases n.unsigned_or_signed with
    hall | ⟨body, d, mark, sign', run', htext, hbody, hd, hmark, -, hrun⟩
  · rw [hall sign (by rw [h]; simp)] at hsign
    cases hsign
  · have hmarkbody : isBodyChar mark = true := by rcases hmark with rfl | rfl <;> rfl
    have hdbody : isBodyChar d = true := by simp [isBodyChar, hd]
    have hleft : ∀ x ∈ body ++ [d, mark], isBodyChar x = true := by
      intro x hx
      simp only [List.mem_append, List.mem_cons, List.not_mem_nil, or_false] at hx
      rcases hx with hx | rfl | rfl
      · exact hbody x hx
      · exact hdbody
      · exact hmarkbody
    have heq : front ++ sign :: run = (body ++ [d, mark]) ++ sign' :: run' := by
      rw [← h, htext]
      simp
    obtain ⟨hfront, -, hpost⟩ := parted_once heq hleft
      (fun x hx => isBodyChar_of_digitRun hrun hx) hsign
    rw [hfront, hpost]
    exact ⟨hleft, hrun, body, d, mark, rfl, hd, hmark⟩

/-- **Letters and underscores stand behind word characters**, so that no name starts in a number. -/
theorem behind_word {pre post : List Char} {c : Char} (h : n.text = pre ++ c :: post)
    (hc : isPlainStart c = true) : ∃ front d, pre = front ++ [d] ∧ isWord d = true := by
  rcases List.eq_nil_or_concat pre with rfl | ⟨front, d, rfl⟩
  · obtain ⟨x, xs, htext, hx⟩ := n.head
    rw [htext, List.nil_append] at h
    rw [(List.cons.inj h).1] at hx
    rcases hx with hx | rfl
    · rw [isPlainStart_of_isDigit hx] at hc
      cases hc
    · cases hc
  · rw [List.concat_eq_append] at h ⊢
    have hcut : n.text = front ++ d :: (c :: post) := by rw [h]; simp
    refine ⟨front, d, rfl, ?_⟩
    have hdigit : c.isDigit = false := not_digit_of_isPlainStart hc
    rcases n.mem (c := d) (by rw [hcut]; simp) with hbody | hsign
    · rcases word_or_point_of_isBodyChar hbody with hword | rfl
      · exact hword
      · obtain ⟨x, xs, hpost, hx⟩ := n.pointed front (c :: post) hcut
        rw [← (List.cons.inj hpost).1] at hx
        exact absurd hx (Bool.eq_false_iff.mp hdigit)
    · obtain ⟨-, hrun, -⟩ := n.at_sign hcut hsign
      obtain ⟨x, xs, hpost, hx⟩ := hrun.head
      rw [← (List.cons.inj hpost).1] at hx
      exact absurd hx (Bool.eq_false_iff.mp hdigit)

/-! ## Passing over numbers -/

/-- A rule that finds nothing behind word characters and points is quiet over a number, if it finds
    nothing at its front and behind the sign of its exponent. -/
theorem pass_quiet {r : Rule} (hblocked : ∀ d before cs, (isWord d || d == '.') = true →
      r (d :: before) cs = none) {before rest : List Char} (h : r before (n.text ++ rest) = none)
    (hsigned : ∀ front sign run, n.text = front ++ sign :: run → (sign = '+' ∨ sign = '-') →
      DigitRun run → r (sign :: (front.reverse ++ before)) (run ++ rest) = none) :
    r.pass 0 before (n.text ++ rest) = n.text ++ r.pass 0 (n.text.reverse ++ before) rest := by
  refine Rule.pass_quiet fun pre c post hsplit => ?_
  rcases List.eq_nil_or_concat pre with rfl | ⟨front, d, rfl⟩
  · rw [hsplit] at h
    exact h
  rw [List.concat_eq_append] at hsplit ⊢
  rw [List.reverse_append]
  have hcut : n.text = front ++ d :: (c :: post) := by rw [hsplit]; simp
  rcases n.mem (c := d) (by rw [hcut]; simp) with hbody | hsign
  · refine hblocked d _ _ ?_
    rcases word_or_point_of_isBodyChar hbody with hword | rfl
    · rw [hword]
      rfl
    · rfl
  · exact hsigned front d (c :: post) hcut hsign (n.at_sign hcut hsign).2.1

/-! ## Scanning -/

theorem takeDecimal?_append {rest : List Char} (hrest : Decimal.Clear rest) :
    Token.takeDecimal? (n.text ++ rest) = some (n.literal, rest) := by
  obtain ⟨w, f, x, htext, hw, hf, hx, hne⟩ := n.shape
  obtain ⟨hdigits, hnumeral⟩ := Decimal.takeNumeral?_shape hw hf hx hne hrest
  obtain ⟨hdigits', hnumeral'⟩ := Decimal.takeNumeral?_shape hw hf hx hne
    (stopsAt_nil : Decimal.Clear [])
  have hreads := n.reads
  rw [Token.takeDecimal?_eq, htext] at hreads
  rw [← List.append_nil x, hdigits', hnumeral'] at hreads
  rw [Token.takeDecimal?_eq, htext, List.append_assoc, List.append_assoc, hdigits, hnumeral]
  rw [Option.bind_some] at hreads ⊢
  obtain ⟨l, hl, hlit⟩ := Option.map_eq_some_iff.mp hreads
  have hlen : (f ++ (x ++ rest)).length = rest.length ↔
      (f ++ (x ++ [])).length = ([] : List Char).length := by
    simp only [List.length_append, List.length_nil]
    omega
  simp only [hlen]
  rw [hl, ← (Prod.mk.inj hlit).1]
  rfl

/-- **The scanner takes exactly the numeral.** -/
theorem takeNumber?_append {rest : List Char} (hrest : Decimal.Clear rest) :
    Token.takeNumber? (n.text ++ rest) = some (n.literal, rest) := by
  have hliteral : Token.takeLiteral? (n.text ++ rest) = Token.takeDecimal? (n.text ++ rest) := by
    unfold Token.takeLiteral?
    split
    · rename_i c more heq
      -- a zero may start a literal in another base, but no such letter is in a numeral or behind it
      have hradix : Token.radix? c = none := by
        have hbody : isBodyChar c = true ∨ c = '+' ∨ c = '-' ∨ isPlainWord c = false := by
          rcases htext : n.text with _ | ⟨a, _ | ⟨b, tail⟩⟩
          · obtain ⟨c, rest, h, -⟩ := n.head
            rw [htext] at h
            cases h
          · rw [htext] at heq
            have hr : rest = c :: more := (List.cons.inj heq).2
            exact Or.inr (Or.inr (Or.inr (hrest.plainWord c (by rw [hr]; rfl))))
          · rw [htext] at heq
            have hb : b = c := (List.cons.inj (List.cons.inj heq).2).1
            have hmem := n.mem (c := b) (by rw [htext]; simp)
            rw [hb] at hmem
            exact hmem.imp_right (Or.imp_right Or.inl)
        have hne : ∀ l ∈ ['x', 'X', 'o', 'O', 'b', 'B'], c ≠ l := by
          have hnot : ∀ l ∈ ['x', 'X', 'o', 'O', 'b', 'B'],
              ¬ (isBodyChar l = true ∨ l = '+' ∨ l = '-' ∨ isPlainWord l = false) :=
            forall_mem_of_all (by decide)
          rintro l hl rfl
          exact hnot c hl hbody
        unfold Token.radix?
        simp [hne]
      rw [hradix]
      exact heq ▸ rfl
    · rfl
  rw [Token.takeNumber?_eq, hliteral, n.takeDecimal?_append hrest, Option.bind_some, if_pos]
  rcases rest with _ | ⟨c, more⟩
  · rfl
  · show (!isPlainWord c || _) = true
    rw [hrest.plainWord c rfl]
    rfl

end Numeral

/-! ## The pattern for numbers -/

/-- Nothing follows that the pattern for numbers could run on with. -/
def EndsPattern (rest : List Char) : Prop :=
  StopsAt (fun c => isDigit c || c == '.' || c == 'e' || c == 'E') rest

theorem endsPattern_of_clear {rest : List Char} (h : Decimal.Clear rest) : EndsPattern rest := by
  intro c hc
  have hclear := h c hc
  simp only [Bool.or_eq_false_iff, beq_eq_false_iff_ne] at hclear ⊢
  refine ⟨⟨⟨?_, hclear.2⟩, ?_⟩, ?_⟩
  · exact isDigit_of_isWord hclear.1
  · rintro rfl
    exact absurd hclear.1 (by decide)
  · rintro rfl
    exact absurd hclear.1 (by decide)

theorem endsPattern_underscore (more : List Char) : EndsPattern ('_' :: more) :=
  stopsAt_cons (by decide)

theorem endsPattern_append {q rest : List Char} (hrest : Decimal.Clear rest)
    (hq : q = [] ∨ ∃ more, q = '_' :: more) : EndsPattern (q ++ rest) := by
  rcases hq with rfl | ⟨more, rfl⟩
  · exact endsPattern_of_clear hrest
  · exact endsPattern_underscore _

/-- Digits without underscores. -/
def IsDigits (ds : List Char) : Prop := ds ≠ [] ∧ ∀ d ∈ ds, d.isDigit = true

theorem takeWhile_digits {ds rest : List Char} (h : ∀ d ∈ ds, d.isDigit = true)
    (hrest : StopsAt isDigit rest) : (ds ++ rest).takeWhile isDigit = ds :=
  takeWhile_append_stop (fun d hd => isDigit_of_ascii (h d hd)) hrest

/-- An exponent part without underscores, or nothing. -/
def IsPlainExponent (x : List Char) : Prop :=
  x = [] ∨ ∃ mark sign ds, (mark = 'e' ∨ mark = 'E') ∧ (sign = [] ∨ sign = ['+'] ∨ sign = ['-']) ∧
    IsDigits ds ∧ x = mark :: (sign ++ ds)

/-- The length of the sign at the front of a text. -/
def signLength : List Char → Nat
  | '+' :: _ => 1
  | '-' :: _ => 1
  | _ => 0

theorem exponentLength_cons (e : Char) (cs : List Char) :
    exponentLength (e :: cs) =
      if e == 'e' || e == 'E' then
        if ((cs.drop (signLength cs)).takeWhile isDigit).isEmpty then 0
        else 1 + signLength cs + ((cs.drop (signLength cs)).takeWhile isDigit).length
      else 0 := rfl

theorem signLength_digit {d : Char} (hd : d.isDigit = true) (cs : List Char) :
    signLength (d :: cs) = 0 := by
  unfold signLength
  split
  · rename_i heq
    rw [(List.cons.inj heq).1] at hd
    exact absurd hd (by decide)
  · rename_i heq
    rw [(List.cons.inj heq).1] at hd
    exact absurd hd (by decide)
  · rfl

theorem exponentLength_plain {x rest : List Char} (hx : IsPlainExponent x)
    (hrest : EndsPattern rest) : exponentLength (x ++ rest) = x.length := by
  rcases hx with rfl | ⟨mark, sign, ds, hmark, hsign, ⟨hne, hds⟩, rfl⟩
  · rcases rest with _ | ⟨c, rest⟩
    · rfl
    · have hc := hrest c rfl
      simp only [Bool.or_eq_false_iff] at hc
      rw [List.nil_append, exponentLength_cons, hc.1.2, hc.2]
      rfl
  · have hm : (mark == 'e' || mark == 'E') = true := by rcases hmark with rfl | rfl <;> rfl
    obtain ⟨d, more, rfl⟩ := List.exists_cons_of_ne_nil hne
    have hrun : (d :: more ++ rest).takeWhile isDigit = d :: more :=
      takeWhile_digits hds (StopsAt.imp hrest fun c hc => by rw [hc]; rfl)
    have hsplit : ∃ k, sign.length = k ∧ signLength (sign ++ (d :: more ++ rest)) = k ∧
        (sign ++ (d :: more ++ rest)).drop k = d :: more ++ rest := by
      rcases hsign with rfl | rfl | rfl
      · exact ⟨0, rfl, signLength_digit (hds d List.mem_cons_self) _, rfl⟩
      · exact ⟨1, rfl, rfl, rfl⟩
      · exact ⟨1, rfl, rfl, rfl⟩
    obtain ⟨k, hk, hsk, hdrop⟩ := hsplit
    rw [List.cons_append, List.append_assoc, exponentLength_cons, if_pos hm, hsk, hdrop, hrun,
      if_neg (by simp)]
    simp only [List.length_cons, List.length_append]
    omega

/-- **The pattern for numbers takes a number without underscores whole.** -/
theorem numberLength?_plain {w f x rest : List Char} (hw : ∀ d ∈ w, d.isDigit = true)
    (hf : f = [] ∨ ∃ ds, IsDigits ds ∧ f = '.' :: ds) (hx : IsPlainExponent x)
    (hne : w = [] → f ≠ []) (hrest : EndsPattern rest) :
    numberLength? (w ++ (f ++ (x ++ rest))) = some (w ++ (f ++ x)).length := by
  have hxrest : StopsAt (fun c => isDigit c || c == '.') (x ++ rest) := by
    rcases hx with rfl | ⟨mark, sign, ds, hmark, -, -, rfl⟩
    · rw [List.nil_append]
      exact StopsAt.imp hrest fun c hc => by rw [hc]; rfl
    · refine stopsAt_cons ?_
      rcases hmark with rfl | rfl <;> decide
  have hfrest : StopsAt isDigit (f ++ (x ++ rest)) := by
    rcases hf with rfl | ⟨ds, -, rfl⟩
    · rw [List.nil_append]
      exact StopsAt.imp hxrest fun c hc => by rw [hc]; rfl
    · exact stopsAt_cons (by decide)
  have hlength := exponentLength_plain hx hrest
  unfold numberLength?
  dsimp only
  rw [takeWhile_digits hw hfrest, List.drop_left]
  rcases hf with rfl | ⟨ds, ⟨hdne, hds⟩, rfl⟩
  · -- without a point, the digits in front are the mantissa
    have hwne : w.length ≠ 0 := by
      intro hzero
      exact hne (List.length_eq_zero_iff.mp hzero) rfl
    rw [List.nil_append]
    split
    · rename_i heq
      have hpoint := hxrest '.' (by rw [heq]; rfl)
      cases hpoint
    · rw [if_neg hwne]
      simp only [Option.map_some]
      rw [List.nil_append, List.drop_left, hlength, List.length_append]
  · -- with one, the digits on both sides of it
    have hdigits : StopsAt isDigit (x ++ rest) :=
      StopsAt.imp hxrest fun c hc => by rw [hc]; rfl
    have hdlen : ds.length ≠ 0 := fun hzero => hdne (List.length_eq_zero_iff.mp hzero)
    rw [List.cons_append]
    show Option.map _ (if (decide (w.length = 0) &&
      decide (((ds ++ (x ++ rest)).takeWhile isDigit).length = 0)) = true then none
      else some (w.length + 1 + ((ds ++ (x ++ rest)).takeWhile isDigit).length)) = _
    rw [takeWhile_digits hds hdigits, if_neg (by simp [hdlen]), Option.map_some]
    have hdrop : (w ++ '.' :: (ds ++ (x ++ rest))).drop (w.length + 1 + ds.length) = x ++ rest := by
      have hsplit : w ++ '.' :: (ds ++ (x ++ rest)) = (w ++ '.' :: ds) ++ (x ++ rest) := by simp
      have hlen : w.length + 1 + ds.length = (w ++ '.' :: ds).length := by
        simp only [List.length_append, List.length_cons]
        omega
      rw [hsplit, hlen, List.drop_left]
    rw [hdrop, hlength]
    congr 1
    simp only [List.length_append, List.length_cons]
    omega

/-! Each part of a numeral, cut at its first underscore. -/

theorem whole_front {w : List Char} (hw : w = [] ∨ DigitRun w) : ∃ w' q, w = w' ++ q ∧
    (∀ d ∈ w', d.isDigit = true) ∧ (w' = [] → w = []) ∧ (q = [] ∨ ∃ more, q = '_' :: more) := by
  rcases hw with rfl | hw
  · exact ⟨[], [], rfl, by simp, fun _ => rfl, Or.inl rfl⟩
  · obtain ⟨ds, q, hwq, hne, hds, hq⟩ := hw.plain_front
    exact ⟨ds, q, hwq, hds, fun h => absurd h hne, hq⟩

theorem fraction_front {f : List Char} (hf : Decimal.IsFraction f) : ∃ f' q, f = f' ++ q ∧
    (f' = [] ∨ ∃ ds, IsDigits ds ∧ f' = '.' :: ds) ∧ (f' = [] → f = []) ∧
    (q = [] ∨ ∃ more, q = '_' :: more) := by
  rcases hf with rfl | ⟨run, hrun, rfl⟩
  · exact ⟨[], [], rfl, Or.inl rfl, fun _ => rfl, Or.inl rfl⟩
  · obtain ⟨ds, q, hrunq, hne, hds, hq⟩ := hrun.plain_front
    exact ⟨'.' :: ds, q, by rw [hrunq]; rfl, Or.inr ⟨ds, ⟨hne, hds⟩, rfl⟩, (by cases ·), hq⟩

theorem exponent_front {x : List Char} (hx : Decimal.IsExponent x) : ∃ x' q, x = x' ++ q ∧
    IsPlainExponent x' ∧ (q = [] ∨ ∃ more, q = '_' :: more) := by
  rcases hx with rfl | ⟨mark, sign, run, hmark, hsign, hrun, rfl⟩
  · exact ⟨[], [], rfl, Or.inl rfl, Or.inl rfl⟩
  · obtain ⟨ds, q, hrunq, hne, hds, hq⟩ := hrun.plain_front
    refine ⟨mark :: (sign ++ ds), q, ?_, Or.inr ⟨mark, sign, ds, hmark, hsign, ⟨hne, hds⟩, rfl⟩, hq⟩
    rw [hrunq]
    simp

namespace Numeral

variable (n : Numeral)

/-- Up to its first underscore a numeral is a number without underscores. -/
theorem plain_front : ∃ w f x q, n.text = w ++ (f ++ (x ++ q)) ∧ (∀ d ∈ w, d.isDigit = true) ∧
    (f = [] ∨ ∃ ds, IsDigits ds ∧ f = '.' :: ds) ∧ IsPlainExponent x ∧ (w = [] → f ≠ []) ∧
    (q = [] ∨ ∃ more, q = '_' :: more) := by
  obtain ⟨w, f, x, htext, hw, hf, hx, hne⟩ := n.shape
  obtain ⟨w', q, rfl, hw', hwne, hq⟩ := whole_front hw
  obtain ⟨f', qf, rfl, hf', hfne, hqf⟩ := fraction_front hf
  obtain ⟨x', qx, rfl, hx', hqx⟩ := exponent_front hx
  -- the first underscore stands in the first part that has one
  rcases hq with rfl | ⟨more, rfl⟩
  · rw [List.append_nil] at htext hne
    rcases hqf with rfl | ⟨more, rfl⟩
    · rw [List.append_nil] at htext hne
      exact ⟨w', f', x', qx, htext, hw', hf', hx', hne, hqx⟩
    · refine ⟨w', f', [], '_' :: more ++ (x' ++ qx), by rw [htext]; simp, hw', hf', Or.inl rfl, ?_,
        Or.inr ⟨_, rfl⟩⟩
      exact fun _ hnil => absurd (hfne hnil) (by simp)
  · refine ⟨w', [], [], '_' :: more ++ (f' ++ qf ++ (x' ++ qx)), by rw [htext]; simp, hw',
      Or.inl rfl, Or.inl rfl, ?_, Or.inr ⟨_, rfl⟩⟩
    exact fun hnil => absurd (hwne hnil) (by simp)

/-- **The pattern for numbers takes a numeral up to its first underscore.** -/
theorem numberLength?_append {rest : List Char} (hrest : Decimal.Clear rest) :
    ∃ p q, n.text = p ++ q ∧ numberLength? (n.text ++ rest) = some p.length ∧ '_' ∉ p ∧
      (q = [] ∨ ∃ more, q = '_' :: more) := by
  obtain ⟨w, f, x, q, htext, hw, hf, hx, hne, hq⟩ := n.plain_front
  refine ⟨w ++ (f ++ x), q, by rw [htext]; simp, ?_, ?_, hq⟩
  · have hsplit : n.text ++ rest = w ++ (f ++ (x ++ (q ++ rest))) := by rw [htext]; simp
    rw [hsplit]
    exact numberLength?_plain hw hf hx hne (endsPattern_append hrest hq)
  · have hdigits : ∀ ds : List Char, (∀ d ∈ ds, d.isDigit = true) → '_' ∉ ds :=
      fun ds hds hmem => absurd (hds '_' hmem) (by decide)
    intro hmem
    rcases List.mem_append.mp hmem with hmem | hmem
    · exact hdigits w hw hmem
    rcases List.mem_append.mp hmem with hmem | hmem
    · rcases hf with rfl | ⟨ds, ⟨-, hds⟩, rfl⟩
      · cases hmem
      · rcases List.mem_cons.mp hmem with hpoint | hmem
        · cases hpoint
        · exact hdigits ds hds hmem
    · rcases hx with rfl | ⟨mark, sign, ds, hmark, hsign, ⟨-, hds⟩, rfl⟩
      · cases hmem
      · rcases List.mem_cons.mp hmem with hm | hmem
        · rcases hmark with rfl | rfl <;> cases hm
        · rcases List.mem_append.mp hmem with hmem | hmem
          · rcases hsign with rfl | rfl | rfl <;> simp at hmem
          · exact hdigits ds hds hmem

end Numeral

/-- The pattern for numbers takes a run of digits up to its first underscore. -/
theorem numberLength?_run {run rest : List Char} (hrun : DigitRun run)
    (hrest : Decimal.Clear rest) : ∃ ds q, run = ds ++ q ∧
      numberLength? (run ++ rest) = some ds.length ∧ '_' ∉ ds ∧
      (q = [] ∨ ∃ more, q = '_' :: more) := by
  obtain ⟨ds, q, hsplit, hne, hds, hq⟩ := hrun.plain_front
  refine ⟨ds, q, hsplit, ?_, fun hmem => absurd (hds '_' hmem) (by decide), hq⟩
  have h := numberLength?_plain hds (Or.inl rfl) (Or.inl rfl) (fun h => absurd h hne)
    (endsPattern_append hrest hq)
  rw [List.nil_append, List.nil_append, List.append_nil, List.append_nil] at h
  rw [hsplit, List.append_assoc]
  exact h

end InitialValue.Formula
