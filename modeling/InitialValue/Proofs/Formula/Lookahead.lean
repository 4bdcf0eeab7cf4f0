/-
  How far the scanner looks ahead.

  The scanner stops in front of the first character that it cannot take.  Where it has stopped, it
  stops whatever is further on: a number in front of something is the same number when the text goes
  on (`Token.takeNumber?_more`).  So a text that ends with a mark or a blank is cut into tokens by
  itself, if a number comes behind it (`Token.scanAll_front`).
-/
import InitialValue.Proofs.Formula.NumberPattern

namespace InitialValue

open InitialValue.Text

/-! ## Numerals -/

namespace Decimal

/-- More than an underscore that may stand between digits. -/
def Stopped (r : List Char) : Prop := r ≠ [] ∧ r ≠ ['_']

theorem takeDigits_go_more {w : List Char} (h : Stopped (takeDigits.go w).2) (rest : List Char) :
    takeDigits.go (w ++ rest) = ((takeDigits.go w).1, (takeDigits.go w).2 ++ rest) := by
  fun_induction takeDigits.go w with
  | case1 c d cs hd ds more heq ih =>
    rw [heq] at ih
    rw [List.cons_append, List.cons_append, List.cons_append, takeDigits.go, if_pos hd,
      ← List.cons_append, ih h]
  | case2 c d cs hd hc =>
    rw [List.cons_append, List.cons_append, List.cons_append, takeDigits.go, if_neg hd, if_pos hc]
  | case3 c d cs hd hc =>
    rw [List.cons_append, List.cons_append, List.cons_append, takeDigits.go, if_neg hd, if_neg hc]
  | case4 c cs hcs hc ds more heq ih =>
    rw [heq] at ih
    rw [List.cons_append, takeDigits.go, if_pos hc, ih h]
    intro d tail hsplit
    -- a single underscore at the end would have been left over
    rcases cs with _ | ⟨x, _ | ⟨y, cs⟩⟩
    · cases heq
      exact h.1 rfl
    · obtain ⟨rfl, -⟩ := List.cons.inj hsplit
      cases heq
      exact h.2 rfl
    · obtain ⟨rfl, -⟩ := List.cons.inj hsplit
      exact hcs y cs rfl
  | case5 c cs hcs hc =>
    exact takeDigits_go_stop (stopsAt_cons (Bool.eq_false_iff.mpr hc))
  | case6 => exact absurd rfl h.1

theorem takeDigits_more {w : List Char} (h : Stopped (takeDigits w).2) (rest : List Char) :
    takeDigits (w ++ rest) = ((takeDigits w).1, (takeDigits w).2 ++ rest) := by
  rcases w with _ | ⟨c, w⟩
  · exact absurd rfl h.1
  · by_cases hc : c = '_'
    · subst hc
      rfl
    · have hother : ∀ cs : List Char, takeDigits (c :: cs) = takeDigits.go (c :: cs) := fun cs =>
        takeDigits.eq_2 _ fun _ heq => hc (List.cons.inj heq).1
      rw [hother] at h
      rw [List.cons_append, hother, hother, ← List.cons_append, takeDigits_go_more h]

theorem takeFraction_more {w : List Char} (h : Stopped (takeFraction w).2.2) (rest : List Char) :
    takeFraction (w ++ rest) =
      ((takeFraction w).1, (takeFraction w).2.1, (takeFraction w).2.2 ++ rest) := by
  rcases w with _ | ⟨c, w⟩
  · exact absurd rfl h.1
  · by_cases hc : c = '.'
    · subst hc
      exact congrArg (Prod.mk true) (takeDigits_more h rest)
    · rw [List.cons_append, takeFraction.eq_2 _ fun r heq => hc (List.cons.inj heq).1,
        takeFraction.eq_2 _ fun r heq => hc (List.cons.inj heq).1]
      rfl

theorem exponentSign_more (c : Char) (w rest : List Char) : exponentSign (c :: (w ++ rest)) =
    ((exponentSign (c :: w)).1, (exponentSign (c :: w)).2 ++ rest) := by
  by_cases hminus : c = '-'
  · rw [hminus]
    rfl
  · by_cases hplus : c = '+'
    · rw [hplus]
      rfl
    · rw [exponentSign.eq_3 _ (fun r heq => hminus (List.cons.inj heq).1)
          (fun r heq => hplus (List.cons.inj heq).1),
        exponentSign.eq_3 _ (fun r heq => hminus (List.cons.inj heq).1)
          (fun r heq => hplus (List.cons.inj heq).1)]
      rfl

end Decimal

namespace Formula.Token

variable {w r rest : List Char}

/-- A text that a number has stopped in front of. -/
def Ended (r : List Char) : Prop := r ≠ [] ∧ endsNumber r = true

/-- Behind a number stands no word character, or a word that may follow it. -/
theorem Ended.head {c : Char} (h : Ended (c :: r)) :
    isPlainWord c = false ∨ ∃ m, c :: m ∈ wordsAfterNumber ∧ m <+: r := by
  have hends : (!isPlainWord c || wordsAfterNumber.any fun m => m.isPrefixOf (c :: r)) = true := h.2
  rw [Bool.or_eq_true, Bool.not_eq_true', List.any_eq_true] at hends
  rcases hends with hplain | ⟨m, hm, hprefix⟩
  · exact Or.inl hplain
  · have hne : ∀ m ∈ wordsAfterNumber, m ≠ [] := forall_mem_of_all (by decide)
    obtain ⟨d, m, rfl⟩ := List.exists_cons_of_ne_nil (hne m hm)
    obtain ⟨rfl, htail⟩ := List.cons_prefix_cons.mp (List.isPrefixOf_iff_prefix.mp hprefix)
    exact Or.inr ⟨m, hm, htail⟩

theorem Ended.not_underscore {c : Char} (h : Ended (c :: r)) : c ≠ '_' := by
  have hall : ∀ m ∈ wordsAfterNumber, m.head? ≠ some '_' := forall_mem_of_all (by decide)
  rintro rfl
  rcases h.head with hplain | ⟨m, hm, -⟩
  · exact absurd hplain (by decide)
  · exact hall _ hm rfl

theorem Ended.stopped (h : Ended r) : Decimal.Stopped r := by
  refine ⟨h.1, ?_⟩
  rintro rfl
  exact h.not_underscore rfl

/-- Behind a number, the mark of an exponent can only be the start of a word. -/
theorem Ended.word {e : Char} (h : Ended (e :: r)) (he : isMark e = true) :
    e = 'e' ∧ ∃ more, r = 'l' :: more := by
  have hall : ∀ m ∈ wordsAfterNumber, m.head? ≠ some 'E' ∧
      (m.head? = some 'e' → (m.drop 1).head? = some 'l') := forall_mem_of_all (by decide)
  rcases h.head with hplain | ⟨m, hm, tail, rfl⟩
  · rcases isMark_iff.mp he with rfl | rfl <;> exact absurd hplain (by decide)
  obtain ⟨hupper, hlower⟩ := hall _ hm
  rcases isMark_iff.mp he with rfl | rfl
  · obtain ⟨more, hmore⟩ := List.head?_eq_some_iff.mp (hlower rfl)
    obtain rfl : m = 'l' :: more := hmore
    exact ⟨rfl, more ++ tail, rfl⟩
  · exact absurd rfl hupper

theorem endsNumber_more (h : Ended r) (rest : List Char) : endsNumber (r ++ rest) = true := by
  obtain ⟨c, r, rfl⟩ := List.exists_cons_of_ne_nil h.1
  have hends : (!isPlainWord c || wordsAfterNumber.any fun m => m.isPrefixOf (c :: r)) = true := h.2
  rw [Bool.or_eq_true, List.any_eq_true] at hends
  rw [List.cons_append, endsNumber, Bool.or_eq_true, List.any_eq_true]
  rcases hends with hplain | ⟨m, hm, hprefix⟩
  · exact Or.inl hplain
  · refine Or.inr ⟨m, hm, ?_⟩
    rw [List.isPrefixOf_iff_prefix] at hprefix ⊢
    exact hprefix.trans (List.prefix_append (c :: r) rest)

theorem takeExponent_more (h : Ended (Decimal.takeExponent w).2) (rest : List Char) :
    Decimal.takeExponent (w ++ rest) =
      ((Decimal.takeExponent w).1, (Decimal.takeExponent w).2 ++ rest) := by
  rcases w with _ | ⟨e, w⟩
  · exact absurd rfl h.1
  rw [Decimal.takeExponent_cons] at h
  rw [List.cons_append, Decimal.takeExponent_cons, Decimal.takeExponent_cons]
  by_cases he : (e == 'e' || e == 'E') = true
  · rw [if_pos he] at h
    rw [if_pos he, if_pos he]
    rcases hdigits : Decimal.takeDigits (Decimal.exponentSign w).2 with ⟨_ | ⟨d, ds⟩, more⟩
    · rw [hdigits] at h
      obtain ⟨rfl, more, rfl⟩ := h.word he
      have hletter : ∀ xs, Decimal.takeDigits (Decimal.exponentSign ('l' :: xs)).2 =
          ([], 'l' :: xs) := fun xs => Decimal.takeDigits_stop (stopsAt_cons (by decide))
      rw [List.cons_append, hletter]
      rfl
    · rw [hdigits] at h
      rcases w with _ | ⟨c, w⟩
      · cases hdigits
      · have hmore := Decimal.takeDigits_more (w := (Decimal.exponentSign (c :: w)).2)
          (by rw [hdigits]; exact h.stopped) rest
        rw [List.cons_append, Decimal.exponentSign_more, hmore, hdigits]
  · rw [if_neg he, if_neg he]
    rfl

theorem takeNumeral?_more {n : Decimal.Numeral} (h : Decimal.takeNumeral? w = some (n, r))
    (hr : Ended r) (rest : List Char) :
    Decimal.takeNumeral? (w ++ rest) = some (n, r ++ rest) ∧
      Decimal.takeDigits (w ++ rest) =
        ((Decimal.takeDigits w).1, (Decimal.takeDigits w).2 ++ rest) := by
  rw [Decimal.takeNumeral?_eq] at h
  dsimp only at h
  split at h
  · cases h
  rename_i hdigits
  obtain ⟨rfl, rfl⟩ := Prod.mk.inj (Option.some.inj h)
  -- an underscore alone would be left over to the end
  have hfraction : Decimal.Stopped (Decimal.takeFraction (Decimal.takeDigits w).2).2.2 := by
    refine ⟨fun hnil => ?_, fun hunder => ?_⟩
    · rw [hnil] at hr
      exact hr.1 rfl
    · rw [hunder] at hr
      exact hr.stopped.2 rfl
  have hwhole : Decimal.Stopped (Decimal.takeDigits w).2 := by
    refine ⟨fun hnil => ?_, fun hunder => ?_⟩
    · rw [hnil] at hfraction
      exact hfraction.1 rfl
    · rw [hunder] at hfraction
      exact hfraction.2 rfl
  have htake := Decimal.takeDigits_more hwhole rest
  refine ⟨?_, htake⟩
  rw [Decimal.takeNumeral?_eq, htake]
  dsimp only
  rw [Decimal.takeFraction_more hfraction]
  dsimp only
  rw [takeExponent_more hr, if_neg hdigits]

theorem takeDecimal?_more {l : Literal} (h : takeDecimal? w = some (l, r)) (hr : Ended r)
    (rest : List Char) : takeDecimal? (w ++ rest) = some (l, r ++ rest) := by
  rw [takeDecimal?_eq] at h ⊢
  obtain ⟨⟨n, r'⟩, hn, h⟩ := Option.bind_eq_some_iff.mp h
  obtain ⟨l', hl, h⟩ := Option.map_eq_some_iff.mp h
  obtain ⟨rfl, rfl⟩ := Prod.mk.inj h
  obtain ⟨hnumeral, hdigits⟩ := takeNumeral?_more hn hr rest
  rw [hnumeral, hdigits, Option.bind_some]
  dsimp only at hl ⊢
  simp only [List.length_append, Nat.add_right_cancel_iff]
  rw [hl, Option.map_some]

theorem takeRadix_more {base n m : Nat} {found : Bool} (h : takeRadix base n found w = some (m, r))
    (hr : Ended r) (rest : List Char) :
    takeRadix base n found (w ++ rest) = some (m, r ++ rest) := by
  fun_induction takeRadix base n found w with
  | case1 n found c cs d hd ih =>
    rw [List.cons_append, List.cons_append, takeRadix, hd]
    exact ih h
  | case2 n c cs hd =>
    cases h
    rw [List.cons_append, List.cons_append, takeRadix, hd]
    rfl
  | case3 n found c cs hd hfound => cases h
  | case4 n found c cs hne d hd ih =>
    rw [List.cons_append, takeRadix_digit hd]
    exact ih h
  | case5 n c cs hne hd =>
    cases h
    exact takeRadix_stop hd (fun _ _ hc _ => hr.not_underscore hc) _ _
  | case6 n found c cs hne hd hfound => cases h
  | case7 n =>
    cases h
    exact absurd rfl hr.1
  | case8 n found hfound => cases h

theorem takeLiteral?_more {l : Literal} (h : takeLiteral? w = some (l, r)) (hr : Ended r)
    (rest : List Char) : takeLiteral? (w ++ rest) = some (l, r ++ rest) := by
  by_cases hplain : ∀ d more, w = '0' :: d :: more → radix? d = none
  · rw [takeLiteral?_decimal hplain] at h
    rw [takeLiteral?_decimal, takeDecimal?_more h hr]
    intro d more hsplit
    -- a zero alone would be the whole number
    rcases w with _ | ⟨x, _ | ⟨y, w⟩⟩
    · cases h
    · obtain rfl : x = '0' := (List.cons.inj hsplit).1
      cases h
      exact absurd rfl hr.1
    · obtain ⟨rfl, htail⟩ := List.cons.inj hsplit
      obtain ⟨rfl, -⟩ := List.cons.inj htail
      exact hplain y w rfl
  · push Not at hplain
    obtain ⟨d, more, rfl, hradix⟩ := hplain
    obtain ⟨base, hbase⟩ := Option.ne_none_iff_exists'.mp hradix
    rw [takeLiteral?, hbase] at h
    obtain ⟨⟨n, r'⟩, hn, h⟩ := Option.map_eq_some_iff.mp h
    obtain ⟨rfl, rfl⟩ := Prod.mk.inj h
    rw [List.cons_append, List.cons_append, takeLiteral?, hbase]
    dsimp only
    rw [takeRadix_more hn hr]
    rfl

/-- **A number in front of something** is the same number when the text goes on. -/
theorem takeNumber?_more {l : Literal} (h : takeNumber? w = some (l, r)) (hr : r ≠ [])
    (rest : List Char) : takeNumber? (w ++ rest) = some (l, r ++ rest) := by
  have hended : Ended r := ⟨hr, (takeNumber?_rest h).2⟩
  rw [takeNumber?_eq] at h ⊢
  obtain ⟨p, hp, h⟩ := Option.bind_eq_some_iff.mp h
  obtain ⟨-, hp'⟩ := Option.ite_none_right_eq_some.mp h
  cases hp'
  rw [takeLiteral?_more hp hended, Option.bind_some, if_pos (endsNumber_more hended rest)]

/-! ## Texts in front of a number -/

/-- A text that a number starts with. -/
def StartsNumber (rest : List Char) : Prop := ∃ c more, rest = c :: more ∧ isFigure c = true

section

variable {s : Char} (hs : isSolid s = false)
include hs

theorem takeExponent_left (w : List Char) : (Decimal.takeExponent (w ++ [s])).2 ≠ [] := by
  intro hnil
  rcases Decimal.isExponent_of_takeExponent hnil with h | ⟨mark, sign, run, -, -, hrun, h⟩
  · exact absurd h (by simp)
  · -- an exponent ends with a digit
    obtain ⟨front, d, rfl, hd⟩ := hrun.last
    rw [← List.append_assoc, ← List.cons_append] at h
    obtain rfl : s = d := by simpa using List.append_inj_right' h rfl
    rw [isSolid, isWord_of_isPlainWord (isPlainWord_of_isDigit hd)] at hs
    cases hs

theorem takeDecimal?_left {l : Literal} (h : takeDecimal? (w ++ [s]) = some (l, r)) : r ≠ [] := by
  have hclear : Decimal.Clear [s] := stopsAt_cons hs
  rw [takeDecimal?_eq] at h
  obtain ⟨⟨n, r'⟩, hn, h⟩ := Option.bind_eq_some_iff.mp h
  obtain ⟨l', -, h⟩ := Option.map_eq_some_iff.mp h
  cases h
  rw [Decimal.takeNumeral?_eq, Decimal.takeDigits_append w
    (Decimal.stopsAt_digits_of_plainWord hclear.plainWord)] at hn
  dsimp only at hn
  rw [Decimal.takeFraction_append hclear] at hn
  dsimp only at hn
  split at hn
  · cases hn
  · obtain ⟨-, rfl⟩ := Prod.mk.inj (Option.some.inj hn)
    exact takeExponent_left hs _

theorem takeLiteral?_left {l : Literal} (h : takeLiteral? (w ++ [s]) = some (l, r)) : r ≠ [] := by
  have hclear : Decimal.Clear [s] := stopsAt_cons hs
  by_cases hplain : ∀ d more, w = '0' :: d :: more → radix? d = none
  · rw [takeLiteral?_decimal (radix?_append hclear hplain)] at h
    exact takeDecimal?_left hs h
  · push Not at hplain
    obtain ⟨d, more, rfl, hradix⟩ := hplain
    obtain ⟨base, hbase⟩ := Option.ne_none_iff_exists'.mp hradix
    rw [List.cons_append, List.cons_append, takeLiteral?, hbase] at h
    dsimp only at h
    rw [takeRadix_append hclear, Option.map_map] at h
    obtain ⟨p, -, hp⟩ := Option.map_eq_some_iff.mp h
    obtain ⟨-, rfl⟩ := Prod.mk.inj hp
    simp

/-- A number does not take a mark or a blank at the end of a text. -/
theorem takeNumber?_left {l : Literal} (h : takeNumber? (w ++ [s]) = some (l, r)) : r ≠ [] := by
  rw [takeNumber?_eq] at h
  obtain ⟨p, hp, h⟩ := Option.bind_eq_some_iff.mp h
  obtain ⟨-, hp'⟩ := Option.ite_none_right_eq_some.mp h
  cases hp'
  exact takeLiteral?_left hs hp

end

/-- Marks of two characters, and no figure among them. -/
theorem doubleMarks_pair {m : List Char} (h : m ∈ doubleMarks) :
    ∃ x y, m = [x, y] ∧ isFigure y = false := by
  rw [doubleMarks_eq] at h
  have hall : ∀ m ∈ [['*', '*'], ['/', '/'], ['<', '<'], ['>', '>'], ['<', '='], ['>', '='],
      ['=', '='], ['!', '=']], m = [m.headD ' ', m.getLastD ' '] ∧
        isFigure (m.getLastD ' ') = false := forall_mem_of_all (by decide)
  obtain ⟨hpair, hy⟩ := hall m h
  exact ⟨_, _, hpair, hy⟩

/-- **A mark** is the same mark when a number comes behind the text. -/
theorem takeMark?_more {c : Char} {p : String × List Char} (h : takeMark? (c :: w) = some p)
    (hrest : StartsNumber rest) : takeMark? (c :: (w ++ rest)) = some (p.1, p.2 ++ rest) := by
  obtain ⟨f, more, rfl, hf⟩ := hrest
  have hsame : ∀ m ∈ doubleMarks, m.isPrefixOf (c :: (w ++ f :: more)) = m.isPrefixOf (c :: w) := by
    intro m hm
    obtain ⟨x, y, rfl, hy⟩ := doubleMarks_pair hm
    rcases w with _ | ⟨d, w⟩
    · have hne : y ≠ f := by
        rintro rfl
        rw [hf] at hy
        cases hy
      simp [List.isPrefixOf, hne]
    · simp [List.isPrefixOf]
  unfold takeMark? at h ⊢
  rw [List.find?_congr hsame]
  rcases hfind : doubleMarks.find? (fun m => m.isPrefixOf (c :: w)) with _ | m
  · rw [hfind] at h ⊢
    dsimp only at h ⊢
    obtain ⟨hsingle, hp⟩ := Option.ite_none_right_eq_some.mp h
    rw [if_pos hsingle]
    cases hp
    rfl
  · have hprefix := List.find?_some hfind
    have hle := (List.isPrefixOf_iff_prefix.mp hprefix).length_le
    rw [hfind] at h ⊢
    cases h
    dsimp only
    rw [← List.cons_append, List.drop_append_of_le_length hle]

/-- No part of a name ends a text that an operand may follow. -/
theorem not_isNamePart_of_awaits {s : Char} (h : AwaitsOperand (w ++ [s])) :
    isNamePart s = false := by
  rw [AwaitsOperand, List.reverse_append] at h
  by_cases hblank : isBlank s = true
  · have htable : namePartSpan.holds s = false := Span.not_holds_of_apart (by decide +kernel) hblank
    have hword := isWord_of_isBlank hblank
    unfold isNamePart
    split
    · rw [Bool.eq_false_iff]
      intro hplain
      rw [isWord_of_isPlainWord hplain] at hword
      cases hword
    · exact htable
  · have hall : ∀ c ∈ "+-*/%@&|^~<>=([\x7b,:".toList, isNamePart c = false :=
      forall_mem_of_all (by decide)
    exact hall s (List.contains_iff_mem.mp ((meets_cons (Bool.eq_false_iff.mpr hblank)).mp h))

/-- A name ends in front of the first character that is no part of names. -/
theorem nameTail_more (h : ∃ s ∈ w, isNamePart s = false) (rest : List Char) :
    (w ++ rest).takeWhile isNamePart = w.takeWhile isNamePart ∧
      (w ++ rest).dropWhile isNamePart = w.dropWhile isNamePart ++ rest := by
  obtain ⟨s, hs, hpart⟩ := h
  obtain ⟨x, y, rfl⟩ := List.append_of_mem hs
  have hstop : ∀ more, StopsAt isNamePart (s :: more) := fun more => stopsAt_cons hpart
  rw [List.append_assoc, List.cons_append, takeWhile_append_of_stop x (hstop _),
    takeWhile_append_of_stop x (hstop _), dropWhile_append_of_stop x (hstop _),
    dropWhile_append_of_stop x (hstop _), List.append_assoc, List.cons_append]
  exact ⟨rfl, rfl⟩

theorem startsNumber_more {c : Char} (h : c = '.' → w ≠ []) (rest : List Char) :
    startsNumber (c :: (w ++ rest)) = startsNumber (c :: w) := by
  by_cases hc : c = '.'
  · subst hc
    obtain ⟨d, w, rfl⟩ := List.exists_cons_of_ne_nil (h rfl)
    rfl
  · rw [startsNumber_cons hc, startsNumber_cons hc]

/-- What is left of such a text is one. -/
theorem awaits_suffix (h : AwaitsOperand w) (hsuffix : r <:+ w) : AwaitsOperand r := by
  obtain ⟨front, rfl⟩ := hsuffix
  exact h.suffix

/-- What a text in front of an operand ends with: neither a number nor a name goes on there. -/
theorem last_of_awaits (h : AwaitsOperand w) (hne : w ≠ []) :
    ∃ front s, w = front ++ [s] ∧ isSolid s = false ∧ isNamePart s = false := by
  obtain ⟨front, s, rfl⟩ := List.eq_nil_or_concat w |>.resolve_left hne
  rw [List.concat_eq_append] at h ⊢
  exact ⟨front, s, rfl, h.last.1, not_isNamePart_of_awaits h⟩

/-- A name in such a text ends in it. -/
theorem tail_of_awaits {c : Char} (h : AwaitsOperand (c :: w)) (hc : isNameStart c = true) :
    ∃ s ∈ w, isNamePart s = false := by
  obtain ⟨front, s, hfront, -, hs⟩ := last_of_awaits h (List.cons_ne_nil c w)
  have hmem : s ∈ c :: w := by
    rw [hfront]
    exact List.mem_append_right front List.mem_cons_self
  refine ⟨s, (List.mem_cons.mp hmem).resolve_left ?_, hs⟩
  rintro rfl
  rw [isNamePart_of_isNameStart hc] at hs
  cases hs

/-- A point that such a text starts with is not all of it. -/
theorem startsNumber_of_awaits {c : Char} (h : AwaitsOperand (c :: w)) (rest : List Char) :
    startsNumber (c :: (w ++ rest)) = startsNumber (c :: w) := by
  refine startsNumber_more ?_ rest
  rintro rfl rfl
  have hpoint : AwaitsOperand ([] ++ ['.']) := h
  exact absurd hpoint.last.1 (by decide)

/-- **A text that an operand may follow is cut into tokens by itself**, if a number comes behind
    it: the tokens are those of the text, and then those of what comes behind it. -/
theorem Scanned.front {ts : List Token} (h : Scanned w ts) (hw : AwaitsOperand w)
    (hhash : '#' ∉ w) (hrest : StartsNumber rest) :
    scanAll (w ++ rest) = (scanAll rest).map (ts ++ ·) := by
  induction h with
  | done => exact Option.map_id'.symm
  | hash => exact absurd List.mem_cons_self hhash
  | @blank w ts _ ih =>
    rw [List.cons_append, scanAll_space]
    exact ih (awaits_suffix hw (List.suffix_cons _ w)) fun hmem =>
      hhash (List.mem_cons_of_mem _ hmem)
  | @number cs r l ts hhead hspace hnumber hl _ ih =>
    obtain ⟨front, s, hfront, hs, -⟩ := last_of_awaits hw (by rintro rfl; cases hnumber)
    -- a number leaves the last character, so what comes behind the text does not touch it
    have hleft : r ≠ [] := takeNumber?_left hs (hfront ▸ hl)
    have hr := ih (awaits_suffix hw (takeNumber?_rest hl).1) fun hmem =>
      hhash ((takeNumber?_rest hl).1.mem hmem)
    obtain ⟨c, cs, rfl⟩ := List.exists_cons_of_ne_nil (l := cs) (by rintro rfl; cases hnumber)
    have hc : c ≠ '#' ∧ c ≠ ' ' := ⟨fun heq => hhead (heq ▸ rfl), fun heq => hspace (heq ▸ rfl)⟩
    rw [List.cons_append, scanAll_number hc ((startsNumber_of_awaits hw rest).trans hnumber),
      ← List.cons_append, takeNumber?_more hl hleft, Option.bind_some, hr, Option.map_map]
    rfl
  | @name c w ts hnumber hc _ ih =>
    have hsuffix : w.dropWhile isNamePart <:+ c :: w :=
      (List.dropWhile_suffix isNamePart).trans (List.suffix_cons c w)
    have hr := ih (awaits_suffix hw hsuffix) fun hmem => hhash (hsuffix.mem hmem)
    obtain ⟨htake, hdrop⟩ := nameTail_more (tail_of_awaits hw hc) rest
    rw [List.cons_append, scanAll_name ((startsNumber_of_awaits hw rest).trans hnumber) hc, htake,
      hdrop, hr, Option.map_map]
    rfl
  | @mark c cs r m ts hsharp hspace hnumber hc hm _ ih =>
    have hsuffix : r <:+ c :: cs := ⟨_, (takeMark?_spec hm).1.symm⟩
    have hr := ih (awaits_suffix hw hsuffix) fun hmem => hhash (hsuffix.mem hmem)
    rw [List.cons_append, scanAll_mark ⟨hsharp, hspace⟩
      ((startsNumber_of_awaits hw rest).trans hnumber) hc, takeMark?_more hm hrest,
      Option.bind_some, hr, Option.map_map]
    rfl

/-- The same for what the scanner reports. -/
theorem scanAll_front {ts : List Token} (h : scanAll w = some ts) (hw : AwaitsOperand w)
    (hhash : '#' ∉ w) (hrest : StartsNumber rest) :
    scanAll (w ++ rest) = (scanAll rest).map (ts ++ ·) :=
  (scanned_of_scan h).front hw hhash hrest

end Formula.Token

end InitialValue
