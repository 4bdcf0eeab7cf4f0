/-
  Runs of a text are read apart.

  The scanner and the search for names take a run of solid characters off a text without looking at
  what comes behind it, with one exception: a number that ends with an exponent mark takes a sign
  and digits along.  Where no sign follows such a mark (`Finished`), the tokens of a run are found
  in it, and those of what comes behind it, there (`scanAll_run`); the same goes for names
  (`scanNames_append`).

  Fuel beyond the length of a text makes no difference to the scanner (`scan_enough`), so it is left
  out here (`scanAll`).
-/
import InitialValue.Proofs.Formula.Cutting
import InitialValue.Proofs.Formula.Ink
import InitialValue.Proofs.Formula.Settling
import InitialValue.Proofs.Formula.StateName.Scanning

namespace InitialValue

open InitialValue.Text

/-! ## Numbers at the end of a run -/

namespace Decimal

theorem takeDigits_go_append (w : List Char) {rest : List Char}
    (hrest : StopsAt (fun c => c.isDigit || c == '_') rest) :
    takeDigits.go (w ++ rest) = ((takeDigits.go w).1, (takeDigits.go w).2 ++ rest) := by
  have hstop : ∀ c, rest.head? = some c → c.isDigit = false ∧ c ≠ '_' := fun c hc => by
    simpa using hrest c hc
  -- behind a single underscore at the end, no digit comes
  have hunder : ∀ {cs : List Char}, (∀ d more, cs ≠ '_' :: d :: more) →
      (∀ d more, cs ++ rest ≠ '_' :: d :: more) ∨ ∃ d more, rest = d :: more ∧ cs = ['_'] := by
    intro cs hcs
    by_contra hnot
    rw [not_or] at hnot
    obtain ⟨hsplit, hlone⟩ := hnot
    refine hsplit fun d more h => ?_
    rcases cs with _ | ⟨x, _ | ⟨y, cs⟩⟩
    · exact (hstop '_' (by rw [List.nil_append] at h; rw [h]; rfl)).2 rfl
    · obtain ⟨rfl, hrest⟩ := List.cons.inj h
      exact hlone ⟨d, more, hrest, rfl⟩
    · obtain ⟨rfl, -⟩ := List.cons.inj h
      exact hcs y cs rfl
  fun_induction takeDigits.go w with
  | case1 c d cs h ds more heq ih =>
    rw [heq] at ih
    rw [List.cons_append, List.cons_append, List.cons_append, takeDigits.go, if_pos h,
      ← List.cons_append, ih]
  | case2 c d cs h hc =>
    rw [List.cons_append, List.cons_append, List.cons_append, takeDigits.go, if_neg h, if_pos hc]
  | case3 c d cs h hc =>
    rw [List.cons_append, List.cons_append, List.cons_append, takeDigits.go, if_neg h, if_neg hc]
  | case4 c cs hcs hc ds more heq ih =>
    rw [heq] at ih
    rcases hunder (fun d m h => hcs d m h) with hsplit | ⟨d, m, rfl, rfl⟩
    · rw [List.cons_append, takeDigits.go, if_pos hc, ih]
      exact fun d m h => hsplit d m h
    · cases heq
      have hd := (hstop d rfl).1
      show takeDigits.go (c :: '_' :: d :: m) = _
      rw [takeDigits.go, if_neg (by rw [hd, Bool.and_false]; decide), if_pos hc]
      rfl
  | case5 c cs hcs hc =>
    exact takeDigits_go_stop (stopsAt_cons (Bool.eq_false_iff.mpr hc))
  | case6 => exact takeDigits_go_stop fun c hc => (hstop c hc).1

theorem takeDigits_append (w : List Char) {rest : List Char}
    (hrest : StopsAt (fun c => c.isDigit || c == '_') rest) :
    takeDigits (w ++ rest) = ((takeDigits w).1, (takeDigits w).2 ++ rest) := by
  have hgo := takeDigits_go_append w hrest
  rcases w with _ | ⟨c, w⟩
  · exact takeDigits_stop (hrest.imp fun c hc => by rw [hc]; rfl)
  · by_cases hc : c = '_'
    · subst hc
      rfl
    · rw [List.cons_append, takeDigits.eq_2 _ fun cs h => hc (List.cons.inj h).1,
        takeDigits.eq_2 _ fun cs h => hc (List.cons.inj h).1]
      exact hgo

/-- The sign of an exponent. -/
def isSign (c : Char) : Bool := c == '+' || c == '-'

/-- No sign stands right behind an exponent mark at the end of a run. -/
def Finished (w rest : List Char) : Prop :=
  w.getLast? = some 'e' ∨ w.getLast? = some 'E' → StopsAt isSign rest

theorem Finished.suffix {w x rest : List Char} (h : Finished w rest) (hx : x <:+ w) :
    Finished x rest := by
  obtain ⟨front, rfl⟩ := hx
  intro hlast
  refine h (hlast.imp ?_ ?_) <;>
    · intro he
      rw [List.getLast?_append, he]
      rfl

section

variable {rest : List Char} (hrest : Clear rest)
include hrest

theorem takeFraction_append (w : List Char) :
    takeFraction (w ++ rest) =
      ((takeFraction w).1, (takeFraction w).2.1, (takeFraction w).2.2 ++ rest) := by
  rcases w with _ | ⟨c, w⟩
  · rcases rest with _ | ⟨d, rest⟩
    · rfl
    · have hd : d ≠ '.' := by
        rintro rfl
        exact absurd (hrest '.' rfl) (by decide)
      exact takeFraction.eq_2 _ fun r h => hd (List.cons.inj h).1
  · by_cases hc : c = '.'
    · subst hc
      exact congrArg (Prod.mk true)
        (takeDigits_append w (stopsAt_digits_of_plainWord hrest.plainWord))
    · rw [List.cons_append, takeFraction.eq_2 _ fun r h => hc (List.cons.inj h).1,
        takeFraction.eq_2 _ fun r h => hc (List.cons.inj h).1]
      rfl

theorem exponentSign_append {w : List Char} (hsign : w = [] → StopsAt isSign rest) :
    exponentSign (w ++ rest) = ((exponentSign w).1, (exponentSign w).2 ++ rest) := by
  have hother : ∀ {c : Char} (cs : List Char), isSign c = false → exponentSign (c :: cs) =
      (false, c :: cs) := by
    intro c cs hc
    rw [isSign, Bool.or_eq_false_iff, beq_eq_false_iff_ne, beq_eq_false_iff_ne] at hc
    exact exponentSign.eq_3 _ (fun r h => hc.2 (List.cons.inj h).1)
      (fun r h => hc.1 (List.cons.inj h).1)
  rcases w with _ | ⟨c, w⟩
  · rcases rest with _ | ⟨d, rest⟩
    · rfl
    · exact hother rest (hsign rfl d rfl)
  · by_cases hc : isSign c = true
    · rw [isSign, Bool.or_eq_true, beq_iff_eq, beq_iff_eq] at hc
      rcases hc with rfl | rfl <;> rfl
    · rw [List.cons_append, hother _ (Bool.eq_false_iff.mpr hc), hother _ (Bool.eq_false_iff.mpr hc)]
      rfl

theorem takeExponent_append {w : List Char} (h : Finished w rest) :
    takeExponent (w ++ rest) = ((takeExponent w).1, (takeExponent w).2 ++ rest) := by
  have hstop := stopsAt_digits_of_plainWord hrest.plainWord
  rcases w with _ | ⟨e, w⟩
  · obtain ⟨hvalue, hpower⟩ := takeExponent_isExponent (Or.inl rfl) hrest.plainWord
    exact Prod.ext hpower hvalue
  rw [List.cons_append, takeExponent_cons, takeExponent_cons]
  by_cases hmark : (e == 'e' || e == 'E') = true
  · have hsign : w = [] → StopsAt isSign rest := by
      rintro rfl
      rw [Bool.or_eq_true, beq_iff_eq, beq_iff_eq] at hmark
      refine h (hmark.imp ?_ ?_) <;>
        · rintro rfl
          rfl
    rw [if_pos hmark, if_pos hmark, exponentSign_append hrest hsign, takeDigits_append _ hstop]
    dsimp only
    rcases takeDigits (exponentSign w).2 with ⟨_ | ⟨d, ds⟩, more⟩
    · rfl
    · rfl
  · rw [if_neg hmark, if_neg hmark]
    rfl

/-- **A number at the end of a run** is read without what comes behind. -/
theorem takeNumeral?_append {w : List Char} (h : Finished w rest) :
    takeNumeral? (w ++ rest) = (takeNumeral? w).map fun p => (p.1, p.2 ++ rest) := by
  have hstop := stopsAt_digits_of_plainWord hrest.plainWord
  have hexponent : Finished (takeFraction (takeDigits w).2).2.2 rest :=
    h.suffix ((takeFraction_suffix _).trans (takeDigits_suffix w))
  rw [takeNumeral?_eq, takeNumeral?_eq]
  dsimp only
  rw [takeDigits_append w hstop]
  dsimp only
  rw [takeFraction_append hrest]
  dsimp only
  rw [takeExponent_append hrest hexponent]
  split
  · rfl
  · rfl

end

/-- A numeral takes something off. -/
theorem takeNumeral?_shorter {cs rest : List Char} {n : Numeral}
    (h : takeNumeral? cs = some (n, rest)) : rest.length < cs.length := by
  rw [takeNumeral?_eq] at h
  dsimp only at h
  split at h
  · cases h
  · rename_i hdigits
    cases h
    refine Nat.lt_of_le_of_lt (takeExponent_suffix _).length_le ?_
    rcases takeDigits_cases cs with ⟨hnone, -⟩ | ⟨run, hrun, hcs⟩
    · rw [hnone] at hdigits ⊢
      rcases cs with _ | ⟨c, cs⟩
      · exact absurd rfl hdigits
      · by_cases hc : c = '.'
        · subst hc
          exact Nat.lt_succ_of_le (takeDigits_suffix cs).length_le
        · rw [takeFraction.eq_2 _ fun r hr => hc (List.cons.inj hr).1] at hdigits
          exact absurd rfl hdigits
    · refine Nat.lt_of_le_of_lt (takeFraction_suffix _).length_le ?_
      have hlength := congrArg List.length hcs
      rw [List.length_append] at hlength
      have hpos := List.length_pos_iff.mpr hrun.ne_nil
      omega

end Decimal

/-! ## Tokens -/

namespace Formula

namespace Token

variable {w rest cs : List Char}

/-- Digits of all bases are plain word characters. -/
theorem digitIn?_mark {c : Char} (hc : isPlainWord c = false) (base : Nat) :
    digitIn? base c = none := by
  unfold isPlainWord Char.isAlphanum Char.isAlpha at hc
  rw [Bool.or_eq_false_iff, Bool.or_eq_false_iff, Bool.or_eq_false_iff] at hc
  obtain ⟨⟨⟨hupper, hlower⟩, hdigit⟩, -⟩ := hc
  have hsmall : ¬ ('a' ≤ c ∧ c ≤ 'f') := by
    rintro ⟨ha, hf⟩
    have hz : c ≤ 'z' := Char.le_trans hf (by decide)
    exact Bool.eq_false_iff.mp hlower
      (Bool.and_eq_true_iff.mpr ⟨decide_eq_true ha, decide_eq_true hz⟩)
  have hlarge : ¬ ('A' ≤ c ∧ c ≤ 'F') := by
    rintro ⟨ha, hf⟩
    have hz : c ≤ 'Z' := Char.le_trans hf (by decide)
    exact Bool.eq_false_iff.mp hupper (decide_eq_true ⟨ha, hz⟩)
  unfold digitIn?
  simp [hdigit, hsmall, hlarge]

theorem digitIn?_underscore (base : Nat) : digitIn? base '_' = none := by
  have hnone : ∀ v, v = base → (if v < base then some v else none) = none := by
    rintro v rfl
    exact if_neg (Nat.lt_irrefl v)
  exact hnone _ rfl

theorem takeRadix_digit {base d : Nat} {c : Char} (hd : digitIn? base c = some d) (n : Nat)
    (found : Bool) (cs : List Char) :
    takeRadix base n found (c :: cs) = takeRadix base (base * n + d) true cs := by
  rw [takeRadix, hd]
  rintro d' ds rfl -
  rw [digitIn?_underscore base] at hd
  cases hd

/-- A number in a base ends where no digit follows. -/
theorem takeRadix_stop {base : Nat} {c : Char} {cs : List Char} (hd : digitIn? base c = none)
    (hne : ∀ d ds, c = '_' → cs = d :: ds → False) (n : Nat) (found : Bool) :
    takeRadix base n found (c :: cs) = if found then some (n, c :: cs) else none := by
  rw [takeRadix, hd]
  exact hne

theorem takeRadix_clear (hrest : Decimal.Clear rest) (base n : Nat) (found : Bool) :
    takeRadix base n found rest = if found then some (n, rest) else none := by
  rcases rest with _ | ⟨c, cs⟩
  · rfl
  · refine takeRadix_stop (digitIn?_mark (hrest.plainWord c rfl) base) ?_ n found
    rintro d ds rfl -
    exact absurd (hrest.plainWord '_' rfl) (by decide)

/-- An underscore at the end of a run has no digit behind it either. -/
theorem takeRadix_underscore (hrest : Decimal.Clear rest) (base n : Nat) (found : Bool) :
    takeRadix base n found ('_' :: rest) = if found then some (n, '_' :: rest) else none := by
  rcases rest with _ | ⟨c, cs⟩
  · exact takeRadix_stop (digitIn?_underscore base) (fun _ _ _ h => by cases h) n found
  · rw [takeRadix, digitIn?_mark (hrest.plainWord c rfl) base]

theorem takeRadix_append (hrest : Decimal.Clear rest) (base n : Nat) (found : Bool)
    (w : List Char) : takeRadix base n found (w ++ rest) =
      (takeRadix base n found w).map fun p => (p.1, p.2 ++ rest) := by
  have hend : ∀ {c cs n found}, (∀ d ds, c = '_' → cs = d :: ds → False) →
      digitIn? base c = none → takeRadix base n found (c :: cs ++ rest) =
        if found then some (n, c :: cs ++ rest) else none := by
    intro c cs n found hne hd
    by_cases hlone : c = '_' ∧ cs = []
    · obtain ⟨rfl, rfl⟩ := hlone
      exact takeRadix_underscore hrest base n found
    · refine takeRadix_stop hd (fun d ds hc hds => ?_) n found
      rcases cs with _ | ⟨x, cs⟩
      · exact hlone ⟨hc, rfl⟩
      · exact hne x cs hc rfl
  fun_induction takeRadix base n found w with
  | case1 n found c cs d hd ih =>
    rw [List.cons_append, List.cons_append, takeRadix, hd]
    exact ih
  | case2 n c cs hd =>
    rw [List.cons_append, List.cons_append, takeRadix, hd]
    rfl
  | case3 n found c cs hd hfound =>
    rw [List.cons_append, List.cons_append, takeRadix, hd]
    simp [hfound]
  | case4 n found c cs hne d hd ih =>
    rw [List.cons_append, takeRadix_digit hd]
    exact ih
  | case5 n c cs hne hd =>
    rw [hend hne hd, if_pos rfl]
    rfl
  | case6 n found c cs hne hd hfound =>
    rw [hend hne hd, if_neg hfound]
    rfl
  | case7 n =>
    rw [List.nil_append, takeRadix_clear hrest, if_pos rfl]
    rfl
  | case8 n found hfound =>
    rw [List.nil_append, takeRadix_clear hrest, if_neg hfound]
    rfl

/-- A word stands at the front of a run, whatever comes behind. -/
theorem isPrefixOf_append {m : List Char} (hm : ∀ c ∈ m, isPlainWord c = true)
    (hrest : Decimal.Clear rest) (w : List Char) : m.isPrefixOf (w ++ rest) = m.isPrefixOf w := by
  induction m generalizing w with
  | nil => cases w <;> rfl
  | cons c m ih =>
    rcases w with _ | ⟨d, w⟩
    · rcases rest with _ | ⟨d, rest⟩
      · rfl
      · have hne : c ≠ d := by
          rintro rfl
          exact absurd (hrest.plainWord c rfl) (by rw [hm c List.mem_cons_self]; decide)
        rw [List.nil_append, List.isPrefixOf_cons_cons, beq_eq_false_iff_ne.mpr hne]
        rfl
    · rw [List.cons_append, List.isPrefixOf_cons_cons, List.isPrefixOf_cons_cons,
        ih fun x hx => hm x (List.mem_cons_of_mem _ hx)]

theorem wordsAfterNumber_plain {m : List Char} (hm : m ∈ wordsAfterNumber) :
    ∀ c ∈ m, isPlainWord c = true := by
  have hall : (wordsAfterNumber.all fun m => m.all isPlainWord) = true := by decide
  exact List.all_eq_true.mp (List.all_eq_true.mp hall m hm)

theorem endsNumber_append (hrest : Decimal.Clear rest) (w : List Char) :
    endsNumber (w ++ rest) = endsNumber w := by
  rcases w with _ | ⟨c, w⟩
  · rcases rest with _ | ⟨d, rest⟩
    · rfl
    · have hd := hrest.plainWord d rfl
      simp [endsNumber, hd]
  · have hwords : (wordsAfterNumber.any fun m => m.isPrefixOf (c :: w ++ rest)) =
        wordsAfterNumber.any fun m => m.isPrefixOf (c :: w) := by
      rw [Bool.eq_iff_iff, List.any_eq_true, List.any_eq_true]
      refine exists_congr fun m => and_congr_right fun hm => ?_
      rw [isPrefixOf_append (wordsAfterNumber_plain hm) hrest]
    rw [List.cons_append] at hwords
    rw [List.cons_append, endsNumber, endsNumber, hwords]

theorem takeDecimal?_append (hrest : Decimal.Clear rest) (h : Decimal.Finished w rest) :
    takeDecimal? (w ++ rest) = (takeDecimal? w).map fun p => (p.1, p.2 ++ rest) := by
  rw [takeDecimal?_eq, takeDecimal?_eq, Decimal.takeNumeral?_append hrest h,
    Decimal.takeDigits_append w (Decimal.stopsAt_digits_of_plainWord hrest.plainWord)]
  cases Decimal.takeNumeral? w with
  | none => rfl
  | some p => simp [Function.comp_def]

theorem radix?_mark {c : Char} (hc : isPlainWord c = false) : radix? c = none := by
  have hne : ∀ d : Char, isPlainWord d = true → c ≠ d := by
    rintro d hd rfl
    rw [hd] at hc
    cases hc
  unfold radix?
  simp [hne 'x' (by decide), hne 'X' (by decide), hne 'o' (by decide), hne 'O' (by decide),
    hne 'b' (by decide), hne 'B' (by decide)]

theorem takeLiteral?_decimal {cs : List Char}
    (h : ∀ d more, cs = '0' :: d :: more → radix? d = none) : takeLiteral? cs = takeDecimal? cs := by
  unfold takeLiteral?
  split
  · rename_i d more
    rw [h d more rfl]
  · rfl

/-- Behind a run, no letter announces a base. -/
theorem radix?_append (hrest : Decimal.Clear rest)
    (hplain : ∀ d more, w = '0' :: d :: more → radix? d = none) :
    ∀ d more, w ++ rest = '0' :: d :: more → radix? d = none := by
  intro d more hsplit
  rcases w with _ | ⟨x, _ | ⟨y, w⟩⟩
  · rw [List.nil_append] at hsplit
    exact absurd (hrest.plainWord '0' (by rw [hsplit]; rfl)) (by decide)
  · have hd : rest = d :: more := (List.cons.inj hsplit).2
    exact radix?_mark (hrest.plainWord d (by rw [hd]; rfl))
  · obtain ⟨rfl, htail⟩ := List.cons.inj hsplit
    obtain ⟨rfl, -⟩ := List.cons.inj htail
    exact hplain y w rfl

theorem takeLiteral?_append (hrest : Decimal.Clear rest) (h : Decimal.Finished w rest) :
    takeLiteral? (w ++ rest) = (takeLiteral? w).map fun p => (p.1, p.2 ++ rest) := by
  by_cases hplain : ∀ d more, w = '0' :: d :: more → radix? d = none
  · rw [takeLiteral?_decimal hplain, takeLiteral?_decimal (radix?_append hrest hplain),
      takeDecimal?_append hrest h]
  · push Not at hplain
    obtain ⟨d, more, rfl, hradix⟩ := hplain
    obtain ⟨base, hbase⟩ := Option.ne_none_iff_exists'.mp hradix
    rw [List.cons_append, List.cons_append, takeLiteral?, takeLiteral?, hbase]
    dsimp only
    rw [takeRadix_append hrest, Option.map_map, Option.map_map]
    rfl

/-- **A number at the end of a run** is taken off without what comes behind. -/
theorem takeNumber?_append (hrest : Decimal.Clear rest) (h : Decimal.Finished w rest) :
    takeNumber? (w ++ rest) = (takeNumber? w).map fun p => (p.1, p.2 ++ rest) := by
  rw [takeNumber?_eq, takeNumber?_eq, takeLiteral?_append hrest h]
  cases takeLiteral? w with
  | none => rfl
  | some p =>
    rw [Option.map_some, Option.bind_some, Option.bind_some, endsNumber_append hrest]
    split <;> rfl

/-! ## Scanning without fuel -/

theorem takeDecimal?_shorter {l : Literal} (h : takeDecimal? cs = some (l, rest)) :
    rest.length < cs.length := by
  rw [takeDecimal?_eq] at h
  obtain ⟨⟨n, rest'⟩, hn, h⟩ := Option.bind_eq_some_iff.mp h
  obtain ⟨l', -, h⟩ := Option.map_eq_some_iff.mp h
  cases h
  exact Decimal.takeNumeral?_shorter hn

theorem takeNumber?_shorter {l : Literal} (h : takeNumber? cs = some (l, rest)) :
    rest.length < cs.length := by
  rw [takeNumber?_eq] at h
  obtain ⟨⟨l', rest'⟩, hl, h⟩ := Option.bind_eq_some_iff.mp h
  split at h
  · cases h
    unfold takeLiteral? at hl
    split at hl
    · split at hl
      · obtain ⟨⟨n, r⟩, hn, hl⟩ := Option.map_eq_some_iff.mp hl
        cases hl
        exact Nat.lt_of_le_of_lt (takeRadix_suffix hn).length_le (by simp only [List.length_cons]; omega)
      · exact takeDecimal?_shorter hl
    · exact takeDecimal?_shorter hl
  · cases h

theorem takeMark?_shorter {m : String} (h : takeMark? cs = some (m, rest)) :
    rest.length < cs.length := by
  obtain ⟨hcs, hne, -⟩ := takeMark?_spec h
  rw [hcs, List.length_append]
  have hpos := List.length_pos_iff.mpr hne
  omega

/-- **Fuel beyond the length of a text does not matter.** -/
theorem scan_enough {fuel fuel' : Nat} (h : cs.length < fuel) (h' : cs.length < fuel') :
    scan fuel cs = scan fuel' cs := by
  induction fuel generalizing fuel' cs with
  | zero => exact absurd h (Nat.not_lt_zero _)
  | succ fuel ih =>
    obtain ⟨fuel', rfl⟩ := Nat.exists_eq_add_one_of_ne_zero (Nat.ne_zero_of_lt h')
    have hrest : ∀ {xs : List Char}, xs.length < cs.length → scan fuel xs = scan fuel' xs :=
      fun hxs => ih (by omega) (by omega)
    cases begins cs with
    | done => rfl
    | hash rest => rfl
    | blank rest =>
      rw [scan_space, scan_space]
      exact hrest (Nat.lt_succ_self _)
    | number hhash hspace hnumber =>
      rw [scan_number_step hhash hspace hnumber, scan_number_step hhash hspace hnumber]
      refine Option.bind_congr fun p hp => ?_
      rw [hrest (takeNumber?_shorter (l := p.1) hp)]
    | name hnumber hname =>
      rw [scan_name_step hnumber hname, scan_name_step hnumber hname,
        hrest (Nat.lt_succ_of_le (List.dropWhile_suffix _).length_le)]
    | mark hhash hspace hnumber hname =>
      rw [scan_mark_step hhash hspace hnumber hname, scan_mark_step hhash hspace hnumber hname]
      refine Option.bind_congr fun p hp => ?_
      rw [hrest (takeMark?_shorter (m := p.1) hp)]

/-- The tokens of a whole text. -/
def scanAll (cs : List Char) : Option (List Token) := scan (cs.length + 1) cs

theorem scan_eq {fuel : Nat} (h : cs.length < fuel) : scan fuel cs = scanAll cs :=
  scan_enough h (Nat.lt_succ_self _)

theorem scanAll_space (cs : List Char) : scanAll (' ' :: cs) = scanAll cs := rfl

theorem scanAll_number {c : Char} (hc : c ≠ '#' ∧ c ≠ ' ') (h : startsNumber (c :: cs) = true) :
    scanAll (c :: cs) =
      (takeNumber? (c :: cs)).bind fun p => (scanAll p.2).map (.number p.1 :: ·) := by
  rw [scanAll, scan_number_step hc.1 hc.2 h]
  refine Option.bind_congr fun p hp => ?_
  rw [scan_eq (takeNumber?_shorter hp)]

theorem scanAll_name {c : Char} (hnumber : startsNumber (c :: cs) = false)
    (h : isNameStart c = true) : scanAll (c :: cs) = (scanAll (cs.dropWhile isNamePart)).map
      (.name (String.ofList (c :: cs.takeWhile isNamePart)) :: ·) := by
  have hfuel : (cs.dropWhile isNamePart).length < (c :: cs).length :=
    Nat.lt_succ_of_le (List.dropWhile_suffix _).length_le
  rw [scanAll, scan_name_step hnumber h, scan_eq hfuel]

theorem scanAll_mark {c : Char} (hc : c ≠ '#' ∧ c ≠ ' ') (hnumber : startsNumber (c :: cs) = false)
    (h : isNameStart c = false) : scanAll (c :: cs) =
      (takeMark? (c :: cs)).bind fun p => (scanAll p.2).map (.mark p.1 :: ·) := by
  rw [scanAll, scan_mark_step hc.1 hc.2 hnumber h]
  refine Option.bind_congr fun p hp => ?_
  rw [scan_eq (takeMark?_shorter hp)]

/-! ## Runs -/

/-- A character that words and numbers of formulas are made of. -/
def isPlainSolid (c : Char) : Bool := isPlainWord c || c == '.'

theorem startsNumber_append {c : Char} (hrest : Decimal.Clear rest) (w : List Char) :
    startsNumber (c :: w ++ rest) = startsNumber (c :: w) := by
  rcases w with _ | ⟨d, w⟩
  · rcases rest with _ | ⟨d, rest⟩
    · rfl
    · have hd : d.isDigit = false := by
        rw [Bool.eq_false_iff]
        intro hd
        exact absurd (hrest.plainWord d rfl) (by rw [isPlainWord_of_isDigit hd]; decide)
      by_cases hc : c = '.'
      · subst hc
        exact hd
      · rw [List.cons_append, startsNumber_cons hc, startsNumber_cons hc]
  · by_cases hc : c = '.'
    · subst hc
      rfl
    · rw [List.cons_append, startsNumber_cons hc, startsNumber_cons hc]

/-- Tokens put in front of the tokens of another text. -/
def behind (o o' : Option (List Token)) : Option (List Token) :=
  o.bind fun ts => o'.map (ts ++ ·)

theorem behind_nil (o : Option (List Token)) : behind (some []) o = o := by
  cases o <;> rfl

theorem behind_map (t : Token) (o o' : Option (List Token)) :
    behind (o.map (t :: ·)) o' = (behind o o').map (t :: ·) := by
  cases o <;> cases o' <;> rfl

theorem behind_bind {α : Type} (x : Option α) (o : α → Option (List Token))
    (o' : Option (List Token)) : behind (x.bind o) o' = x.bind fun a => behind (o a) o' := by
  cases x <;> rfl

theorem takeMark?_point (cs : List Char) : takeMark? ('.' :: cs) = some (".", cs) := by
  have hfind : doubleMarks.find? (fun m => m.isPrefixOf ('.' :: cs)) = none := by
    rw [doubleMarks_eq]
    rfl
  unfold takeMark?
  rw [hfind]
  rfl

/-- A solid character that starts neither a number nor a name is a point. -/
theorem point_of_isPlainSolid {c : Char} {cs : List Char} (hc : isPlainSolid c = true)
    (hnumber : startsNumber (c :: cs) = false) (hname : isNameStart c = false) : c = '.' := by
  have hdigit := isDigit_of_startsNumber hnumber
  rw [isPlainSolid, Bool.or_eq_true, beq_iff_eq] at hc
  refine hc.resolve_left fun hplain => ?_
  rw [isNameStart_of_ascii (toNat_of_isPlainWord hplain), isPlainStart] at hname
  rw [isPlainWord, Char.isAlphanum, hdigit, Bool.or_false, hname] at hplain
  cases hplain

/-- **A run is cut into tokens by itself**, and what comes behind it, too. -/
theorem scanAll_run {w : List Char} (hw : ∀ c ∈ w, isPlainSolid c = true) (hrest : Decimal.Clear rest)
    (hpart : StopsAt isNamePart rest) (h : Decimal.Finished w rest) :
    scanAll (w ++ rest) = behind (scanAll w) (scanAll rest) := by
  induction hn : w.length using Nat.strongRecOn generalizing w with
  | ind n ih =>
    have hshorter : ∀ {x}, x <:+ w → x.length < w.length →
        scanAll (x ++ rest) = behind (scanAll x) (scanAll rest) := fun hx hlength =>
      ih _ (hn ▸ hlength) (fun c hc => hw c (hx.mem hc)) (h.suffix hx) rfl
    rcases w with _ | ⟨c, w⟩
    · exact (behind_nil (scanAll rest)).symm
    · have hc : c ≠ '#' ∧ c ≠ ' ' := by
        constructor <;>
          · rintro rfl
            exact absurd (hw _ List.mem_cons_self) (by decide)
      have hstarts : startsNumber (c :: (w ++ rest)) = startsNumber (c :: w) :=
        startsNumber_append hrest w
      rw [List.cons_append]
      cases hnumber : startsNumber (c :: w) with
      | true =>
        rw [scanAll_number hc hnumber, scanAll_number hc (hstarts.trans hnumber), ← List.cons_append,
          takeNumber?_append hrest h, behind_bind, Option.bind_map]
        refine Option.bind_congr fun p hp => ?_
        rw [behind_map]
        exact congrArg _ (hshorter (takeNumber?_rest (l := p.1) hp).1 (takeNumber?_shorter (l := p.1) hp))
      | false =>
        cases hname : isNameStart c with
        | true =>
          rw [scanAll_name hnumber hname, scanAll_name (hstarts.trans hnumber) hname, behind_map,
            takeWhile_append_of_stop w hpart, dropWhile_append_of_stop w hpart]
          have htail := List.dropWhile_suffix (l := w) isNamePart
          exact congrArg _ (hshorter (htail.trans (List.suffix_cons _ _))
            (Nat.lt_succ_of_le htail.length_le))
        | false =>
          -- neither a number nor a name starts here, so it is a point
          obtain rfl := point_of_isPlainSolid (hw c List.mem_cons_self) hnumber hname
          rw [scanAll_mark hc hnumber hname, scanAll_mark hc (hstarts.trans hnumber) hname,
            takeMark?_point, takeMark?_point, behind_bind, Option.bind_some, Option.bind_some,
            behind_map, hshorter (List.suffix_cons _ _) (Nat.lt_succ_self _)]

end Token

end Formula

end InitialValue
