/-
  Where reading a number or a mark stops.

  Numbers and marks have no `y` in them.  So what is read off the front of a text does not depend
  on what stands behind the first `y` (`Halts`): digits, exponents and fractions first, then
  numerals in any base, and the words that a number may run into.
-/
import InitialValue.Proofs.Formula.Scan

namespace InitialValue

open InitialValue.Text

/-! ## Readers that stop at a letter -/

/-- A reader of the front of a text stops at the first `y` at the latest: what it makes of the text
    in front of a `y` is the same, whatever stands behind. -/
def Halts {α : Type} (f : List Char → Option (α × List Char)) : Prop :=
  ∀ p, ∃ o : Option (α × List Char), ∀ tail,
    f (p ++ 'y' :: tail) = o.map fun x => (x.1, x.2 ++ 'y' :: tail)

/-- The same for a reader that never fails. -/
def HaltsSurely {α : Type} (f : List Char → α × List Char) : Prop :=
  ∀ p, ∃ x q, ∀ tail, f (p ++ 'y' :: tail) = (x, q ++ 'y' :: tail)

namespace Decimal

theorem takeDigits_go_halts : HaltsSurely takeDigits.go := by
  intro p
  have hy : Char.isDigit 'y' = false := by decide
  -- the reader looks at up to three characters at once
  induction hn : p.length using Nat.strongRecOn generalizing p with
  | ind n ih =>
    rcases p with _ | ⟨c, p⟩
    · exact ⟨[], [], fun tail => takeDigits_go_stop (stopsAt_cons hy)⟩
    · cases hc : c.isDigit with
      | false =>
        exact ⟨[], c :: p, fun tail => takeDigits_go_stop (stopsAt_cons hc)⟩
      | true =>
        by_cases hnext : ∃ d more, p = '_' :: d :: more
        · obtain ⟨d, more, rfl⟩ := hnext
          cases hd : d.isDigit with
          | true =>
            obtain ⟨ds, q, h⟩ := ih (d :: more).length (by rw [← hn]; simp) (d :: more) rfl
            refine ⟨c :: ds, q, fun tail => ?_⟩
            have htail := h tail
            rw [List.cons_append] at htail
            rw [List.cons_append, List.cons_append, List.cons_append, takeDigits.go, hc, hd, htail]
            rfl
          | false =>
            refine ⟨[c], '_' :: d :: more, fun tail => ?_⟩
            rw [List.cons_append, List.cons_append, List.cons_append, takeDigits.go, hc, hd]
            rfl
        · by_cases hunder : p = ['_']
          · subst hunder
            refine ⟨[c], ['_'], fun tail => ?_⟩
            show takeDigits.go (c :: '_' :: 'y' :: tail) = _
            rw [takeDigits.go, hc, hy]
            rfl
          · obtain ⟨ds, q, h⟩ := ih p.length (by rw [← hn, List.length_cons]; omega) p rfl
            refine ⟨c :: ds, q, fun tail => ?_⟩
            rw [List.cons_append, takeDigits.go, h tail, hc]
            · rfl
            · intro d more heq
              rcases p with _ | ⟨x, _ | ⟨z, p⟩⟩
              · exact absurd (List.cons.inj heq).1 (by decide)
              · exact hunder (by rw [(List.cons.inj heq).1])
              · exact hnext ⟨z, p, by rw [(List.cons.inj heq).1]⟩

theorem takeDigits_halts : HaltsSurely takeDigits := by
  intro p
  by_cases hp : ∃ more, p = '_' :: more
  · obtain ⟨more, rfl⟩ := hp
    exact ⟨[], '_' :: more, fun tail => rfl⟩
  · obtain ⟨ds, q, h⟩ := takeDigits_go_halts p
    refine ⟨ds, q, fun tail => ?_⟩
    rw [takeDigits, h]
    intro more heq
    rcases p with _ | ⟨x, p⟩
    · exact absurd (List.cons.inj heq).1 (by decide)
    · exact hp ⟨p, by rw [(List.cons.inj heq).1]⟩

theorem exponentSign_halts : HaltsSurely exponentSign := by
  rintro (_ | ⟨c, p⟩)
  · exact ⟨false, [], fun tail => rfl⟩
  · by_cases hminus : c = '-'
    · subst hminus
      exact ⟨true, p, fun tail => rfl⟩
    · by_cases hplus : c = '+'
      · subst hplus
        exact ⟨false, p, fun tail => rfl⟩
      · refine ⟨false, c :: p, fun tail => ?_⟩
        rw [List.cons_append, exponentSign]
        · exact fun r h => hminus (List.cons.inj h).1
        · exact fun r h => hplus (List.cons.inj h).1

theorem takeExponent_halts : HaltsSurely takeExponent := by
  rintro (_ | ⟨e, p⟩)
  · exact ⟨0, [], fun tail => rfl⟩
  · cases he : (e == 'e' || e == 'E') with
    | false =>
      refine ⟨0, e :: p, fun tail => ?_⟩
      rw [List.cons_append, takeExponent_cons, he]
      rfl
    | true =>
      obtain ⟨sign, body, hsign⟩ := exponentSign_halts p
      obtain ⟨ds, q, hdigits⟩ := takeDigits_halts body
      cases ds with
      | nil =>
        refine ⟨0, e :: p, fun tail => ?_⟩
        rw [List.cons_append, takeExponent_cons, he, if_pos rfl, hsign, hdigits]
      | cons d ds =>
        refine ⟨if sign then -(digitsValue (d :: ds) : Int) else digitsValue (d :: ds), q,
          fun tail => ?_⟩
        rw [List.cons_append, takeExponent_cons, he, if_pos rfl, hsign, hdigits]

theorem takeFraction_halts (p : List Char) : ∃ b ds q, ∀ tail,
    takeFraction (p ++ 'y' :: tail) = (b, ds, q ++ 'y' :: tail) := by
  rcases p with _ | ⟨c, p⟩
  · exact ⟨false, [], [], fun tail => rfl⟩
  · by_cases hc : c = '.'
    · subst hc
      obtain ⟨ds, q, h⟩ := takeDigits_halts p
      refine ⟨true, ds, q, fun tail => ?_⟩
      show (true, takeDigits (p ++ 'y' :: tail)) = _
      rw [h]
    · refine ⟨false, [], c :: p, fun tail => ?_⟩
      rw [List.cons_append, takeFraction]
      exact fun r h => hc (List.cons.inj h).1

theorem takeNumeral?_halts : Halts takeNumeral? := by
  intro p
  obtain ⟨whole, q, hwhole⟩ := takeDigits_halts p
  obtain ⟨b, fraction, q', hfraction⟩ := takeFraction_halts q
  obtain ⟨power, q'', hpower⟩ := takeExponent_halts q'
  cases hempty : whole.isEmpty && fraction.isEmpty with
  | true =>
    refine ⟨none, fun tail => ?_⟩
    rw [takeNumeral?_eq]
    dsimp only
    rw [hwhole, hfraction, if_pos hempty]
    rfl
  | false =>
    refine ⟨some (⟨digitsValue (whole ++ fraction), power - fraction.length,
      max 1 ((whole ++ fraction).dropWhile (· == '0')).length, b⟩, q''), fun tail => ?_⟩
    rw [takeNumeral?_eq]
    dsimp only
    rw [hwhole, hfraction, if_neg (by rw [hempty]; decide), hpower]
    rfl

end Decimal

namespace Formula.Token

theorem digitIn?_y {base : Nat} : digitIn? base 'y' = none := by
  have hv : ∀ v, v = base → (if v < base then some v else none) = none := by
    rintro v rfl
    exact if_neg (Nat.lt_irrefl v)
  exact hv _ rfl

theorem takeRadix_halts (base n : Nat) (found : Bool) : Halts (takeRadix base n found) := by
  intro p
  induction hn : p.length using Nat.strongRecOn generalizing p n found with
  | ind k ih =>
    rcases p with _ | ⟨c, p⟩
    · refine ⟨if found then some (n, []) else none, fun tail => ?_⟩
      rw [List.nil_append, takeRadix, digitIn?_y]
      · cases found <;> rfl
      · exact fun _ _ heq _ => absurd heq (by decide)
    · by_cases hc : c = '_'
      · subst hc
        rcases p with _ | ⟨d, p⟩
        · refine ⟨if found then some (n, ['_']) else none, fun tail => ?_⟩
          rw [List.cons_append, List.nil_append, takeRadix, digitIn?_y]
          cases found <;> rfl
        · cases hd : digitIn? base d with
          | none =>
            refine ⟨if found then some (n, '_' :: d :: p) else none, fun tail => ?_⟩
            rw [List.cons_append, List.cons_append, takeRadix, hd]
            cases found <;> rfl
          | some v =>
            obtain ⟨o, h⟩ := ih p.length (by rw [← hn]; simp only [List.length_cons]; omega) (base * n + v) true p rfl
            refine ⟨o, fun tail => ?_⟩
            rw [List.cons_append, List.cons_append, takeRadix, hd]
            exact h tail
      · cases hd : digitIn? base c with
        | none =>
          refine ⟨if found then some (n, c :: p) else none, fun tail => ?_⟩
          rw [List.cons_append, takeRadix, hd]
          · cases found <;> rfl
          · exact fun _ _ heq _ => hc heq
        | some v =>
          obtain ⟨o, h⟩ := ih p.length (by rw [← hn]; simp) (base * n + v) true p rfl
          refine ⟨o, fun tail => ?_⟩
          rw [List.cons_append, takeRadix, hd]
          · exact h tail
          · exact fun _ _ heq _ => hc heq

theorem takeDecimal?_halts : Halts takeDecimal? := by
  intro p
  obtain ⟨o, ho⟩ := Decimal.takeNumeral?_halts p
  obtain ⟨ds, q, hdigits⟩ := Decimal.takeDigits_halts p
  cases o with
  | none =>
    refine ⟨none, fun tail => ?_⟩
    rw [takeDecimal?_eq, ho]
    rfl
  | some x =>
    obtain ⟨n, rest⟩ := x
    refine ⟨(literalOf? ds (q.length = rest.length) n).map fun l => (l, rest), fun tail => ?_⟩
    have hlength : (q ++ 'y' :: tail).length = (rest ++ 'y' :: tail).length ↔
        q.length = rest.length := by
      rw [List.length_append, List.length_append, Nat.add_right_cancel_iff]
    rw [takeDecimal?_eq, ho, hdigits]
    simp only [Option.map_some, Option.bind_some, hlength]
    rw [Option.map_map]
    rfl

theorem takeLiteral?_halts : Halts takeLiteral? := by
  intro p
  by_cases hp : ∃ c more, p = '0' :: c :: more ∧ (radix? c).isSome
  · obtain ⟨c, more, rfl, hradix⟩ := hp
    obtain ⟨base, hbase⟩ := Option.isSome_iff_exists.mp hradix
    obtain ⟨o, ho⟩ := takeRadix_halts base 0 false more
    refine ⟨o.map fun x => (.whole x.1, x.2), fun tail => ?_⟩
    rw [List.cons_append, List.cons_append, takeLiteral?, hbase]
    dsimp only
    rw [ho, Option.map_map, Option.map_map]
    rfl
  · obtain ⟨o, ho⟩ := takeDecimal?_halts p
    refine ⟨o, fun tail => ?_⟩
    rw [← ho tail]
    unfold takeLiteral?
    split
    · rename_i c more heq
      cases hradix : radix? c with
      | none =>
        show takeDecimal? ('0' :: c :: more) = _
        rw [heq]
      | some base =>
        exfalso
        rcases p with _ | ⟨a, _ | ⟨b, p⟩⟩
        · exact absurd (List.cons.inj heq).1 (by decide)
        · obtain rfl := (List.cons.inj (List.cons.inj heq).2).1
          have hy : radix? 'y' = none := by decide
          rw [hy] at hradix
          cases hradix
        · obtain ⟨rfl, hrest⟩ := List.cons.inj heq
          obtain ⟨rfl, -⟩ := List.cons.inj hrest
          exact hp ⟨_, _, rfl, by rw [hradix]; rfl⟩
    · rfl

/-- A word without a `y` stands at the front of a text or not, whatever stands behind a `y`. -/
theorem isPrefixOf_halts {m : List Char} (hm : 'y' ∉ m) (p tail : List Char) :
    m.isPrefixOf (p ++ 'y' :: tail) = m.isPrefixOf p := by
  induction m generalizing p with
  | nil => cases p <;> rfl
  | cons c m ih =>
    rw [List.mem_cons, not_or] at hm
    cases p with
    | nil =>
      rw [List.nil_append, List.isPrefixOf_cons_cons, beq_eq_false_iff_ne.mpr (Ne.symm hm.1)]
      rfl
    | cons d p =>
      rw [List.cons_append, List.isPrefixOf_cons_cons, List.isPrefixOf_cons_cons, ih hm.2]

theorem wordsAfterNumber_y : ∀ w ∈ wordsAfterNumber, 'y' ∉ w := by decide

theorem doubleMarks_y : ∀ m ∈ doubleMarks, 'y' ∉ m := by decide

/-- A number does not end in front of a `y`. -/
theorem endsNumber_y (tail : List Char) : endsNumber ('y' :: tail) = false := by
  have hwords : ∀ w ∈ wordsAfterNumber, ¬ w.isPrefixOf [] = true := by decide
  rw [endsNumber, Bool.or_eq_false_iff]
  refine ⟨by decide, List.any_eq_false.mpr fun w hw => ?_⟩
  have hword := isPrefixOf_halts (wordsAfterNumber_y w hw) [] tail
  rw [List.nil_append] at hword
  rw [hword]
  exact hwords w hw

theorem endsNumber_halts (p : List Char) :
    ∃ b, ∀ tail, endsNumber (p ++ 'y' :: tail) = b := by
  rcases p with _ | ⟨c, p⟩
  · exact ⟨false, endsNumber_y⟩
  · refine ⟨!isPlainWord c || wordsAfterNumber.any fun w => w.isPrefixOf (c :: p), fun tail => ?_⟩
    show (!isPlainWord c || wordsAfterNumber.any fun w => w.isPrefixOf (c :: p ++ 'y' :: tail)) = _
    congr 1
    rw [Bool.eq_iff_iff, List.any_eq_true, List.any_eq_true]
    constructor
    · rintro ⟨w, hw, h⟩
      exact ⟨w, hw, isPrefixOf_halts (wordsAfterNumber_y w hw) (c :: p) tail ▸ h⟩
    · rintro ⟨w, hw, h⟩
      exact ⟨w, hw, (isPrefixOf_halts (wordsAfterNumber_y w hw) (c :: p) tail).symm ▸ h⟩

theorem takeNumber?_halts : Halts takeNumber? := by
  intro p
  obtain ⟨o, ho⟩ := takeLiteral?_halts p
  cases o with
  | none =>
    refine ⟨none, fun tail => ?_⟩
    rw [takeNumber?_eq, ho]
    rfl
  | some x =>
    obtain ⟨b, hb⟩ := endsNumber_halts x.2
    refine ⟨if b then some x else none, fun tail => ?_⟩
    rw [takeNumber?_eq, ho, Option.map_some, Option.bind_some, hb]
    cases b <;> rfl

theorem find?_agree {α : Type} {p q : α → Bool} {xs : List α} (h : ∀ x ∈ xs, p x = q x) :
    xs.find? p = xs.find? q := by
  induction xs with
  | nil => rfl
  | cons x xs ih =>
    rw [List.forall_mem_cons] at h
    rw [List.find?_cons, List.find?_cons, h.1, ih h.2]

theorem takeMark?_halts : Halts takeMark? := by
  intro p
  have hfind : ∀ tail, (doubleMarks.find? fun m => m.isPrefixOf (p ++ 'y' :: tail)) =
      doubleMarks.find? fun m => m.isPrefixOf p := by
    exact fun tail => find?_agree fun m hm => isPrefixOf_halts (doubleMarks_y m hm) p tail
  cases hdouble : doubleMarks.find? fun m => m.isPrefixOf p with
  | some m =>
    refine ⟨some (String.ofList m, p.drop m.length), fun tail => ?_⟩
    have hprefix := List.find?_some hdouble
    have hlength : m.length ≤ p.length := (List.isPrefixOf_iff_prefix.mp hprefix).length_le
    unfold takeMark?
    rw [hfind, hdouble]
    dsimp only
    rw [List.drop_append_of_le_length hlength]
    rfl
  | none =>
    rcases p with _ | ⟨c, p⟩
    · refine ⟨none, fun tail => ?_⟩
      unfold takeMark?
      rw [hfind, hdouble]
      rfl
    · refine ⟨if singleMarks.contains c then some (String.ofList [c], p) else none,
        fun tail => ?_⟩
      unfold takeMark?
      rw [hfind, hdouble]
      dsimp only [List.cons_append]
      split <;> rfl

end Formula.Token

end InitialValue
