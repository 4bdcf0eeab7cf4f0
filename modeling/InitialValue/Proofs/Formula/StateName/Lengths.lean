/-
  What the passes measure, in cells.

  A rule finds operands, gaps and signs by their lengths.  Measured in a text with one name for the
  state or another, these lengths are those of the same cells: a length `n` of the plain text is
  `span w cs n` in the text that calls the state `w`.  Every measure here is first written by the
  heads and runs of a text, since these are what all names for the state have in common.
-/
import InitialValue.Proofs.Formula.PowerRule
import InitialValue.Proofs.Formula.StateName.Cells

namespace InitialValue.Formula.StateName

open InitialValue.Text

variable {w : List Char} {cs : List Cell} {p : Char → Bool} {a : Char}

/-! ## Heads -/

/-- What begins with another character than a `y` begins with it as a cell. -/
theorem exists_of_head (h : (plain cs).head? = some a) (ha : a ≠ 'y') :
    ∃ xs, cs = .char a :: xs := by
  cases cs with
  | nil => cases h
  | cons c cs =>
    obtain rfl : c.first = a := Option.some.inj h
    cases c with
    | char a => exact ⟨cs, rfl⟩
    | state => exact absurd rfl ha

theorem length_takeWhile_eq_zero {xs : List Char} :
    (xs.takeWhile p).length = 0 ↔ xs.head?.elim false p = false := by
  cases xs with
  | nil => simp
  | cons x xs =>
    rw [List.takeWhile_cons]
    show _ ↔ p x = false
    split <;> simp_all

theorem steady_isBlank : Steady isBlank := steady_of_false (by decide)

theorem steady_isDigit : Steady isDigit := steady_of_false (by decide)

section

variable (hw : IsStateName w)

include hw

/-- A run is empty or not, whatever the state is called. -/
theorem isEmpty_takeWhile_named :
    ((named w cs).takeWhile p).isEmpty = ((plain cs).takeWhile p).isEmpty := by
  rw [Bool.eq_iff_iff, List.isEmpty_iff_length_eq_zero, List.isEmpty_iff_length_eq_zero,
    length_takeWhile_eq_zero, length_takeWhile_eq_zero, head?_named hw]

theorem span_takeWhile_eq_zero (hp : Steady p) :
    span w cs ((plain cs).takeWhile p).length = 0 ↔ ((plain cs).takeWhile p).length = 0 := by
  rw [← length_takeWhile_named hw hp, length_takeWhile_eq_zero, length_takeWhile_eq_zero,
    head?_named hw]

/-! ## Names -/

omit hw in
theorem nameLength?_eq (xs : List Char) : nameLength? xs =
    if xs.head?.elim false isPlainStart then some (xs.takeWhile isWord).length else none := by
  cases xs with
  | nil => rfl
  | cons x xs =>
    show (if isPlainStart x = true then _ else _) = if isPlainStart x = true then _ else _
    split
    · rename_i hx
      rw [List.takeWhile_cons_of_pos (isWord_of_isPlainWord (isPlainWord_of_isPlainStart hx)),
        List.length_cons]
    · rfl

theorem nameLength?_named :
    nameLength? (named w cs) = (nameLength? (plain cs)).map (span w cs) := by
  rw [nameLength?_eq, nameLength?_eq, head?_named hw, length_takeWhile_named hw steady_isWord]
  split <;> rfl

/-! ## Groups -/

/-- May a character stand inside a flat group? -/
def isInner (c : Char) : Bool := c != '(' && c != ')'

omit hw in
theorem steady_isInner : Steady isInner := fun _ d hd => by
  have hopen : d ≠ '(' := by
    rintro rfl
    exact absurd hd (by decide)
  have hclose : d ≠ ')' := by
    rintro rfl
    exact absurd hd (by decide)
  simp [isInner, hopen, hclose]

omit hw in
theorem groupLength?_cons (x : Char) (xs : List Char) : groupLength? (x :: xs) =
    if x = '(' ∧ (xs.drop (xs.takeWhile isInner).length).head? = some ')' then
      some ((xs.takeWhile isInner).length + 2) else none := by
  by_cases hx : x = '('
  · subst hx
    have hinner : (fun c => c != '(' && c != ')') = isInner := rfl
    rw [groupLength?]
    simp only [hinner]
    cases hdrop : xs.drop (xs.takeWhile isInner).length with
    | nil => simp
    | cons d rest =>
      by_cases hd : d = ')'
      · simp [hd]
      · simp [hd]
  · rw [if_neg fun h => hx h.1]
    unfold groupLength?
    simp [hx]

theorem groupLength?_named :
    groupLength? (named w cs) = (groupLength? (plain cs)).map (span w cs) := by
  cases cs with
  | nil => rfl
  | cons c cs =>
    cases c with
    | char a =>
      rw [named_char, plain_char, groupLength?_cons, groupLength?_cons,
        length_takeWhile_named hw steady_isInner, named_drop, head?_named hw, plain_drop]
      split
      · rename_i h
        obtain ⟨rest, hrest⟩ := exists_of_head h.2 (by decide)
        rw [Option.map_some, span_char, span_add, hrest, span_char, span_zero]
      · rfl
    | state =>
      obtain ⟨ds, rfl, -⟩ := hw
      rfl

/-! ## Numbers -/

omit hw in
theorem signLength_eq (xs : List Char) :
    signLength xs = if xs.head? = some '+' ∨ xs.head? = some '-' then 1 else 0 := by
  unfold signLength
  cases xs with
  | nil => rfl
  | cons c xs =>
    by_cases hplus : c = '+'
    · simp [hplus]
    · by_cases hminus : c = '-'
      · simp [hminus]
      · simp [hplus, hminus]

theorem signLength_named : signLength (named w cs) = span w cs (signLength (plain cs)) := by
  rw [signLength_eq, signLength_eq, head?_named hw]
  split
  · rename_i h
    rcases h with h | h
    · obtain ⟨xs, rfl⟩ := exists_of_head h (by decide)
      rw [span_char, span_zero]
    · obtain ⟨xs, rfl⟩ := exists_of_head h (by decide)
      rw [span_char, span_zero]
  · rw [span_zero]

theorem exponentLength_named :
    exponentLength (named w cs) = span w cs (exponentLength (plain cs)) := by
  cases cs with
  | nil => rfl
  | cons c cs =>
    cases c with
    | char a =>
      rw [named_char, plain_char, exponentLength_cons, exponentLength_cons, signLength_named hw,
        named_drop, isEmpty_takeWhile_named hw,
        length_takeWhile_named hw steady_isDigit, plain_drop]
      split
      · split
        · rw [span_zero]
        · rw [Nat.add_assoc 1, Nat.add_assoc 1, Nat.add_comm 1, Nat.add_comm 1, span_char, span_add]
      · rw [span_zero]
    | state =>
      obtain ⟨ds, rfl, -⟩ := hw
      rw [named_state, plain_state, List.cons_append, exponentLength_cons, exponentLength_cons,
        if_neg (by decide), if_neg (by decide), span_zero]

/-- The length of digits with a point among them or not. -/
def mantissaLength? (xs : List Char) : Option Nat :=
  let whole := (xs.takeWhile isDigit).length
  if (xs.drop whole).head? = some '.' then
    let fraction := ((xs.drop (whole + 1)).takeWhile isDigit).length
    if whole = 0 ∧ fraction = 0 then none else some (whole + 1 + fraction)
  else if whole = 0 then none else some whole

omit hw in
theorem numberLength?_eq (xs : List Char) :
    numberLength? xs = (mantissaLength? xs).map fun n => n + exponentLength (xs.drop n) := by
  unfold numberLength? mantissaLength?
  dsimp only
  congr 1
  cases hrest : xs.drop (xs.takeWhile isDigit).length with
  | nil => simp
  | cons c rest =>
    by_cases hc : c = '.'
    · subst hc
      have hdrop : xs.drop ((xs.takeWhile isDigit).length + 1) = rest := by
        rw [← List.drop_drop, hrest]
        rfl
      simp [hdrop]
    · simp [hc]

theorem mantissaLength?_named :
    mantissaLength? (named w cs) = (mantissaLength? (plain cs)).map (span w cs) := by
  unfold mantissaLength?
  dsimp only
  rw [length_takeWhile_named hw steady_isDigit, named_drop, head?_named hw, plain_drop]
  simp only [span_takeWhile_eq_zero hw steady_isDigit]
  split
  · rename_i hpoint
    obtain ⟨rest, hrest⟩ := exists_of_head hpoint (by decide)
    have hone : span w cs ((plain cs).takeWhile isDigit).length + 1 =
        span w cs (((plain cs).takeWhile isDigit).length + 1) := by
      rw [span_add, hrest, span_char, span_zero]
    rw [hone, named_drop, length_takeWhile_named hw steady_isDigit, plain_drop, ← span_add]
    simp only [span_takeWhile_eq_zero hw steady_isDigit]
    split <;> rfl
  · split <;> rfl

theorem numberLength?_named :
    numberLength? (named w cs) = (numberLength? (plain cs)).map (span w cs) := by
  rw [numberLength?_eq, numberLength?_eq, mantissaLength?_named hw]
  cases mantissaLength? (plain cs) with
  | none => rfl
  | some n =>
    rw [Option.map_some, Option.map_some, Option.map_some, Option.map_some, named_drop,
      exponentLength_named hw, span_add, plain_drop]

/-! ## Operands -/

/-- A name's length, and before it the length with a flat group behind the name. -/
def callLengths (xs : List Char) (n : Nat) : List Nat :=
  let gap := ((xs.drop n).takeWhile isBlank).length
  (groupLength? ((xs.drop n).drop gap)).elim [n] fun g => [n + gap + g, n]

omit hw in
theorem operandLengths_eq (xs : List Char) : operandLengths xs =
    (nameLength? xs).elim [] (callLengths xs) ++ (numberLength? xs).toList ++
      (groupLength? xs).toList := by
  unfold operandLengths callLengths
  dsimp only
  congr 2
  cases nameLength? xs with
  | none => rfl
  | some n =>
    dsimp only [Option.elim_some]
    split <;> rename_i h <;> rw [h] <;> rfl

theorem callLengths_named {n : Nat} :
    callLengths (named w cs) (span w cs n) = (callLengths (plain cs) n).map (span w cs) := by
  unfold callLengths
  dsimp only
  rw [named_drop, length_takeWhile_named hw steady_isBlank, named_drop, groupLength?_named hw,
    plain_drop, plain_drop]
  cases groupLength? _ with
  | none => rfl
  | some g =>
    show [_, _] = [_, _]
    rw [span_add, span_add, List.drop_drop]

/-- **Operands are found of the same cells**, whatever the state is called. -/
theorem operandLengths_named :
    operandLengths (named w cs) = (operandLengths (plain cs)).map (span w cs) := by
  rw [operandLengths_eq, operandLengths_eq, nameLength?_named hw, numberLength?_named hw,
    groupLength?_named hw, List.map_append, List.map_append, Option.toList_map, Option.toList_map]
  congr 2
  cases nameLength? (plain cs) with
  | none => rfl
  | some n => exact callLengths_named hw

/-! ## Signs -/

/-- Cells without the blanks at their front. -/
def skip (cs : List Cell) : List Cell := cs.dropWhile (Cell.is isBlank)

omit hw in
theorem skipBlanks_plain : skipBlanks (plain cs) = plain (skip cs) := dropWhile_plain

theorem skipBlanks_named : skipBlanks (named w cs) = named w (skip cs) :=
  dropWhile_named hw steady_isBlank

omit hw in
theorem powerSignLength?_eq (xs : List Char) : powerSignLength? xs =
    if xs.head? = some '^' then some 1
    else if xs.head? = some '*' ∧ (xs.drop 1).head? = some '*' then some 2 else none := by
  unfold powerSignLength?
  cases xs with
  | nil => rfl
  | cons c xs =>
    by_cases hcaret : c = '^'
    · simp [hcaret]
    · by_cases hstar : c = '*'
      · subst hstar
        cases xs with
        | nil => rfl
        | cons d xs =>
          by_cases hstar' : d = '*'
          · simp [hstar']
          · simp [hstar']
      · simp [hcaret, hstar]

theorem powerSignLength?_named :
    powerSignLength? (named w cs) = (powerSignLength? (plain cs)).map (span w cs) := by
  rw [powerSignLength?_eq, powerSignLength?_eq, head?_named hw]
  split
  · rename_i h
    obtain ⟨xs, rfl⟩ := exists_of_head h (by decide)
    rw [Option.map_some, span_char, span_zero]
  · by_cases h : (plain cs).head? = some '*'
    · obtain ⟨xs, rfl⟩ := exists_of_head h (by decide)
      rw [named_char, plain_char, List.drop_one, List.drop_one, List.tail_cons, List.tail_cons,
        head?_named hw]
      split
      · rename_i h
        obtain ⟨ys, rfl⟩ := exists_of_head h.2 (by decide)
        rw [Option.map_some, span_char, span_char, span_zero]
      · rfl
    · rw [if_neg fun h' => h h'.1, if_neg fun h' => h h'.1]
      rfl

omit hw in
theorem endsPower_eq (xs : List Char) : endsPower xs =
    ((xs.head?.elim true fun c => !(isWord c || c == '.' || c == '(')) &&
      (powerSignLength? (skipBlanks xs)).isNone) := by
  unfold endsPower
  cases xs <;> rfl

theorem endsPower_named : endsPower (named w cs) = endsPower (plain cs) := by
  rw [endsPower_eq, endsPower_eq, head?_named hw, skipBlanks_named hw, skipBlanks_plain,
    powerSignLength?_named hw, Option.isNone_map]

omit hw in
theorem minusLength_eq (xs : List Char) :
    minusLength xs = if xs.head? = some '-' then 1 else 0 := by
  unfold minusLength
  cases xs with
  | nil => rfl
  | cons c xs =>
    by_cases h : c = '-'
    · simp [h]
    · simp [h]

theorem minusLength_named : minusLength (named w cs) = span w cs (minusLength (plain cs)) := by
  rw [minusLength_eq, minusLength_eq, head?_named hw]
  split
  · rename_i h
    obtain ⟨xs, rfl⟩ := exists_of_head h (by decide)
    rw [span_char, span_zero]
  · rw [span_zero]

/-! ## Exponents -/

/-- The exponent behind an operand, and what comes after it, in cells. -/
def exponentCells? (cs : List Cell) : Option (List Cell × List Cell) := do
  let sign ← powerSignLength? (plain (skip cs))
  let rest := skip ((skip cs).drop sign)
  let minus := minusLength (plain rest)
  (operandLengths (plain (rest.drop minus))).findSome? fun m =>
    if endsPower (plain (rest.drop (minus + m))) then
      some (rest.take (minus + m), rest.drop (minus + m))
    else none

omit hw in
theorem exponent?_plain :
    exponent? (plain cs) = (exponentCells? cs).map (Prod.map plain plain) := by
  unfold exponent? exponentCells?
  rw [skipBlanks_plain]
  cases powerSignLength? (plain (skip cs)) with
  | none => rfl
  | some sign =>
    show (operandLengths _).findSome? _ = ((operandLengths _).findSome? _).map _
    rw [plain_drop, skipBlanks_plain, plain_drop, List.map_findSome?]
    congr 1
    funext m
    rw [Function.comp, plain_drop, plain_take]
    split <;> rfl

theorem exponent?_named :
    exponent? (named w cs) = (exponentCells? cs).map (Prod.map (named w) (named w)) := by
  unfold exponent? exponentCells?
  rw [skipBlanks_named hw, powerSignLength?_named hw]
  cases powerSignLength? (plain (skip cs)) with
  | none => rfl
  | some sign =>
    show (operandLengths _).findSome? _ = ((operandLengths _).findSome? _).map _
    rw [named_drop, skipBlanks_named hw, minusLength_named hw, named_drop, operandLengths_named hw,
      List.map_findSome?, List.findSome?_map]
    congr 1
    funext m
    rw [Function.comp, Function.comp, ← span_add, named_drop, named_take, endsPower_named hw]
    split <;> rfl

end

end InitialValue.Formula.StateName
