/-
  Cutting a normal text into tokens and names.

  In a text that is made of lexemes with single spaces, the scanner finds the tokens of the lexemes,
  one lexeme after another (`scan_spells`), and the search for names finds their words
  (`scanNames_spells`).  Numbers and names end where their lexeme ends, because what comes next fits.
-/
import InitialValue.Proofs.Formula.Names
import InitialValue.Proofs.Formula.NormalText

namespace InitialValue.Formula

open InitialValue.Text

/-! ## Tokens of lexemes -/

/-- The operator as a token. -/
def Arith.token : Arith → Token
  | add => .mark "+"
  | sub => .mark "-"
  | mul => .mark "*"
  | div => .mark "/"

/-- The tokens of a lexeme. -/
def Lexeme.tokens : Lexeme → List Token
  | number n => [.number n.literal]
  | name w => [.name (String.ofList w.text)]
  | call f => [.name f.val, .mark "("]
  | opening => [.mark "("]
  | closing => [.mark ")"]
  | comma => [.mark ","]
  | arith op => [op.token]
  | power _ => [.mark "**"]
  | joint _ => []

/-- The words of a lexeme. -/
def Lexeme.words : Lexeme → List String
  | name w => [String.ofList w.text]
  | call f => [f.val]
  | _ => []

namespace Token

/-! ## Single steps of the scanner -/

theorem scan_number (n : Numeral) {rest : List Char} (hrest : Decimal.Clear rest) (fuel : Nat) :
    scan (fuel + 1) (n.text ++ rest) = (scan fuel rest).map (.number n.literal :: ·) := by
  obtain ⟨c, cs, htext, hc⟩ := n.head
  have hother : c ≠ '#' ∧ c ≠ ' ' := by
    rcases hc with hc | rfl
    · have hplain := isPlainWord_of_isDigit hc
      exact ⟨ne_of_plain hplain (by decide), ne_of_plain hplain (by decide)⟩
    · decide
  have hstarts : startsNumber (c :: (cs ++ rest)) = true := by
    rcases hc with hc | rfl
    · rw [startsNumber_cons (ne_of_plain (isPlainWord_of_isDigit hc) (by decide)), hc]
    · obtain ⟨d, more, hmore, hd⟩ := n.pointed [] cs htext
      rw [hmore]
      exact hd
  have hnumber := n.takeNumber?_append hrest
  rw [htext, List.cons_append] at hnumber ⊢
  rw [scan_number_step hother.1 hother.2 hstarts, hnumber, Option.bind_some]

theorem scan_name {w : List Char} (hw : isPlainText w = true) {rest : List Char}
    (hrest : StopsAt isNamePart rest) (fuel : Nat) :
    scan (fuel + 1) (w ++ rest) = (scan fuel rest).map (.name (String.ofList w) :: ·) := by
  obtain ⟨c, tail, rfl, hstart, htail⟩ := head_of_isPlainText hw
  have hplain : isPlainWord c = true := isPlainWord_of_isPlainStart hstart
  have hnumber : startsNumber (c :: (tail ++ rest)) = false :=
    (startsNumber_cons (ne_of_plain hplain (by decide)) _).trans
      (not_digit_of_isPlainStart hstart)
  have hname : isNameStart c = true := by
    rw [isNameStart_of_ascii (toNat_of_isPlainWord hplain)]
    exact hstart
  have hpart : ∀ x ∈ tail, isNamePart x = true := fun x hx =>
    isNamePart_of_isPlainWord (htail x hx)
  rw [List.cons_append, scan_name_step hnumber hname, takeWhile_append_stop hpart hrest,
    dropWhile_append_stop hpart hrest]

theorem doubleMarks_eq : doubleMarks =
    [['*', '*'], ['/', '/'], ['<', '<'], ['>', '>'], ['<', '='], ['>', '='], ['=', '='],
     ['!', '=']] := by decide

/-- The marks of lexemes. -/
def lexemeMarks : List Char := ['(', ')', ',', '+', '-', '*', '/']

/-- A mark is taken alone unless the same one comes next. -/
theorem takeMark?_single {c : Char} (hc : c ∈ lexemeMarks) {rest : List Char}
    (hrest : isMultiplicative c = true → StopsAt isMultiplicative rest) :
    takeMark? (c :: rest) = some (String.ofList [c], rest) := by
  have hdoubled : ∀ x, isMultiplicative x = true → ¬ ([x, x].isPrefixOf (c :: rest)) = true := by
    intro x hx hprefix
    rcases rest with _ | ⟨d, rest⟩
    · simp [List.isPrefixOf] at hprefix
    · simp only [List.isPrefixOf, Bool.and_true, Bool.and_eq_true, beq_iff_eq] at hprefix
      obtain ⟨rfl, rfl⟩ := hprefix
      rw [hrest hx x rfl] at hx
      cases hx
  have hfind : doubleMarks.find? (fun m => m.isPrefixOf (c :: rest)) = none := by
    rw [doubleMarks_eq, List.find?_eq_none]
    intro m hm
    have hout : ∀ x ∈ lexemeMarks, x ≠ '<' ∧ x ≠ '>' ∧ x ≠ '=' ∧ x ≠ '!' :=
      forall_mem_of_all (by decide)
    obtain ⟨h1, h2, h3, h4⟩ := hout c hc
    simp only [List.mem_cons, List.not_mem_nil, or_false] at hm
    rcases hm with rfl | rfl | rfl | rfl | rfl | rfl | rfl | rfl
    · exact hdoubled '*' rfl
    · exact hdoubled '/' rfl
    -- the marks of comparisons are no lexemes
    all_goals simp [List.isPrefixOf, h1.symm, h2.symm, h3.symm, h4.symm]
  have hsingle : singleMarks.contains c = true := by
    have hall : (lexemeMarks.all fun c => singleMarks.contains c) = true := by decide
    exact List.all_eq_true.mp hall c hc
  unfold takeMark?
  rw [hfind]
  dsimp only
  rw [if_pos hsingle]

theorem scan_mark {c : Char} (hc : c ∈ lexemeMarks) {rest : List Char}
    (hrest : isMultiplicative c = true → StopsAt isMultiplicative rest) (fuel : Nat) :
    scan (fuel + 1) (c :: rest) = (scan fuel rest).map (.mark (String.ofList [c]) :: ·) := by
  have hall : ∀ c ∈ lexemeMarks, c ≠ '#' ∧ c ≠ ' ' ∧ c ≠ '.' ∧ c.isDigit = false ∧
      isNameStart c = false := forall_mem_of_all (by decide)
  obtain ⟨hhash, hspace, hpoint, hdigit, hstart⟩ := hall c hc
  have hnumber : startsNumber (c :: rest) = false := (startsNumber_cons hpoint rest).trans hdigit
  rw [scan_mark_step hhash hspace hnumber hstart, takeMark?_single hc hrest, Option.bind_some]

theorem scan_power (rest : List Char) (fuel : Nat) :
    scan (fuel + 1) ('*' :: '*' :: rest) = (scan fuel rest).map (.mark "**" :: ·) := by
  have hmark : takeMark? ('*' :: '*' :: rest) = some ("**", rest) := by
    unfold takeMark?
    rw [doubleMarks_eq]
    rfl
  rw [scan_mark_step (by decide) (by decide) (startsNumber_cons (by decide) _) (by decide), hmark,
    Option.bind_some]

end Token

/-! ## Whole texts -/

theorem Spells.mono {ok ok' : Char → Bool} (hok : ∀ c, ok c = true → ok' c = true)
    {ls : List Lexeme} {cs : List Char} (h : Spells ok ls cs) : Spells ok' ls cs := by
  induction h with
  | nil hg => exact .nil fun c hc => hok c (hg c hc)
  | cons hg _ ih => exact .cons (fun c hc => hok c (hg c hc)) ih

/-- With single spaces, no part of a name comes behind a number or name. -/
theorem stopsAt_isNamePart {a : Lexeme} {ls : List Lexeme} {cs : List Char}
    (h : Spells isSpace ls cs) (hchain : Chained (a :: ls)) (hsewn : Sewn ls)
    (ha : a.isWordy = true) : StopsAt isNamePart cs := by
  have hmark : ∀ c ∈ [')', ',', '+', '-', '*', '/', '^', ' '], isNamePart c = false :=
    forall_mem_of_all (by decide)
  have hspace : ∀ (g rest : List Char), (∀ c ∈ g, isSpace c = true) → StopsAt isNamePart rest →
      StopsAt isNamePart (g ++ rest) := by
    intro g rest hg hrest
    rcases g with _ | ⟨b, g⟩
    · exact hrest
    · refine stopsAt_cons (hmark b ?_)
      rw [beq_iff_eq.mp (hg b List.mem_cons_self)]
      decide
  cases h with
  | nil hg =>
    have hall := hspace cs [] hg stopsAt_nil
    rw [List.append_nil] at hall
    exact hall
  | cons hg h =>
    rename_i g l ls cs
    refine hspace g _ hg ?_
    have hends : a.ends = true := by cases a <;> first | rfl | cases ha
    rcases Lexeme.fits_ends (List.isChain_cons_cons.mp hchain).1 hends with hl | ⟨s, rfl, -⟩
    · obtain ⟨c, tail, htext, hc⟩ := Lexeme.follows_head hl
      rw [htext]
      exact stopsAt_cons (hmark c (List.mem_append_left [' '] (List.contains_iff_mem.mp hc)))
    · cases hsewn.of_cons.1

theorem stopsAt_of_skipBlanks {cs : List Char} (h : StopsAt isMultiplicative (skipBlanks cs)) :
    StopsAt isMultiplicative cs := by
  rcases cs with _ | ⟨c, cs⟩
  · exact h
  · by_cases hc : isBlank c = true
    · have hstar : c ≠ '*' := ne_of_isBlank hc (isBlank_mark (by decide))
      have hslash : c ≠ '/' := ne_of_isBlank hc (isBlank_mark (by decide))
      exact stopsAt_cons (by simp [isMultiplicative, hstar, hslash])
    · rw [skipBlanks_cons (Bool.eq_false_iff.mpr hc)] at h
      exact h

/-- Spaces take fuel and give nothing. -/
theorem scan_spaces (g rest : List Char) (hg : ∀ c ∈ g, isSpace c = true) (fuel : Nat)
    (hfuel : (g ++ rest).length < fuel) :
    ∃ fuel', rest.length < fuel' ∧ Token.scan fuel (g ++ rest) = Token.scan fuel' rest := by
  induction g generalizing fuel with
  | nil => exact ⟨fuel, hfuel, rfl⟩
  | cons b g ih =>
    rw [List.cons_append, List.length_cons] at hfuel
    obtain ⟨fuel, rfl⟩ : ∃ k, fuel = k + 1 := ⟨fuel - 1, by omega⟩
    obtain ⟨fuel', hfuel', hscan⟩ :=
      ih (fun c hc => hg c (List.mem_cons_of_mem _ hc)) fuel (Nat.lt_of_succ_lt_succ hfuel)
    refine ⟨fuel', hfuel', ?_⟩
    rw [beq_iff_eq.mp (hg b List.mem_cons_self), List.cons_append, Token.scan_space, hscan]

/-- **A lexeme is cut into its tokens**, if what comes behind it is cut into tokens with whatever
    fuel is left. -/
theorem scan_lexeme {l : Lexeme} {ls : List Lexeme} {cs : List Char} {ts : List Token}
    (h : Spells isSpace ls cs) (hchain : Chained (l :: ls)) (hsewn : Sewn (l :: ls))
    (hpower : l ≠ .power false) (hnext : ∀ fuel, cs.length < fuel → Token.scan fuel cs = some ts)
    {fuel : Nat} (hfuel : (l.text ++ cs).length < fuel) :
    Token.scan fuel (l.text ++ cs) = some (l.tokens ++ ts) := by
  have hblank := h.mono fun c hc => isBlank_of_isSpace hc
  -- a lexeme takes at least one character, so the fuel that is left will do
  obtain ⟨c, tail, htext⟩ := Lexeme.text_ne hsewn.of_cons.1
  rw [List.length_append] at hfuel
  have hlength : l.text.length = tail.length + 1 := by rw [htext, List.length_cons]
  obtain ⟨k, rfl⟩ : ∃ k, fuel = k + 1 := ⟨fuel - 1, by omega⟩
  have hmark : ∀ c : Char, c ∈ Token.lexemeMarks →
      (isMultiplicative c = true → StopsAt isMultiplicative cs) →
      Token.scan (k + 1) (c :: cs) = some (.mark (String.ofList [c]) :: ts) := by
    intro c hc hstop
    rw [Token.scan_mark hc hstop, hnext k (by omega)]
    rfl
  cases l with
  | number n =>
    show Token.scan (k + 1) (n.text ++ cs) = _
    rw [Token.scan_number n (clear_rest hblank hchain rfl), hnext k (by omega)]
    rfl
  | name w =>
    show Token.scan (k + 1) (w.text ++ cs) = _
    rw [Token.scan_name w.plain (stopsAt_isNamePart h hchain hsewn.of_cons.2 rfl),
      hnext k (by omega)]
    rfl
  | call f =>
    -- a function and its bracket are one lexeme and two tokens
    have hopen : StopsAt isNamePart ('(' :: cs) := stopsAt_cons (by decide)
    obtain ⟨x, xs, hx, -⟩ := FunctionName.head f
    have htwo : (Lexeme.call f).text.length = xs.length + 2 := by
      rw [Lexeme.text, hx]
      simp
    obtain ⟨k, rfl⟩ : ∃ j, k = j + 1 := ⟨k - 1, by omega⟩
    rw [Lexeme.text, List.append_assoc, List.singleton_append,
      Token.scan_name (FunctionName.plain f) hopen,
      Token.scan_mark (by decide) (fun h => by cases h), hnext k (by omega), String.ofList_toList]
    rfl
  | opening => exact hmark '(' (by decide) fun h => by cases h
  | closing => exact hmark ')' (by decide) fun h => by cases h
  | comma => exact hmark ',' (by decide) fun h => by cases h
  | arith op =>
    have hstop := stopsAt_of_skipBlanks (front_operand hblank hchain)
    have hop : op.mark ∈ Token.lexemeMarks ∧
        Token.mark (String.ofList [op.mark]) = op.token := by cases op <;> decide
    show Token.scan (k + 1) (op.mark :: cs) = some (op.token :: ts)
    rw [hmark op.mark hop.1 fun _ => hstop, hop.2]
  | power doubled =>
    cases doubled with
    | false => exact absurd rfl hpower
    | true =>
      show Token.scan (k + 1) ('*' :: '*' :: cs) = _
      rw [Token.scan_power, hnext k (by omega)]
      rfl
  | joint s => cases hsewn.of_cons.1

/-- **Scanning.**  A text that is made of lexemes with single spaces is cut into their tokens. -/
theorem scan_spells {ls : List Lexeme} {cs : List Char} (h : Spells isSpace ls cs)
    (hchain : Chained ls) (hsewn : Sewn ls) (hpower : ∀ l ∈ ls, l ≠ .power false) {fuel : Nat}
    (hfuel : cs.length < fuel) : Token.scan fuel cs = some (ls.flatMap Lexeme.tokens) := by
  induction h generalizing fuel with
  | nil hg =>
    rename_i g
    obtain ⟨fuel', hfuel', hscan⟩ := scan_spaces g [] hg fuel (by simpa using hfuel)
    obtain ⟨k, rfl⟩ : ∃ k, fuel' = k + 1 := ⟨fuel' - 1, by simp at hfuel'; omega⟩
    rw [List.append_nil] at hscan
    rw [hscan]
    rfl
  | cons hg h ih =>
    rename_i g l ls cs
    obtain ⟨fuel', hfuel', hscan⟩ := scan_spaces g _ hg fuel hfuel
    rw [hscan, List.flatMap_cons]
    refine scan_lexeme h hchain hsewn (hpower l List.mem_cons_self) (fun fuel hf => ?_) hfuel'
    exact ih (List.isChain_cons.mp hchain).2 hsewn.of_cons.2
      (fun x hx => hpower x (List.mem_cons_of_mem _ hx)) hf

/-! ## Names -/

/-- Where no name starts, none is found. -/
theorem scanNames_quiet {xs rest before : List Char} (h : ∀ pre c post, xs = pre ++ c :: post →
      isPlainStart c = true → endsWord (pre.reverse ++ before).head? = true) :
    scanNames 0 before.head? (xs ++ rest) = scanNames 0 (xs.reverse ++ before).head? rest := by
  induction xs generalizing before with
  | nil => rfl
  | cons x xs ih =>
    have hx : ¬ (isPlainStart x && !endsWord before.head?) = true := by
      intro hstart
      rw [Bool.and_eq_true] at hstart
      have hword : endsWord before.head? = true := h [] x xs rfl hstart.1
      rw [hword] at hstart
      cases hstart.2
    rw [List.cons_append, scanNames, if_neg hx, List.reverse_cons, List.append_assoc]
    refine @ih (x :: before) fun pre c post hxs hc => ?_
    have hcons := h (x :: pre) c post (by rw [hxs]; rfl) hc
    rw [List.reverse_cons, List.append_assoc] at hcons
    exact hcons

/-- Characters that start no name. -/
theorem scanNames_plain {xs : List Char} (h : ∀ c ∈ xs, isPlainStart c = false)
    (rest before : List Char) :
    scanNames 0 before.head? (xs ++ rest) = scanNames 0 (xs.reverse ++ before).head? rest := by
  refine scanNames_quiet fun pre c post hsplit hc => ?_
  rw [h c (by rw [hsplit]; simp)] at hc
  cases hc

/-- A word that stands alone is found. -/
theorem scanNames_word {w rest before : List Char} (hw : isPlainText w = true)
    (hbefore : endsWord before.head? = false) (hrest : StopsAt isWord rest) :
    scanNames 0 before.head? (w ++ rest) =
      String.ofList w :: scanNames 0 (w.reverse ++ before).head? rest := by
  obtain ⟨c, tail, rfl, hstart, htail⟩ := head_of_isPlainText hw
  have hlast : (tail.getLast?.or (some c)) = ((c :: tail).reverse ++ before).head? := by
    rw [List.reverse_cons, List.append_assoc, List.head?_append, List.head?_reverse]
    rfl
  rw [scanNames_head hstart htail hbefore hrest, hlast]

/-- **Names.**  In a text that is made of lexemes, their words are found. -/
theorem scanNames_spells {ls : List Lexeme} {cs : List Char} (h : Spells isBlank ls cs)
    (hchain : Chained ls) {before : List Char}
    (hbefore : ∀ b, ls.head? = some b → b.fresh = true → Decimal.Clear before) :
    scanNames 0 before.head? cs = ls.flatMap Lexeme.words := by
  induction h generalizing before with
  | nil hg =>
    rename_i g
    have hquiet := scanNames_plain (fun c hc => isPlainStart_of_isBlank (hg c hc)) [] before
    rw [List.append_nil] at hquiet
    rw [hquiet]
    rfl
  | cons hg h ih =>
    rename_i g l ls cs
    have hclear : l.fresh = true → Decimal.Clear (g.reverse ++ before) :=
      fun hl => clear_blanks hg (hbefore l rfl hl)
    have hroom := room h hchain hclear
    have hnext := ih (List.isChain_cons.mp hchain).2 (clear_next hchain hclear)
    have hplain : (∀ c ∈ l.text, isPlainStart c = false) →
        scanNames 0 (g.reverse ++ before).head? (l.text ++ cs) = ls.flatMap Lexeme.words :=
      fun hl => (scanNames_plain hl cs _).trans hnext
    rw [scanNames_plain fun c hc => isPlainStart_of_isBlank (hg c hc)]
    rw [List.flatMap_cons]
    cases l with
    | number n =>
      show scanNames 0 _ (n.text ++ cs) = _
      -- letters of a number stand behind its digits, so no name starts there
      rw [scanNames_quiet fun pre c post hsplit hc => by
        obtain ⟨front, d, rfl, hd⟩ := n.behind_word hsplit hc
        rw [List.reverse_append]
        exact hd]
      exact hnext
    | name w =>
      show scanNames 0 _ (w.text ++ cs) = _
      rw [scanNames_word w.plain (not_endsWord (hroom.left rfl)) (stopsAt_isWord (hroom.right rfl))]
      exact congrArg _ hnext
    | call f =>
      have hopen : StopsAt isWord ('(' :: cs) := stopsAt_cons (by decide)
      rw [Lexeme.text, List.append_assoc, List.singleton_append,
        scanNames_word (FunctionName.plain f) (not_endsWord (hroom.left rfl)) hopen,
        String.ofList_toList]
      have hstart : ∀ c ∈ ['('], isPlainStart c = false := forall_mem_of_all (by decide)
      have hbracket := scanNames_plain hstart cs (f.val.toList.reverse ++ (g.reverse ++ before))
      rw [Lexeme.text, List.reverse_append, List.append_assoc] at hnext
      rw [List.singleton_append] at hbracket
      rw [hbracket, hnext]
      rfl
    | _ => exact hplain fun c hc => Lexeme.not_start (by simp) hc

end InitialValue.Formula
