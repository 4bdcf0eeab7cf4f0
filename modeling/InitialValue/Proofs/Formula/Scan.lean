/-
  Where the tokens of a text stand.

  Cutting a text into tokens only ever takes something off its front: `begins` says what can stand
  there, and one equation for each case how the scanner goes on.  So every token stands at a place
  of the text (`scanned_of_scan`).  For names more can be said (`scan_name`): a name ends where no further word
  character follows, and a word character directly in front of it belongs to a number, which then
  had to be followed by one of the words that a number may run into.
-/
import InitialValue.Formula.Token
import InitialValue.Proofs.Decimal.Numeral

namespace InitialValue

namespace Formula

namespace Token

open InitialValue.Text

theorem takeRadix_suffix {base n : Nat} {found : Bool} {cs rest : List Char} {m : Nat}
    (h : takeRadix base n found cs = some (m, rest)) : rest <:+ cs := by
  fun_induction takeRadix base n found cs with
  | case1 n found c cs d _ ih =>
    exact ((ih h).trans (List.suffix_cons _ _)).trans (List.suffix_cons _ _)
  | case2 => cases h; exact List.suffix_rfl
  | case3 => cases h
  | case4 n found c cs _ d _ ih => exact (ih h).trans (List.suffix_cons _ _)
  | case5 => cases h; exact List.suffix_rfl
  | case6 => cases h
  | case7 => cases h; exact List.suffix_rfl
  | case8 => cases h

/-- What a decimal numeral is as a literal, if it is written as one may be: a whole number is not
    too long and has no superfluous zeros in front. -/
def literalOf? (ds : List Char) (isWhole : Bool) (n : Decimal.Numeral) : Option Literal :=
  if isWhole then
    if mostDigits < ds.length then none
    else if ds.head? == some '0' && ds.any (· != '0') then none
    else some (.whole n.digits)
  else some (.decimal n)

theorem takeDecimal?_eq (cs : List Char) :
    takeDecimal? cs = (Decimal.takeNumeral? cs).bind fun p =>
      (literalOf? (Decimal.takeDigits cs).1
        ((Decimal.takeDigits cs).2.length = p.2.length) p.1).map fun l => (l, p.2) := by
  unfold takeDecimal? literalOf?
  rcases Decimal.takeNumeral? cs with _ | ⟨n, rest⟩
  · rfl
  · rcases Decimal.takeDigits cs with ⟨ds, after⟩
    by_cases hlen : after.length = rest.length
    · by_cases hlong : mostDigits < ds.length
      · simp [hlen, hlong]
      · by_cases hzero : (ds.head? == some '0' && ds.any (· != '0')) = true
        · simp [hlen, hlong, hzero]
        · simp [hlen, hlong, hzero]
    · simp [hlen]

/-- A number at the front of a text, whatever follows. -/
def takeLiteral? : List Char → Option (Literal × List Char)
  | '0' :: c :: more =>
    match radix? c with
    | some base => (takeRadix base 0 false more).map fun p => (.whole p.1, p.2)
    | none => takeDecimal? ('0' :: c :: more)
  | cs => takeDecimal? cs

theorem takeNumber?_eq (cs : List Char) :
    takeNumber? cs = (takeLiteral? cs).bind fun p => if endsNumber p.2 then some p else none := by
  have hlast : ∀ x : Option (Literal × List Char),
      (x >>= fun p => if endsNumber p.2 then pure (p.1, p.2) else none) =
        x.bind fun p => if endsNumber p.2 then some p else none := fun x => rfl
  unfold takeNumber?
  split
  · rename_i c more
    rw [takeLiteral?]
    cases radix? c with
    | none => exact hlast _
    | some base => exact hlast _
  · rename_i hne
    rw [takeLiteral?.eq_2 cs hne]
    exact hlast _

theorem takeDecimal?_suffix {cs rest : List Char} {l : Literal}
    (h : takeDecimal? cs = some (l, rest)) : rest <:+ cs := by
  rw [takeDecimal?_eq] at h
  obtain ⟨⟨n, rest'⟩, hn, h⟩ := Option.bind_eq_some_iff.mp h
  obtain ⟨l', -, h⟩ := Option.map_eq_some_iff.mp h
  cases h
  exact Decimal.takeNumeral?_suffix hn

/-- **A number is taken off the front**, and what is left may follow a number. -/
theorem takeNumber?_rest {cs rest : List Char} {l : Literal}
    (h : takeNumber? cs = some (l, rest)) : rest <:+ cs ∧ endsNumber rest = true := by
  rw [takeNumber?_eq] at h
  obtain ⟨⟨l', rest'⟩, hl, h⟩ := Option.bind_eq_some_iff.mp h
  split at h
  · rename_i hends
    cases h
    refine ⟨?_, hends⟩
    unfold takeLiteral? at hl
    split at hl
    · split at hl
      · obtain ⟨⟨n, r⟩, hn, hl⟩ := Option.map_eq_some_iff.mp hl
        cases hl
        exact ((takeRadix_suffix hn).trans (List.suffix_cons _ _)).trans (List.suffix_cons _ _)
      · exact takeDecimal?_suffix hl
    · exact takeDecimal?_suffix hl
  · cases h

/-! ## Marks -/

/-- Marks are not empty and hold no word character. -/
theorem doubleMarks_spec {m : List Char} (h : m ∈ doubleMarks) :
    m ≠ [] ∧ ∀ c ∈ m, isWord c = false := by
  have hall : (doubleMarks.all fun m => !m.isEmpty && m.all fun c => !isWord c) = true := by
    decide
  have hm := List.all_eq_true.mp hall m h
  simpa using hm

theorem singleMarks_spec {c : Char} (h : c ∈ singleMarks) : isWord c = false := by
  have hall : (singleMarks.all fun c => !isWord c) = true := by decide
  simpa using List.all_eq_true.mp hall c h

/-- **A mark is taken off the front**, and holds no word character. -/
theorem takeMark?_spec {cs rest : List Char} {m : String} (h : takeMark? cs = some (m, rest)) :
    cs = m.toList ++ rest ∧ m.toList ≠ [] ∧ ∀ c ∈ m.toList, isWord c = false := by
  unfold takeMark? at h
  split at h
  · rename_i w hfind
    cases h
    obtain ⟨hne, hword⟩ := doubleMarks_spec (List.mem_of_find?_eq_some hfind)
    have hprefix := List.find?_some hfind
    rw [String.toList_ofList]
    refine ⟨?_, hne, hword⟩
    obtain ⟨t, ht⟩ := List.isPrefixOf_iff_prefix.mp hprefix
    rw [← ht, List.drop_left]
  · split at h
    · rename_i c rest'
      split at h
      · rename_i hmark
        cases h
        rw [String.toList_ofList]
        refine ⟨rfl, by simp, ?_⟩
        intro x hx
        rw [List.mem_singleton.mp hx]
        exact singleMarks_spec (List.contains_iff_mem.mp hmark)
      · cases h
    · cases h

/-! ## Steps of the scanner -/

theorem startsNumber_point (rest : List Char) :
    startsNumber ('.' :: rest) = rest.head?.elim false Char.isDigit := by
  cases rest <;> rfl

theorem startsNumber_cons {c : Char} (hc : c ≠ '.') (rest : List Char) :
    startsNumber (c :: rest) = c.isDigit := by
  rw [startsNumber]
  exact fun _ _ h _ => hc h

theorem isDigit_of_startsNumber {c : Char} {rest : List Char}
    (h : startsNumber (c :: rest) = false) : c.isDigit = false := by
  by_cases hc : c = '.'
  · rw [hc]
    decide
  · rwa [startsNumber_cons hc] at h

/-- What the scanner finds at the front of a text. -/
inductive Begins : List Char → Prop
  | done : Begins []
  | hash (rest) : Begins ('#' :: rest)
  | blank (rest) : Begins (' ' :: rest)
  | number {c rest} : c ≠ '#' → c ≠ ' ' → startsNumber (c :: rest) = true → Begins (c :: rest)
  | name {c rest} : startsNumber (c :: rest) = false → isNameStart c = true → Begins (c :: rest)
  | mark {c rest} : c ≠ '#' → c ≠ ' ' → startsNumber (c :: rest) = false →
      isNameStart c = false → Begins (c :: rest)

/-- Every text begins in one of these ways. -/
theorem begins (cs : List Char) : Begins cs := by
  rcases cs with _ | ⟨c, rest⟩
  · exact .done
  by_cases hhash : c = '#'
  · exact hhash ▸ .hash rest
  by_cases hblank : c = ' '
  · exact hblank ▸ .blank rest
  cases hnumber : startsNumber (c :: rest) with
  | true => exact .number hhash hblank hnumber
  | false =>
    cases hname : isNameStart c with
    | true => exact .name hnumber hname
    | false => exact .mark hhash hblank hnumber hname

section

variable {fuel : Nat} {c : Char} {rest : List Char}

theorem scan_hash (fuel : Nat) (rest : List Char) : scan (fuel + 1) ('#' :: rest) = some [] := rfl

theorem scan_space (fuel : Nat) (rest : List Char) :
    scan (fuel + 1) (' ' :: rest) = scan fuel rest := rfl

theorem scan_number_step (hhash : c ≠ '#') (hspace : c ≠ ' ')
    (h : startsNumber (c :: rest) = true) : scan (fuel + 1) (c :: rest) =
      (takeNumber? (c :: rest)).bind fun p => (scan fuel p.2).map (.number p.1 :: ·) := by
  rw [scan]
  simp only [beq_iff_eq, hhash, hspace, if_false, h, if_true]
  cases takeNumber? (c :: rest) with
  | none => rfl
  | some p => cases hscan : scan fuel p.2 <;> simp [hscan]

theorem scan_name_step (hnumber : startsNumber (c :: rest) = false)
    (h : isNameStart c = true) : scan (fuel + 1) (c :: rest) =
      (scan fuel (rest.dropWhile isNamePart)).map
        (.name (String.ofList (c :: rest.takeWhile isNamePart)) :: ·) := by
  have hhash : c ≠ '#' := by
    rintro rfl
    exact absurd h (by decide)
  have hspace : c ≠ ' ' := by
    rintro rfl
    exact absurd h (by decide)
  rw [scan]
  simp only [beq_iff_eq, hhash, hspace, if_false, hnumber, Bool.false_eq_true, h, if_true,
    drop_length_takeWhile]
  cases scan fuel (rest.dropWhile isNamePart) <;> rfl

theorem scan_mark_step (hhash : c ≠ '#') (hspace : c ≠ ' ')
    (hnumber : startsNumber (c :: rest) = false) (h : isNameStart c = false) :
    scan (fuel + 1) (c :: rest) =
      (takeMark? (c :: rest)).bind fun p => (scan fuel p.2).map (.mark p.1 :: ·) := by
  rw [scan]
  simp only [beq_iff_eq, hhash, hspace, if_false, hnumber, Bool.false_eq_true, h]
  cases takeMark? (c :: rest) with
  | none => rfl
  | some p => cases hscan : scan fuel p.2 <;> simp [hscan]

end

/-! ## The scanner as a relation -/

/-- `Scanned cs ts` — the text `cs` is cut into the tokens `ts`. -/
inductive Scanned : List Char → List Token → Prop
  | done : Scanned [] []
  | hash {rest} : Scanned ('#' :: rest) []
  | blank {rest ts} : Scanned rest ts → Scanned (' ' :: rest) ts
  | number {cs rest l ts} : cs.head? ≠ some '#' → cs.head? ≠ some ' ' → startsNumber cs = true →
      takeNumber? cs = some (l, rest) → Scanned rest ts → Scanned cs (.number l :: ts)
  | name {c rest ts} : startsNumber (c :: rest) = false → isNameStart c = true →
      Scanned (rest.dropWhile isNamePart) ts →
      Scanned (c :: rest) (.name (String.ofList (c :: rest.takeWhile isNamePart)) :: ts)
  | mark {c cs rest m ts} : c ≠ '#' → c ≠ ' ' → startsNumber (c :: cs) = false →
      isNameStart c = false → takeMark? (c :: cs) = some (m, rest) → Scanned rest ts →
      Scanned (c :: cs) (.mark m :: ts)

theorem scanned_of_scan {fuel : Nat} {cs : List Char} {ts : List Token}
    (h : scan fuel cs = some ts) : Scanned cs ts := by
  induction fuel generalizing cs ts with
  | zero => cases h
  | succ fuel ih =>
    cases begins cs with
    | done =>
      cases h
      exact .done
    | hash rest =>
      cases h
      exact .hash
    | blank rest =>
      rw [scan_space] at h
      exact .blank (ih h)
    | number hhash hspace hnumber =>
      rw [scan_number_step hhash hspace hnumber] at h
      obtain ⟨⟨l, r⟩, hl, h⟩ := Option.bind_eq_some_iff.mp h
      obtain ⟨us, hus, rfl⟩ := Option.map_eq_some_iff.mp h
      exact .number (fun hc => hhash (Option.some.inj hc)) (fun hc => hspace (Option.some.inj hc))
        hnumber hl (ih hus)
    | name hnumber hname =>
      rw [scan_name_step hnumber hname] at h
      obtain ⟨us, hus, rfl⟩ := Option.map_eq_some_iff.mp h
      exact .name hnumber hname (ih hus)
    | mark hhash hspace hnumber hname =>
      rw [scan_mark_step hhash hspace hnumber hname] at h
      obtain ⟨⟨m, r⟩, hm, h⟩ := Option.bind_eq_some_iff.mp h
      obtain ⟨us, hus, rfl⟩ := Option.map_eq_some_iff.mp h
      exact .mark hhash hspace hnumber hname hm (ih hus)

/-! ## Names -/

/-- Behind a name, the text goes on with something that is no word character. -/
theorem Scanned.head_not_word {cs : List Char} {ts : List Token} (h : Scanned cs ts) {c : Char}
    (hc : cs.head? = some c) (hpart : isNamePart c = false) : isWord c = false := by
  cases h with
  | done => cases hc
  | hash =>
    cases hc
    decide
  | blank =>
    cases hc
    decide
  | @number cs rest l us _ _ hnumber _ _ =>
    obtain ⟨rest', rfl⟩ := List.head?_eq_some_iff.mp hc
    have hdigit : c.isDigit = false := by
      rw [Bool.eq_false_iff]
      intro hdigit
      have hword : isPlainWord c = true := by simp [isPlainWord, Char.isAlphanum, hdigit]
      rw [isNamePart_of_isPlainWord hword] at hpart
      cases hpart
    -- a number that does not start with a digit starts with a point
    by_cases hpoint : c = '.'
    · rw [hpoint]
      decide
    · rw [startsNumber_cons hpoint, hdigit] at hnumber
      cases hnumber
  | name _ hstart _ =>
    cases hc
    rw [isNamePart_of_isNameStart hstart] at hpart
    cases hpart
  | mark _ _ _ _ hm _ =>
    cases hc
    obtain ⟨heq, hne, hword⟩ := takeMark?_spec hm
    obtain ⟨x, xs, hx⟩ := List.exists_cons_of_ne_nil hne
    rw [hx] at heq hword
    rw [(List.cons.inj heq).1]
    exact hword x List.mem_cons_self

/-- `IsName w` — the characters `w` make a name. -/
def IsName (w : List Char) : Prop :=
  ∃ c tail, w = c :: tail ∧ isNameStart c = true ∧ ∀ x ∈ tail, isNamePart x = true

/-- `NameAt before last s after` — the text `before ++ s ++ after` holds the name `s` from end to
    end, as a token behind the token `last`: a word character in front of it belongs to a number,
    which may be followed by what comes. -/
structure NameAt (before : Option Char) (last : Option Token) (s : String) (after : List Char) :
    Prop where
  isName : IsName s.toList
  stops : StopsAt isNamePart after
  ends : endsWord after.head? = false
  starts : endsWord before = true →
    (∃ l, last = some (.number l)) ∧ endsNumber (s.toList ++ after) = true

/-- A name behind what was read is a name of the whole text. -/
theorem nameAt_behind {eaten rest : List Char} {s : String} {pre : List Token} {t : Token}
    {b : Option Char} {prev : Option Token}
    (h : ∃ before after, rest = before ++ s.toList ++ after ∧
      NameAt (before.getLast?.or (eaten.getLast?.or b)) (pre.getLast?.or (some t)) s after) :
    ∃ before after, eaten ++ rest = before ++ s.toList ++ after ∧
      NameAt (before.getLast?.or b) ((t :: pre).getLast?.or prev) s after := by
  obtain ⟨before, after, rfl, hat⟩ := h
  refine ⟨eaten ++ before, after, by simp only [List.append_assoc], ?_⟩
  rw [getLast?_append_or, ← List.singleton_append, getLast?_append_or]
  exact hat

/-- The name that a text starts with. -/
theorem Scanned.name_front {c : Char} {rest : List Char} {ts : List Token}
    (h : Scanned (rest.dropWhile isNamePart) ts) (hstart : isNameStart c = true) {b : Option Char}
    {prev : Option Token} (hb : endsWord b = true →
      (∃ l, prev = some (.number l)) ∧ endsNumber (c :: rest) = true) :
    NameAt b prev (String.ofList (c :: rest.takeWhile isNamePart)) (rest.dropWhile isNamePart) := by
  have hstops : StopsAt isNamePart (rest.dropWhile isNamePart) := stopsAt_dropWhile rest
  refine ⟨⟨c, _, String.toList_ofList, hstart, fun x hx => mem_takeWhile hx⟩, hstops, ?_, ?_⟩
  · cases hhead : (rest.dropWhile isNamePart).head? with
    | none => rfl
    | some x => exact h.head_not_word hhead (hstops x hhead)
  · rw [String.toList_ofList, List.cons_append, List.takeWhile_append_dropWhile]
    exact hb

/-- **Where names stand.**  `b` is the character in front of the text and `prev` the token that it
    belongs to. -/
theorem Scanned.name_at {cs : List Char} {ts : List Token} (h : Scanned cs ts) {s : String}
    {pre post : List Token} (hts : ts = pre ++ .name s :: post) (b : Option Char)
    (prev : Option Token) (hb : (∃ c, cs.head? = some c ∧ isNameStart c = true) →
      endsWord b = true → (∃ l, prev = some (.number l)) ∧ endsNumber cs = true) :
    ∃ before after, cs = before ++ s.toList ++ after ∧
      NameAt (before.getLast?.or b) (pre.getLast?.or prev) s after := by
  induction h generalizing pre b prev with
  | done => simp at hts
  | hash => simp at hts
  | @blank rest ts h ih =>
    obtain ⟨before, after, hcs, hat⟩ := ih hts (some ' ') prev (fun _ hword => by cases hword)
    refine ⟨' ' :: before, after, by rw [hcs]; rfl, ?_⟩
    rw [← List.singleton_append, getLast?_append_or]
    exact hat
  | @number cs rest l ts _ _ hnumber hl h ih =>
    obtain ⟨⟨eaten, rfl⟩, hends⟩ := takeNumber?_rest hl
    rcases pre with _ | ⟨t, pre⟩
    · cases hts
    · -- only here can a name touch the word in front: behind a number, which may be followed by it
      obtain ⟨rfl, hts'⟩ := List.cons.inj hts
      exact nameAt_behind (ih hts' _ (some (.number l)) fun _ _ => ⟨⟨l, rfl⟩, hends⟩)
  | @name c rest ts hnumber hstart h ih =>
    have hsplit : c :: rest = (c :: rest.takeWhile isNamePart) ++ rest.dropWhile isNamePart := by
      rw [List.cons_append, List.takeWhile_append_dropWhile]
    rcases pre with _ | ⟨t, pre⟩
    · obtain ⟨hs, -⟩ := List.cons.inj hts
      cases hs
      refine ⟨[], rest.dropWhile isNamePart, ?_, h.name_front hstart (hb ⟨c, rfl, hstart⟩)⟩
      rw [String.toList_ofList]
      exact hsplit
    · obtain ⟨rfl, hts'⟩ := List.cons.inj hts
      rw [hsplit]
      refine nameAt_behind (ih hts' _ _ ?_)
      -- a name has taken all parts of names, so no other one starts behind it
      rintro ⟨x, hx, hxstart⟩
      have hpart := stopsAt_dropWhile (p := isNamePart) rest x hx
      rw [isNamePart_of_isNameStart hxstart] at hpart
      cases hpart
  | @mark c cs rest m ts _ _ _ _ hm h ih =>
    obtain ⟨heq, hne, hword⟩ := takeMark?_spec hm
    rcases pre with _ | ⟨t, pre⟩
    · cases hts
    · obtain ⟨rfl, hts'⟩ := List.cons.inj hts
      rw [heq]
      refine nameAt_behind (ih hts' _ _ ?_)
      intro _ hb'
      rw [List.getLast?_eq_some_getLast hne, Option.some_or, endsWord_some,
        hword _ (List.getLast_mem hne)] at hb'
      cases hb'

end Token

end Formula

end InitialValue
