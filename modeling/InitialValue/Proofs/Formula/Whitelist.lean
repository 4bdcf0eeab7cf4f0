/-
  Which names get through.

  A formula is accepted after the names found in its normal text were compared with the names it
  may use; what is evaluated are the names among the tokens of the same text.  The two ways of
  finding names do not agree everywhere: a name with a character outside ASCII is no plain name,
  and a name that runs on from a number does not stand alone.  Only a name that begins with one of
  the words that may follow a number can do that.

  `accepted_names_iff` says that there is no other difference: among the names of an accepted
  formula the permitted ones are exactly the plain ones that begin with none of those words.
-/
import InitialValue.Formula.Reading
import InitialValue.Proofs.Failing
import InitialValue.Proofs.Formula.Names
import InitialValue.Proofs.Formula.Scan

namespace InitialValue.Formula

open InitialValue.Text

/-- Does a name begin with one of the words that may follow a number? -/
def beginsWithWord (s : String) : Bool :=
  Token.wordsAfterNumber.any fun w => w.isPrefixOf s.toList

/-- The known names, and the further ones that a formula may use. -/
def Permitted (further : String → Bool) (s : String) : Prop :=
  isKnown s = true ∨ further s = true

/-! ## Permitted names are plain -/

theorem plain_of_isKnown {s : String} (h : isKnown s = true) :
    Token.isPlainName s = true ∧ beginsWithWord s = false := by
  have hall : ∀ x ∈ functionNames ++ constantNames,
      Token.isPlainName x = true ∧ beginsWithWord x = false := by decide
  unfold isKnown at h
  rw [Bool.or_eq_true, List.contains_iff_mem, List.contains_iff_mem] at h
  exact hall s (List.mem_append.mpr h)

theorem plain_of_single {s : String} (h : Single.allowed.contains s = true) :
    Token.isPlainName s = true ∧ beginsWithWord s = false := by
  have hall : ∀ x ∈ Single.allowed, Token.isPlainName x = true ∧ beginsWithWord x = false := by
    decide
  exact hall s (List.contains_iff_mem.mp h)

/-- No word that may follow a number begins with a small `y`. -/
theorem not_word_of_component {tail : List Char} {w : List Char}
    (hw : w ∈ Token.wordsAfterNumber) : w.isPrefixOf ('y' :: tail) = false := by
  have hall : ∀ w ∈ Token.wordsAfterNumber, ∃ c cs, w = c :: cs ∧ c ≠ 'y' := by
    intro w hw
    simp [Token.wordsAfterNumber] at hw
    rcases hw with rfl | rfl | rfl | rfl | rfl | rfl | rfl | rfl <;> exact ⟨_, _, rfl, by decide⟩
  obtain ⟨c, cs, rfl, hc⟩ := hall w hw
  simp [List.isPrefixOf, hc]

theorem plain_of_coupled {s : String} (h : Coupled.isAllowed s = true) :
    Token.isPlainName s = true ∧ beginsWithWord s = false := by
  unfold Coupled.isAllowed at h
  rw [Bool.or_eq_true, beq_iff_eq] at h
  rcases h with rfl | h
  · exact plain_of_single (by decide)
  · unfold Coupled.component? at h
    split at h
    · rename_i c cs hs
      split at h
      · rename_i hdigits
        rw [Bool.and_eq_true, List.all_eq_true] at hdigits
        constructor
        · unfold Token.isPlainName
          rw [hs, List.all_eq_true]
          intro x hx
          rcases List.mem_cons.mp hx with rfl | hx
          · decide
          · have hword : isPlainWord x = true := by
              simp [isPlainWord, Char.isAlphanum, hdigits.2 x hx]
            exact decide_eq_true (toNat_of_isPlainWord hword)
        · unfold beginsWithWord
          rw [hs, List.any_eq_false]
          intro w hw
          rw [not_word_of_component hw]
          decide
      · cases h
    · cases h

/-! ## Plain names are found, or run on from a number -/

/-- A name that is plain is made of plain characters. -/
theorem isName_plain {s : String} (hname : Token.IsName s.toList)
    (hplain : Token.isPlainName s = true) :
    ∃ c tail, s.toList = c :: tail ∧ isPlainStart c = true ∧
      ∀ x ∈ tail, isPlainWord x = true := by
  obtain ⟨c, tail, hs, hc, htail⟩ := hname
  have hascii : ∀ x ∈ s.toList, x.toNat < 128 := by
    intro x hx
    exact of_decide_eq_true (List.all_eq_true.mp hplain x hx)
  refine ⟨c, tail, hs, ?_, ?_⟩
  · rw [← isNameStart_of_ascii (hascii c (by rw [hs]; exact List.mem_cons_self))]
    exact hc
  · intro x hx
    rw [← isNamePart_of_ascii (hascii x (by rw [hs]; exact List.mem_cons_of_mem _ hx))]
    exact htail x hx

/-- The words that may follow a number are made of letters. -/
theorem isNamePart_of_word {w : List Char} (h : w ∈ Token.wordsAfterNumber) :
    ∀ c ∈ w, isNamePart c = true := by
  have hall : (Token.wordsAfterNumber.all fun w => w.all isNamePart) = true := by decide
  exact List.all_eq_true.mp (List.all_eq_true.mp hall w h)

/-- A word at the front of a text that starts with a name is at the front of the name. -/
theorem prefix_of_name {w xs after : List Char} (hw : ∀ c ∈ w, isNamePart c = true)
    (hafter : StopsAt isNamePart after) (h : w <+: xs ++ after) : w <+: xs := by
  rcases Nat.le_total w.length xs.length with hlen | hlen
  · exact List.prefix_of_prefix_length_le h (List.prefix_append xs after) hlen
  · obtain ⟨more, rfl⟩ := List.prefix_of_prefix_length_le (List.prefix_append xs after) h hlen
    rw [List.prefix_append_right_inj] at h
    rcases more with _ | ⟨x, more⟩
    · simp
    · obtain ⟨rest, rfl⟩ := h
      have hx : isNamePart x = false := hafter x rfl
      rw [hw x (by simp)] at hx
      cases hx

/-- What may follow a number and starts with a plain name starts with one of the words. -/
theorem beginsWithWord_of_endsNumber {s : String} {c : Char} {tail after : List Char}
    (hs : s.toList = c :: tail) (hc : isPlainStart c = true) (hafter : StopsAt isNamePart after)
    (h : Token.endsNumber (s.toList ++ after) = true) : beginsWithWord s = true := by
  rw [hs] at h
  show (Token.wordsAfterNumber.any fun w => w.isPrefixOf s.toList) = true
  rw [hs]
  unfold Token.endsNumber at h
  simp only [List.cons_append, isPlainWord_of_isPlainStart hc, Bool.not_true, Bool.false_or,
    List.any_eq_true] at h
  obtain ⟨w, hw, hprefix⟩ := h
  rw [List.any_eq_true]
  refine ⟨w, hw, ?_⟩
  rw [List.isPrefixOf_iff_prefix] at hprefix ⊢
  exact prefix_of_name (isNamePart_of_word hw) hafter hprefix

/-- **Every plain name among the tokens is found in the text, unless it runs on from a number.** -/
theorem found_or_glued {n : List Char} {ts pre post : List Token} {s : String}
    (h : Token.Scanned n ts) (hts : ts = pre ++ .name s :: post)
    (hplain : Token.isPlainName s = true) :
    s ∈ scanNames 0 none n ∨
      beginsWithWord s = true ∧ ∃ l, pre.getLast? = some (.number l) := by
  obtain ⟨before, after, hn, hat⟩ := h.name_at hts none none (fun _ hword => by cases hword)
  rw [Option.or_none, Option.or_none] at hat
  obtain ⟨c, tail, hs, hc, htail⟩ := isName_plain hat.isName hplain
  cases hbefore : endsWord before.getLast? with
  | true =>
    obtain ⟨hnumber, hends⟩ := hat.starts hbefore
    exact Or.inr ⟨beginsWithWord_of_endsNumber hs hc hat.stops hends, hnumber⟩
  | false =>
    left
    have hmem := mem_scanNames hc htail hbefore hat.ends
    rw [← hs, String.ofList_toList, ← hn] at hmem
    exact hmem

/-! ## Accepted formulas -/

/-- What holds of the tokens of a normal text all of whose further names are permitted: a name is
    permitted exactly when it is plain and begins with none of the words, and a plain name that
    does begin with one stands right behind a number. -/
def NamesChecked (further : String → Bool) (ts : List Token) : Prop :=
  ∀ pre s post, ts = pre ++ .name s :: post →
    (Permitted further s ↔ Token.isPlainName s = true ∧ beginsWithWord s = false) ∧
    (Token.isPlainName s = true → beginsWithWord s = true →
      ∃ l, pre.getLast? = some (.number l))

theorem namesChecked_of_found {further : String → Bool} {n : List Char} {ts : List Token}
    (hplain : ∀ s, further s = true → Token.isPlainName s = true ∧ beginsWithWord s = false)
    (hfound : ∀ s ∈ namesIn n, further s = true) (h : Token.Scanned n ts) :
    NamesChecked further ts := by
  have hpermitted : ∀ s, Permitted further s →
      Token.isPlainName s = true ∧ beginsWithWord s = false := by
    rintro s (hs | hs)
    · exact plain_of_isKnown hs
    · exact hplain s hs
  have hscan : ∀ s, s ∈ scanNames 0 none n → Permitted further s := by
    intro s hs
    cases hknown : isKnown s with
    | true => exact Or.inl hknown
    | false => exact Or.inr (hfound s (mem_namesIn.mpr ⟨hs, hknown⟩))
  intro pre s post hts
  refine ⟨⟨hpermitted s, ?_⟩, ?_⟩
  · rintro ⟨hs, hword⟩
    rcases found_or_glued h hts hs with hmem | ⟨hbegins, -⟩
    · exact hscan s hmem
    · rw [hword] at hbegins
      cases hbegins
  · intro hs hword
    rcases found_or_glued h hts hs with hmem | ⟨-, hnumber⟩
    · rw [(hpermitted s (hscan s hmem)).2] at hword
      cases hword
    · exact hnumber

/-- A normal text that makes an equation has tokens. -/
theorem tokens_of_compile {n : List Char} {e : Equation} (h : Equation.compile n = .ok e) :
    ∃ ts, tokens? n = some ts ∧ Token.Scanned n ts := by
  obtain ⟨expr, hexpr, -⟩ := bind_eq_ok.mp h
  cases htext : Expr.ofText? n with
  | none =>
    rw [htext] at hexpr
    cases hexpr
  | some x =>
    obtain ⟨ts, hts, -⟩ := Option.bind_eq_some_iff.mp htext
    refine ⟨ts, hts, ?_⟩
    unfold tokens? at hts
    obtain ⟨us, hus, hts⟩ := Option.bind_eq_some_iff.mp hts
    split at hts
    · cases hts
      exact Token.scanned_of_scan hus
    · cases hts

/-- **An accepted single formula** was normalised, uses no other names, and makes an equation. -/
theorem Single.read_accepted {v : Value Float} {e : Equation}
    (h : (Single.read v).outcome = .ok e) :
    Equation.normalTextOf v = .ok (Single.read v).normal ∧
      (Single.read v).names = namesIn (Single.read v).normal ∧
      (∀ s ∈ namesIn (Single.read v).normal, Single.allowed.contains s = true) ∧
      Equation.compile (Single.read v).normal = .ok e ∧ Single.test e = .ok () := by
  unfold Single.read at h ⊢
  cases hn : Equation.normalTextOf v with
  | error cause =>
    rw [hn] at h
    cases h
  | ok n =>
    rw [hn] at h
    simp only at h ⊢
    unfold Single.ofNormal at h ⊢
    simp only at h ⊢
    split at h
    · cases h
    · rename_i hknown
      -- each check that is passed leaves the next one
      rw [if_neg hknown]
      cases hcompile : Equation.compile n with
      | error cause =>
        rw [hcompile] at h
        cases h
      | ok e' =>
        rw [hcompile] at h
        simp only at h ⊢
        cases htest : Single.test e' with
        | error cause =>
          rw [htest] at h
          cases h
        | ok u =>
          rw [htest] at h
          cases h
          refine ⟨rfl, rfl, ?_, hcompile, htest⟩
          intro s hs
          by_contra hne
          apply hknown
          rw [Bool.not_eq_true', List.isEmpty_eq_false_iff]
          exact List.ne_nil_of_mem (List.mem_filter.mpr ⟨hs, by simpa using hne⟩)

/-- **An accepted system** was normalised, uses no other names, and makes equations. -/
theorem Coupled.ofItems_accepted {items : List (Value Float)} {es : List Equation}
    (h : (Coupled.ofItems items).outcome = .ok es) :
    items.mapM Equation.normalTextOf = .ok (Coupled.ofItems items).normal ∧
      (∀ n ∈ (Coupled.ofItems items).normal, ∀ s ∈ namesIn n, Coupled.isAllowed s = true) ∧
      (Coupled.ofItems items).normal.mapM Equation.compile = .ok es := by
  unfold Coupled.ofItems at h ⊢
  split at h
  · cases h
  · rename_i hempty
    rw [if_neg hempty]
    cases hn : items.mapM Equation.normalTextOf with
    | error cause =>
      rw [hn] at h
      cases h
    | ok normal =>
      rw [hn] at h
      simp only at h ⊢
      cases hfind : (Coupled.unionOfNames normal).find? fun x => !Coupled.isAllowed x with
      | some x =>
        rw [hfind] at h
        cases h
      | none =>
        rw [hfind] at h
        simp only at h ⊢
        cases hcompile : normal.mapM Equation.compile with
        | error cause =>
          rw [hcompile] at h
          cases h
        | ok equations =>
          rw [hcompile] at h
          cases h
          refine ⟨rfl, ?_, hcompile⟩
          intro n hmem s hs
          rw [List.find?_eq_none] at hfind
          have hunion : s ∈ Coupled.unionOfNames normal := by
            unfold Coupled.unionOfNames
            rw [mem_foldr_insertName, List.mem_flatMap]
            exact ⟨n, hmem, hs⟩
          simpa using hfind s hunion

/-- Every text of a list that makes equations makes one. -/
theorem compile_of_mapM {ns : List (List Char)} {es : List Equation}
    (h : ns.mapM Equation.compile = .ok es) : ∀ n ∈ ns, ∃ e, Equation.compile n = .ok e := by
  induction ns generalizing es with
  | nil =>
    intro n hn
    cases hn
  | cons m ns ih =>
    rw [List.mapM_cons, bind_eq_ok] at h
    obtain ⟨e, he, h⟩ := h
    obtain ⟨es', hes, -⟩ := bind_eq_ok.mp h
    intro n hn
    rcases List.mem_cons.mp hn with rfl | hn
    · exact ⟨e, he⟩
    · exact ih hes n hn

/-- What a system was read from, when it was accepted. -/
theorem Coupled.read_accepted {v : Value Float} {c : Coupled} {es : List Equation}
    (h : Coupled.read v = .ok c) (hc : c.outcome = .ok es) :
    ∃ items, c = Coupled.ofItems items := by
  unfold Coupled.read at h
  split at h <;> cases h
  · cases hc
  · exact ⟨_, rfl⟩
  · exact ⟨_, rfl⟩
  · exact ⟨_, rfl⟩

/-- **The names of accepted formulas.**  Whatever is read as a single equation or as a system: if
    it is accepted, each normal text has tokens, and the names among them are permitted exactly
    when they are plain and begin with none of the words that may follow a number. -/
theorem accepted_names_iff (v : Value Float) :
    (∀ e : Equation, (Single.read v).outcome = .ok e →
      ∃ ts, tokens? (Single.read v).normal = some ts ∧
        NamesChecked (fun s => Single.allowed.contains s) ts) ∧
    (∀ (c : Coupled) (es : List Equation), Coupled.read v = .ok c → c.outcome = .ok es →
      ∀ n ∈ c.normal, ∃ ts, tokens? n = some ts ∧ NamesChecked Coupled.isAllowed ts) := by
  constructor
  · intro e h
    obtain ⟨-, -, hfound, hcompile, -⟩ := Single.read_accepted h
    obtain ⟨ts, hts, hscanned⟩ := tokens_of_compile hcompile
    exact ⟨ts, hts, namesChecked_of_found (fun _ hs => plain_of_single hs) hfound hscanned⟩
  · intro c es hread h n hn
    obtain ⟨items, rfl⟩ := Coupled.read_accepted hread h
    obtain ⟨-, hfound, hcompile⟩ := Coupled.ofItems_accepted h
    obtain ⟨e, he⟩ := compile_of_mapM hcompile n hn
    obtain ⟨ts, hts, hscanned⟩ := tokens_of_compile he
    exact ⟨ts, hts, namesChecked_of_found (fun _ hs => plain_of_coupled hs) (hfound n hn) hscanned⟩

/-- Both kinds of formula are accepted and have their names checked. -/
theorem accepted_names_of_minus :
    (∃ e, (Single.read (.text "-y" : Value Float)).outcome = .ok e ∧
      ∃ ts, tokens? (Single.read (.text "-y" : Value Float)).normal = some ts ∧
        NamesChecked (fun s => Single.allowed.contains s) ts) ∧
    (∃ c es, Coupled.read (.list [.text "y2", .text "-y1"]) = .ok c ∧ c.outcome = .ok es ∧
      ∀ n ∈ c.normal, ∃ ts, tokens? n = some ts ∧ NamesChecked Coupled.isAllowed ts) := by
  constructor
  · have haccepted : (Single.read (.text "-y" : Value Float)).outcome.toOption.any
        (fun _ => true) = true := by decide +kernel
    obtain ⟨e, he, -⟩ := exists_ok haccepted
    exact ⟨e, he, (accepted_names_iff _).1 e he⟩
  · have haccepted : (Coupled.ofItems [.text "y2", .text "-y1"]).outcome.toOption.any
        (fun _ => true) = true := by decide +kernel
    obtain ⟨es, hes, -⟩ := exists_ok haccepted
    exact ⟨_, es, rfl, hes,
      (accepted_names_iff (.list [.text "y2", .text "-y1"])).2 _ es rfl hes⟩

/-- A formula that is accepted although it uses a name that is not permitted: a zero multiple of
    an accented letter, which is no plain name. -/
theorem accented_name_accepted :
    ¬ ∀ (v : Value Float) (e : Equation), (Single.read v).outcome = .ok e →
      ∀ ts, tokens? (Single.read v).normal = some ts → ∀ s, Token.name s ∈ ts →
        Permitted (fun s => Single.allowed.contains s) s := by
  intro h
  have haccepted : (Single.read (.text "é*0" : Value Float)).outcome.toOption.any
      (fun _ => true) = true := by decide +kernel
  have htokens : tokens? (Single.read (.text "é*0" : Value Float)).normal =
      some [.name "é", .mark "*", .number (.whole 0)] := by decide +kernel
  obtain ⟨e, he, -⟩ := exists_ok haccepted
  have hpermitted := h _ e he _ htokens "é" (by simp)
  have hnot : ¬ (isKnown "é" = true ∨ Single.allowed.contains "é" = true) := by decide
  exact hnot hpermitted

end InitialValue.Formula
